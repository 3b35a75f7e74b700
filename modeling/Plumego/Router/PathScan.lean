/-
Module: Plumego.Router.PathScan
Purpose: The slash scanners of dispatch as the source writes them, index by
  index, and their agreement with the list functions and with the registration
  side: both see the same normal form and the same segments.
Trusted boundary: none
Main exports: fastNormalizePathScan_eq, splitPathToPartsScan_eq, normalisation_agrees
-/
import Plumego.Router.Path

namespace Plumego.Router

open Go

/-! ## The scanners -/

/-- The slice `path[start:stop]`. -/
def slice (path : Bytes) (start stop : Nat) : Bytes :=
  (path.take stop).drop start

/-- `for end > 1 && path[end-1] == '/' { end-- }`. -/
def endLoop (path : Bytes) : Nat → Nat
  | 0 => 0
  | last + 1 =>
    if 0 < last ∧ path[last]? = some slash then endLoop path last else last + 1

/-- `for start < end && path[start] == '/' { start++ }`. -/
def startLoop (path : Bytes) (stop start : Nat) : Nat :=
  if start < stop ∧ path[start]? = some slash then
    startLoop path stop (start + 1)
  else start
termination_by stop - start

/-- `fastNormalizePath` with its two index loops. -/
def fastNormalizePathScan (path : Bytes) : Bytes :=
  if path.length = 0 then [slash]
  else
    let stop := endLoop path path.length
    if 2 ≤ path.length ∧ path[0]? = some slash ∧ path[1]? = some slash then
      let start := startLoop path stop 1
      if stop ≤ start then [slash] else slice path (start - 1) stop
    else if stop = path.length then path
    else slice path 0 stop

/-- The loop of `splitPathToParts`; `start` is where the open part begins. -/
def splitLoop (path : Bytes) (stop start index : Nat) (parts : List Bytes) :
    List Bytes :=
  if index < stop then
    if path[index]? = some slash then
      splitLoop path stop (index + 1) (index + 1)
        (parts ++ [slice path start index])
    else splitLoop path stop start (index + 1) parts
  else if start ≤ stop then parts ++ [slice path start stop]
  else parts
termination_by stop - index

/-- `splitPathToParts` with its index loop. -/
def splitPathToPartsScan (path : Bytes) : List Bytes :=
  if path = [] ∨ path = [slash] then []
  else
    let start := if path[0]? = some slash then 1 else 0
    let stop :=
      if start < path.length ∧ path[path.length - 1]? = some slash then
        path.length - 1
      else path.length
    splitLoop path stop start start []

/-! ## What the loops compute -/

theorem trimRight_concat_cut (cut : UInt8) (text : Bytes) :
    trimRight cut (text ++ [cut]) = trimRight cut text := by
  unfold trimRight
  rw [List.rdropWhile_concat_pos]
  simp

/-- The end loop strips the trailing slashes behind the first byte. -/
theorem take_endLoop (first : UInt8) (rest : Bytes) :
    ∀ count, count ≤ rest.length →
      (first :: rest).take (endLoop (first :: rest) (count + 1)) =
        first :: trimRight slash (rest.take count)
  | 0, _ => by simp [endLoop]
  | count + 1, bound => by
      have inside : count < rest.length := bound
      have last : rest.take (count + 1) = rest.take count ++ [rest[count]] :=
        List.take_succ_eq_append_getElem inside
      rw [endLoop]
      by_cases isSlash : rest[count] = slash
      · have guard : 0 < count + 1 ∧
            (first :: rest)[count + 1]? = some slash := by
          simp [inside, isSlash]
        rw [if_pos guard, take_endLoop first rest count (by omega), last, isSlash,
          trimRight_concat_cut]
      · have guard : ¬ (0 < count + 1 ∧
            (first :: rest)[count + 1]? = some slash) := by
          simp [inside, isSlash]
        have kept : trimRight slash (rest.take (count + 1)) =
            rest.take (count + 1) := by
          apply trimRight_eq_self
          rw [last, List.getLast?_concat]
          simpa using isSlash
        rw [if_neg guard, kept, List.take_succ_cons]

theorem slice_cons {path : Bytes} {start stop : Nat} {byte : UInt8}
    (inside : start < stop) (here : path[start]? = some byte) :
    slice path start stop = byte :: slice path (start + 1) stop := by
  obtain ⟨bound, getEq⟩ := List.getElem?_eq_some_iff.mp here
  have taken : start < (path.take stop).length := by
    rw [List.length_take]
    omega
  unfold slice
  rw [List.drop_eq_getElem_cons taken, List.getElem_take, getEq]

theorem slice_self (path : Bytes) {start stop : Nat} (outside : stop ≤ start) :
    slice path start stop = [] := by
  unfold slice
  apply List.drop_eq_nil_of_le
  rw [List.length_take]
  omega

/-- A slice is cut at any index in between. -/
theorem slice_append (path : Bytes) {start middle stop : Nat}
    (lower : start ≤ middle) (upper : middle ≤ stop) (bound : stop ≤ path.length) :
    slice path start stop = slice path start middle ++ slice path middle stop := by
  have cut := List.take_append_drop middle (path.take stop)
  rw [List.take_take, Nat.min_eq_left upper] at cut
  unfold slice
  rw [← cut, List.drop_append_of_le_length, cut]
  rw [List.length_take]
  omega

theorem split_of_free {text : Bytes} (free : slash ∉ text) :
    split slash text = [text] := by
  have whole : split slash (join slash [text]) = [text] :=
    split_join (by simpa using free) (by simp)
  rwa [join_singleton] at whole

/-- The start loop strips the leading slashes of the slice, and the byte before
its result is a slash. -/
theorem slice_startLoop (path : Bytes) (stop start : Nat)
    (bound : stop ≤ path.length) :
    slice path (startLoop path stop start) stop =
        trimLeft slash (slice path start stop) ∧
      start ≤ startLoop path stop start ∧
      ∀ index, start ≤ index → index < startLoop path stop start →
        path[index]? = some slash := by
  fun_induction startLoop path stop start with
  | case1 start guard ih =>
    obtain ⟨sliceEq, order, slashes⟩ := ih
    refine ⟨?_, by omega, ?_⟩
    · rw [sliceEq, slice_cons guard.1 guard.2]
      simp [trimLeft]
    · intro index lower upper
      rcases Nat.eq_or_lt_of_le lower with rfl | later
      · exact guard.2
      · exact slashes index later upper
  | case2 start guard =>
    refine ⟨?_, Nat.le_refl start, fun index lower upper => by omega⟩
    symm
    apply trimLeft_eq_self
    by_cases inside : start < stop
    · have here : start < path.length := by omega
      rw [slice_cons inside (List.getElem?_eq_getElem here)]
      intro head
      apply guard
      exact ⟨inside, by rw [List.getElem?_eq_getElem here]; exact head⟩
    · rw [slice_self path (by omega)]
      simp

theorem endLoop_le (path : Bytes) : ∀ stop, endLoop path stop ≤ stop
  | 0 => by simp [endLoop]
  | last + 1 => by
      rw [endLoop]
      split
      · exact (endLoop_le path last).trans (Nat.le_succ last)
      · exact Nat.le_refl _

theorem endLoop_pos (path : Bytes) : ∀ last, 0 < endLoop path (last + 1)
  | 0 => by simp [endLoop]
  | last + 1 => by
      rw [endLoop]
      split
      · exact endLoop_pos path last
      · exact Nat.succ_pos _

/-- The index scanner computes the list function. -/
theorem fastNormalizePathScan_eq (path : Bytes) :
    fastNormalizePathScan path = fastNormalizePath path := by
  cases path with
  | nil => rfl
  | cons first rest =>
    have taken := take_endLoop first rest rest.length (Nat.le_refl _)
    rw [List.take_length] at taken
    have stopBound : endLoop (first :: rest) (rest.length + 1) ≤ rest.length + 1 :=
      endLoop_le _ _
    have stopPositive := endLoop_pos (first :: rest) rest.length
    unfold fastNormalizePathScan fastNormalizePath
    rw [if_neg (by simp)]
    dsimp only [List.length_cons]
    generalize endLoop (first :: rest) (rest.length + 1) = stop at *
    have guardIff : (2 ≤ rest.length + 1 ∧ (first :: rest)[0]? = some slash ∧
        (first :: rest)[1]? = some slash) ↔
        first = slash ∧ rest.head? = some slash := by
      cases rest with
      | nil => simp
      | cons second rest => simp
    by_cases double : first = slash ∧ rest.head? = some slash
    · rw [if_pos (guardIff.mpr double), if_pos double]
      obtain ⟨sliceEq, order, slashes⟩ :=
        slice_startLoop (first :: rest) stop 1 stopBound
      have behind : slice (first :: rest) 1 stop = trimRight slash rest := by
        unfold slice
        rw [taken]
        rfl
      rw [behind] at sliceEq
      generalize startLoop (first :: rest) stop 1 = start at *
      by_cases outside : stop ≤ start
      · rw [slice_self _ outside] at sliceEq
        rw [if_pos outside, ← sliceEq]
      · -- the byte before the start is the leading slash or one the loop skipped
        have before : (first :: rest)[start - 1]? = some slash := by
          rcases Nat.eq_or_lt_of_le order with here | later
          · simp [← here, double.1]
          · exact slashes (start - 1) (by omega) (by omega)
        rw [if_neg outside, slice_cons (by omega) before, ← sliceEq,
          Nat.sub_add_cancel order]
    · rw [if_neg (fun guard => double (guardIff.mp guard)), if_neg double]
      by_cases full : stop = rest.length + 1
      · rw [if_pos full, ← taken, full]
        exact (List.take_length (l := first :: rest)).symm
      · rw [if_neg full]
        exact taken

/-- The split loop appends the split of the slice that is still open. -/
theorem splitLoop_eq (path : Bytes) (stop start index : Nat) (parts : List Bytes)
    (order : start ≤ index) (within : index ≤ stop) (bound : stop ≤ path.length)
    (free : slash ∉ slice path start index) :
    splitLoop path stop start index parts =
      parts ++ split slash (slice path start stop) := by
  fun_induction splitLoop path stop start index parts with
  | case1 start index parts inside isSlash ih =>
    have cut := slice_append path order (Nat.le_of_lt inside) bound
    rw [slice_cons inside isSlash] at cut
    have parted : split slash (slice path start stop) =
        [slice path start index] ++ split slash (slice path (index + 1) stop) := by
      rw [cut, ← split_of_free free]
      exact List.splitOn_append_cons_self _ _
    rw [ih (Nat.le_refl _) inside (by simp [slice_self]), parted,
      List.append_assoc]
  | case2 start index parts inside other ih =>
    have here : index < path.length := by omega
    apply ih (by omega) inside
    rw [slice_append path order (Nat.le_succ index) here,
      slice_cons (Nat.lt_succ_self index) (List.getElem?_eq_getElem here),
      slice_self path (Nat.le_refl _), List.mem_append, List.mem_singleton]
    rintro (early | last)
    · exact free early
    · exact other (by rw [List.getElem?_eq_getElem here, ← last])
  | case3 start index parts finished opened =>
    have whole : index = stop := by omega
    rw [whole] at free
    rw [split_of_free free]
  | case4 start index parts finished closed => omega

/-- Dropping the last byte of a tail is slicing one byte earlier. -/
theorem slice_dropLast (path : Bytes) (start : Nat) :
    slice path start (path.length - 1) = (path.drop start).dropLast := by
  rw [slice, List.drop_take, List.dropLast_eq_take, List.length_drop]
  congr 1
  omega

/-- The index scanner computes the list function. -/
theorem splitPathToPartsScan_eq (path : Bytes) :
    splitPathToPartsScan path = splitPathToParts path := by
  unfold splitPathToPartsScan splitPathToParts
  by_cases root : path = [] ∨ path = [slash]
  · rw [if_pos root, if_pos root]
  · rw [if_neg root, if_neg root]
    have positive : 0 < path.length := by
      apply List.length_pos_iff.mpr
      exact fun empty => root (.inl empty)
    have bodyEq : (if path.head? = some slash then path.tail else path) =
        path.drop (if path[0]? = some slash then 1 else 0) := by
      rw [List.head?_eq_getElem?]
      split
      · exact List.drop_one.symm
      · rfl
    have startBound : (if path[0]? = some slash then 1 else 0) ≤ path.length := by
      split
      · exact positive
      · exact Nat.zero_le _
    rw [bodyEq]
    generalize (if path[0]? = some slash then 1 else 0) = start at startBound ⊢
    dsimp only
    have guardIff : (start < path.length ∧ path[path.length - 1]? = some slash) ↔
        (path.drop start ≠ [] ∧ (path.drop start).getLast? = some slash) := by
      rw [ne_eq, List.drop_eq_nil_iff, Nat.not_le]
      apply and_congr_right
      intro inside
      rw [List.getLast?_drop, if_neg (by omega), List.getLast?_eq_getElem?]
    by_cases closed : start < path.length ∧ path[path.length - 1]? = some slash
    · rw [if_pos closed, if_pos (guardIff.mp closed), ← slice_dropLast]
      exact splitLoop_eq path _ start start [] (Nat.le_refl _)
        (Nat.le_sub_one_of_lt closed.1) (Nat.sub_le _ _) (by simp [slice_self])
    · rw [if_neg closed, if_neg (fun guard => closed (guardIff.mpr guard))]
      have whole : slice path start path.length = path.drop start := by
        rw [slice, List.take_length]
      rw [← whole]
      exact splitLoop_eq path _ start start [] (Nat.le_refl _) startBound
        (Nat.le_refl _) (by simp [slice_self])

/-! ## Registration and dispatch agree -/

/-- A leading slash does not change what is left after trimming both sides. -/
theorem trim_slash_cons (rest : Bytes) :
    trimLeft slash (trimRight slash (slash :: rest)) =
      trimLeft slash (trimRight slash rest) := by
  have trimmed : trimRight slash (slash :: rest) =
      if trimRight slash rest = [] then [] else slash :: trimRight slash rest := by
    simp only [trimRight, List.rdropWhile, List.reverse_cons, List.dropWhile_append,
      List.isEmpty_iff, List.reverse_eq_nil_iff]
    split
    · simp
    · simp
  rw [trimmed]
  split
  case isTrue empty => rw [empty]
  case isFalse nonempty => simp [trimLeft]

/-- Normalising an absolute path trims its slashes on both sides and puts one
back, which is what canonicalising does. -/
theorem fastNormalizePath_eq_canonicalRoutePath {path : Bytes}
    (absolute : path.head? = some slash) :
    fastNormalizePath path = canonicalRoutePath path := by
  cases path with
  | nil => simp at absolute
  | cons first rest =>
    have lead : first = slash := by simpa using absolute
    subst lead
    rw [canonicalRoutePath_eq, trim_slash_cons]
    by_cases double : rest.head? = some slash
    · simp [fastNormalizePath, double]
    · have kept : trimLeft slash (trimRight slash rest) = trimRight slash rest :=
        trimLeft_eq_self fun head => double (trimRight_head head)
      simp [fastNormalizePath, double, kept]

/-- A slash and a trimmed body is a fixed point of canonicalisation. -/
theorem canonicalRoutePath_fixed {body : Bytes} (trimmed : TrimmedBody body) :
    canonicalRoutePath (slash :: body) = slash :: body := by
  rw [canonicalRoutePath_eq, trim_slash_cons, trimRight_eq_self trimmed.2,
    trimLeft_eq_self trimmed.1]

/-- On the root no part is split off; on any other trimmed body dispatch and
registration cut the same texts. -/
theorem splitPathToParts_eq_segments {body : Bytes} (trimmed : TrimmedBody body)
    (nonempty : body ≠ []) :
    splitPathToParts (slash :: body) =
      (compilePathSegments (slash :: body)).map (·.raw) := by
  have raws : (fun part => (compileSegment part).raw) = id := by
    funext part
    exact compileSegment_raw part
  rw [splitPathToParts_body trimmed, if_neg nonempty,
    compilePathSegments_body trimmed nonempty, List.map_map]
  simp only [Function.comp_def, raws, List.map_id]

/-- The normal form of an absolute path is the same at registration and at
dispatch, it is a fixed point of both, and off the root the dispatch splitter
sees exactly the raw segments that registration compiles. -/
theorem normalisation_agrees (path : Bytes) (absolute : path.head? = some slash) :
    fastNormalizePathScan path = canonicalRoutePath path ∧
      fastNormalizePathScan (fastNormalizePathScan path) =
        fastNormalizePathScan path ∧
      canonicalRoutePath (fastNormalizePathScan path) =
        fastNormalizePathScan path ∧
      (fastNormalizePathScan path ≠ [slash] →
        splitPathToPartsScan (fastNormalizePathScan path) =
          (compilePathSegments (fastNormalizePathScan path)).map (·.raw)) := by
  obtain ⟨body, trimmed, shape⟩ := fastNormalizePath_shape absolute
  have fixed := canonicalRoutePath_fixed trimmed
  rw [fastNormalizePathScan_eq, shape]
  refine ⟨?_, ?_, fixed, ?_⟩
  · rw [← shape]
    exact fastNormalizePath_eq_canonicalRoutePath absolute
  · rw [fastNormalizePathScan_eq,
      fastNormalizePath_eq_canonicalRoutePath List.head?_cons, fixed]
  · intro offRoot
    rw [splitPathToPartsScan_eq]
    exact splitPathToParts_eq_segments trimmed (by simpa using offRoot)

/-- Runs of slashes at both ends and inside a path. -/
theorem normalisation_agrees_sample :
    (ascii "//a//:b//").head? = some slash ∧
      fastNormalizePathScan (ascii "//a//:b//") =
        canonicalRoutePath (ascii "//a//:b//") :=
  ⟨by decide, (normalisation_agrees (ascii "//a//:b//") (by decide)).1⟩

end Plumego.Router
