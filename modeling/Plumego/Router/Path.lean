/-
Module: Plumego.Router.Path
Purpose: Path arithmetic of the router: the registration helpers that join and
  canonicalise patterns, the dispatch helpers that normalise and split request
  paths, and the compilation of a pattern into segments.
Trusted boundary: none
Main exports: joinRoutePath, fastNormalizePath, splitPathToParts, compilePathSegments
-/
import Plumego.Go.Strings

namespace Plumego.Router

open Go

/-- The path separator `'/'`. -/
abbrev slash : UInt8 := 47

/-- The reserved first byte `':'` of a parameter segment. -/
abbrev colon : UInt8 := 58

/-- The reserved first byte `'*'` of a wildcard segment. -/
abbrev star : UInt8 := 42

theorem star_ne_colon : star ≠ colon := by decide

/-! ## Registration helpers -/

/-- `canonicalRoutePath`: exactly one leading slash, no trailing slash. -/
def canonicalRoutePath (path : Bytes) : Bytes :=
  let path := trimRight slash path
  if path = [] then [slash]
  else
    let path := if path.head? ≠ some slash then slash :: path else path
    let firstNonSlash := (path.takeWhile (· == slash)).length
    let path :=
      if 1 < firstNonSlash then slash :: path.drop firstNonSlash else path
    if path = [] then [slash] else path

/-- `joinRoutePath`: append a relative or absolute path to a group prefix. -/
def joinRoutePath (pre path : Bytes) : Bytes :=
  let pre := trimRight slash pre
  let path :=
    if path ≠ [] ∧ path.head? ≠ some slash then slash :: path
    else if pre ≠ [] ∧ path.head? = some slash then
      slash :: trimLeft slash path
    else path
  let path := trimRight slash path
  canonicalRoutePath (pre ++ path)

/-- `Router.fullPath`: the stored pattern of a route registered through a
router with the given prefix. -/
def fullPath (pre path : Bytes) : Bytes :=
  let full := joinRoutePath pre path
  if full = [] then [slash] else full

/-- `normalizeGroupPrefix`: the prefix of a nested group. -/
def normalizeGroupPrefix (parent child : Bytes) : Bytes :=
  let combined := joinRoutePath parent child
  if combined = [slash] then [] else combined

/-! ## Dispatch helpers -/

/-- `fastNormalizePath`: strip trailing slashes (keeping one byte) and collapse
duplicate leading slashes. -/
def fastNormalizePath : Bytes → Bytes
  | [] => [slash]
  | first :: rest =>
    -- `path[:end]` always keeps the first byte
    let body := trimRight slash rest
    if first = slash ∧ rest.head? = some slash then
      slash :: trimLeft slash body
    else first :: body

/-- `splitPathToParts`: drop one leading and one trailing slash, then split on
the separator, keeping empty parts. -/
def splitPathToParts (path : Bytes) : List Bytes :=
  if path = [] ∨ path = [slash] then []
  else
    let body := if path.head? = some slash then path.tail else path
    let body :=
      if body ≠ [] ∧ body.getLast? = some slash then body.dropLast else body
    split slash body

/-! ## Pattern segments -/

/-- A pattern segment with its type information. -/
structure Segment where
  raw : Bytes
  isParam : Bool := false
  isWild : Bool := false
  paramName : Bytes := []
deriving DecidableEq, Repr

/-- One iteration of the `compilePathSegments` loop. -/
def compileSegment (part : Bytes) : Segment :=
  if part.head? = some colon then
    { raw := part, isParam := true, paramName := part.tail }
  else if part.head? = some star then
    { raw := part, isWild := true, paramName := part.tail }
  else { raw := part }

/-- `compilePathSegments`: parse a stored pattern into segments. -/
def compilePathSegments (path : Bytes) : List Segment :=
  if path = [slash] then []
  else (split slash (trimSides slash path)).map compileSegment

@[simp] theorem compileSegment_raw (part : Bytes) :
    (compileSegment part).raw = part := by
  unfold compileSegment
  split
  · rfl
  · split <;> rfl

/-- A body of a path: no slash at either end. Canonical patterns and
normalised request paths are one slash followed by such a body. -/
def TrimmedBody (body : Bytes) : Prop :=
  body.head? ≠ some slash ∧ body.getLast? ≠ some slash

theorem trimmedBody_trim (text : Bytes) :
    TrimmedBody (trimLeft slash (trimRight slash text)) :=
  ⟨trimLeft_head_ne, fun last => trimRight_getLast_ne (trimLeft_getLast last)⟩

/-- Canonicalisation is one slash followed by the text trimmed on both
sides. -/
theorem canonicalRoutePath_eq (path : Bytes) :
    canonicalRoutePath path =
      slash :: trimLeft slash (trimRight slash path) := by
  unfold canonicalRoutePath
  generalize trimRight slash path = text
  cases text with
  | nil => simp
  | cons first rest =>
    by_cases lead : first = slash
    · subst lead
      have leading : ((slash :: rest).takeWhile (· == slash)).length =
          (rest.takeWhile (· == slash)).length + 1 := by simp
      have dropped : rest.drop (rest.takeWhile (· == slash)).length =
          trimLeft slash rest := by
        have whole := List.takeWhile_append_dropWhile (p := (· == slash)) (l := rest)
        have cut : (rest.takeWhile (· == slash) ++ rest.dropWhile (· == slash)).drop
            (rest.takeWhile (· == slash)).length = rest.dropWhile (· == slash) :=
          List.drop_left
        rw [whole] at cut
        exact cut
      have trimmed : trimLeft slash (slash :: rest) = trimLeft slash rest := by
        simp [trimLeft]
      simp only [List.head?_cons, ne_eq, not_true_eq_false, if_false,
        reduceCtorEq, leading, trimmed, List.drop_succ_cons, dropped]
      by_cases more : 1 < (rest.takeWhile (· == slash)).length + 1
      · simp [more]
      · have none : rest.takeWhile (· == slash) = [] := by
          apply List.eq_nil_of_length_eq_zero
          omega
        rw [none] at dropped
        simp only [List.length_nil, List.drop_zero] at dropped
        simp [more, ← dropped]
    · simp [lead, trimLeft]

/-- Every stored pattern is one slash followed by a trimmed body. -/
theorem fullPath_shape (pre path : Bytes) :
    ∃ body, TrimmedBody body ∧ fullPath pre path = slash :: body := by
  have nonempty : joinRoutePath pre path ≠ [] := by
    unfold joinRoutePath
    rw [canonicalRoutePath_eq]
    simp
  unfold fullPath
  rw [if_neg nonempty]
  unfold joinRoutePath
  rw [canonicalRoutePath_eq]
  exact ⟨_, trimmedBody_trim _, rfl⟩

theorem trimSides_of_trimmedBody {body : Bytes} (trimmed : TrimmedBody body) :
    trimSides slash (slash :: body) = body := by
  have left : trimLeft slash (slash :: body) = body := by
    have skip : trimLeft slash (slash :: body) = trimLeft slash body := by
      simp [trimLeft]
    rw [skip, trimLeft_eq_self trimmed.1]
  rw [trimSides, left, trimRight_eq_self trimmed.2]

/-- The segments of a stored pattern spell its body. -/
theorem compilePathSegments_body {body : Bytes} (trimmed : TrimmedBody body)
    (nonempty : body ≠ []) :
    compilePathSegments (slash :: body) =
      (split slash body).map compileSegment := by
  unfold compilePathSegments
  rw [if_neg (by simpa using nonempty), trimSides_of_trimmedBody trimmed]

/-- Normalising an absolute request path gives one slash and a trimmed
body. -/
theorem fastNormalizePath_shape {path : Bytes}
    (absolute : path.head? = some slash) :
    ∃ body, TrimmedBody body ∧ fastNormalizePath path = slash :: body := by
  cases path with
  | nil => simp at absolute
  | cons first rest =>
    have lead : first = slash := by simpa using absolute
    subst lead
    by_cases double : rest.head? = some slash
    · exact ⟨_, trimmedBody_trim rest, by simp [fastNormalizePath, double]⟩
    · refine ⟨trimRight slash rest, ⟨?_, trimRight_getLast_ne⟩, ?_⟩
      · exact fun head => double (trimRight_head head)
      · simp [fastNormalizePath, double]

/-- The parts of a normalised path are the split of its body. -/
theorem splitPathToParts_body {body : Bytes} (trimmed : TrimmedBody body) :
    splitPathToParts (slash :: body) =
      if body = [] then [] else split slash body := by
  unfold splitPathToParts
  by_cases empty : body = []
  · simp [empty]
  · have keep : ¬ (body ≠ [] ∧ body.getLast? = some slash) :=
      fun both => trimmed.2 both.2
    rw [if_neg (by simpa using empty), if_neg empty]
    simp only [List.head?_cons, if_true, List.tail_cons, if_neg keep]

/-- Rejoining the parts of a normalised path recovers its body. -/
theorem join_splitPathToParts {body : Bytes} (trimmed : TrimmedBody body) :
    join slash (splitPathToParts (slash :: body)) = body := by
  rw [splitPathToParts_body trimmed]
  by_cases empty : body = []
  · simp [empty]
  · simp [empty]

end Plumego.Router
