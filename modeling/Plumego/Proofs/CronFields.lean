/-
Module: Plumego.Proofs.CronFields
Purpose: What the parts of a cron field denote, and when the parser of a field ends and gives exactly these
  values, in order: the loop over the values of a part must not step beyond 64 bits.
Trusted boundary: as for the cron fields.
Main exports: Denotes, Covers, StepsFit, Exact, denotes_iff, forValues_spec, parse_field_exact
-/
import Mathlib.Algebra.Ring.Divisibility.Basic
import Mathlib.Data.Int.GCD
import Plumego.Proofs.CronNext
import Plumego.Scheduler.CronFields

namespace Plumego.Scheduler

open Plumego.Go

variable {min max : Int}

/-! ## What a part denotes -/

/-- A range as it is written: nothing or a star for all values, one number, or two with a dash. -/
inductive Names (min max : Int) : Bytes → Int → Int → Prop
  | nothing : Names min max [] min max
  | star : Names min max (ascii "*") min max
  | one {text : Bytes} {value : Int} (noDash : 0x2d ∉ text) (number : parseInt64 text = some value) :
      Names min max text value value
  | span {first last : Bytes} {start stop : Int} (noDash : 0x2d ∉ first) (noOther : 0x2d ∉ last)
      (lower : parseInt64 first = some start) (upper : parseInt64 last = some stop) :
      Names min max (first ++ 0x2d :: last) start stop

/-- A part as it is written: a range, or a range and a positive step with a slash between them. -/
inductive Denotes (min max : Int) : Bytes → Int → Int → Int → Prop
  | plain {text : Bytes} {start stop : Int} (nonempty : text ≠ []) (noSlash : 0x2f ∉ text)
      (range : Names min max text start stop) : Denotes min max text start stop 1
  | stepped {front stepText : Bytes} {start stop step : Int} (noSlash : 0x2f ∉ front)
      (noOther : 0x2f ∉ stepText) (number : parseInt64 stepText = some step) (positive : 0 < step)
      (range : Names min max front start stop) :
      Denotes min max (front ++ 0x2f :: stepText) start stop step

/-- A part, without the white space around it, denotes a value. -/
def Covers (part : Bytes) (min max value : Int) : Prop :=
  ∃ start stop step, Denotes min max (trimSpace part) start stop step ∧ start ≤ value ∧ value ≤ stop ∧
    step ∣ value - start

/-- A part denotes a range within the bounds, for which something holds. -/
def Reads (part : Bytes) (min max : Int) (holds : Int → Int → Int → Prop) : Prop :=
  ∃ start stop step, Denotes min max (trimSpace part) start stop step ∧
    (min ≤ start ∧ stop ≤ max ∧ start ≤ stop) ∧ holds start stop step

/-- The first value behind `stop`, in steps from `start`. -/
def beyond (start stop step : Int) : Int := stop - (stop - start) % step + step

/-- If the parser refuses no part, then no part steps beyond 64 bits. If it refuses one, then the loop of
every part before it ends: it goes through all values that differ by multiples of the largest
power of two in the step, and one of them is behind the last. For all values of a star a slice
can be made, and a value follows. -/
structure StepsFit (field : Bytes) (min max : Int) : Prop where
  parts : field ≠ ascii "*" →
    (∀ part ∈ split 0x2c field, Reads part min max fun start stop step => beyond start stop step < 2 ^ 63) ∨
    ∃ before refused behind, split 0x2c field = before ++ refused :: behind ∧
      (∀ part ∈ before, Reads part min max fun start stop step =>
        beyond start stop (Int.gcd step (2 ^ 64)) < 2 ^ 63) ∧
      ¬ Reads refused min max fun _ _ _ => True
  all : field = ascii "*" → canMake 8 (max - min + 1) = true ∧ max + 1 < 2 ^ 63

/-- The parser returns, and what it returns without an error is the strictly increasing list of the
values between the bounds that some part denotes. -/
def Exact (field : Bytes) (min max : Int) : Prop :=
  ∃ enough result, (∀ rounds, enough < rounds → parseCronFieldWithin rounds field min max = some result) ∧
    ∀ values, result = .ok values → values.Pairwise (· < ·) ∧
      ∀ value, value ∈ values ↔
        min ≤ value ∧ value ≤ max ∧ ∃ part ∈ split 0x2c field, Covers part min max value

/-! ## The parser of a part -/

theorem partBounds_iff {text : Bytes} {start stop : Int} :
    partBounds text min max = .ok (start, stop) ↔ Names min max text start stop := by
  have dash : ascii "-" = [0x2d] := rfl
  constructor
  · intro bounds
    unfold partBounds at bounds
    split at bounds
    · rename_i all
      cases bounds
      rcases all with rfl | rfl
      · exact .nothing
      · exact .star
    · split at bounds
      · split at bounds
        · rename_i first last splitEq
          obtain ⟨rfl, noDash, noOther⟩ := split_eq_pair.mp splitEq
          split at bounds
          · cases bounds
          · rename_i lower
            split at bounds
            · cases bounds
            · rename_i upper
              cases bounds
              exact .span noDash noOther lower upper
        · cases bounds
      · rename_i absent
        rw [dash, contains_byte] at absent
        split at bounds
        · cases bounds
        · rename_i number
          cases bounds
          exact .one absent number
  · intro names
    unfold partBounds
    cases names with
    | nothing => rw [if_pos (.inl rfl)]
    | star => rw [if_pos (.inr rfl)]
    | one noDash number =>
      have some_ : ¬ (text = [] ∨ text = ascii "*") := by
        rintro (rfl | rfl)
        · cases number
        · have none_ : parseInt64 (ascii "*") = none := by decide
          rw [none_] at number
          cases number
      rw [if_neg some_, dash, if_neg (fun inside => noDash (contains_byte.mp inside)), number]
    | @span first last _ _ noDash noOther lower upper =>
      have inside : 0x2d ∈ first ++ 0x2d :: last := List.mem_append_right _ List.mem_cons_self
      have some_ : ¬ (first ++ 0x2d :: last = [] ∨ first ++ 0x2d :: last = ascii "*") := by
        rintro (none_ | isStar)
        · rw [none_] at inside
          cases inside
        · rw [isStar] at inside
          revert inside
          decide
      rw [if_neg some_, dash, if_pos (contains_byte.mpr inside), split_eq_pair.mpr ⟨rfl, noDash, noOther⟩]
      dsimp only
      rw [lower]
      dsimp only
      rw [upper]

theorem denotes_iff {text : Bytes} {start stop step : Int} :
    Denotes min max text start stop step ↔
      text ≠ [] ∧ ∃ front, splitStep text = .ok (front, step) ∧
        partBounds front min max = .ok (start, stop) := by
  have slash : ascii "/" = [0x2f] := rfl
  constructor
  · intro denotes
    unfold splitStep
    cases denotes with
    | plain nonempty noSlash range =>
      refine ⟨nonempty, text, ?_, partBounds_iff.mpr range⟩
      rw [slash, if_neg (fun inside => noSlash (contains_byte.mp inside))]
    | @stepped front stepText _ _ _ noSlash noOther number positive range =>
      refine ⟨List.append_ne_nil_of_right_ne_nil _ (List.cons_ne_nil _ _), front, ?_,
        partBounds_iff.mpr range⟩
      have inside : 0x2f ∈ front ++ 0x2f :: stepText := List.mem_append_right _ List.mem_cons_self
      rw [slash, if_pos (contains_byte.mpr inside), split_eq_pair.mpr ⟨rfl, noSlash, noOther⟩]
      dsimp only
      rw [number]
      dsimp only
      rw [if_neg (by omega)]
  · rintro ⟨nonempty, front, stepEq, bounds⟩
    have range := partBounds_iff.mp bounds
    unfold splitStep at stepEq
    split at stepEq
    · split at stepEq
      · rename_i first stepText splitEq
        obtain ⟨rfl, noSlash, noOther⟩ := split_eq_pair.mp splitEq
        split at stepEq
        · cases stepEq
        · rename_i number
          split at stepEq
          · cases stepEq
          · cases stepEq
            exact .stepped noSlash noOther number (by omega) range
      · cases stepEq
    · rename_i absent
      rw [slash, contains_byte] at absent
      cases stepEq
      exact .plain nonempty absent range

/-- A part denotes one range. -/
theorem Denotes.unique {text : Bytes} {start stop step first last stride : Int}
    (one : Denotes min max text start stop step) (other : Denotes min max text first last stride) :
    first = start ∧ last = stop ∧ stride = step := by
  obtain ⟨-, front, stepEq, bounds⟩ := denotes_iff.mp one
  obtain ⟨-, front', stepEq', bounds'⟩ := denotes_iff.mp other
  rw [stepEq] at stepEq'
  cases stepEq'
  rw [bounds] at bounds'
  cases bounds'
  exact ⟨rfl, rfl, rfl⟩

theorem inInt64_of_parseInt64 {text : Bytes} {value : Int} (parsed : parseInt64 text = some value) :
    InInt64 value := by
  unfold parseInt64 at parsed
  split at parsed
  split at parsed
  · cases parsed
  · obtain ⟨inside, same⟩ := Option.ite_none_right_eq_some.mp parsed
    rw [Option.some.inj same] at inside
    exact inside

theorem Denotes.step {text : Bytes} {start stop step : Int} (denotes : Denotes min max text start stop step) :
    0 < step ∧ step < 2 ^ 63 := by
  cases denotes with
  | plain => decide
  | stepped _ _ number positive => exact ⟨positive, (inInt64_of_parseInt64 number).2⟩

theorem partRange_iff {part : Bytes} {start stop step : Int} :
    partRange part min max = .ok (start, stop, step) ↔
      Denotes min max (trimSpace part) start stop step ∧ min ≤ start ∧ stop ≤ max ∧ start ≤ stop := by
  rw [partRange_eq_ok, denotes_iff]

/-- A part that denotes a range within the bounds is looped over. -/
theorem parsePart_of_denotes {part : Bytes} {start stop step : Int}
    (denotes : Denotes min max (trimSpace part) start stop step)
    (bounds : min ≤ start ∧ stop ≤ max ∧ start ≤ stop) (rounds : Nat) :
    parsePartWithin rounds part min max = (forValues stop step rounds start).map .ok := by
  rw [parsePartWithin, partRange_iff.mpr ⟨denotes, bounds⟩]

/-- Any other part is refused. -/
theorem parsePart_of_refused {part : Bytes} (refused : ¬ Reads part min max fun _ _ _ => True) :
    ∃ failure, ∀ rounds, parsePartWithin rounds part min max = some (.error failure) := by
  unfold parsePartWithin
  cases ranges : partRange part min max with
  | error failure => exact ⟨failure, fun _ => rfl⟩
  | ok found =>
    obtain ⟨denotes, bounds⟩ := partRange_iff.mp ranges
    exact absurd ⟨_, _, _, denotes, bounds, trivial⟩ refused

/-! ## The loop -/

theorem forValues_succ {last step v : Int} {rounds : Nat} (within : v ≤ last) :
    forValues last step (rounds + 1) v = (forValues last step rounds (wrapInt64 (v + step))).map (v :: ·) :=
  if_pos within

theorem forValues_behind {last step v : Int} {rounds : Nat} (behind : last < v) (more : 0 < rounds) :
    forValues last step rounds v = some [] := by
  obtain ⟨rounds, rfl⟩ := Nat.exists_eq_succ_of_ne_zero more.ne'
  exact if_neg (Int.not_le.mpr behind)

theorem beyond_add (start stop step : Int) : beyond (start + step) stop step = beyond start stop step := by
  rw [beyond, beyond, ← Int.sub_sub, Int.sub_emod_right]

theorem beyond_last {start stop step : Int} (within : start ≤ stop) (last : stop < start + step) :
    beyond start stop step = start + step := by
  rw [beyond, Int.emod_eq_of_lt (by omega) (by omega)]
  omega

theorem forValues_spec {stop step : Int} (positive : 0 < step) (size : Nat) {start : Int}
    (measured : (stop + 1 - start).toNat ≤ size) (lower : -2 ^ 63 ≤ start)
    (fits : start ≤ stop → beyond start stop step < 2 ^ 63) :
    ∃ values, (∀ rounds, size < rounds → forValues stop step rounds start = some values) ∧
      values.Pairwise (· < ·) ∧
      ∀ value, value ∈ values ↔ start ≤ value ∧ value ≤ stop ∧ step ∣ value - start := by
  have nothing : ∀ (size : Nat) {start : Int}, stop < start → ∃ values, (∀ rounds, size < rounds →
      forValues stop step rounds start = some values) ∧ values.Pairwise (· < ·) ∧
      ∀ value, value ∈ values ↔ start ≤ value ∧ value ≤ stop ∧ step ∣ value - start := by
    intro size start behind
    refine ⟨[], fun rounds more => forValues_behind behind (by omega), List.Pairwise.nil, fun value => ?_⟩
    simp only [List.not_mem_nil, false_iff, not_and]
    intro _ _
    omega
  induction size generalizing start with
  | zero => exact nothing 0 (by omega)
  | succ size ih =>
    by_cases within : start ≤ stop
    · have rest := fits within
      have small : (stop - start) % step ≤ stop - start := by
        have quotient := Int.mul_nonneg (Int.le_of_lt positive)
          (Int.ediv_nonneg (Int.sub_nonneg.mpr within) (Int.le_of_lt positive))
        rw [Int.emod_def]
        omega
      rw [beyond] at rest
      have noWrap : wrapInt64 (start + step) = start + step :=
        wrapInt64_of_inInt64 ⟨by omega, by omega⟩
      have fewer : (stop + 1 - (start + step)).toNat ≤ size := by omega
      obtain ⟨values, loops, sorted, exactly⟩ :=
        ih fewer (by omega) fun _ => by rw [beyond_add]; exact rest
      refine ⟨start :: values, fun rounds more => ?_, ?_, fun value => ?_⟩
      · obtain ⟨rounds, rfl⟩ := Nat.exists_eq_succ_of_ne_zero (Nat.ne_zero_of_lt more)
        rw [forValues, if_pos within, noWrap, loops rounds (by omega)]
        rfl
      · refine List.pairwise_cons.mpr ⟨fun value member => ?_, sorted⟩
        have above := ((exactly value).mp member).1
        omega
      · have shifted : step ∣ value - (start + step) ↔ step ∣ value - start := by
          rw [← Int.sub_sub]
          exact dvd_sub_self_right
        rw [List.mem_cons, exactly, shifted]
        constructor
        · rintro (rfl | ⟨above, below, divides⟩)
          · exact ⟨Int.le_refl value, within, by rw [Int.sub_self]; exact Int.dvd_zero step⟩
          · exact ⟨by omega, below, divides⟩
        · rintro ⟨above, below, divides⟩
          by_cases first : value = start
          · exact .inl first
          · have least := Int.le_of_dvd (by omega) divides
            exact .inr ⟨by omega, below, divides⟩
    · exact nothing (size + 1) (by omega)

/-- A loop that steps beyond 64 bits goes on from far below. -/
theorem forValues_wraps (low : Int) {stop step : Int} (stepRange : 0 < step ∧ step < 2 ^ 63) (stopRange : stop < 2 ^ 63)
    (far : stop - 2 ^ 63 ≤ low) {rounds : Nat} {start : Int} {values : List Int} (lower : -2 ^ 63 ≤ start)
    (within : start ≤ stop) (steps : 2 ^ 63 ≤ beyond start stop step)
    (ended : forValues stop step rounds start = some values) : ∃ value ∈ values, value < low := by
  induction rounds generalizing start values with
  | zero => cases ended
  | succ rounds ih =>
    rw [forValues_succ within] at ended
    obtain ⟨rest, endedRest, rfl⟩ := Option.map_eq_some_iff.mp ended
    by_cases wraps : start + step < 2 ^ 63
    · have noWrap : wrapInt64 (start + step) = start + step := wrapInt64_of_inInt64 ⟨by omega, wraps⟩
      have more : start + step ≤ stop := by
        by_contra last
        rw [beyond_last within (by omega)] at steps
        omega
      rw [noWrap] at endedRest
      obtain ⟨value, member, below⟩ := ih (by omega) more
        (by rw [beyond_add]; exact steps) endedRest
      exact ⟨value, List.mem_cons_of_mem start member, below⟩
    · have wrapped : wrapInt64 (start + step) = start + step - 2 ^ 64 :=
        wrapInt64_eq ⟨by omega, by omega⟩ ⟨1, by omega⟩
      rw [wrapped] at endedRest
      cases rounds with
      | zero => cases endedRest
      | succ rounds =>
        rw [forValues_succ (by omega)] at endedRest
        obtain ⟨_, -, rfl⟩ := Option.map_eq_some_iff.mp endedRest
        exact ⟨_, List.mem_cons_of_mem start List.mem_cons_self, by omega⟩

/-- A loop ends that gets behind its last value, however often it has stepped beyond 64 bits. -/
theorem forValues_ends {stop step : Int} (turns : Nat) {v : Int} (range : InInt64 v)
    (behind : stop < wrapInt64 (v + turns * step)) :
    ∃ values, ∀ rounds, turns < rounds → forValues stop step rounds v = some values := by
  induction turns generalizing v with
  | zero =>
    rw [Int.natCast_zero, Int.zero_mul, Int.add_zero, wrapInt64_of_inInt64 range] at behind
    exact ⟨[], fun rounds more => forValues_behind behind more⟩
  | succ turns ih =>
    have onward : wrapInt64 (wrapInt64 (v + step) + turns * step) = wrapInt64 (v + (turns + 1 : Nat) * step) := by
      obtain ⟨times, wrapped⟩ := wrapInt64_dvd (v + step)
      obtain ⟨others, same⟩ := wrapInt64_dvd (v + (turns + 1 : Nat) * step)
      refine wrapInt64_eq (inInt64_wrapInt64 _) ⟨others - times, ?_⟩
      rw [Int.mul_sub, ← wrapped, ← same]
      push_cast
      ring
    obtain ⟨values, ends⟩ := ih (inInt64_wrapInt64 _) (onward ▸ behind)
    by_cases within : v ≤ stop
    · refine ⟨v :: values, fun rounds more => ?_⟩
      obtain ⟨rounds, rfl⟩ := Nat.exists_eq_succ_of_ne_zero (Nat.ne_zero_of_lt more)
      rw [forValues_succ within, ends rounds (by omega)]
      rfl
    · exact ⟨[], fun rounds more => forValues_behind (by omega) (by omega)⟩

/-- What the values of a loop have in common: they differ by multiples of the greatest common divisor of
the step and the size of an int. A value of that kind behind the last is met. -/
theorem forValues_ends_of_beyond {start stop step : Int} (range : InInt64 start) (ordered : start ≤ stop)
    (positive : 0 < step) (ends : beyond start stop (Int.gcd step (2 ^ 64)) < 2 ^ 63) :
    ∃ values enough, ∀ rounds, enough < rounds → forValues stop step rounds start = some values := by
  have isPositive : (0 : Int) < Int.gcd step (2 ^ 64) := by
    exact_mod_cast Int.gcd_pos_of_ne_zero_left _ positive.ne'
  have bezout := Int.gcd_eq_gcd_ab step (2 ^ 64)
  generalize (Int.gcd step (2 ^ 64) : Int) = divisor at *
  obtain ⟨quotient, multiple⟩ : divisor ∣ beyond start stop divisor - start := by
    refine ⟨(stop - start) / divisor + 1, ?_⟩
    rw [beyond, Int.emod_def]
    ring
  have remainder := Int.emod_lt_of_pos (stop - start) isPositive
  have target : stop < beyond start stop divisor := by
    rw [beyond]
    omega
  -- so many steps lead there, up to multiples of the size of an int
  let turns := Int.gcdA step (2 ^ 64) * quotient % 2 ^ 64
  have turnsEq : (turns.toNat : Int) = turns := Int.toNat_of_nonneg (Int.emod_nonneg _ (by decide))
  have arrives : wrapInt64 (start + turns.toNat * step) = beyond start stop divisor := by
    refine wrapInt64_eq ⟨by have := range.1; omega, ends⟩ ?_
    rw [turnsEq]
    refine ⟨-(Int.gcdA step (2 ^ 64) * quotient / 2 ^ 64) * step - Int.gcdB step (2 ^ 64) * quotient, ?_⟩
    have whole : turns = Int.gcdA step (2 ^ 64) * quotient -
        2 ^ 64 * (Int.gcdA step (2 ^ 64) * quotient / 2 ^ 64) := Int.emod_def _ _
    have reached : beyond start stop divisor = start + divisor * quotient := by omega
    rw [whole, reached, bezout]
    ring
  obtain ⟨values, ends⟩ := forValues_ends turns.toNat range (arrives ▸ target)
  exact ⟨values, turns.toNat, ends⟩

/-- If there is none, the loop does not end. -/
theorem forValues_endless {start stop step : Int} (positive : 0 < step)
    (never : 2 ^ 63 ≤ beyond start stop (Int.gcd step (2 ^ 64))) (rounds : Nat) {v : Int} (range : InInt64 v)
    (same : (Int.gcd step (2 ^ 64) : Int) ∣ v - start) : forValues stop step rounds v = none := by
  have isPositive : (0 : Int) < Int.gcd step (2 ^ 64) := by
    exact_mod_cast Int.gcd_pos_of_ne_zero_left _ positive.ne'
  have intoStep := Int.gcd_dvd_left step (2 ^ 64)
  have intoSize := Int.gcd_dvd_right step (2 ^ 64)
  generalize (Int.gcd step (2 ^ 64) : Int) = divisor at *
  induction rounds generalizing v with
  | zero => rfl
  | succ rounds ih =>
    have within : v ≤ stop := by
      by_contra behind
      have least : (v - start) / divisor * divisor = v - start := Int.ediv_mul_cancel same
      have most : (stop - start) / divisor < (v - start) / divisor := by
        apply Int.lt_of_mul_lt_mul_right _ isPositive.le
        rw [least]
        have := Int.ediv_mul_le (stop - start) isPositive.ne'
        omega
      have split : (stop - start) % divisor = stop - start - (stop - start) / divisor * divisor := by
        rw [Int.emod_def, Int.mul_comm]
      have product := Int.mul_le_mul_of_nonneg_right (Int.add_one_le_of_lt most) isPositive.le
      rw [least, Int.add_mul, Int.one_mul] at product
      rw [beyond, split] at never
      have := range.2
      omega
    obtain ⟨times, wrapped⟩ := wrapInt64_dvd (v + step)
    have onward : divisor ∣ wrapInt64 (v + step) - start := by
      have apart : wrapInt64 (v + step) - start = v - start + step - 2 ^ 64 * times := by omega
      rw [apart]
      exact Int.dvd_sub (Int.dvd_add same intoStep) (Dvd.dvd.mul_right intoSize times)
    rw [forValues_succ within, ih (inInt64_wrapInt64 _) onward]
    rfl

/-! ## The parts -/

theorem parseParts_fit (lower : -2 ^ 63 ≤ min) (parts : List Bytes)
    (fit : ∀ part ∈ parts, Reads part min max fun start stop step => beyond start stop step < 2 ^ 63) :
    ∃ values, (∀ rounds, (max + 1 - min).toNat < rounds →
        parsePartsWithin rounds min max parts = some (.ok values)) ∧
      ∀ value, value ∈ values ↔
        min ≤ value ∧ value ≤ max ∧ ∃ part ∈ parts, Covers part min max value := by
  induction parts with
  | nil => exact ⟨[], fun _ _ => rfl, by simp⟩
  | cons part parts ih =>
    obtain ⟨start, stop, step, denotes, bounds, fits⟩ := fit part List.mem_cons_self
    obtain ⟨later, laterEnds, laterExact⟩ := ih (List.forall_mem_of_forall_mem_cons fit)
    obtain ⟨values, loops, -, exactly⟩ := forValues_spec denotes.step.1 (max + 1 - min).toNat
      (by omega) (by omega) fun _ => fits
    have covers : ∀ value, value ∈ values ↔ min ≤ value ∧ value ≤ max ∧ Covers part min max value := by
      intro value
      rw [exactly]
      constructor
      · rintro ⟨above, below, divides⟩
        exact ⟨by omega, by omega, start, stop, step, denotes, above, below, divides⟩
      · rintro ⟨-, -, first, last, stride, other, covered⟩
        obtain ⟨rfl, rfl, rfl⟩ := denotes.unique other
        exact covered
    refine ⟨values ++ later, fun rounds more => ?_, fun value => ?_⟩
    · rw [parsePartsWithin, parsePart_of_denotes denotes bounds, loops rounds more, laterEnds rounds more]
      rfl
    · rw [List.mem_append, covers, laterExact]
      simp only [List.mem_cons, exists_eq_or_imp]
      tauto

theorem parseParts_refused (lower : -2 ^ 63 ≤ min) (upper : max < 2 ^ 63) (before : List Bytes)
    {refused : Bytes} (behind : List Bytes)
    (ends : ∀ part ∈ before, Reads part min max fun start stop step =>
      beyond start stop (Int.gcd step (2 ^ 64)) < 2 ^ 63)
    (isRefused : ¬ Reads refused min max fun _ _ _ => True) :
    ∃ failure enough, ∀ rounds, enough < rounds →
      parsePartsWithin rounds min max (before ++ refused :: behind) = some (.error failure) := by
  induction before with
  | nil =>
    obtain ⟨failure, fails⟩ := parsePart_of_refused isRefused
    exact ⟨failure, 0, fun rounds _ => by rw [List.nil_append, parsePartsWithin, fails]; rfl⟩
  | cons part before ih =>
    obtain ⟨failure, enough, fails⟩ := ih (List.forall_mem_of_forall_mem_cons ends)
    obtain ⟨start, stop, step, denotes, bounds, fits⟩ := ends part List.mem_cons_self
    obtain ⟨values, more, loops⟩ := forValues_ends_of_beyond ⟨by omega, by omega⟩ bounds.2.2
      denotes.step.1 fits
    refine ⟨failure, Nat.max enough more, fun rounds less => ?_⟩
    rw [List.cons_append, parsePartsWithin, parsePart_of_denotes denotes bounds,
      loops rounds ((Nat.le_max_right _ _).trans_lt less),
      fails rounds ((Nat.le_max_left _ _).trans_lt less)]
    rfl

/-- What the parser has gone through when it returns. -/
theorem parseParts_cases {rounds : Nat} {parts : List Bytes} {result : Except GoError (List Int)}
    (parsed : parsePartsWithin rounds min max parts = some result) :
    (∃ values, result = .ok values ∧ ∀ part ∈ parts, Reads part min max fun start stop step =>
      ∃ found, forValues stop step rounds start = some found ∧ found ⊆ values) ∨
    ∃ before refused behind, parts = before ++ refused :: behind ∧
      (∀ part ∈ before, Reads part min max fun start stop step =>
        ∃ found, forValues stop step rounds start = some found) ∧
      ¬ Reads refused min max fun _ _ _ => True := by
  induction parts generalizing result with
  | nil => exact .inl ⟨[], (Option.some.inj parsed).symm, List.forall_mem_nil _⟩
  | cons part parts ih =>
    by_cases reads : Reads part min max fun _ _ _ => True
    · obtain ⟨start, stop, step, denotes, bounds, -⟩ := reads
      rw [parsePartsWithin, parsePart_of_denotes denotes bounds] at parsed
      obtain ⟨first, firstEq, parsed⟩ := Option.bind_eq_some_iff.mp parsed
      obtain ⟨found, loops, rfl⟩ := Option.map_eq_some_iff.mp firstEq
      obtain ⟨later, laterEq, rfl⟩ := Option.map_eq_some_iff.mp parsed
      rcases ih laterEq with ⟨values, rfl, all⟩ | ⟨before, refused, behind, rfl, ends, refuses⟩
      · refine .inl ⟨found ++ values, rfl, fun other member => ?_⟩
        rcases List.mem_cons.mp member with rfl | behind
        · exact ⟨start, stop, step, denotes, bounds, found, loops, List.subset_append_left _ _⟩
        · obtain ⟨first, last, stride, denotes, bounds, items, loops, inside⟩ := all other behind
          exact ⟨first, last, stride, denotes, bounds, items, loops,
            List.Subset.trans inside (List.subset_append_right _ _)⟩
      · refine .inr ⟨part :: before, refused, behind, rfl, fun other member => ?_, refuses⟩
        rcases List.mem_cons.mp member with rfl | behind
        · exact ⟨start, stop, step, denotes, bounds, found, loops⟩
        · exact ends other behind
    · exact .inr ⟨[], part, parts, rfl, List.forall_mem_nil _, reads⟩

/-! ## The field -/

theorem stepLoop_of_forValues {last step v : Int} {rounds : Nat} {values : List Int}
    (ended : forValues last step rounds v = some values) : stepLoop last step rounds v = values := by
  induction rounds generalizing v values with
  | zero => cases ended
  | succ rounds ih =>
    rw [stepLoop]
    by_cases within : v ≤ last
    · rw [forValues_succ within] at ended
      obtain ⟨rest, endedRest, rfl⟩ := Option.map_eq_some_iff.mp ended
      rw [if_pos within, ih endedRest]
    · rw [forValues, if_neg within] at ended
      rw [if_neg within, Option.some.inj ended]

/-- The parser of cron expressions gives what this one gives in the rounds that it has. -/
theorem parseCronField_of_within {field : Bytes} {result : Except GoError (List Int)}
    (parsed : parseCronFieldWithin 128 field min max = some result) : parseCronField field min max = result := by
  have parts : ∀ texts found, parsePartsWithin 128 min max texts = some found →
      parseParts min max texts = found := by
    intro texts
    induction texts with
    | nil => exact fun found parsed => Option.some.inj parsed
    | cons part texts ih =>
      intro found parsed
      obtain ⟨first, firstEq, parsed⟩ := Option.bind_eq_some_iff.mp parsed
      have same : parsePart part min max = first := by
        unfold parsePartWithin at firstEq
        unfold parsePart
        cases ranges : partRange part min max with
        | error failure =>
          rw [ranges] at firstEq
          exact Option.some.inj firstEq
        | ok found =>
          rw [ranges] at firstEq
          obtain ⟨values, loops, rfl⟩ := Option.map_eq_some_iff.mp firstEq
          exact congrArg Except.ok (stepLoop_of_forValues loops)
      rw [parseParts, same]
      cases first with
      | error failure => exact Option.some.inj parsed
      | ok values =>
        obtain ⟨later, laterEq, rfl⟩ := Option.map_eq_some_iff.mp parsed
        rw [ih later laterEq]
        cases later <;> rfl
  unfold parseCronFieldWithin at parsed
  unfold parseCronField
  split at parsed
  · rename_i star
    obtain ⟨values, loops, rfl⟩ := Option.map_eq_some_iff.mp parsed
    rw [if_pos star, buildRange, stepLoop_of_forValues (Option.ite_none_right_eq_some.mp loops).2]
  · rename_i notStar
    obtain ⟨found, foundEq, rfl⟩ := Option.map_eq_some_iff.mp parsed
    rw [if_neg notStar, parts _ found foundEq]
    cases found <;> rfl

theorem covers_star (value : Int) : Covers (ascii "*") min max value ↔ min ≤ value ∧ value ≤ max := by
  have denotes : Denotes min max (trimSpace (ascii "*")) min max 1 :=
    .plain (by decide) (by decide) (show Names min max (ascii "*") min max from .star)
  constructor
  · rintro ⟨start, stop, step, other, above, below, -⟩
    obtain ⟨rfl, rfl, rfl⟩ := denotes.unique other
    exact ⟨above, below⟩
  · rintro ⟨above, below⟩
    exact ⟨min, max, 1, denotes, above, below, Int.one_dvd _⟩

theorem exact_star (ordered : min ≤ max) (lower : -2 ^ 63 ≤ min) (made : canMake 8 (max - min + 1) = true)
    (follows : max + 1 < 2 ^ 63) : Exact (ascii "*") min max := by
  have onePart : split 0x2c (ascii "*") = [ascii "*"] := by decide
  have size : wrapInt64 (wrapInt64 (max - min) + 1) = max - min + 1 := by
    have few : 0 ≤ max - min + 1 ∧ 8 * (max - min + 1) ≤ 2 ^ 48 := by
      rw [canMake, maxAlloc, Bool.and_eq_true] at made
      exact ⟨of_decide_eq_true made.1, of_decide_eq_true made.2⟩
    have difference : wrapInt64 (max - min) = max - min := wrapInt64_of_inInt64 ⟨by omega, by omega⟩
    rw [difference, wrapInt64_of_inInt64 ⟨by omega, by omega⟩]
  obtain ⟨values, loops, sorted, exactly⟩ := forValues_spec Int.one_pos (max + 1 - min).toNat
    (Nat.le_refl _) lower fun _ => by rw [beyond, Int.emod_one, Int.sub_zero]; exact follows
  refine ⟨(max + 1 - min).toNat, .ok values, fun rounds more => ?_, fun _ isOk => ?_⟩
  · rw [parseCronFieldWithin, if_pos rfl, buildRangeWithin, size, if_pos made, loops rounds more]
    rfl
  · cases isOk
    refine ⟨sorted, fun value => ?_⟩
    rw [exactly, onePart]
    simp only [List.mem_singleton, exists_eq_left, covers_star, Int.one_dvd, and_true]
    tauto

theorem exact_of_stepsFit {field : Bytes} (ordered : min ≤ max) (minFits : InInt64 min) (maxFits : InInt64 max)
    (fits : StepsFit field min max) : Exact field min max := by
  by_cases star : field = ascii "*"
  · obtain ⟨made, follows⟩ := fits.all star
    exact star ▸ exact_star ordered minFits.1 made follows
  · rcases fits.parts star with all | ⟨before, refused, behind, partsEq, ends, isRefused⟩
    · obtain ⟨values, loops, exactly⟩ := parseParts_fit minFits.1 _ all
      refine ⟨(max + 1 - min).toNat, .ok (values.dedup.insertionSort (· ≤ ·)), fun rounds more => ?_,
        fun _ isOk => ?_⟩
      · rw [parseCronFieldWithin, if_neg star, loops rounds more]
        rfl
      · cases isOk
        refine ⟨?_, fun value => ?_⟩
        · have sorted := List.pairwise_insertionSort (· ≤ ·) values.dedup
          have distinct := (List.perm_insertionSort (· ≤ ·) values.dedup).nodup_iff.mpr
            (List.nodup_dedup values)
          exact (sorted.and distinct).imp fun both => lt_of_le_of_ne both.1 both.2
        · rw [(List.perm_insertionSort (· ≤ ·) values.dedup).mem_iff, List.mem_dedup]
          exact exactly value
    · obtain ⟨failure, enough, fails⟩ := parseParts_refused minFits.1 maxFits.2 before behind ends isRefused
      refine ⟨enough, .error failure, fun rounds more => ?_, fun _ isOk => by cases isOk⟩
      rw [parseCronFieldWithin, if_neg star, partsEq, fails rounds more]
      rfl

theorem stepsFit_of_exact {field : Bytes} (ordered : min ≤ max) (minFits : InInt64 min) (maxFits : InInt64 max)
    (narrow : max - min ≤ 2 ^ 63) (isExact : Exact field min max) : StepsFit field min max := by
  obtain ⟨enough, result, ends, exactly⟩ := isExact
  have returned := ends (enough + 1) (Nat.lt_succ_self _)
  constructor
  · intro notStar
    rw [parseCronFieldWithin, if_neg notStar] at returned
    obtain ⟨found, foundEq, rfl⟩ := Option.map_eq_some_iff.mp returned
    rcases parseParts_cases foundEq with ⟨values, rfl, all⟩ | ⟨before, refused, behind, partsEq, loops, isRefused⟩
    · refine .inl fun part member => ?_
      obtain ⟨start, stop, step, denotes, bounds, items, loops, inside⟩ := all part member
      refine ⟨start, stop, step, denotes, bounds, ?_⟩
      by_contra steps
      obtain ⟨value, isItem, below⟩ := forValues_wraps min denotes.step (by have := maxFits.2; omega)
        (by omega) (by have := minFits.1; omega) bounds.2.2 (Int.not_lt.mp steps) loops
      have within := ((exactly _ rfl).2 value).mp <|
        (List.perm_insertionSort (· ≤ ·) _).mem_iff.mpr (List.mem_dedup.mpr (inside isItem))
      omega
    · refine .inr ⟨before, refused, behind, partsEq, fun part member => ?_, isRefused⟩
      obtain ⟨start, stop, step, denotes, bounds, items, loops⟩ := loops part member
      refine ⟨start, stop, step, denotes, bounds, ?_⟩
      by_contra steps
      rw [forValues_endless denotes.step.1 (Int.not_lt.mp steps) _
        ⟨by have := minFits.1; omega, by have := maxFits.2; omega⟩ (by rw [Int.sub_self]; exact Int.dvd_zero _)]
        at loops
      cases loops
  · rintro rfl
    rw [parseCronFieldWithin, if_pos rfl] at returned
    obtain ⟨values, madeAndLoops, -⟩ := Option.map_eq_some_iff.mp returned
    obtain ⟨made, loops⟩ := Option.ite_none_right_eq_some.mp madeAndLoops
    constructor
    · by_cases small : max - min < 2 ^ 63 - 1
      · have difference : wrapInt64 (max - min) = max - min := wrapInt64_of_inInt64 ⟨by omega, by omega⟩
        rwa [difference, wrapInt64_of_inInt64 ⟨by omega, by omega⟩] at made
      · have negative : wrapInt64 (wrapInt64 (max - min) + 1) = max - min + 1 - 2 ^ 64 := by
          obtain ⟨times, wrapped⟩ := wrapInt64_dvd (max - min)
          exact wrapInt64_eq ⟨by omega, by omega⟩ ⟨1 - times, by omega⟩
        rw [negative, canMake, Bool.and_eq_true, decide_eq_true_eq] at made
        omega
    · by_contra last
      have never : 2 ^ 63 ≤ beyond min max (Int.gcd 1 (2 ^ 64)) := by
        rw [Int.one_gcd, beyond, Int.natCast_one, Int.emod_one, Int.sub_zero]
        omega
      rw [forValues_endless Int.one_pos never _ minFits (by rw [Int.sub_self]; exact Int.dvd_zero _)] at loops
      cases loops

/-- For every field and all bounds in order, if the steps fit: the parser returns, and what it returns
without an error is the strictly increasing list of the values between the bounds that some part
denotes. Where the bounds are not more than 2^63 apart, only then. -/
theorem parse_field_exact (field : Bytes) (min max : Int) (ordered : min ≤ max) (minFits : InInt64 min)
    (maxFits : InInt64 max) :
    (StepsFit field min max → Exact field min max) ∧
      (max - min ≤ 2 ^ 63 → Exact field min max → StepsFit field min max) :=
  ⟨exact_of_stepsFit ordered minFits maxFits, stepsFit_of_exact ordered minFits maxFits⟩

/-- Every fifteen minutes. -/
theorem parse_quarters : Exact (ascii "*/15") 0 59 := by
  refine (parse_field_exact (ascii "*/15") 0 59 (by decide) ⟨by decide, by decide⟩
    ⟨by decide, by decide⟩).1 ⟨fun _ => .inl fun part member => ?_, fun star => by revert star; decide⟩
  have onePart : split 0x2c (ascii "*/15") = [ascii "*/15"] := by decide
  rw [onePart, List.mem_singleton] at member
  have stepped : Denotes 0 59 (ascii "*" ++ 0x2f :: ascii "15") 0 59 15 :=
    .stepped (by decide) (by decide) (by decide) (by decide) .star
  have trimmed : trimSpace part = ascii "*" ++ 0x2f :: ascii "15" := by rw [member]; decide
  exact ⟨0, 59, 15, trimmed ▸ stepped, by decide, by decide⟩

/-- With a step as large as an int can be, the values go on below the first one. -/
theorem parse_largest_step :
    parseCronFieldWithin 5 (ascii "1/9223372036854775807") 0 59 =
      some (.ok [-9223372036854775808, -1, 1]) := by
  decide +kernel

end Plumego.Scheduler
