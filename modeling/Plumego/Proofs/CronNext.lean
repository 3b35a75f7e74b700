/-
Module: Plumego.Proofs.CronNext
Purpose: The search of `Next` never jumps over a matching second and reaches the first one before
  its rounds run out.
Trusted boundary: as for the cron expressions and the calendar.
Main exports: Matches, FieldValues, Valid, valid_of_parse, Jumps, jumps_jump, next_least
-/
import Mathlib.Data.List.Dedup
import Plumego.Scheduler.Cron

namespace Plumego.Scheduler

open Plumego.Go Plumego.Lib

/-! ## The specification -/

/-- The day of the instant matches as documented: a star is ignored, and of two restricted fields
either may match. -/
def DayMatches (spec : CronSpec) (time : Int) : Prop :=
  match spec.domStar, spec.dowStar with
  | true, true => True
  | true, false => weekdayUTC time ∈ spec.dow
  | false, true => dayUTC time ∈ spec.dom
  | false, false => dayUTC time ∈ spec.dom ∨ weekdayUTC time ∈ spec.dow

/-- The second matches. -/
structure Matches (spec : CronSpec) (time : Int) : Prop where
  month : monthUTC time ∈ spec.months
  day : DayMatches spec time
  hour : hourUTC time ∈ spec.hours
  minute : minuteUTC time ∈ spec.minutes
  second : secondUTC time ∈ spec.seconds

/-- A step that was read is at most 59. -/
def ModestStep : Except GoError (Bytes × Int) → Prop
  | .ok (_, step) => step ≤ 59
  | .error _ => True

instance (result : Except GoError (Bytes × Int)) : Decidable (ModestStep result) := by
  cases result <;> dsimp only [ModestStep] <;> infer_instance

/-- All steps of an expression are at most 59. -/
def ModestSteps (expr : Bytes) : Prop :=
  ∀ field ∈ fields (expandDescriptor expr), ∀ part ∈ split 0x2c field,
    ModestStep (splitStep (trimSpace part))

instance (expr : Bytes) : Decidable (ModestSteps expr) :=
  inferInstanceAs (Decidable (∀ field ∈ _, ∀ part ∈ split 0x2c field,
    ModestStep (splitStep (trimSpace part))))

/-- 40 years in nanoseconds, each counted with 366 days. -/
def fortyYears : Int := 40 * 366 * 86400 * 1000000000

/-! ## The values of a field -/

/-- The sorted values of a field within its bounds. -/
structure FieldValues (min max : Int) (values : List Int) : Prop where
  sorted : values.Pairwise (· < ·)
  nonempty : values ≠ []
  range : ∀ value ∈ values, min ≤ value ∧ value ≤ max

section Loop

variable {last step : Int} (stepRange : 0 < step ∧ step ≤ 59) (lastRange : last ≤ 59)

include stepRange lastRange

theorem stepLoop_range {rounds : Nat} {start : Int} (notNegative : 0 ≤ start) :
    ∀ value ∈ stepLoop last step rounds start, start ≤ value ∧ value ≤ last := by
  induction rounds generalizing start with
  | zero => exact fun value member => absurd member List.not_mem_nil
  | succ rounds ih =>
    intro value member
    rw [stepLoop] at member
    split at member
    · rename_i within
      have noWrap : wrapInt64 (start + step) = start + step :=
        wrapInt64_of_inInt64 ⟨by omega, by omega⟩
      rw [noWrap] at member
      rcases List.mem_cons.mp member with rfl | later
      · exact ⟨Int.le_refl value, within⟩
      · have range := ih (by omega) value later
        exact ⟨by omega, range.2⟩
    · cases member

theorem stepLoop_sorted {rounds : Nat} {start : Int} (notNegative : 0 ≤ start) :
    (stepLoop last step rounds start).Pairwise (· < ·) := by
  induction rounds generalizing start with
  | zero => exact List.Pairwise.nil
  | succ rounds ih =>
    rw [stepLoop]
    split
    · have noWrap : wrapInt64 (start + step) = start + step :=
        wrapInt64_of_inInt64 ⟨by omega, by omega⟩
      rw [noWrap]
      refine List.pairwise_cons.mpr ⟨?_, ih (by omega)⟩
      intro value later
      have range := stepLoop_range stepRange lastRange (by omega) value later
      omega
    · exact List.Pairwise.nil

end Loop

theorem mem_stepLoop_start {last step start : Int} (within : start ≤ last) (rounds : Nat) :
    start ∈ stepLoop last step (rounds + 1) start := by
  rw [stepLoop, if_pos within]
  exact List.mem_cons_self

section Fields

variable {min max : Int} (minRange : 0 ≤ min) (maxRange : max ≤ 59)

include minRange maxRange

theorem fieldValues_buildRange (ordered : min ≤ max) : FieldValues min max (buildRange min max) where
  sorted := stepLoop_sorted ⟨by omega, by omega⟩ maxRange minRange
  nonempty := List.ne_nil_of_mem (mem_stepLoop_start ordered 127)
  range := stepLoop_range ⟨by omega, by omega⟩ maxRange minRange

omit minRange maxRange in
theorem splitStep_pos {part front : Bytes} {step : Int} (splitEq : splitStep part = .ok (front, step)) :
    0 < step := by
  unfold splitStep at splitEq
  split at splitEq
  · split at splitEq
    · split at splitEq
      · cases splitEq
      · split at splitEq
        · cases splitEq
        · cases splitEq
          omega
    · cases splitEq
  · cases splitEq
    exact Int.one_pos

omit minRange maxRange in
theorem partRange_eq_ok {part : Bytes} {start stop step : Int} :
    partRange part min max = .ok (start, stop, step) ↔
      (trimSpace part ≠ [] ∧ ∃ front, splitStep (trimSpace part) = .ok (front, step) ∧
        partBounds front min max = .ok (start, stop)) ∧ min ≤ start ∧ stop ≤ max ∧ start ≤ stop := by
  unfold partRange
  constructor
  · intro ranges
    split at ranges
    · cases ranges
    · rename_i nonempty
      obtain ⟨⟨front, stride⟩, splitEq, ranges⟩ := except_bind_eq_ok.mp ranges
      obtain ⟨⟨first, last⟩, boundsEq, ranges⟩ := except_bind_eq_ok.mp ranges
      dsimp only at ranges
      split at ranges
      · cases ranges
      · cases ranges
        exact ⟨⟨nonempty, front, splitEq, boundsEq⟩, by omega⟩
  · rintro ⟨⟨nonempty, front, splitEq, boundsEq⟩, bounds⟩
    rw [if_neg nonempty]
    refine except_bind_eq_ok.mpr ⟨_, splitEq, except_bind_eq_ok.mpr ⟨_, boundsEq, ?_⟩⟩
    exact if_neg (by omega)

/-- The values of a part lie within the bounds, and there are some. -/
theorem parsePart_range {part : Bytes} {values : List Int}
    (parsed : parsePart part min max = .ok values)
    (modest : ModestStep (splitStep (trimSpace part))) :
    values ≠ [] ∧ ∀ value ∈ values, min ≤ value ∧ value ≤ max := by
  obtain ⟨⟨start, stop, step⟩, ranges, parsed⟩ := except_bind_eq_ok.mp parsed
  cases parsed
  obtain ⟨⟨-, front, splitEq, -⟩, bounds⟩ := partRange_eq_ok.mp ranges
  have atMost : step ≤ 59 := by
    rw [splitEq] at modest
    exact modest
  have stepRange : 0 < step ∧ step ≤ 59 := ⟨splitStep_pos splitEq, atMost⟩
  refine ⟨List.ne_nil_of_mem (mem_stepLoop_start bounds.2.2 127), ?_⟩
  intro value member
  have range := stepLoop_range stepRange (by omega) (by omega) value member
  omega

theorem parseParts_range {parts : List Bytes} {values : List Int}
    (parsed : parseParts min max parts = .ok values)
    (steps : ∀ part ∈ parts, ModestStep (splitStep (trimSpace part))) :
    (parts ≠ [] → values ≠ []) ∧ ∀ value ∈ values, min ≤ value ∧ value ≤ max := by
  induction parts generalizing values with
  | nil =>
    cases parsed
    exact ⟨fun nonempty => absurd rfl nonempty, fun value member => absurd member List.not_mem_nil⟩
  | cons part parts ih =>
    obtain ⟨first, firstEq, parsed⟩ := except_bind_eq_ok.mp parsed
    obtain ⟨rest, restEq, parsed⟩ := except_bind_eq_ok.mp parsed
    cases parsed
    obtain ⟨some, firstRange⟩ :=
      parsePart_range minRange maxRange firstEq (steps part List.mem_cons_self)
    have restRange := (ih restEq
      (List.forall_mem_of_forall_mem_cons steps)).2
    refine ⟨fun _ => List.append_ne_nil_of_left_ne_nil some rest, ?_⟩
    intro value member
    exact (List.mem_append.mp member).elim (firstRange value) (restRange value)

theorem fieldValues_of_parse (ordered : min ≤ max) {field : Bytes} {values : List Int}
    (parsed : parseCronField field min max = .ok values) (steps : ∀ part ∈ split 0x2c field,
      ModestStep (splitStep (trimSpace part))) :
    FieldValues min max values := by
  unfold parseCronField at parsed
  split at parsed
  · cases parsed
    exact fieldValues_buildRange minRange maxRange ordered
  · obtain ⟨all, allEq, parsed⟩ := except_bind_eq_ok.mp parsed
    cases parsed
    obtain ⟨some, range⟩ := parseParts_range minRange maxRange allEq steps
    have perm : (all.dedup.insertionSort (· ≤ ·)).Perm all.dedup := List.perm_insertionSort _ _
    have notEmpty : all ≠ [] := some (List.splitOn_ne_nil _ _)
    refine ⟨?_, ?_, ?_⟩
    · have distinct : (all.dedup.insertionSort (· ≤ ·)).Nodup := perm.nodup_iff.mpr (List.nodup_dedup all)
      have ordered : (all.dedup.insertionSort (· ≤ ·)).Pairwise (· ≤ ·) :=
        List.pairwise_insertionSort _ _
      exact (ordered.and distinct).imp fun both => lt_of_le_of_ne both.1 both.2
    · intro empty
      rw [empty] at perm
      obtain ⟨value, member⟩ := List.exists_mem_of_ne_nil all notEmpty
      have inDedup := List.mem_dedup.mpr member
      rw [← perm.mem_iff] at inDedup
      cases inDedup
    · intro value member
      exact range value (List.mem_dedup.mp (perm.mem_iff.mp member))

end Fields

/-- What the fields of a parsed expression are. -/
structure Valid (spec : CronSpec) : Prop where
  seconds : FieldValues 0 59 spec.seconds
  minutes : FieldValues 0 59 spec.minutes
  hours : FieldValues 0 23 spec.hours
  dom : FieldValues 1 31 spec.dom
  months : FieldValues 1 12 spec.months
  dow : FieldValues 0 6 spec.dow
  interval : spec.interval = 0

theorem namedField_eq_ok {format : String} {field : Bytes} {min max : Int} {values : List Int}
    (parsed : namedField format field min max = .ok values) :
    parseCronField field min max = .ok values := by
  unfold namedField at parsed
  split at parsed
  · rename_i found parsedField
    cases parsed
    exact parsedField
  · cases parsed

theorem valid_of_parseFields {seconds : List Int} (secondsValid : FieldValues 0 59 seconds)
    {minute hour dom month dow : Bytes} {spec : CronSpec}
    (parsed : parseFields seconds minute hour dom month dow = .ok spec)
    (steps : ∀ field ∈ [minute, hour, dom, month, dow], ∀ part ∈ split 0x2c field,
      ModestStep (splitStep (trimSpace part))) :
    Valid spec := by
  obtain ⟨minutes, minutesEq, parsed⟩ := except_bind_eq_ok.mp parsed
  obtain ⟨hours, hoursEq, parsed⟩ := except_bind_eq_ok.mp parsed
  obtain ⟨doms, domsEq, parsed⟩ := except_bind_eq_ok.mp parsed
  obtain ⟨months, monthsEq, parsed⟩ := except_bind_eq_ok.mp parsed
  obtain ⟨dows, dowsEq, parsed⟩ := except_bind_eq_ok.mp parsed
  cases parsed
  exact {
    seconds := secondsValid
    minutes := fieldValues_of_parse (by decide) (by decide) (by decide) (namedField_eq_ok minutesEq)
      (steps minute (by simp))
    hours := fieldValues_of_parse (by decide) (by decide) (by decide) (namedField_eq_ok hoursEq)
      (steps hour (by simp))
    dom := fieldValues_of_parse (by decide) (by decide) (by decide) (namedField_eq_ok domsEq)
      (steps dom (by simp))
    months := fieldValues_of_parse (by decide) (by decide) (by decide) (namedField_eq_ok monthsEq)
      (steps month (by simp))
    dow := fieldValues_of_parse (by decide) (by decide) (by decide) (namedField_eq_ok dowsEq)
      (steps dow (by simp))
    interval := rfl }

/-- A parsed expression names an interval and matches nothing, or all its fields are in order. -/
theorem valid_of_parse {parseDuration : Bytes → Except GoError Int} {expr : Bytes} {spec : CronSpec}
    (parsed : parseCronSpec parseDuration expr = .ok spec) (steps : ModestSteps expr) :
    spec.months = [] ∨ Valid spec := by
  unfold parseCronSpec at parsed
  unfold ModestSteps at steps
  split at parsed
  · split at parsed
    · cases parsed
    · split at parsed
      · cases parsed
      · cases parsed
        exact .inl rfl
  · split at parsed
    · rename_i minute hour dom month dow fieldsEq
      rw [fieldsEq] at steps
      have zero : FieldValues 0 59 [0] := ⟨List.pairwise_singleton _ _, by decide, by decide⟩
      exact .inr (valid_of_parseFields zero parsed steps)
    · rename_i second minute hour dom month dow fieldsEq
      rw [fieldsEq] at steps
      obtain ⟨seconds, secondsEq, parsed⟩ := except_bind_eq_ok.mp parsed
      have secondsValid : FieldValues 0 59 seconds :=
        fieldValues_of_parse (by decide) (by decide) (by decide) (namedField_eq_ok secondsEq)
          (steps second List.mem_cons_self)
      exact .inr (valid_of_parseFields secondsValid parsed
        (List.forall_mem_of_forall_mem_cons steps))
    · cases parsed

/-! ## Searching a field -/

theorem searchInts_cons (item : Int) (rest : List Int) (value : Int) :
    (item :: rest)[searchInts (item :: rest) value]? =
      if value ≤ item then some item else rest[searchInts rest value]? := by
  unfold searchInts
  rw [List.findIdx_cons]
  by_cases found : value ≤ item
  · simp [found]
  · simp [found]

/-- The first value that is not less. -/
theorem searchInts_spec {list : List Int} (sorted : list.Pairwise (· < ·)) (value : Int) :
    match list[searchInts list value]? with
    | none => ∀ item ∈ list, item < value
    | some found => found ∈ list ∧ value ≤ found ∧ ∀ item ∈ list, value ≤ item → found ≤ item := by
  induction list with
  | nil => simp
  | cons item rest ih =>
    obtain ⟨before, restSorted⟩ := List.pairwise_cons.mp sorted
    rw [searchInts_cons]
    by_cases here : value ≤ item
    · rw [if_pos here]
      refine ⟨List.mem_cons_self, here, ?_⟩
      intro other member _
      rcases List.mem_cons.mp member with rfl | later
      · exact Int.le_refl other
      · exact Int.le_of_lt (before other later)
    · rw [if_neg here]
      have later := ih restSorted
      split at later
      · intro other member
        rcases List.mem_cons.mp member with rfl | inRest
        · exact Int.not_le.mp here
        · exact later other inRest
      · obtain ⟨inRest, notLess, least⟩ := later
        refine ⟨List.mem_cons_of_mem item inRest, notLess, ?_⟩
        intro other member otherNotLess
        rcases List.mem_cons.mp member with rfl | otherInRest
        · exact absurd otherNotLess here
        · exact least other otherInRest otherNotLess

theorem containsInt_iff {list : List Int} (sorted : list.Pairwise (· < ·)) (value : Int) :
    containsInt list value = true ↔ value ∈ list := by
  have spec := searchInts_spec sorted value
  unfold containsInt
  rw [decide_eq_true_eq]
  split at spec <;> rename_i foundEq
  · rw [foundEq]
    exact ⟨nofun, fun member => absurd (spec value member) (Int.lt_irrefl value)⟩
  · rw [foundEq, Option.some.injEq]
    constructor
    · rintro rfl
      exact spec.1
    · intro member
      exact Int.le_antisymm (spec.2.2 value member (Int.le_refl value)) spec.2.1

/-- The value is the first one of the field. -/
def IsFirst (values : List Int) (first : Int) : Prop :=
  first ∈ values ∧ ∀ value ∈ values, first ≤ value

/-- The value is the next one of the field after a value that the field does not have. -/
def Follows (values : List Int) (current next : Int) : Prop :=
  next ∈ values ∧ current < next ∧ ∀ value ∈ values, current ≤ value → next ≤ value

theorem isFirst_headD {min max : Int} {values : List Int} (field : FieldValues min max values) :
    IsFirst values (values.headD 0) := by
  cases values with
  | nil => exact absurd rfl field.nonempty
  | cons first rest =>
    refine ⟨List.mem_cons_self, ?_⟩
    intro value member
    rcases List.mem_cons.mp member with rfl | later
    · exact Int.le_refl _
    · exact Int.le_of_lt ((List.pairwise_cons.mp field.sorted).1 value later)

/-- The three results of `nextAllowed`. -/
theorem nextAllowed_spec {min max : Int} {values : List Int} (field : FieldValues min max values)
    (current : Int) :
    (nextAllowed current values = (current, false) ∧ current ∈ values) ∨
      (∃ next, nextAllowed current values = (next, false) ∧ Follows values current next ∧
        current ∉ values) ∨
      (∃ first, nextAllowed current values = (first, true) ∧ ∀ value ∈ values, value < current) := by
  cases values with
  | nil => exact absurd rfl field.nonempty
  | cons first rest =>
    have spec := searchInts_spec field.sorted current
    unfold nextAllowed
    simp only
    split at spec <;> rename_i foundEq
    · rw [foundEq]
      exact .inr (.inr ⟨first, rfl, spec⟩)
    · rename_i found
      rw [foundEq]
      obtain ⟨member, notLess, least⟩ := spec
      by_cases same : found = current
      · subst same
        exact .inl ⟨rfl, member⟩
      · refine .inr (.inl ⟨found, rfl, ⟨member, by omega, least⟩, ?_⟩)
        intro present
        exact same (Int.le_antisymm (least current present (Int.le_refl current)) notLess)

/-! ## Jumps -/

/-- What a round of the loop does at an instant. -/
inductive Jumps (spec : CronSpec) (time : Int) : Option Int → Prop where
  | month (absent : monthUTC time ∉ spec.months) :
      Jumps spec time (some ((Gregorian.dayNumber (yearUTC time)
        (Gregorian.monthOf (dayNumberUTC time) + 1) 1 - epochDay) * 86400))
  | day (absent : ¬ DayMatches spec time) : Jumps spec time (some ((time / 86400 + 1) * 86400))
  | hourCarry {first : Int} (isFirst : IsFirst spec.hours first)
      (past : ∀ hour ∈ spec.hours, hour < hourUTC time) :
      Jumps spec time (some ((time / 86400 + 1) * 86400 + first * 3600))
  | hour {next : Int} (follows : Follows spec.hours (hourUTC time) next)
      (absent : hourUTC time ∉ spec.hours) :
      Jumps spec time (some (time / 86400 * 86400 + next * 3600))
  | minuteCarry {first : Int} (inHour : hourUTC time ∈ spec.hours) (isFirst : IsFirst spec.minutes first)
      (past : ∀ minute ∈ spec.minutes, minute < minuteUTC time) :
      Jumps spec time (some (time / 86400 * 86400 + (hourUTC time + 1) * 3600 + first * 60))
  | minute {next : Int} (inHour : hourUTC time ∈ spec.hours)
      (follows : Follows spec.minutes (minuteUTC time) next) (absent : minuteUTC time ∉ spec.minutes) :
      Jumps spec time (some (time / 86400 * 86400 + hourUTC time * 3600 + next * 60))
  | secondCarry {first : Int} (inHour : hourUTC time ∈ spec.hours)
      (inMinute : minuteUTC time ∈ spec.minutes) (isFirst : IsFirst spec.seconds first)
      (past : ∀ second ∈ spec.seconds, second < secondUTC time) :
      Jumps spec time (some (time / 86400 * 86400 + hourUTC time * 3600 +
        (minuteUTC time + 1) * 60 + first))
  | second {next : Int} (inHour : hourUTC time ∈ spec.hours)
      (inMinute : minuteUTC time ∈ spec.minutes)
      (follows : Follows spec.seconds (secondUTC time) next) (absent : secondUTC time ∉ spec.seconds) :
      Jumps spec time (some (time / 86400 * 86400 + hourUTC time * 3600 + minuteUTC time * 60 + next))
  | stop (found : Matches spec time) : Jumps spec time none

theorem dayMatch_iff {spec : CronSpec} (valid : Valid spec) (time : Int) :
    dayMatch spec time = true ↔ DayMatches spec time := by
  have domIff := containsInt_iff valid.dom.sorted (dayUTC time)
  have dowIff := containsInt_iff valid.dow.sorted (weekdayUTC time)
  unfold dayMatch DayMatches
  cases spec.domStar <;> cases spec.dowStar <;> simp [domIff, dowIff]

/-- Midnight of the next day. -/
theorem addDate_midnight (time : Int) :
    addDate (dateUTC (yearUTC time) (monthUTC time) (dayUTC time) 0 0 0) 0 0 1 =
      (time / 86400 + 1) * 86400 := by
  simp only [addDate, dateUTC_today, Int.add_zero, dateUTC_of_date]
  unfold hourUTC minuteUTC secondUTC
  omega

theorem jumps_jump {spec : CronSpec} (valid : Valid spec) (time : Int) :
    Jumps spec time (jump spec time) := by
  unfold jump
  split
  · rename_i absent
    rw [dateUTC_nextMonth]
    refine .month fun member => ?_
    rw [(containsInt_iff valid.months.sorted _).mpr member] at absent
    cases absent
  · rename_i inMonth
    rw [Bool.not_eq_false, containsInt_iff valid.months.sorted] at inMonth
    split
    · rename_i notDay
      rw [addDate_midnight]
      refine .day fun isDay => ?_
      rw [(dayMatch_iff valid time).mpr isDay] at notDay
      cases notDay
    · rename_i isDay
      rw [Bool.not_eq_false, dayMatch_iff valid] at isDay
      rcases nextAllowed_spec valid.hours (hourUTC time) with
        ⟨hourEq, inHour⟩ | ⟨hour, hourEq, follows, absent⟩ | ⟨first, hourEq, past⟩
      · rcases nextAllowed_spec valid.minutes (minuteUTC time) with
          ⟨minuteEq, inMinute⟩ | ⟨minute, minuteEq, follows, absent⟩ | ⟨first, minuteEq, past⟩
        · rcases nextAllowed_spec valid.seconds (secondUTC time) with
            ⟨secondEq, inSecond⟩ | ⟨second, secondEq, follows, absent⟩ | ⟨first, secondEq, past⟩
          · simp only [hourEq, minuteEq, secondEq, ne_eq, not_true_eq_false, Bool.false_eq_true, if_false]
            exact .stop ⟨inMonth, isDay, inHour, inMinute, inSecond⟩
          · have different : second ≠ secondUTC time := Int.ne_of_gt follows.2.1
            simp only [hourEq, minuteEq, secondEq, ne_eq, not_true_eq_false, Bool.false_eq_true, if_false,
              different, not_false_eq_true, if_true, dateUTC_today]
            exact .second inHour inMinute follows absent
          · simp only [hourEq, minuteEq, secondEq, ne_eq, not_true_eq_false, Bool.false_eq_true, if_false,
              if_true, dateUTC_today]
            exact .secondCarry inHour inMinute (isFirst_headD valid.seconds) past
        · have different : minute ≠ minuteUTC time := Int.ne_of_gt follows.2.1
          simp only [hourEq, minuteEq, ne_eq, not_true_eq_false, Bool.false_eq_true, if_false, different,
            not_false_eq_true, if_true, dateUTC_today, Int.add_zero]
          exact .minute inHour follows absent
        · simp only [hourEq, minuteEq, ne_eq, not_true_eq_false, Bool.false_eq_true, if_false, if_true,
            dateUTC_today, Int.add_zero]
          exact .minuteCarry inHour (isFirst_headD valid.minutes) past
      · have different : hour ≠ hourUTC time := Int.ne_of_gt follows.2.1
        simp only [hourEq, ne_eq, Bool.false_eq_true, if_false, different, not_false_eq_true, if_true,
          dateUTC_today, Int.zero_mul, Int.add_zero]
        exact .hour follows absent
      · simp only [hourEq, if_true, dateUTC_of_date, Int.zero_mul, Int.add_zero]
        exact .hourCarry (isFirst_headD valid.hours) past

/-! ## No match is skipped -/

/-- The times of a day have the same date. -/
theorem sameDay {time other : Int} (same : other / 86400 = time / 86400) :
    monthUTC other = monthUTC time ∧ dayUTC other = dayUTC time ∧ weekdayUTC other = weekdayUTC time := by
  have sameNumber : dayNumberUTC other = dayNumberUTC time := by
    unfold dayNumberUTC
    rw [same]
  refine ⟨?_, ?_, ?_⟩
  · rw [monthUTC, monthUTC, sameNumber]
  · rw [dayUTC, dayUTC, sameNumber]
  · rw [weekdayUTC, weekdayUTC, sameNumber]

theorem skips_of_jumps {spec : CronSpec} (valid : Valid spec) {time next : Int}
    (jumps : Jumps spec time (some next)) :
    time < next ∧ ∀ between, time ≤ between → between < next → ¬ Matches spec between := by
  cases jumps with
  | month absent =>
    have inMonth := Gregorian.lt_nextMonth (dayNumberUTC time)
    have numberEq : dayNumberUTC time = time / 86400 + epochDay := rfl
    refine ⟨?_, ?_⟩
    · change Gregorian.dayNumber _ _ 1 > _ at inMonth
      unfold yearUTC
      omega
    · intro between notBefore before found
      have numberBetween : dayNumberUTC between = between / 86400 + epochDay := rfl
      have first := Gregorian.firstOfMonth_le (dayNumberUTC time)
      have same := Gregorian.date_of_between (Gregorian.monthOf_range (dayNumberUTC time))
        (Int.le_trans first (show dayNumberUTC time ≤ dayNumberUTC between by omega))
        (by unfold yearUTC at before; omega)
      have sameMonth : monthUTC between = monthUTC time := congrArg Nat.cast same.2
      exact absent (sameMonth ▸ found.month)
  | day absent =>
    refine ⟨by omega, ?_⟩
    intro between notBefore before found
    obtain ⟨_, sameDom, sameDow⟩ := sameDay (show between / 86400 = time / 86400 by omega)
    have isDay := found.day
    unfold DayMatches at isDay absent
    rw [sameDom, sameDow] at isDay
    exact absent isDay
  | hourCarry isFirst past =>
    have firstRange := valid.hours.range _ isFirst.1
    refine ⟨by omega, ?_⟩
    intro between notBefore before found
    have tooEarly := past _ found.hour
    have tooLate := isFirst.2 _ found.hour
    unfold hourUTC at tooEarly tooLate
    omega
  | hour follows absent =>
    obtain ⟨inHours, later, least⟩ := follows
    refine ⟨by unfold hourUTC at later; omega, ?_⟩
    intro between notBefore before found
    have range := valid.hours.range _ inHours
    have notLess := least _ found.hour
    unfold hourUTC at notLess
    omega
  | minuteCarry inHour isFirst past =>
    have firstRange := valid.minutes.range _ isFirst.1
    refine ⟨by unfold hourUTC; omega, ?_⟩
    intro between notBefore before found
    have tooEarly := past _ found.minute
    have tooLate := isFirst.2 _ found.minute
    unfold minuteUTC at tooEarly tooLate
    unfold hourUTC at before
    omega
  | minute inHour follows absent =>
    obtain ⟨inMinutes, later, least⟩ := follows
    refine ⟨by unfold hourUTC; unfold minuteUTC at later; omega, ?_⟩
    intro between notBefore before found
    have range := valid.minutes.range _ inMinutes
    have notLess := least _ found.minute
    unfold minuteUTC at notLess
    unfold hourUTC at before
    omega
  | secondCarry inHour inMinute isFirst past =>
    have firstRange := valid.seconds.range _ isFirst.1
    refine ⟨by unfold hourUTC minuteUTC; omega, ?_⟩
    intro between notBefore before found
    have tooEarly := past _ found.second
    have tooLate := isFirst.2 _ found.second
    unfold secondUTC at tooEarly tooLate
    unfold hourUTC minuteUTC at before
    omega
  | second inHour inMinute follows absent =>
    obtain ⟨inSeconds, later, least⟩ := follows
    refine ⟨by unfold hourUTC minuteUTC; unfold secondUTC at later; omega, ?_⟩
    intro between notBefore before found
    have range := valid.seconds.range _ inSeconds
    have notLess := least _ found.second
    unfold secondUTC at notLess
    unfold hourUTC minuteUTC at before
    omega

/-! ## The first match is reached -/

/-- How many more rounds the search may need within a day. -/
def rank (spec : CronSpec) (time : Int) : Nat :=
  if hourUTC time ∉ spec.hours then 3
  else if ∀ minute ∈ spec.minutes, minute < minuteUTC time then 4
  else if minuteUTC time ∉ spec.minutes then 2
  else if ∀ second ∈ spec.seconds, second < secondUTC time then 5
  else if secondUTC time ∉ spec.seconds then 1
  else 0

/-- How many more rounds the search may need up to a day. -/
def distance (spec : CronSpec) (target time : Int) : Nat :=
  6 * (target / 86400 - time / 86400).toNat + rank spec time

section Rank

variable {spec : CronSpec} {time : Int}

theorem rank_le (spec : CronSpec) (time : Int) : rank spec time ≤ 5 := by
  unfold rank
  repeat' split
  all_goals omega

/-- At the beginning of a minute no second has passed. -/
theorem rank_le_one (valid : Valid spec) (inMinute : minuteUTC time ∈ spec.minutes)
    (inHour : hourUTC time ∈ spec.hours) (atStart : secondUTC time = 0) : rank spec time ≤ 1 := by
  have notPast : ¬ ∀ minute ∈ spec.minutes, minute < minuteUTC time :=
    fun past => Int.lt_irrefl _ (past _ inMinute)
  have notPastSecond : ¬ ∀ second ∈ spec.seconds, second < secondUTC time := by
    intro past
    obtain ⟨second, member⟩ := List.exists_mem_of_ne_nil _ valid.seconds.nonempty
    have before := past second member
    have range := valid.seconds.range second member
    omega
  rw [rank, if_neg (not_not.mpr inHour), if_neg notPast, if_neg (not_not.mpr inMinute),
    if_neg notPastSecond]
  split <;> omega

/-- At the beginning of an hour no minute has passed. -/
theorem rank_le_two (valid : Valid spec) (inHour : hourUTC time ∈ spec.hours)
    (atStart : minuteUTC time = 0 ∧ secondUTC time = 0) : rank spec time ≤ 2 := by
  have notPast : ¬ ∀ minute ∈ spec.minutes, minute < minuteUTC time := by
    intro past
    obtain ⟨minute, member⟩ := List.exists_mem_of_ne_nil _ valid.minutes.nonempty
    have before := past minute member
    have range := valid.minutes.range minute member
    omega
  by_cases inMinute : minuteUTC time ∈ spec.minutes
  · exact Nat.le_succ_of_le (rank_le_one valid inMinute inHour atStart.2)
  · rw [rank, if_neg (not_not.mpr inHour), if_neg notPast, if_pos inMinute]

theorem rank_le_three (valid : Valid spec) (inMinute : minuteUTC time ∈ spec.minutes)
    (atStart : secondUTC time = 0) : rank spec time ≤ 3 := by
  by_cases inHour : hourUTC time ∈ spec.hours
  · exact Nat.le_trans (rank_le_one valid inMinute inHour atStart) (by decide)
  · rw [rank, if_pos inHour]

theorem rank_le_four (inSecond : secondUTC time ∈ spec.seconds) : rank spec time ≤ 4 := by
  have notPast : ¬ ∀ second ∈ spec.seconds, second < secondUTC time :=
    fun past => Int.lt_irrefl _ (past _ inSecond)
  unfold rank
  rw [if_neg notPast]
  repeat' split
  all_goals omega

theorem rank_eq_zero (inHour : hourUTC time ∈ spec.hours) (inMinute : minuteUTC time ∈ spec.minutes)
    (inSecond : secondUTC time ∈ spec.seconds) : rank spec time = 0 := by
  have notPast : ¬ ∀ minute ∈ spec.minutes, minute < minuteUTC time :=
    fun past => Int.lt_irrefl _ (past _ inMinute)
  have notPastSecond : ¬ ∀ second ∈ spec.seconds, second < secondUTC time :=
    fun past => Int.lt_irrefl _ (past _ inSecond)
  rw [rank, if_neg (not_not.mpr inHour), if_neg notPast, if_neg (not_not.mpr inMinute),
    if_neg notPastSecond, if_neg (not_not.mpr inSecond)]

end Rank

/-- A jump to another day comes closer, whatever the rank. -/
theorem closer_of_day {spec : CronSpec} {time next target : Int} (later : time / 86400 < next / 86400)
    (notBehind : next ≤ target) : distance spec target next < distance spec target time := by
  have small := rank_le spec next
  unfold distance
  omega

/-- A jump within a day comes closer if the rank gets smaller. -/
theorem closer_of_rank {spec : CronSpec} {time next target : Int} (same : next / 86400 = time / 86400)
    (less : rank spec next < rank spec time) : distance spec target next < distance spec target time := by
  unfold distance
  rw [same]
  omega

theorem closer_of_jumps {spec : CronSpec} (valid : Valid spec) {time next target : Int}
    (jumps : Jumps spec time (some next)) (notBehind : next ≤ target) :
    distance spec target next < distance spec target time := by
  cases jumps with
  | month absent =>
    have inMonth := Gregorian.lt_nextMonth (dayNumberUTC time)
    have numberEq : dayNumberUTC time = time / 86400 + epochDay := rfl
    refine closer_of_day ?_ notBehind
    unfold yearUTC
    omega
  | day absent => exact closer_of_day (by omega) notBehind
  | hourCarry isFirst past =>
    have firstRange := valid.hours.range _ isFirst.1
    exact closer_of_day (by omega) notBehind
  | hour follows absent =>
    rename_i next
    have range := valid.hours.range _ follows.1
    have hourEq : hourUTC (time / 86400 * 86400 + next * 3600) = next := by
      unfold hourUTC
      omega
    have startEq : minuteUTC (time / 86400 * 86400 + next * 3600) = 0 ∧
        secondUTC (time / 86400 * 86400 + next * 3600) = 0 := by
      unfold minuteUTC secondUTC
      omega
    have small := rank_le_two valid (hourEq.symm ▸ follows.1) startEq
    have rankEq : rank spec time = 3 := by rw [rank, if_pos absent]
    exact closer_of_rank (by omega) (by omega)
  | minuteCarry inHour isFirst past =>
    rename_i first
    have range := valid.minutes.range _ isFirst.1
    have hourRange := valid.hours.range _ inHour
    have minuteEq : minuteUTC (time / 86400 * 86400 + (hourUTC time + 1) * 3600 + first * 60) = first := by
      unfold minuteUTC
      omega
    have startEq : secondUTC (time / 86400 * 86400 + (hourUTC time + 1) * 3600 + first * 60) = 0 := by
      unfold secondUTC
      omega
    have small := rank_le_three valid (minuteEq.symm ▸ isFirst.1) startEq
    have rankEq : rank spec time = 4 := by rw [rank, if_neg (not_not.mpr inHour), if_pos past]
    by_cases lastHour : hourUTC time = 23
    · exact closer_of_day (by omega) notBehind
    · exact closer_of_rank (by omega) (by omega)
  | minute inHour follows absent =>
    rename_i next
    have range := valid.minutes.range _ follows.1
    have hourRange := valid.hours.range _ inHour
    have hourEq : hourUTC (time / 86400 * 86400 + hourUTC time * 3600 + next * 60) = hourUTC time := by
      generalize hourUTC time = hour at hourRange ⊢
      unfold hourUTC
      omega
    have minuteEq : minuteUTC (time / 86400 * 86400 + hourUTC time * 3600 + next * 60) = next := by
      unfold minuteUTC
      omega
    have startEq : secondUTC (time / 86400 * 86400 + hourUTC time * 3600 + next * 60) = 0 := by
      unfold secondUTC
      omega
    have small := rank_le_one valid (minuteEq.symm ▸ follows.1) (hourEq.symm ▸ inHour) startEq
    have notPast : ¬ ∀ minute ∈ spec.minutes, minute < minuteUTC time :=
      fun past => Int.lt_asymm follows.2.1 (past _ follows.1)
    have rankEq : rank spec time = 2 := by
      rw [rank, if_neg (not_not.mpr inHour), if_neg notPast, if_pos absent]
    exact closer_of_rank (by omega) (by omega)
  | secondCarry inHour inMinute isFirst past =>
    rename_i first
    have range := valid.seconds.range _ isFirst.1
    have hourRange := valid.hours.range _ inHour
    have minuteRange := valid.minutes.range _ inMinute
    have secondEq : secondUTC (time / 86400 * 86400 + hourUTC time * 3600 +
        (minuteUTC time + 1) * 60 + first) = first := by
      unfold secondUTC
      omega
    have small := @rank_le_four spec _ (secondEq.symm ▸ isFirst.1)
    have notPast : ¬ ∀ minute ∈ spec.minutes, minute < minuteUTC time :=
      fun past => Int.lt_irrefl _ (past _ inMinute)
    have rankEq : rank spec time = 5 := by
      rw [rank, if_neg (not_not.mpr inHour), if_neg notPast, if_neg (not_not.mpr inMinute), if_pos past]
    by_cases lastMinute : hourUTC time = 23 ∧ minuteUTC time = 59
    · exact closer_of_day (by omega) notBehind
    · exact closer_of_rank (by omega) (by omega)
  | second inHour inMinute follows absent =>
    rename_i next
    have range := valid.seconds.range _ follows.1
    have hourRange := valid.hours.range _ inHour
    have minuteRange := valid.minutes.range _ inMinute
    have hourEq : hourUTC (time / 86400 * 86400 + hourUTC time * 3600 + minuteUTC time * 60 + next) =
        hourUTC time := by
      generalize minuteUTC time = minute at minuteRange ⊢
      generalize hourUTC time = hour at hourRange ⊢
      unfold hourUTC
      omega
    have minuteEq : minuteUTC (time / 86400 * 86400 + hourUTC time * 3600 + minuteUTC time * 60 + next) =
        minuteUTC time := by
      generalize minuteUTC time = minute at minuteRange ⊢
      unfold minuteUTC
      omega
    have secondEq : secondUTC (time / 86400 * 86400 + hourUTC time * 3600 + minuteUTC time * 60 + next) =
        next := by
      unfold secondUTC
      omega
    have zero := rank_eq_zero (hourEq.symm ▸ inHour) (minuteEq.symm ▸ inMinute)
      (secondEq.symm ▸ follows.1)
    have notPast : ¬ ∀ minute ∈ spec.minutes, minute < minuteUTC time :=
      fun past => Int.lt_irrefl _ (past _ inMinute)
    have notPastSecond : ¬ ∀ second ∈ spec.seconds, second < secondUTC time :=
      fun past => Int.lt_asymm follows.2.1 (past _ follows.1)
    have rankEq : rank spec time = 1 := by
      rw [rank, if_neg (not_not.mpr inHour), if_neg notPast, if_neg (not_not.mpr inMinute),
        if_neg notPastSecond, if_pos absent]
    exact closer_of_rank (by omega) (by omega)

/-! ## `Next` -/

/-- Where some second within 40 years matches, `Next` returns the first one after the instant. -/
theorem next_least {parseDuration : Bytes → Except GoError Int} {expr : Bytes} {spec : CronSpec}
    (parsed : parseCronSpec parseDuration expr = .ok spec) (steps : ModestSteps expr) {after : Int}
    (some : ∃ target, after < target * 1000000000 ∧ target * 1000000000 ≤ after + fortyYears ∧
      Matches spec target) :
    ∃ first, next spec after = first * 1000000000 ∧ after < first * 1000000000 ∧ Matches spec first ∧
      ∀ other, after < other * 1000000000 → Matches spec other → first ≤ other := by
  obtain ⟨target, targetAfter, targetWithin, found⟩ := some
  have valid : Valid spec := by
    refine (valid_of_parse parsed steps).resolve_left fun empty => ?_
    have inMonth := found.month
    rw [empty] at inMonth
    cases inMonth
  have later : ∀ time : Int, after < time * 1000000000 ↔ after / 1000000000 + 1 ≤ time := by
    intro time
    omega
  unfold fortyYears at targetWithin
  have enough : distance spec target (after / 1000000000 + 1) < maxRounds := by
    have small := rank_le spec (after / 1000000000 + 1)
    unfold distance maxRounds
    omega
  obtain ⟨first, searched, isFirst, notBefore, least⟩ := search_least (distance spec target) found
    (fun time stopped => by
      have jumps := jumps_jump valid time
      rw [stopped] at jumps
      cases jumps with
      | stop matched => exact matched)
    (fun time next jumpEq => skips_of_jumps valid (jumpEq ▸ jumps_jump valid time))
    (fun time next jumpEq => closer_of_jumps valid (jumpEq ▸ jumps_jump valid time))
    ((later target).mp targetAfter) enough
  refine ⟨first, ?_, (later first).mpr notBefore, isFirst, ?_⟩
  · rw [next, if_neg (by rw [valid.interval]; decide), searched]
  · intro other otherAfter isOther
    exact least other ((later other).mp otherAfter) isOther

/-- The 29th of February at half past four. -/
def leapDays : CronSpec := ⟨[0], [30], [4], [29], [2], [0, 1, 2, 3, 4, 5, 6], false, true, 0⟩

theorem parse_leapDays (parseDuration : Bytes → Except GoError Int) :
    parseCronSpec parseDuration (ascii "30 4 29 2 *") = .ok leapDays := by
  rfl

/-- After November 2023 that is in 2024. -/
theorem next_leapDays :
    Matches leapDays 1709181000 ∧ ∃ first, next leapDays 1700000000000000000 = first * 1000000000 ∧
      (1700000000000000000 : Int) < first * 1000000000 ∧ Matches leapDays first ∧
      ∀ other : Int, (1700000000000000000 : Int) < other * 1000000000 → Matches leapDays other →
        first ≤ other := by
  have isMatch : Matches leapDays 1709181000 :=
    ⟨by decide +kernel, show dayUTC 1709181000 ∈ leapDays.dom by decide +kernel, by decide +kernel,
      by decide +kernel, by decide +kernel⟩
  refine ⟨isMatch, ?_⟩
  exact next_least (parse_leapDays fun _ => .error errInvalidEveryDuration) (by decide +kernel)
    ⟨1709181000, by decide, by decide, isMatch⟩

example : next leapDays 1700000000000000000 = 1709181000000000000 := by decide +kernel

end Plumego.Scheduler
