/-
Module: Plumego.Lib.KeyedStore
Purpose: Stores whose every call reads and writes the entry of one key only, and what the calls on some
  keys cannot do to the results of the others. Logs of key updates replayed over a map: the last
  update of a key decides, so a log may be replayed over a map that already has its effects, and
  entries that will not be seen any more may be left out of the map below it.
Trusted boundary: none
Main exports: KeyedStore, KeyedStore.answers_filter, replayUpdates, replayUpdates_apply,
  restrict_replay
-/
import Mathlib.Data.List.AList
import Mathlib.Data.List.Basic
import Mathlib.Data.Option.Basic
import Mathlib.Logic.Function.Basic

namespace Plumego.Lib

/-- A store by what its calls are about: the key a call works on, if it gets to
the store at all, and what it makes of the key's entry. -/
structure KeyedStore (Key V Call Out : Type) where
  key : Call → Option Key
  reject : Call → Out
  act : Call → Option V → Option V × Out

namespace KeyedStore

variable {Key V Call Out : Type} [DecidableEq Key]

/-- Write an entry, or take it away. -/
def write (entries : AList fun _ : Key => V) (key : Key) : Option V → AList fun _ : Key => V
  | none => entries.erase key
  | some value => entries.insert key value

theorem lookup_write (entries : AList fun _ : Key => V) (key other : Key) (entry : Option V) :
    (write entries key entry).lookup other =
      if other = key then entry else entries.lookup other := by
  by_cases same : other = key
  · subst same
    cases entry with
    | none => simp [write]
    | some value => simp [write]
  · cases entry with
    | none => rw [write, if_neg same, AList.lookup_erase_ne same]
    | some value => rw [write, if_neg same, AList.lookup_insert_ne same]

/-- One call: the entries after it and its result. -/
def step (store : KeyedStore Key V Call Out) (entries : AList fun _ : Key => V) (call : Call) :
    (AList fun _ : Key => V) × Out :=
  match store.key call with
  | none => (entries, store.reject call)
  | some key =>
    match store.act call (entries.lookup key) with
    | (entry, out) => (write entries key entry, out)

/-- The calls of a run with their results. -/
def answers (store : KeyedStore Key V Call Out) :
    (AList fun _ : Key => V) → List Call → List (Call × Out)
  | _, [] => []
  | entries, call :: calls =>
    (call, (store.step entries call).2) :: store.answers (store.step entries call).1 calls

/-- Entries that agree on the keys of a kind of calls. -/
def SameFor (store : KeyedStore Key V Call Out) (kept : Call → Bool)
    (first second : AList fun _ : Key => V) : Prop :=
  ∀ call key, kept call = true → store.key call = some key →
    first.lookup key = second.lookup key

variable {store : KeyedStore Key V Call Out} {kept : Call → Bool}
  {first second : AList fun _ : Key => V}

/-- A call of the kind does the same on both sides. -/
theorem SameFor.step_kept (same : store.SameFor kept first second) {call : Call}
    (isKept : kept call = true) :
    (store.step first call).2 = (store.step second call).2 ∧
      store.SameFor kept (store.step first call).1 (store.step second call).1 := by
  cases keyEq : store.key call with
  | none =>
    simp only [step, keyEq]
    exact ⟨trivial, same⟩
  | some key =>
    simp only [step, keyEq]
    rw [same call key isKept keyEq]
    refine ⟨rfl, ?_⟩
    intro other otherKey otherKept otherEq
    rw [lookup_write, lookup_write, same other otherKey otherKept otherEq]

/-- A call of the other kind, on a key that the kind does not use, changes
nothing for the kind. -/
theorem SameFor.step_removed (same : store.SameFor kept first second) {call : Call}
    (apart : ∀ key, store.key call = some key →
      ∀ other, kept other = true → store.key other ≠ some key) :
    store.SameFor kept (store.step first call).1 second := by
  intro other otherKey otherKept otherEq
  cases keyEq : store.key call with
  | none =>
    simp only [step, keyEq]
    exact same other otherKey otherKept otherEq
  | some key =>
    have different : otherKey ≠ key := by
      rintro rfl
      exact apart otherKey keyEq other otherKept otherEq
    simp only [step, keyEq]
    rw [lookup_write, if_neg different]
    exact same other otherKey otherKept otherEq

/-- Where two kinds of calls use different keys, the results of one kind are
the same with and without the calls of the other. -/
theorem answers_filter
    (apart : ∀ call, kept call = false → ∀ key, store.key call = some key →
      ∀ other, kept other = true → store.key other ≠ some key)
    (same : store.SameFor kept first second) (calls : List Call) :
    (store.answers first calls).filter (fun answer => kept answer.1) =
      store.answers second (calls.filter kept) := by
  induction calls generalizing first second with
  | nil => rfl
  | cons call calls ih =>
    cases isKept : kept call with
    | true =>
      obtain ⟨sameOut, sameNext⟩ := same.step_kept isKept
      rw [List.filter_cons_of_pos isKept, answers, answers]
      rw [List.filter_cons_of_pos (by exact isKept), sameOut]
      rw [ih sameNext]
    | false =>
      have notKept : ¬ kept call = true := by
        rw [isKept]
        decide
      rw [List.filter_cons_of_neg notKept, answers]
      rw [List.filter_cons_of_neg (by exact notKept)]
      exact ih (same.step_removed (apart call isKept))

end KeyedStore

/-! ## Logs of updates -/

variable {K V : Type} [DecidableEq K]

/-- Replay updates in order; an update without a value deletes its key. -/
def replayUpdates (updates : List (K × Option V)) (start : K → Option V) : K → Option V :=
  updates.foldl (fun map change => Function.update map change.1 change.2) start

/-- The last update of a key in a log. -/
def lastUpdate (key : K) : List (K × Option V) → Option (Option V)
  | [] => none
  | change :: rest =>
    match lastUpdate key rest with
    | some value => some value
    | none => if change.1 = key then some change.2 else none

/-- The last update decides; a key the log does not mention keeps its value. -/
theorem replayUpdates_apply (updates : List (K × Option V)) (start : K → Option V) (key : K) :
    replayUpdates updates start key = (lastUpdate key updates).getD (start key) := by
  induction updates generalizing start with
  | nil => rfl
  | cons change rest ih =>
    have step : replayUpdates (change :: rest) start =
        replayUpdates rest (Function.update start change.1 change.2) := rfl
    rw [step, ih, lastUpdate]
    cases lastUpdate key rest with
    | some value => rfl
    | none =>
      by_cases same : change.1 = key
      · subst same
        simp
      · simp [same, Function.update_of_ne (Ne.symm same)]

theorem replayUpdates_snoc (updates : List (K × Option V)) (change : K × Option V)
    (start : K → Option V) :
    replayUpdates (updates ++ [change]) start =
      Function.update (replayUpdates updates start) change.1 change.2 := by
  rw [replayUpdates, List.foldl_append]
  rfl

theorem lastUpdate_mem {updates : List (K × Option V)} {key : K} {value : Option V}
    (last : lastUpdate key updates = some value) : (key, value) ∈ updates := by
  induction updates with
  | nil => cases last
  | cons change rest ih =>
    rw [lastUpdate] at last
    cases later : lastUpdate key rest with
    | some found =>
      rw [later] at last
      exact List.mem_cons_of_mem _ (ih (later.trans last))
    | none =>
      rw [later] at last
      dsimp only at last
      split at last
      · rename_i same
        rw [Option.some.injEq] at last
        rw [← same, ← last]
        exact List.mem_cons_self
      · cases last

theorem lastUpdate_of_mem {updates : List (K × Option V)} {key : K} {value : Option V}
    (member : (key, value) ∈ updates) : lastUpdate key updates ≠ none := by
  induction updates with
  | nil => cases member
  | cons change rest ih =>
    rw [lastUpdate]
    rcases List.mem_cons.mp member with rfl | inRest
    · cases lastUpdate key rest with
      | some found => simp
      | none => simp
    · cases later : lastUpdate key rest with
      | some found => simp
      | none => exact absurd later (ih inRest)

/-- A map with only the values that pass a test. -/
def restrict (keep : V → Bool) (map : K → Option V) : K → Option V :=
  fun key => (map key).filter keep

omit [DecidableEq K] in
theorem restrict_restrict {keep later : V → Bool} (map : K → Option V)
    (fewer : ∀ value, later value = true → keep value = true) :
    restrict later (restrict keep map) = restrict later map := by
  funext key
  cases found : map key with
  | none => simp [restrict, found]
  | some value =>
    cases kept : keep value with
    | true => simp only [restrict, found, Option.filter_some, kept, if_true]
    | false =>
      have dropped : later value = false := by
        by_contra passes
        rw [Bool.not_eq_false] at passes
        rw [fewer value passes] at kept
        cases kept
      simp only [restrict, found, Option.filter_some, kept, dropped, Bool.false_eq_true,
        if_false, Option.filter_none]

/-- Values that a later test drops may be left out below the log. -/
theorem restrict_replay {keep later : V → Bool} (updates : List (K × Option V))
    (start : K → Option V) (fewer : ∀ value, later value = true → keep value = true) :
    restrict later (replayUpdates updates (restrict keep start)) =
      restrict later (replayUpdates updates start) := by
  funext key
  have below := congrFun (restrict_restrict start fewer) key
  simp only [restrict, replayUpdates_apply] at below ⊢
  cases lastUpdate key updates with
  | some value => rfl
  | none => exact below

/-- A log may be replayed over a map that already has its effects. -/
theorem restrict_replay_again {keep later : V → Bool} (updates : List (K × Option V))
    (start : K → Option V) (fewer : ∀ value, later value = true → keep value = true) :
    restrict later (replayUpdates updates (restrict keep (replayUpdates updates start))) =
      restrict later (replayUpdates updates start) := by
  rw [restrict_replay updates _ fewer]
  funext key
  simp only [restrict, replayUpdates_apply]
  cases lastUpdate key updates <;> rfl

/-- Loading a listing of a map gives the map back. -/
theorem replayUpdates_listing {items : List V} {keyOf : V → K} {map : K → Option V}
    (listed : ∀ item, item ∈ items ↔ map (keyOf item) = some item)
    (keyed : ∀ key item, map key = some item → keyOf item = key) :
    replayUpdates (items.map fun item => (keyOf item, some item)) (fun _ => none) = map := by
  funext key
  rw [replayUpdates_apply]
  cases last : lastUpdate key (items.map fun item => (keyOf item, some item)) with
  | some value =>
    obtain ⟨item, member, itemEq⟩ := List.mem_map.mp (lastUpdate_mem last)
    rw [Prod.mk.injEq] at itemEq
    rw [Option.getD_some, ← itemEq.2, ← itemEq.1]
    exact ((listed item).mp member).symm
  | none =>
    rw [Option.getD_none]
    cases found : map key with
    | none => rfl
    | some item =>
      have keyEq := keyed key item found
      have member : item ∈ items := (listed item).mpr (by rw [keyEq, found])
      have inUpdates : (key, some item) ∈
          items.map fun item => (keyOf item, some item) :=
        List.mem_map.mpr ⟨item, member, by rw [keyEq]⟩
      exact absurd last (lastUpdate_of_mem inUpdates)

end Plumego.Lib
