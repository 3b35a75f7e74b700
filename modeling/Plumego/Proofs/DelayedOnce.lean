/-
Module: Plumego.Proofs.DelayedOnce
Purpose: Every number is accounted for once: it is with a call that has not pushed its message yet,
  in the heap, with the loop, or ended by an event. So no two events end one number.
Trusted boundary: that of the model; the library behind the heap is any that keeps heaps.
Main exports: ExactlyOnce, delayed_publishing_exactly_once
-/
import Plumego.PubSub.DelayedPublish
import Mathlib.Data.List.Nodup

namespace Plumego.PubSub.Delayed

open Plumego.Lib

variable {Msg : Type}

/-! ## Where a number is -/

/-- The number whose message a call has not pushed yet. -/
def Call.ids : Call Msg → List Nat
  | .stamping _ _ id => [id]
  | .pushing dm => [dm.id]
  | _ => []

/-- The number whose message the loop has taken out and not published yet. -/
def Loop.ids : Loop Msg → List Nat
  | .deleting dm | .publishing dm => [dm.id]
  | _ => []

/-- The number that an event ends. -/
def Event.ended : Event Msg → Option Nat
  | .published dm _ => some dm.id
  | .cancelled id true => some id
  | .cancelled _ false => none

/-- How often a number stands anywhere. -/
def State.count (state : State Msg) (id : Nat) : Nat :=
  (state.calls.flatMap Call.ids).count id + (state.heap.items.map (·.id)).count id +
    state.loop.ids.count id + (state.log.filterMap Event.ended).count id

/-- Every number given out stands in one place at most, and no other stands anywhere. -/
structure Accounts (state : State Msg) : Prop where
  once : ∀ id, state.count id ≤ 1
  fresh : ∀ id, state.nextID < id → state.count id = 0

theorem Accounts.of_count {before after : State Msg} (accounts : Accounts before)
    (given : after.nextID = before.nextID) (same : ∀ id, after.count id = before.count id) :
    Accounts after where
  once id := by rw [same]; exact accounts.once id
  fresh id above := by rw [same]; exact accounts.fresh id (given ▸ above)

/-- What a call holds is exchanged when it goes on. -/
theorem count_set {calls : List (Call Msg)} {place : Nat} {old : Call Msg}
    (found : calls[place]? = some old) (new : Call Msg) (id : Nat) :
    ((calls.set place new).flatMap Call.ids).count id + old.ids.count id =
      (calls.flatMap Call.ids).count id + new.ids.count id := by
  induction calls generalizing place with
  | nil => cases found
  | cons first rest ih =>
    cases place with
    | zero =>
      cases found
      simp only [List.set_cons_zero, List.flatMap_cons, List.count_append]
      omega
    | succ place =>
      have tail := ih found
      simp only [List.set_cons_succ, List.flatMap_cons, List.count_append]
      omega

theorem count_setCall {state : State Msg} {place : Nat} {old : Call Msg}
    (found : state.calls[place]? = some old) (new : Call Msg) (id : Nat) :
    (state.setCall place new).count id + old.ids.count id =
      state.count id + new.ids.count id := by
  have exchanged := count_set found new id
  simp only [State.count, State.setCall]
  omega

theorem count_record (state : State Msg) (event : Event Msg) (id : Nat) :
    (state.record event).count id = state.count id + event.ended.toList.count id := by
  simp only [State.count, State.record, List.filterMap_append, List.count_append]
  cases ended : event.ended with
  | none => simp [ended]
  | some number => simp [ended, Nat.add_assoc]

/-- An item that leaves a heap takes its number with it. -/
theorem count_items {items smaller : List (DelayedMessage Msg)} {dm : DelayedMessage Msg}
    (perm : items.Perm (dm :: smaller)) (id : Nat) :
    (items.map (·.id)).count id = (smaller.map (·.id)).count id + [dm.id].count id := by
  rw [(perm.map _).count_eq id, List.map_cons, List.count_cons, List.count_singleton]

/-! ## The invariant -/

variable [DecidableEq Msg] {library : Library (@fireBefore Msg)} {state : State Msg}

/-- What holds between the steps. -/
structure Sound (library : Library (@fireBefore Msg)) (state : State Msg) : Prop where
  wired : state.heap.Wired
  isHeap : library.Heap state.heap.items
  keyed : ∀ id dm, state.pending id = some dm → dm.id = id
  asked : ∀ id dm, Call.removing id dm ∈ state.calls → dm.id = id
  due : ∀ dm, state.loop = .deleting dm ∨ state.loop = .publishing dm → dm.fireAt ≤ state.now
  logged : ∀ dm when, Event.published dm when ∈ state.log → dm.fireAt ≤ when
  accounts : Accounts state

omit [DecidableEq Msg] in
theorem sound_initial (library : Library (@fireBefore Msg)) (now : Int) :
    Sound library (initial now) where
  wired := Indexed.wired_empty
  isHeap := library.heap_nil
  keyed := by simp [initial]
  asked := by simp [initial]
  due := by simp [initial]
  logged := by simp [initial]
  accounts := ⟨by simp [State.count, initial, Loop.ids, Indexed.empty],
    by simp [State.count, initial, Loop.ids, Indexed.empty]⟩

omit [DecidableEq Msg] in
/-- A call goes on to a point where it asks for the message it was given. -/
theorem asked_set (sound : Sound library state) {place : Nat} {call : Call Msg}
    (right : ∀ id dm, call = .removing id dm → dm.id = id) :
    ∀ id dm, Call.removing id dm ∈ state.calls.set place call → dm.id = id := by
  intro id dm member
  rcases List.mem_or_eq_of_mem_set member with before | now
  · exact sound.asked id dm before
  · exact right id dm now.symm

omit [DecidableEq Msg] in
theorem keyed_update (sound : Sound library state) {key : Nat}
    {value : Option (DelayedMessage Msg)} (right : ∀ dm, value = some dm → dm.id = key) :
    ∀ id dm, Function.update state.pending key value id = some dm → dm.id = id := by
  intro id dm found
  by_cases same : id = key
  · subst same
    rw [Function.update_self] at found
    exact right dm found
  · rw [Function.update_of_ne same] at found
    exact sound.keyed id dm found

omit [DecidableEq Msg] in
theorem logged_record (sound : Sound library state) {event : Event Msg}
    (right : ∀ dm when, event = .published dm when → dm.fireAt ≤ when) :
    ∀ dm when, Event.published dm when ∈ state.log ++ [event] → dm.fireAt ≤ when := by
  intro dm when member
  rcases List.mem_append.mp member with before | now
  · exact sound.logged dm when before
  · exact right dm when (List.mem_singleton.mp now).symm

/-! ## Steps of the calls -/

theorem cancelSection_spec (sound : Sound library state) {id : Nat} {dm : DelayedMessage Msg}
    (asked : dm.id = id) : ∃ next, state.cancelSection library id dm = some next ∧
      Sound library next ∧ next.calls = state.calls := by
  unfold State.cancelSection
  dsimp only
  split
  · rename_i there
    obtain ⟨smaller, removed, perm, wired, isHeap⟩ :=
      sound.wired.remove library sound.isHeap there.2.2
    refine ⟨({ state with heap := smaller } : State Msg).record (.cancelled id true),
      by rw [removed]; rfl, ?_, rfl⟩
    -- The number moves from the heap to the event.
    exact { sound with
      wired := wired
      isHeap := isHeap
      logged := logged_record sound (by simp)
      accounts := sound.accounts.of_count rfl fun number => by
        have moved := count_items perm number
        rw [count_record, ← asked]
        simp only [State.count, Event.ended, Option.toList_some]
        omega }
  · refine ⟨state.record (.cancelled id false), rfl, ?_, rfl⟩
    exact { sound with
      logged := logged_record sound (by simp)
      accounts := sound.accounts.of_count rfl fun number => by
        simp [count_record, Event.ended] }

theorem advance_spec (sound : Sound library state) (place : Nat) :
    ∃ next, state.advance library place = some next ∧ Sound library next := by
  cases found : state.calls[place]? with
  | none => exact ⟨state, by simp [State.advance, found], sound⟩
  | some call =>
    cases call with
    | finished => exact ⟨state, by simp [State.advance, found], sound⟩
    | stamping msg delay id =>
      refine ⟨state.setCall place (.pushing ⟨msg, state.now + delay, id⟩),
        by simp [State.advance, found], ?_⟩
      exact { sound with
        asked := asked_set sound (by simp)
        accounts := sound.accounts.of_count rfl fun number =>
          Nat.add_right_cancel (count_setCall found _ number) }
    | pushing dm =>
      have new : dm ∉ state.heap.items := by
        intro member
        have once := sound.accounts.once dm.id
        have inHeap := List.count_pos_iff.mpr (List.mem_map_of_mem (f := (·.id)) member)
        have inCall : dm.id ∈ state.calls.flatMap Call.ids :=
          List.mem_flatMap.mpr ⟨_, List.mem_of_getElem? found, List.mem_singleton_self _⟩
        have isHeld := List.count_pos_iff.mpr inCall
        unfold State.count at once
        omega
      obtain ⟨larger, pushed, perm, wired, isHeap⟩ :=
        sound.wired.push library sound.isHeap new
      refine ⟨({ state with heap := larger } : State Msg).setCall place (.storing dm),
        by simp [State.advance, found, pushed], ?_⟩
      -- The number moves from the call to the heap.
      exact { sound with
        wired := wired
        isHeap := isHeap
        asked := asked_set sound (by simp)
        accounts := sound.accounts.of_count rfl fun number => by
          have moved := count_items perm number
          have exchanged := count_set found (.storing dm) number
          simp only [State.count, State.setCall, Call.ids, List.count_nil] at exchanged ⊢
          omega }
    | storing dm =>
      refine ⟨({ state with pending := Function.update state.pending dm.id (some dm) } :
        State Msg).setCall place .finished, by simp [State.advance, found], ?_⟩
      exact { sound with
        keyed := keyed_update sound (by simp)
        asked := asked_set sound (by simp)
        accounts := sound.accounts.of_count rfl fun number => count_setCall found _ number }
    | loading id =>
      cases pending : state.pending id with
      | none =>
        refine ⟨(state.record (.cancelled id false)).setCall place .finished,
          by simp [State.advance, found, pending], ?_⟩
        exact { sound with
          asked := asked_set sound (by simp)
          logged := logged_record sound (by simp)
          accounts := sound.accounts.of_count rfl fun number => by
            have exchanged := count_set found .finished number
            have recorded := count_record state (.cancelled id false) number
            simp only [State.count, State.setCall, State.record, Call.ids, Event.ended,
              Option.toList_none, List.count_nil] at exchanged recorded ⊢
            omega }
      | some dm =>
        have key := sound.keyed id dm pending
        refine ⟨({ state with pending := Function.update state.pending id none } :
          State Msg).setCall place (.removing id dm),
          by simp [State.advance, found, pending], ?_⟩
        exact { sound with
          keyed := keyed_update sound (by simp)
          asked := asked_set sound (by rintro _ _ ⟨⟩; exact key)
          accounts := sound.accounts.of_count rfl fun number =>
            count_setCall found _ number }
    | removing id dm =>
      obtain ⟨next, cancelled, nextSound, sameCalls⟩ :=
        cancelSection_spec sound (sound.asked id dm (List.mem_of_getElem? found))
      refine ⟨next.setCall place .finished, by simp [State.advance, found, cancelled], ?_⟩
      exact { nextSound with
        asked := asked_set nextSound (by simp)
        accounts := nextSound.accounts.of_count rfl fun number => by
          rw [← sameCalls] at found
          exact count_setCall found .finished number }

/-! ## Steps of the loop -/

omit [DecidableEq Msg] in
/-- The loop goes on with no message in its hands. -/
theorem Sound.setLoop (sound : Sound library state) (empty : state.loop.ids = [])
    {loop : Loop Msg} (alsoEmpty : loop.ids = []) : Sound library { state with loop := loop } :=
  { sound with
    due := by
      rintro dm (rfl | rfl) <;> cases alsoEmpty
    accounts := sound.accounts.of_count rfl fun number => by
      simp only [State.count, empty, alsoEmpty] }

theorem fireSection_spec (sound : Sound library state) (empty : state.loop.ids = []) :
    ∃ next, state.fireSection library = some next ∧ Sound library next := by
  cases found : state.heap.items[0]? with
  | none =>
    exact ⟨{ state with loop := .looking }, by simp [State.fireSection, found],
      sound.setLoop empty rfl⟩
  | some dm =>
    by_cases early : state.now < dm.fireAt
    · exact ⟨{ state with loop := .looking }, by simp [State.fireSection, found, early],
        sound.setLoop empty rfl⟩
    · obtain ⟨smaller, removed, perm, wired, isHeap⟩ :=
        sound.wired.remove library sound.isHeap found
      refine ⟨{ state with heap := smaller, loop := .deleting dm },
        by simp [State.fireSection, found, early, removed], ?_⟩
      -- The number moves from the heap to the loop.
      exact { sound with
        wired := wired
        isHeap := isHeap
        due := by
          rintro other (⟨⟨⟩⟩ | ⟨⟨⟩⟩)
          exact Int.not_lt.mp early
        accounts := sound.accounts.of_count rfl fun number => by
          have moved := count_items perm number
          have held : state.loop.ids.count number = 0 := by rw [empty, List.count_nil]
          have takes : (Loop.deleting dm).ids.count number = [dm.id].count number := rfl
          simp only [State.count]
          omega }

theorem turn_spec (sound : Sound library state) (byTimer : Bool) :
    ∃ next, state.turn library byTimer = some next ∧ Sound library next := by
  cases loop : state.loop with
  | looking =>
    exact ⟨{ state with loop := .looked (state.heap.items[0]?.map (·.fireAt)) },
      by simp [State.turn, loop], sound.setLoop (by rw [loop]; rfl) rfl⟩
  | looked nextFire =>
    have empty : state.loop.ids = [] := by rw [loop]; rfl
    cases nextFire with
    | none =>
      exact ⟨{ state with loop := .waiting }, by simp [State.turn, loop],
        sound.setLoop empty rfl⟩
    | some nextFire =>
      by_cases isDue : nextFire ≠ zeroTime ∧ nextFire ≤ state.now
      · exact ⟨{ state with loop := .firing }, by simp [State.turn, loop, isDue],
          sound.setLoop empty rfl⟩
      · exact ⟨{ state with loop := .waiting }, by simp only [State.turn, loop, if_neg isDue],
          sound.setLoop empty rfl⟩
  | waiting =>
    refine ⟨{ state with loop := if byTimer then .firing else .looking },
      by simp [State.turn, loop], sound.setLoop (by rw [loop]; rfl) ?_⟩
    cases byTimer <;> rfl
  | firing =>
    obtain ⟨next, fired, nextSound⟩ := fireSection_spec sound (by rw [loop]; rfl)
    exact ⟨next, by simp only [State.turn, loop, fired], nextSound⟩
  | deleting dm =>
    refine ⟨{ state with
      pending := Function.update state.pending dm.id none, loop := .publishing dm },
      by simp [State.turn, loop], ?_⟩
    exact { sound with
      keyed := keyed_update sound (by simp)
      due := by
        rintro other (⟨⟨⟩⟩ | ⟨⟨⟩⟩)
        exact sound.due dm (Or.inl loop)
      accounts := sound.accounts.of_count rfl fun number => by
        simp only [State.count, loop, Loop.ids] }
  | publishing dm =>
    refine ⟨({ state with loop := .looking } : State Msg).record (.published dm state.now),
      by simp [State.turn, loop], ?_⟩
    -- The number moves from the loop to the event.
    exact { sound with
      due := by rintro other (⟨⟨⟩⟩ | ⟨⟨⟩⟩)
      logged := logged_record sound (by
        rintro _ _ ⟨⟩
        exact sound.due dm (Or.inr loop))
      accounts := sound.accounts.of_count rfl fun number => by
        rw [count_record]
        simp only [State.count, loop, Loop.ids, Event.ended, Option.toList_some, List.count_nil]
        omega }

/-! ## Runs -/

theorem step_spec (sound : Sound library state) (action : Action Msg) :
    ∃ next out, step library state action = some (next, out) ∧ Sound library next := by
  cases action with
  | schedule msg delay =>
    refine ⟨_, (), rfl, ?_⟩
    have counted : ∀ id, ((state.calls ++ [Call.stamping msg delay (state.nextID + 1)]).flatMap
        Call.ids).count id = (state.calls.flatMap Call.ids).count id +
          [state.nextID + 1].count id := by
      intro id
      rw [List.flatMap_append, List.count_append]
      rfl
    exact { sound with
      asked := by simpa using sound.asked
      accounts := {
        once := by
          intro id
          have once := sound.accounts.once id
          have fresh := sound.accounts.fresh id
          simp only [State.count, counted, List.count_singleton, beq_iff_eq] at once fresh ⊢
          split <;> omega
        fresh := by
          intro id above
          have fresh := sound.accounts.fresh id
          simp only [State.count, counted, List.count_singleton, beq_iff_eq] at fresh above ⊢
          split <;> omega } }
  | cancel id =>
    refine ⟨_, (), rfl, ?_⟩
    exact { sound with
      asked := by simpa using sound.asked
      accounts := sound.accounts.of_count rfl fun number => by
        simp [State.count, Call.ids] }
  | advance place =>
    obtain ⟨next, advanced, nextSound⟩ := advance_spec sound place
    exact ⟨next, (), by simp [step, advanced], nextSound⟩
  | turn byTimer =>
    obtain ⟨next, turned, nextSound⟩ := turn_spec sound byTimer
    exact ⟨next, (), by simp [step, turned], nextSound⟩
  | tick nanoseconds =>
    refine ⟨_, (), rfl, ?_⟩
    exact { sound with
      due := fun dm held => Int.le_trans (sound.due dm held)
        (Int.le_add_of_nonneg_right (Int.natCast_nonneg nanoseconds))
      accounts := sound.accounts.of_count rfl fun number => rfl }

/-- What is to hold of the events so far, in their order, and of the heap. -/
structure ExactlyOnce (state : State Msg) : Prop where
  publishedOnce : state.log.Pairwise fun earlier later => ∀ first firstAt second secondAt,
    earlier = .published first firstAt → later = .published second secondAt →
      first.id ≠ second.id
  notEarly : ∀ dm when, Event.published dm when ∈ state.log → dm.fireAt ≤ when
  notAfterCancel : state.log.Pairwise fun earlier later => ∀ id dm when,
    earlier = .cancelled id true → later = .published dm when → dm.id ≠ id
  cancelledOnce : state.log.Pairwise fun earlier later => ∀ id,
    earlier = .cancelled id true → later ≠ .cancelled id true
  indexed : ∀ (place : Nat) dm, state.heap.items[place]? = some dm → state.heap.index dm = place

omit [DecidableEq Msg] in
theorem Sound.exactlyOnce (sound : Sound library state) : ExactlyOnce state := by
  have nodup : (state.log.filterMap Event.ended).Nodup := by
    rw [List.nodup_iff_count_le_one]
    intro id
    have once := sound.accounts.once id
    unfold State.count at once
    omega
  have apart := List.pairwise_filterMap.mp nodup
  exact {
    publishedOnce := apart.imp (by
      rintro _ _ differ first firstAt second secondAt rfl rfl
      exact differ first.id rfl second.id rfl)
    notEarly := sound.logged
    notAfterCancel := apart.imp (by
      rintro _ _ differ id dm when rfl rfl
      exact Ne.symm (differ id rfl dm.id rfl))
    cancelledOnce := apart.imp (by
      rintro _ _ differ id rfl rfl
      exact differ id rfl id rfl rfl)
    indexed := sound.wired.aligned }

/-- Whatever the calls and the loop do in whatever order, no step indexes out of range, and at every
point what is to hold does. -/
theorem delayed_publishing_exactly_once (library : Library (@fireBefore Msg)) (now : Int)
    (actions : List (Action Msg)) :
    ((machine library).run (initial now) actions).isSome = true ∧
      ∀ state, (machine library).Reaches (initial now) actions state → ExactlyOnce state := by
  have keeps : ∀ before action, Sound library before →
      ∃ after out, (machine library).step before action = some (after, out) ∧
        Sound library after := fun before action sound => step_spec sound action
  obtain ⟨ran, throughout⟩ :=
    Machine.reaches_total keeps (sound_initial library now) actions
  exact ⟨ran, fun state reached => (throughout state reached).exactlyOnce⟩

end Plumego.PubSub.Delayed
