/-
Module: Plumego.Proofs.HubRooms
Purpose: The accounts of the hub's rooms over every interleaving of the calls on it: the counter of
  registrations, rooms that are not empty, and the two limits.
Trusted boundary: none
Main exports: WellCounted, tryJoinLocked_cases, WellCounted.step, hub_accounting
-/
import Plumego.Proofs.HubSteps

namespace Plumego.Websocket

open Plumego.Go Plumego.Lib

variable {config : HubConfig} {hub next : Rooms} {room : Bytes} {conn : Nat}

/-! ## Counting pairs -/

/-- The connections of a room, none where there is no room. -/
def Rooms.inRoom (hub : Rooms) (room : Bytes) : Finset Nat := (hub.rooms.lookup room).getD ∅

theorem pairCount_erase (hub : Rooms) (room : Bytes) (registrations : BitVec 64) :
    Rooms.pairCount ⟨hub.rooms.erase room, registrations⟩ + (hub.inRoom room).card = hub.pairCount := by
  unfold Rooms.pairCount Rooms.inRoom
  cases found : hub.rooms.lookup room with
  | none =>
    have same : hub.rooms.erase room = hub.rooms := by
      refine AList.ext ?_
      exact List.kerase_of_notMem_keys (AList.lookup_eq_none.mp found)
    rw [same]
    exact Nat.add_zero _
  | some members =>
    have taken := ((values_erase_perm found).map Finset.card).sum_nat
    rw [taken, List.map_cons, List.sum_cons, Option.getD_some, Nat.add_comm]

/-- Setting the members of a room. -/
theorem pairCount_insert (hub : Rooms) (room : Bytes) (members : Finset Nat)
    (registrations : BitVec 64) :
    Rooms.pairCount ⟨hub.rooms.insert room members, registrations⟩ + (hub.inRoom room).card =
      members.card + hub.pairCount := by
  have erased := pairCount_erase hub room registrations
  have absent : (hub.rooms.erase room).lookup room = none := AList.lookup_erase _ _
  have added := ((values_insert_perm members absent).map Finset.card).sum_nat
  rw [insert_erase, List.map_cons, List.sum_cons] at added
  simp only [Rooms.pairCount] at erased ⊢
  omega

theorem card_le_pairCount {members : Finset Nat} (found : hub.rooms.lookup room = some members) :
    members.card ≤ hub.pairCount := by
  have erased := pairCount_erase hub room hub.roomRegistrations
  rw [Rooms.inRoom, found, Option.getD_some] at erased
  omega

/-- Taking a connection out of all rooms. -/
theorem pairCount_removeConn (hub : Rooms) (conn : Nat) :
    (removeConnLocked hub conn).pairCount +
      ((values hub.rooms).countP fun members => decide (conn ∈ members)) = hub.pairCount := by
  have each : ∀ entries : List (Sigma fun _ : Bytes => Finset Nat),
      ((((entries.filter fun entry => decide (entry.2 ≠ {conn})).map fun entry =>
          entry.2.erase conn)).map Finset.card).sum +
        (entries.map fun entry => entry.2).countP (fun members => decide (conn ∈ members)) =
      ((entries.map fun entry => entry.2).map Finset.card).sum := by
    intro entries
    induction entries with
    | nil => rfl
    | cons entry entries ih =>
      obtain ⟨name, members⟩ := entry
      by_cases only : members = {conn}
      · subst only
        simp only [List.filter_cons, ne_eq, not_true_eq_false, decide_false, Bool.false_eq_true,
          if_false, List.map_cons, List.countP_cons, Finset.mem_singleton, decide_true, if_true,
          List.sum_cons, Finset.card_singleton]
        simp only [ne_eq] at ih
        omega
      · by_cases member : conn ∈ members
        · have smaller := Finset.card_erase_add_one member
          simp only [List.filter_cons, ne_eq, only, not_false_eq_true, decide_true, if_true,
            List.map_cons, List.countP_cons, member, List.sum_cons]
          simp only [ne_eq] at ih
          omega
        · have same := Finset.erase_eq_of_notMem member
          simp only [List.filter_cons, ne_eq, only, not_false_eq_true, decide_true, if_true,
            List.map_cons, List.countP_cons, member, decide_false, Bool.false_eq_true, if_false,
            List.sum_cons, same]
          simp only [ne_eq] at ih
          omega
  have all := each hub.rooms.entries
  simpa only [Rooms.pairCount, removeConnLocked, values, pairs, mapValues, keepEntries, List.map_map,
    Function.comp_def] using all

/-! ## Sections -/

/-- What holds of the rooms between two sections. -/
structure WellCounted (config : HubConfig) (hub : Rooms) : Prop where
  counted : hub.roomRegistrations.toNat = hub.pairCount
  bounded : hub.pairCount < 2 ^ 63
  filled : ∀ room members, hub.rooms.lookup room = some members → members ≠ ∅
  perRoom : 0 < config.maxRoomConns → ∀ room members, hub.rooms.lookup room = some members →
    (members.card : Int) ≤ config.maxRoomConns
  total : 0 < config.maxRoomRegistrations → (hub.pairCount : Int) ≤ config.maxRoomRegistrations

theorem wellCounted_clearRooms (config : HubConfig) : WellCounted config clearRooms where
  counted := rfl
  bounded := by decide
  filled := fun _ _ found => by cases found
  perRoom := fun _ _ _ found => by cases found
  total := fun positive => Int.le_of_lt positive

/-- What the locked section of `tryJoin` does: nothing, or it adds the connection. -/
theorem tryJoinLocked_cases {failure : Option GoError}
    (joined : tryJoinLocked config hub room conn = some (next, failure)) :
    next = hub ∨
      conn ∉ hub.inRoom room ∧
      (0 < config.maxRoomRegistrations →
        hub.roomRegistrations.toInt < config.maxRoomRegistrations) ∧
      (0 < config.maxRoomConns → ((hub.inRoom room).card : Int) < config.maxRoomConns) ∧
      hub.pairCount + 1 < 2 ^ 63 ∧
      next = ⟨hub.rooms.insert room (insert conn (hub.inRoom room)), hub.roomRegistrations + 1⟩ := by
  unfold tryJoinLocked at joined
  by_cases present : hub.has room conn = true
  · rw [if_pos present] at joined
    cases joined
    exact .inl rfl
  · rw [if_neg present] at joined
    have absent : conn ∉ hub.inRoom room := by
      unfold Rooms.has at present
      unfold Rooms.inRoom
      cases found : hub.rooms.lookup room with
      | none => exact Finset.notMem_empty conn
      | some members =>
        rw [found] at present
        exact fun member => present (decide_eq_true member)
    by_cases full : 0 < config.maxRoomRegistrations ∧
        config.maxRoomRegistrations ≤ hub.roomRegistrations.toInt
    · rw [if_pos full] at joined
      cases joined
      exact .inl rfl
    · rw [if_neg full] at joined
      dsimp only at joined
      by_cases crowded : 0 < config.maxRoomConns ∧
          config.maxRoomConns ≤ (((hub.rooms.lookup room).getD ∅).card : Int)
      · rw [if_pos crowded] at joined
        cases found : hub.rooms.lookup room with
        | none =>
          -- a new room is empty, so it is not full
          rw [found, Option.getD_none, Finset.card_empty] at crowded
          omega
        | some members =>
          rw [found] at joined
          cases joined
          exact .inl rfl
      · rw [if_neg crowded] at joined
        have samePairs : Rooms.pairCount
            (if (hub.rooms.lookup room).isNone then { hub with rooms := hub.rooms.insert room ∅ }
              else hub) = hub.pairCount := by
          cases found : hub.rooms.lookup room with
          | none =>
            have added := pairCount_insert hub room ∅ hub.roomRegistrations
            rw [Rooms.inRoom, found, Option.getD_none, Finset.card_empty] at added
            exact added.trans (Nat.zero_add _)
          | some members => rfl
        rw [samePairs] at joined
        by_cases room : hub.pairCount + 1 < 2 ^ 63
        · rw [if_pos room, Option.some.injEq, Prod.mk.injEq] at joined
          refine .inr ⟨absent, fun positive => ?_, fun positive => ?_, room, ?_⟩
          · exact not_le.mp fun reached => full ⟨positive, reached⟩
          · exact not_le.mp fun reached => crowded ⟨positive, reached⟩
          · rw [← joined.1]
            unfold Rooms.inRoom
            split
            · rw [AList.insert_insert]
            · rfl
        · rw [if_neg room] at joined
          cases joined

theorem WellCounted.tryJoinLocked (counts : WellCounted config hub) {failure : Option GoError}
    (joined : tryJoinLocked config hub room conn = some (next, failure)) : WellCounted config next := by
  rcases tryJoinLocked_cases joined with rfl | ⟨absent, below, roomBelow, fits, rfl⟩
  · exact counts
  · have pairs := pairCount_insert hub room (insert conn (hub.inRoom room)) (hub.roomRegistrations + 1)
    rw [Finset.card_insert_of_notMem absent] at pairs
    have counted := counts.counted
    have bounded := counts.bounded
    refine ⟨?_, by omega, ?_, ?_, ?_⟩
    · have one : (1 : BitVec 64).toNat = 1 := rfl
      rw [BitVec.toNat_add, counted, one, Nat.mod_eq_of_lt (by omega)]
      omega
    · intro other members found
      by_cases same : other = room
      · rw [same, AList.lookup_insert, Option.some.injEq] at found
        rw [← found]
        exact Finset.insert_ne_empty conn _
      · rw [AList.lookup_insert_ne same] at found
        exact counts.filled other members found
    · intro positive other members found
      by_cases same : other = room
      · rw [same, AList.lookup_insert, Option.some.injEq] at found
        have space := roomBelow positive
        rw [← found, Finset.card_insert_of_notMem absent]
        omega
      · rw [AList.lookup_insert_ne same] at found
        exact counts.perRoom positive other members found
    · intro positive
      have space := below positive
      rw [BitVec.toInt_eq_toNat_of_lt (by omega), counted] at space
      omega

/-- Adding the complement of a number is subtracting one more. -/
theorem toNat_add_not {registrations : BitVec 64} {count : Nat} (positive : 0 < count)
    (enough : count ≤ registrations.toNat) :
    (registrations + ~~~(BitVec.ofNat 64 (count - 1))).toNat = registrations.toNat - count := by
  have bound := registrations.isLt
  have small : (count - 1) % 2 ^ 64 = count - 1 := Nat.mod_eq_of_lt (by omega)
  rw [BitVec.toNat_add, BitVec.toNat_not, BitVec.toNat_ofNat, small]
  have total : registrations.toNat + (2 ^ 64 - 1 - (count - 1)) =
      registrations.toNat - count + 2 ^ 64 := by omega
  rw [total, Nat.add_mod_right, Nat.mod_eq_of_lt (by omega)]

theorem WellCounted.leaveLocked (counts : WellCounted config hub) (room : Bytes) (conn : Nat) :
    WellCounted config (leaveLocked hub room conn) := by
  unfold Websocket.leaveLocked
  cases found : hub.rooms.lookup room with
  | none => exact counts
  | some members =>
    dsimp only
    by_cases member : conn ∈ members
    · rw [if_pos member]
      have smaller := Finset.card_erase_add_one member
      have within := card_le_pairCount found
      have counted := counts.counted
      have bounded := counts.bounded
      have one : 1 ≤ hub.roomRegistrations.toNat := by omega
      have decreased : (hub.roomRegistrations + ~~~0).toNat = hub.roomRegistrations.toNat - 1 := by
        have subtracted := toNat_add_not Nat.one_pos one
        exact subtracted
      by_cases last : members.erase conn = ∅
      · rw [if_pos last]
        have erased := pairCount_erase hub room (hub.roomRegistrations + ~~~0)
        rw [last, Finset.card_empty] at smaller
        rw [Rooms.inRoom, found, Option.getD_some] at erased
        refine ⟨decreased.trans (by omega), by omega, ?_, ?_, fun positive => ?_⟩
        · exact fun other others inside => counts.filled other others (lookup_of_erase inside)
        · exact fun positive other others inside =>
            counts.perRoom positive other others (lookup_of_erase inside)
        · have total := counts.total positive
          omega
      · rw [if_neg last]
        have changed := pairCount_insert hub room (members.erase conn) (hub.roomRegistrations + ~~~0)
        rw [Rooms.inRoom, found, Option.getD_some] at changed
        refine ⟨decreased.trans (by omega), by omega, ?_, ?_, fun positive => ?_⟩
        · intro other others inside
          by_cases same : other = room
          · rw [same, AList.lookup_insert, Option.some.injEq] at inside
            exact inside ▸ last
          · rw [AList.lookup_insert_ne same] at inside
            exact counts.filled other others inside
        · intro positive other others inside
          by_cases same : other = room
          · rw [same, AList.lookup_insert, Option.some.injEq] at inside
            have before := counts.perRoom positive room members found
            rw [← inside]
            omega
          · rw [AList.lookup_insert_ne same] at inside
            exact counts.perRoom positive other others inside
        · have total := counts.total positive
          omega
    · rw [if_neg member]
      exact counts

theorem lookup_removeConnLocked {members : Finset Nat}
    (found : (removeConnLocked hub conn).rooms.lookup room = some members) :
    ∃ before, hub.rooms.lookup room = some before ∧ before ≠ {conn} ∧ members = before.erase conn := by
  unfold removeConnLocked at found
  rw [lookup_mapValues] at found
  obtain ⟨before, kept, rfl⟩ := Option.map_eq_some_iff.mp found
  obtain ⟨inside, notOnly⟩ := lookup_keepEntries.mp kept
  exact ⟨before, inside, of_decide_eq_true notOnly, rfl⟩

theorem WellCounted.removeConnLocked (counts : WellCounted config hub) (conn : Nat) :
    WellCounted config (removeConnLocked hub conn) := by
  have pairs := pairCount_removeConn hub conn
  have counted := counts.counted
  have bounded := counts.bounded
  refine ⟨?_, by omega, ?_, ?_, fun positive => ?_⟩
  · show BitVec.toNat (if 0 < _ then _ else _) = _
    split
    · rename_i removed
      rw [toNat_add_not removed (by omega)]
      omega
    · omega
  · intro room members found empty
    obtain ⟨before, inside, notOnly, rfl⟩ := lookup_removeConnLocked found
    rcases Finset.erase_eq_empty_iff before conn |>.mp empty with wasEmpty | only
    · exact counts.filled room before inside wasEmpty
    · exact notOnly only
  · intro positive room members found
    obtain ⟨before, inside, -, rfl⟩ := lookup_removeConnLocked found
    have limit := counts.perRoom positive room before inside
    have smaller := Finset.card_erase_le (s := before) (a := conn)
    omega
  · have total := counts.total positive
    omega

/-! ## Runs -/

theorem WellCounted.shrinks (counts : WellCounted config hub) (shrinks : Shrinks hub next) :
    WellCounted config next := by
  cases shrinks with
  | same => exact counts
  | clear => exact wellCounted_clearRooms config
  | leave room conn => exact counts.leaveLocked room conn
  | remove conn => exact counts.removeConnLocked conn

theorem WellCounted.moves {hub moved : Hub} {stage later : Stage} (counts : WellCounted config hub.rooms)
    (moves : Moves config hub stage moved later) : WellCounted config moved.rooms := by
  cases moves with
  | plain shrinks => exact counts.shrinks shrinks
  | join joins joined => exact counts.tryJoinLocked joined
  | clear => exact wellCounted_clearRooms config
  | enqueue job reads readsOn | stop running | close unread | wait exited => exact counts

theorem WellCounted.step {hub after : Hub} {op : HubOp} (counts : WellCounted config hub.rooms)
    (stepped : hubStep config hub op = some after) : WellCounted config after.rooms := by
  cases op with
  | call call =>
    cases stepped
    exact counts
  | advance index choice =>
    obtain ⟨stage, -, went⟩ := Option.bind_eq_some_iff.mp stepped
    obtain ⟨moved, later, moves, rfl⟩ := advance_moves went
    have kept : WellCounted config moved.rooms := counts.moves moves
    exact kept
  | work index quits =>
    obtain ⟨worker, -, went⟩ := Option.bind_eq_some_iff.mp stepped
    obtain ⟨moved, later, works, rfl⟩ := work_works went
    cases works <;> exact counts

/-- In every state that any interleaving of calls and workers goes through: the counter is the number
of pairs of a room and a connection in it, no room is empty, and both limits are kept where they
are positive. -/
theorem hub_accounting (config : HubConfig) (ops : List HubOp) (hub : Hub)
    (reached : (hubMachine config).Reaches (newHub config) ops hub) :
    hub.rooms.roomRegistrations.toNat = hub.rooms.pairCount ∧
      (∀ room members, hub.rooms.rooms.lookup room = some members → members ≠ ∅) ∧
      (0 < config.maxRoomConns → ∀ room members, hub.rooms.rooms.lookup room = some members →
        (members.card : Int) ≤ config.maxRoomConns) ∧
      (0 < config.maxRoomRegistrations →
        (hub.rooms.pairCount : Int) ≤ config.maxRoomRegistrations) := by
  have counts : WellCounted config hub.rooms := by
    have keeps : ∀ (before : Hub) op (after : Hub) out, WellCounted config before.rooms → True →
        (hubMachine config).step before op = some (after, out) → WellCounted config after.rooms := by
      intro before op after out counts _ stepEq
      obtain ⟨found, stepped, same⟩ := Option.map_eq_some_iff.mp stepEq
      cases same
      exact counts.step stepped
    exact Machine.reaches_invariant keeps (wellCounted_clearRooms config)
      (Machine.meets_of_forall (fun _ _ _ => trivial) _) reached
  exact ⟨counts.counted, counts.filled, counts.perRoom, counts.total⟩

/-- The limits of the small hub are ints. -/
theorem smallHub_limits : InInt64 2 ∧ InInt64 1 := ⟨⟨by decide, by decide⟩, by decide, by decide⟩

/-- A hub with room for two registrations, one in each room, and one worker. -/
def smallHub : HubConfig where
  roomNameValidator := defaultRoomNameValidator
  maxRoomRegistrations := 2
  maxRoomConns := 1
  workers := 1
  jobQueueSize := 1
  limits := smallHub_limits
  someWorker := Nat.one_pos

/-- A step in which the rate limiter allows the call, and no connection has closed. -/
def smoothly (order : List Nat) : Choice where
  rateAllows := true
  isClosed := fun _ => false
  cancelled := false
  order := order

/-- A call that takes some steps, the only one so far or the next. -/
def inFull (index steps : Nat) (call : Call) : List HubOp :=
  .call call :: List.replicate steps (.advance index (smoothly [1]))

theorem hub_accounting_twoJoins :
    ∃ hub, (hubMachine smallHub).run (newHub smallHub)
        (inFull 0 4 (.tryJoin (ascii "a") (some 1)) ++ inFull 1 4 (.tryJoin (ascii "a") (some 2))) =
          some hub ∧
      hub.calls = [.returned (.joined none), .returned (.joined (some errRoomFull))] ∧
      hub.rooms.pairCount = 1 ∧ hub.rooms.roomRegistrations.toNat = hub.rooms.pairCount := by
  have ran : ((hubMachine smallHub).run (newHub smallHub)
      (inFull 0 4 (.tryJoin (ascii "a") (some 1)) ++
        inFull 1 4 (.tryJoin (ascii "a") (some 2)))).map
      (fun hub => (hub.calls, hub.rooms.pairCount)) =
      some ([.returned (.joined none), .returned (.joined (some errRoomFull))], 1) := by
    decide +kernel
  obtain ⟨hub, ranEq, same⟩ := Option.map_eq_some_iff.mp ran
  obtain ⟨calls, pairs⟩ := Prod.mk.inj same
  exact ⟨hub, ranEq, calls, pairs, (hub_accounting smallHub _ hub ⟨_, List.prefix_rfl, ranEq⟩).1⟩

end Plumego.Websocket
