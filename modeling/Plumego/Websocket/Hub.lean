/-
Module: Plumego.Websocket.Hub
Purpose: The websocket hub: its rooms with their counter, its workers and the calls on it, as one
  state machine over every interleaving of their sections.
Trusted boundary: each section under a lock is one step, and so is each load, store and channel
  operation. A connection is its address. What the rate limiter answers, which connections have
  closed, when a context is cancelled and in which order a map is listed is left open. A connection
  does not close within a section. The maps hold fewer than 2^63 entries: a program that would need
  more has ended. Metrics other than the counter of registrations, the security monitor and the
  log are left out.
Main exports: HubConfig, Rooms, Stage, Worker, Hub, advance, work, hubMachine
-/
import Mathlib.Data.Finset.Sort
import Plumego.Go.Maps
import Plumego.Go.Time
import Plumego.Lib.Machine

namespace Plumego.Websocket

open Plumego.Go Plumego.Lib

/-! ## Configuration -/

/-- `ErrHubFull`. -/
def errHubFull : GoError := .new "websocket: hub at capacity"

/-- `ErrRoomFull`. -/
def errRoomFull : GoError := .new "websocket: room at capacity"

/-- `ErrHubStopped`. -/
def errHubStopped : GoError := .new "websocket: hub stopped"

/-- `ErrRateLimitExceeded`. -/
def errRateLimitExceeded : GoError := .new "websocket: rate limit exceeded"

/-- `ErrNilConn`. -/
def errNilConn : GoError := .new "websocket: connection is nil"

/-- `ErrInvalidRoomName`. -/
def errInvalidRoomName : GoError := .new "websocket: invalid room name"

/-- A character of a room name. -/
def roomNameByte (c : UInt8) : Bool :=
  (0x61 ≤ c && c ≤ 0x7a) || (0x41 ≤ c && c ≤ 0x5a) || (0x30 ≤ c && c ≤ 0x39) ||
    c == 0x2e || c == 0x5f || c == 0x3a || c == 0x2d

/-- `defaultRoomNameValidator`. -/
def defaultRoomNameValidator (room : Bytes) : Option GoError :=
  if room = [] ∨ 128 < room.length then some errInvalidRoomName
  else if room.all roomNameByte then none
  else some errInvalidRoomName

/-- What the hub reads of its configuration once it is normalized. -/
structure HubConfig where
  roomNameValidator : Bytes → Option GoError
  maxRoomRegistrations : Int
  maxRoomConns : Int
  workers : Nat
  jobQueueSize : Nat
  /-- The limits are ints. -/
  limits : InInt64 maxRoomRegistrations ∧ InInt64 maxRoomConns
  /-- There is a worker: zero was replaced by the default. -/
  someWorker : 0 < workers

/-! ## Rooms -/

/-- The rooms of a hub, and beside them the counter of registrations. -/
structure Rooms where
  rooms : StringMap (Finset Nat)
  roomRegistrations : BitVec 64
deriving DecidableEq

/-- The number of pairs of a room and a connection in it. -/
def Rooms.pairCount (hub : Rooms) : Nat := ((values hub.rooms).map Finset.card).sum

/-- Whether a connection is in a room. -/
def Rooms.has (hub : Rooms) (room : Bytes) (conn : Nat) : Bool :=
  match hub.rooms.lookup room with
  | none => false
  | some members => decide (conn ∈ members)

/-- `clearRooms`. -/
def clearRooms : Rooms where
  rooms := ∅
  roomRegistrations := 0

/-- The section of `tryJoin` under the lock. -/
def tryJoinLocked (config : HubConfig) (hub : Rooms) (room : Bytes) (conn : Nat) :
    Option (Rooms × Option GoError) :=
  if hub.has room conn then some (hub, none)
  else if 0 < config.maxRoomRegistrations ∧
      config.maxRoomRegistrations ≤ hub.roomRegistrations.toInt then
    some (hub, some errHubFull)
  else
    let members := (hub.rooms.lookup room).getD ∅
    let hub := if (hub.rooms.lookup room).isNone then { hub with rooms := hub.rooms.insert room ∅ } else hub
    if 0 < config.maxRoomConns ∧ config.maxRoomConns ≤ members.card then some (hub, some errRoomFull)
    else if hub.pairCount + 1 < 2 ^ 63 then
      some ({ rooms := hub.rooms.insert room (insert conn members)
              roomRegistrations := hub.roomRegistrations + 1 }, none)
    else none

/-- The section of `Leave` under the lock. -/
def leaveLocked (hub : Rooms) (room : Bytes) (conn : Nat) : Rooms :=
  match hub.rooms.lookup room with
  | none => hub
  | some members =>
    if conn ∈ members then
      { rooms :=
          if members.erase conn = ∅ then hub.rooms.erase room
          else hub.rooms.insert room (members.erase conn)
        roomRegistrations := hub.roomRegistrations + ~~~0 }
    else hub

/-- The section of `RemoveConn` under the lock: a room of which the connection is the only member is
deleted, and every other room goes on without it. -/
def removeConnLocked (hub : Rooms) (conn : Nat) : Rooms :=
  let removedCount := (values hub.rooms).countP fun members => decide (conn ∈ members)
  { rooms := mapValues (fun _ members => members.erase conn)
      (keepEntries (fun _ members => decide (members ≠ {conn})) hub.rooms)
    roomRegistrations :=
      if 0 < removedCount then hub.roomRegistrations + ~~~(BitVec.ofNat 64 (removedCount - 1))
      else hub.roomRegistrations }

/-! ## Calls -/

/-- `hubJob`. -/
structure Job where
  conn : Nat
  op : UInt8
  data : Bytes
deriving DecidableEq, Repr

/-- `BroadcastResult`. -/
structure BroadcastResult where
  attempted : Nat
  enqueued : Nat
  skipped : Nat
  dropped : Nat
  stopped : Bool
  invalid : Bool
deriving DecidableEq, Repr

/-- `BroadcastResult{}`. -/
def BroadcastResult.zero : BroadcastResult := ⟨0, 0, 0, 0, false, false⟩

/-- A call on the hub. -/
inductive Call where
  | tryJoin (room : Bytes) (conn : Option Nat)
  | leave (room : Bytes) (conn : Option Nat)
  | removeConn (conn : Option Nat)
  | tryBroadcastRoom (room : Bytes) (op : UInt8) (data : Bytes)
  | tryBroadcastAll (op : UInt8) (data : Bytes)
  | stop
  | shutdown
deriving DecidableEq, Repr

/-- What a call returned; of a `Stop`, whether it was the one that stopped the hub. -/
inductive Outcome where
  | joined (failure : Option GoError)
  | left
  | broadcast (result : BroadcastResult)
  | stopped (first : Bool)
deriving DecidableEq, Repr

/-- Where a call is, by what it does next. -/
inductive Stage where
  | called (call : Call)
  | looking (room : Bytes) (conn : Nat)
  | limiting (room : Bytes) (conn : Nat)
  | entering (room : Bytes) (conn : Nat)
  | collecting (room : Option Bytes) (op : UInt8) (data : Bytes)
  | dispatching (conns : List Nat) (op : UInt8) (data : Bytes) (skipped : Nat)
  | sending (conns : List Nat) (op : UInt8) (data : Bytes) (skipped : Nat) (result : BroadcastResult)
  | closingConns (conns : List Nat)
  | closing
  | waiting
  | clearing
  | returned (outcome : Outcome)
deriving DecidableEq, Repr

/-- A worker, by what it does next. -/
inductive Worker where
  | idle
  | writing (job : Job)
  | draining
  | drainWriting (job : Job)
  | exited
deriving DecidableEq, Repr

/-- The hub with the calls on it. Beside it are the jobs that were counted as enqueued and those that
were passed to `writeJob`, which no step reads. -/
structure Hub where
  rooms : Rooms
  stopped : Bool
  quit : Bool
  jobQueue : List Job
  workers : List Worker
  calls : List Stage
  enqueued : List Job
  written : List Job
deriving DecidableEq

/-- `newHubWithNormalizedConfig`. -/
def newHub (config : HubConfig) : Hub where
  rooms := clearRooms
  stopped := false
  quit := false
  jobQueue := []
  workers := List.replicate config.workers .idle
  calls := []
  enqueued := []
  written := []

/-- What is left open in a step. -/
structure Choice where
  rateAllows : Bool
  isClosed : Nat → Bool
  cancelled : Bool
  order : List Nat

/-- The connections that a broadcast goes to: those of a room, or of all rooms. -/
def Rooms.members (hub : Rooms) : Option Bytes → Finset Nat
  | some room => (hub.rooms.lookup room).getD ∅
  | none => (values hub.rooms).foldr (· ∪ ·) ∅

/-- How many closed connections a broadcast skips, in each room. -/
def Rooms.closedCount (hub : Rooms) (isClosed : Nat → Bool) : Option Bytes → Nat
  | some room => (((hub.rooms.lookup room).getD ∅).filter fun conn => isClosed conn).card
  | none => ((values hub.rooms).map fun members =>
    (members.filter fun conn => isClosed conn).card).sum

/-- A call goes on. -/
def Hub.goTo (hub : Hub) (index : Nat) (stage : Stage) : Hub :=
  { hub with calls := hub.calls.set index stage }

/-- The checks of a call before its first section. -/
def begin (config : HubConfig) (hub : Hub) (index : Nat) : Call → Hub
  | .tryJoin room conn =>
    if hub.stopped then hub.goTo index (.returned (.joined (some errHubStopped)))
    else
      match config.roomNameValidator room, conn with
      | some failure, _ => hub.goTo index (.returned (.joined (some failure)))
      | none, none => hub.goTo index (.returned (.joined (some errNilConn)))
      | none, some conn => hub.goTo index (.looking room conn)
  | .leave room conn =>
    match conn, config.roomNameValidator room with
    | some conn, none =>
      { hub with rooms := leaveLocked hub.rooms room conn }.goTo index (.returned .left)
    | _, _ => hub.goTo index (.returned .left)
  | .removeConn conn =>
    match conn with
    | none => hub.goTo index (.returned .left)
    | some conn => { hub with rooms := removeConnLocked hub.rooms conn }.goTo index (.returned .left)
  | .tryBroadcastRoom room op data =>
    if hub.stopped then
      hub.goTo index (.returned (.broadcast { BroadcastResult.zero with stopped := true }))
    else if (config.roomNameValidator room).isSome then
      hub.goTo index (.returned (.broadcast { BroadcastResult.zero with invalid := true }))
    else hub.goTo index (.collecting (some room) op data)
  | .tryBroadcastAll op data =>
    if hub.stopped then
      hub.goTo index (.returned (.broadcast { BroadcastResult.zero with stopped := true }))
    else hub.goTo index (.collecting none op data)
  | .stop =>
    if hub.stopped then hub.goTo index (.returned (.stopped false))
    else { hub with stopped := true }.goTo index .closing
  | .shutdown =>
    -- the connections are collected under the read lock
    hub.goTo index (.closingConns ((hub.rooms.members none).sort (· ≤ ·)))

/-- Whether a call holds the lifecycle lock for reading. -/
def Stage.reads : Stage → Bool
  | .sending .. => true
  | _ => false

/-- One step of a call; `none` where it has to wait, or where the choice is none of the program. -/
def advance (config : HubConfig) (hub : Hub) (index : Nat) (choice : Choice) : Stage → Option Hub
  | .called call => some (begin config hub index call)
  | .looking room conn =>
    if hub.rooms.has room conn then some (hub.goTo index (.returned (.joined none)))
    else some (hub.goTo index (.limiting room conn))
  | .limiting room conn =>
    if choice.rateAllows then some (hub.goTo index (.entering room conn))
    else some (hub.goTo index (.returned (.joined (some errRateLimitExceeded))))
  | .entering room conn =>
    (tryJoinLocked config hub.rooms room conn).map fun result =>
      { hub with rooms := result.1 }.goTo index (.returned (.joined result.2))
  | .collecting room op data =>
    let members := hub.rooms.members room
    let skipped := hub.rooms.closedCount choice.isClosed room
    let chosen := members.filter fun conn => !choice.isClosed conn
    if choice.order.Nodup ∧ choice.order.toFinset = chosen then
      if choice.order = [] then
        some (hub.goTo index
          (.returned (.broadcast { BroadcastResult.zero with skipped := skipped })))
      else some (hub.goTo index (.dispatching choice.order op data skipped))
    else none
  | .dispatching conns op data skipped =>
    -- `stopped` is read under the lifecycle lock
    if hub.stopped then
      some (hub.goTo index (.returned (.broadcast
        { attempted := conns.length, enqueued := 0, skipped := skipped, dropped := conns.length
          stopped := true, invalid := false })))
    else
      some (hub.goTo index (.sending conns op data skipped
        { BroadcastResult.zero with attempted := conns.length }))
  | .sending [] _ _ skipped result =>
    some (hub.goTo index
      (.returned (.broadcast { result with skipped := result.skipped + skipped })))
  | .sending (conn :: conns) op data skipped result =>
    if choice.isClosed conn then
      some (hub.goTo index
        (.sending conns op data skipped { result with skipped := result.skipped + 1 }))
    else if hub.jobQueue.length < config.jobQueueSize then
      some ({ hub with
          jobQueue := hub.jobQueue ++ [Job.mk conn op data]
          enqueued := hub.enqueued ++ [Job.mk conn op data] }.goTo index
        (.sending conns op data skipped { result with enqueued := result.enqueued + 1 }))
    else
      some (hub.goTo index
        (.sending conns op data skipped { result with dropped := result.dropped + 1 }))
  | .closingConns [] => some ({ hub with rooms := clearRooms }.goTo index (.called .stop))
  | .closingConns (_ :: conns) =>
    if choice.cancelled then some (hub.goTo index (.called .stop))
    else some (hub.goTo index (.closingConns conns))
  | .closing =>
    if hub.calls.any Stage.reads then none
    else some ({ hub with quit := true }.goTo index .waiting)
  | .waiting =>
    if hub.workers.all (· = .exited) then some (hub.goTo index .clearing) else none
  | .clearing => some ({ hub with rooms := clearRooms }.goTo index (.returned (.stopped true)))
  | .returned _ => none

/-! ## Workers -/

/-- A worker goes on. -/
def Hub.workerGoesTo (hub : Hub) (index : Nat) (worker : Worker) : Hub :=
  { hub with workers := hub.workers.set index worker }

/-- One step of a worker. Where a `select` can receive a job and sees that the hub quits, it is left
open which it does. -/
def work (hub : Hub) (index : Nat) (quits : Bool) : Worker → Option Hub
  | .idle =>
    if quits then if hub.quit then some (hub.workerGoesTo index .draining) else none
    else
      match hub.jobQueue with
      | [] => none
      | job :: jobs => some ({ hub with jobQueue := jobs }.workerGoesTo index (.writing job))
  | .writing job =>
    some ({ hub with written := hub.written ++ [job] }.workerGoesTo index .idle)
  | .draining =>
    match hub.jobQueue with
    | [] => some (hub.workerGoesTo index .exited)
    | job :: jobs => some ({ hub with jobQueue := jobs }.workerGoesTo index (.drainWriting job))
  | .drainWriting job =>
    some ({ hub with written := hub.written ++ [job] }.workerGoesTo index .draining)
  | .exited => none

/-! ## Runs -/

/-- What happens next. -/
inductive HubOp where
  | call (call : Call)
  | advance (index : Nat) (choice : Choice)
  | work (index : Nat) (quits : Bool)

/-- One step. -/
def hubStep (config : HubConfig) (hub : Hub) : HubOp → Option Hub
  | .call call => some { hub with calls := hub.calls ++ [.called call] }
  | .advance index choice => (hub.calls[index]?).bind (advance config hub index choice)
  | .work index quits => (hub.workers[index]?).bind (work hub index quits)

/-- The hub as a machine. -/
def hubMachine (config : HubConfig) : Machine Hub HubOp Unit where
  step := fun hub op => (hubStep config hub op).map fun next => (next, ())

end Plumego.Websocket
