/-
Module: Plumego.Proofs.HubOrder
Purpose: A hub with one worker writes the jobs in the order in which the broadcasts enqueued them.
Trusted boundary: none
Main exports: InOrder, InOrder.step, one_worker_in_order
-/
import Plumego.Proofs.HubStop

namespace Plumego.Websocket

open Plumego.Go Plumego.Lib

variable {config : HubConfig} {hub after : Hub}

/-- The only worker holds the job between those that are written and those that wait. -/
def InOrder (hub : Hub) : Prop :=
  ∃ worker, hub.workers = [worker] ∧ hub.enqueued = hub.written ++ (worker.held ++ hub.jobQueue)

theorem InOrder.step {op : HubOp} (order : InOrder hub) (stepped : hubStep config hub op = some after) :
    InOrder after := by
  obtain ⟨worker, only, jobs⟩ := order
  cases op with
  | call call =>
    cases stepped
    exact ⟨worker, only, jobs⟩
  | advance index choice =>
    obtain ⟨stage, -, went⟩ := Option.bind_eq_some_iff.mp stepped
    obtain ⟨moved, later, moves, rfl⟩ := advance_moves went
    cases moves with
    | enqueue job =>
      refine ⟨worker, only, ?_⟩
      show hub.enqueued ++ [job] = hub.written ++ (worker.held ++ (hub.jobQueue ++ [job]))
      rw [jobs, List.append_assoc, List.append_assoc]
    | _ => exact ⟨worker, only, jobs⟩
  | work index quits =>
    obtain ⟨working, found, went⟩ := Option.bind_eq_some_iff.mp stepped
    obtain ⟨moved, next, works, rfl⟩ := work_works went
    rw [only, List.getElem?_singleton] at found
    split_ifs at found with first
    cases found
    subst first
    have alone : hub.workers.set 0 next = [next] := by rw [only]; rfl
    -- a job goes from the queue to the worker, or from the worker to those that are written
    cases works with
    | receive queue | drain queue => exact ⟨_, alone, jobs.trans (by rw [queue]; rfl)⟩
    | write job | drainWrite job => exact ⟨_, alone, jobs.trans (List.append_assoc _ [job] _).symm⟩
    | quit | exit => exact ⟨_, alone, jobs⟩

/-- With one worker, at every moment of every interleaving, the jobs that were enqueued are those that
are written, in their order, then the one that the worker holds, if any, then those that wait. -/
theorem one_worker_in_order (config : HubConfig) (one : config.workers = 1) (ops : List HubOp) (hub : Hub)
    (reached : (hubMachine config).Reaches (newHub config) ops hub) :
    ∃ worker, hub.workers = [worker] ∧
      hub.enqueued = hub.written ++ (worker.held ++ hub.jobQueue) := by
  have order : InOrder hub := by
    refine Machine.reaches_invariant (fun before op next out order _ stepEq => ?_) ?_
      (Machine.meets_of_forall (fun _ _ _ => trivial) _) reached
    · obtain ⟨found, stepped, same⟩ := Option.map_eq_some_iff.mp stepEq
      cases same
      exact order.step stepped
    · exact ⟨.idle, congrArg (List.replicate · _) one, rfl⟩
  exact order

/-- One worker, a broadcast and the stop of the hub. -/
theorem one_worker_in_order_broadcast :
    ∃ hub, (hubMachine smallHub).run (newHub smallHub) broadcastThenStop = some hub ∧
      ∃ worker, hub.workers = [worker] ∧
        hub.enqueued = hub.written ++ (worker.held ++ hub.jobQueue) := by
  have ran : ((hubMachine smallHub).run (newHub smallHub) broadcastThenStop).isSome := by decide +kernel
  obtain ⟨hub, ranEq⟩ := Option.isSome_iff_exists.mp ran
  exact ⟨hub, ranEq, one_worker_in_order smallHub rfl _ hub ⟨_, List.prefix_rfl, ranEq⟩⟩

end Plumego.Websocket
