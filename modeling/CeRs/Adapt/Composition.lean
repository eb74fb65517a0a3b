import CeRs.Adapt.Handlers
import CeRs.Adapt.Links

/-!
# A chain is one adapter

Whatever the app, the node and the threads of all adapters do, in any order, an
adapter is asked what the adapters before it let through and nothing else, and
the node gets what one adapter would forward that asks all handlers in turn.
Replies pass through unchanged.
-/

namespace CeRs.AdapterChain

open Transition Network
open Adapt (Action)
open ServeFlow

section Single

variable {Request Reply Session : Type} {handler : FlowHandler Request Session}
  {session : Session} {trace : List (ServeFlow.Label Request Reply)}
  {history : List (Event Request Reply)} {flow : Flow Request Reply Session}

theorem requests_isPrefix (served : Served handler session trace history flow) :
    history.filterMap Event.request? <+: trace.filterMap ServeFlow.Label.fromApp? := by
  rw [served.asked, List.append_assoc]
  exact List.prefix_append _ _

theorem forwarded_isPrefix (served : Served handler session trace history flow) :
    history.filterMap Event.forwarded? <+:
      handler.forwards session (trace.filterMap ServeFlow.Label.fromApp?) := by
  obtain ⟨passed, beyond, asked, actions, -⟩ := served.upstream
  have received : trace.filterMap ServeFlow.Label.fromApp? =
      passed ++ (beyond ++ (flow.main.asking ++ flow.fromApp)) := by
    rw [served.asked, asked]
    simp only [List.append_assoc]
  rw [received, FlowHandler.forwards_append actions]
  exact List.prefix_append _ _

theorem relayed_isPrefix (relayed : Relayed trace history flow) :
    history.filterMap Event.relayed? <+: trace.filterMap ServeFlow.Label.fromUpstream? := by
  obtain ⟨lost, received, -⟩ := relayed
  rw [received, List.append_assoc, List.append_assoc]
  exact List.prefix_append _ _

end Single

variable {count : Nat} {Session : Fin count → Type}
  {handlers : ∀ place, FlowHandler Frame (Session place)}
  {sessions : ∀ place, Session place} {spawned : Fin count → Bool}
  {trace : List (Label count)} {chain : Chain Session}

theorem fromApp_isPrefix (linked : Linked handlers sessions spawned trace chain)
    (place : Fin count) :
    (traceAt handlers place sessions spawned trace).filterMap ServeFlow.Label.fromApp? <+:
      (inTurn handlers place.val place.isLt.le).forwards sessions
        (trace.filterMap Label.app?) := by
  obtain ⟨index, inside⟩ := place
  induction index with
  | zero =>
      rw [linked.app ⟨0, inside⟩ rfl, forwards_inTurn_zero]
  | succ index induction =>
      have before := induction (Nat.lt_of_succ_lt inside)
      have served := (accounted_at ⟨index, Nat.lt_of_succ_lt inside⟩ linked.reached).served
      rw [linked.upward ⟨index, Nat.lt_of_succ_lt inside⟩ ⟨index + 1, inside⟩ rfl,
        forwards_inTurn_succ]
      exact (forwarded_isPrefix served).trans (FlowHandler.forwards_isPrefix before _)

theorem fromUpstream_isPrefix (linked : Linked handlers sessions spawned trace chain)
    (place : Fin count) :
    (traceAt handlers place sessions spawned trace).filterMap ServeFlow.Label.fromUpstream? <+:
      trace.filterMap Label.node? := by
  by_cases last : place.val + 1 = count
  · rw [linked.node place last]
  · have inside : place.val + 1 < count := by omega
    rw [linked.downward place ⟨place.val + 1, inside⟩ rfl]
    have relayed := (accounted_at ⟨place.val + 1, inside⟩ linked.reached).relayed
    exact (relayed_isPrefix relayed).trans (fromUpstream_isPrefix linked ⟨place.val + 1, inside⟩)
termination_by count - place.val

/-- What passes through the chain, at each of its adapters. -/
structure Composed (handlers : ∀ place, FlowHandler Frame (Session place))
    (sessions : ∀ place, Session place) (spawned : Fin count → Bool)
    (trace : List (Label count)) : Prop where
  asked : ∀ place : Fin count,
    (seenAt handlers place sessions spawned trace).filterMap Event.request? <+:
      (inTurn handlers place.val place.isLt.le).forwards sessions (trace.filterMap Label.app?)
  forwarded : ∀ place : Fin count,
    (seenAt handlers place sessions spawned trace).filterMap Event.forwarded? <+:
      (inTurn handlers (place.val + 1) place.isLt).forwards sessions
        (trace.filterMap Label.app?)
  relayed : ∀ place : Fin count,
    (seenAt handlers place sessions spawned trace).filterMap Event.relayed? <+:
      trace.filterMap Label.node?

/-- In every run of every chain, requests pass the handlers in turn and replies
pass unchanged. -/
theorem composed_of_execute
    (reached : execute (step handlers) (initial sessions spawned) trace = some chain) :
    Composed handlers sessions spawned trace := by
  have linked := linked_of_execute reached
  constructor
  case asked =>
    intro place
    have served := (accounted_at place reached).served
    exact (requests_isPrefix served).trans (fromApp_isPrefix linked place)
  case forwarded =>
    intro place
    have served := (accounted_at place reached).served
    rw [forwards_inTurn_succ]
    exact (forwarded_isPrefix served).trans
      (FlowHandler.forwards_isPrefix (fromApp_isPrefix linked place) _)
  case relayed =>
    intro place
    have relayed := (accounted_at place reached).relayed
    exact (relayed_isPrefix relayed).trans (fromUpstream_isPrefix linked place)

/-- Two adapters with some credit each. -/
def metered : ∀ _ : Fin 2, FlowHandler Frame Nat := fun _ => budget

def credits (place : Fin 2) : Nat := if place = 0 then 2 else 1

/-- The app asks twice, the second adapter has credit for one request, and the node
answers it. -/
def meteredRun : List (Label 2) :=
  [.appSend [1], .appSend [2], .thread 0 .main, .thread 0 .main, .thread 0 .main,
    .thread 1 .main, .thread 1 .main, .thread 1 .main, .nodeSend [9], .thread 1 .relay,
    .thread 1 .relay, .thread 0 .relay, .thread 0 .main, .thread 0 .relay, .thread 0 .main,
    .thread 0 .main, .thread 1 .main, .thread 1 .main]

theorem meteredRun_isSome :
    (execute (step metered) (initial credits fun _ => true) meteredRun).isSome = true := by
  decide +kernel

theorem composed_of_execute_metered :
    Composed metered credits (fun _ => true) meteredRun ∧
      (seenAt metered 0 credits (fun _ => true) meteredRun).filterMap Event.forwarded? =
        [[1], [2]] ∧
      (seenAt metered 1 credits (fun _ => true) meteredRun).filterMap Event.forwarded? =
        [[1]] := by
  obtain ⟨chain, reached⟩ := Option.isSome_iff_exists.mp meteredRun_isSome
  exact ⟨composed_of_execute reached, by decide +kernel, by decide +kernel⟩

end CeRs.AdapterChain
