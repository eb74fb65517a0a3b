import CeRs.Adapt.ServeFlow

/-!
# A client's flow as one of any flow

A flow whose app is a client's mux, and whose upstream is the node, is an
arbitrary flow: the mux is a peer that sends the frames its writer puts into the
ring, and the decisions of its handler are those of some handler.  Every run of
the former is a run of the latter.
-/

namespace CeRs.Adapt

open Transition
open ServeFlow (FlowHandler)

/-- The handler that decides as it is told beforehand. -/
def scripted : FlowHandler Lane.Frame (List Action) where
  intercept
    | action :: rest, _ => (action, rest)
    | [], _ => (.deny "", [])
  onClose script := script

/-- The decision that is an input of the step. -/
def FlowLabel.decided : FlowLabel → List Action
  | .intercept action => [action]
  | _ => []

def Main.view : Main → ServeFlow.Main Lane.Frame
  | .receiving => .receiving
  | .intercepting frame => .intercepting frame
  | .forwarding _ bytes => .forwarding bytes
  | .settling => .settling
  | .closingDown => .closingDown
  | .closingUp => .closingUp
  | .joining => .joining
  | .finished => .finished

def Relay.view : Relay → ServeFlow.Relay (Option Lane.NodeResp)
  | .receiving => .receiving
  | .sending frame => .sending frame
  | .closingDown => .closingDown
  | .closingUp => .closingUp
  | .finished => .finished

/-- What the adapter sees of the client and of the node. -/
def Flow.view (script : List Action) (flow : Flow) :
    ServeFlow.Flow Lane.Frame (Option Lane.NodeResp) (List Action) where
  session := script
  main := flow.main.view
  relay := flow.relay.view
  fromApp := flow.client.up
  fromUpstream := flow.fromNode
  downClosed := flow.client.closed
  upClosed := flow.nodeClosed

theorem view_initial (script : List Action) (spawned : Bool) :
    (Flow.initial spawned).view script = ServeFlow.Flow.initial script spawned := by
  cases spawned <;> rfl

theorem ring_of_moves {client next : Lane.State} {label : Lane.Label}
    (moves : Lane.Moves client label next) (own : ofClient label = true) :
    (next.up = client.up ∧ next.closed = client.closed) ∨
      (next.up = client.up ∧ next.closed = true) ∨
      ∃ frame, client.closed = false ∧ next.up = client.up ++ [frame] ∧
        next.closed = client.closed := by
  cases moves with
  | caller _ _ moves => exact .inl (by cases moves <;> exact ⟨rfl, rfl⟩)
  | writer _ moves =>
      cases moves with
      | sent frame writer alive => exact .inr (.inr ⟨frame, alive, rfl, rfl⟩)
      | closed => exact .inr (.inl ⟨rfl, rfl⟩)
      | took | hungUp | marked | dropped => exact .inl ⟨rfl, rfl⟩
  | reader _ moves =>
      cases moves with
      | closed => exact .inr (.inl ⟨rfl, rfl⟩)
      | took | garbled | pushed | matched | unmatched | answered | marked | cleared | ended =>
          exact .inl ⟨rfl, rfl⟩
  | nodeReceived | nodeSent => simp [ofClient] at own
  | closed => exact .inr (.inl ⟨rfl, rfl⟩)
  | called | watched | cancelled | droppedReceiver | refused | droppedClient | failed =>
      exact .inl ⟨rfl, rfl⟩

/-- A step of the flow is a step of the adapter or of a peer, or it is hidden in
one of them. -/
def Matched (script : List Action) (flow : Flow) (rest : List Action) (next : Flow) : Prop :=
  ∃ labels, execute (ServeFlow.step scripted) (flow.view script) labels = some (next.view rest)

theorem Matched.hidden {script : List Action} {flow next : Flow}
    (same : next.view script = flow.view script) : Matched script flow script next :=
  ⟨[], by rw [same]; rfl⟩

theorem Matched.single {script rest : List Action} {flow next : Flow}
    (label : ServeFlow.Label Lane.Frame (Option Lane.NodeResp))
    (stepped : ServeFlow.step scripted (flow.view script) label = some (next.view rest)) :
    Matched script flow rest next :=
  ⟨[label], by simp [stepped]⟩

theorem matched_of_client {flow : Flow} {client : Lane.State} {label : Lane.Label}
    (script : List Action) (own : ofClient label = true)
    (stepped : Lane.step flow.client label = some client) :
    Matched script flow script { flow with client } := by
  rcases ring_of_moves (Lane.moves_of_step stepped) own with ⟨up, closed⟩ | ⟨up, closed⟩ |
    ⟨frame, isOpen, up, closed⟩
  · exact .hidden (by simp [Flow.view, up, closed])
  · exact .single .appClose (by simp [Flow.view, ServeFlow.step, up, closed])
  · exact .single (.appSend frame) (by simp [Flow.view, ServeFlow.step, up, closed, isOpen])

theorem matched_of_stepMain {flow next : Flow} (script : List Action)
    (stepped : flow.stepMain = some next) : Matched script flow script next := by
  apply Matched.single .main
  cases main : flow.main with
  | receiving =>
      simp only [Flow.stepMain, main] at stepped
      split at stepped
      case h_1 frame rest up =>
          simp only [Lane.step, up, Option.map_some, Option.some.injEq] at stepped
          simp [← stepped, ServeFlow.step, ServeFlow.stepMain, Flow.view, main, Main.view, up]
      case h_2 => simp at stepped
  | forwarding frame bytes =>
      simp only [Flow.stepMain, main] at stepped
      split at stepped
      case isTrue => simp at stepped
      case isFalse isOpen =>
          simp only [Option.some.injEq] at stepped
          simp [← stepped, ServeFlow.step, ServeFlow.stepMain, Flow.view, main, Main.view, isOpen]
  | settling | closingDown | closingUp =>
      simp only [Flow.stepMain, Lane.step, main, Option.map_some, Option.some.injEq] at stepped
      simp [← stepped, ServeFlow.step, ServeFlow.stepMain, Flow.view, main, Main.view, scripted]
  | joining =>
      simp only [Flow.stepMain, main] at stepped
      split at stepped
      case h_1 relay =>
          simp only [Option.some.injEq] at stepped
          simp [← stepped, ServeFlow.step, ServeFlow.stepMain, Flow.view, main, Main.view, relay,
            Relay.view]
      case h_2 => simp at stepped
  | intercepting | finished => simp [Flow.stepMain, main] at stepped

theorem matched_of_stepRelay {flow next : Flow} (script : List Action)
    (stepped : flow.stepRelay = some next) : Matched script flow script next := by
  apply Matched.single .relay
  cases relay : flow.relay with
  | receiving =>
      simp only [Flow.stepRelay, relay] at stepped
      split at stepped
      case h_1 frame rest fromNode =>
          simp only [Option.some.injEq] at stepped
          simp [← stepped, ServeFlow.step, ServeFlow.stepRelay, Flow.view, relay, Relay.view,
            fromNode]
      case h_2 => simp at stepped
  | sending frame =>
      simp only [Flow.stepRelay, relay, Lane.step] at stepped
      split at stepped
      case isTrue => simp at stepped
      case isFalse isOpen =>
          simp only [Option.map_some, Option.some.injEq] at stepped
          simp [← stepped, ServeFlow.step, ServeFlow.stepRelay, Flow.view, relay, Relay.view,
            isOpen]
  | closingDown | closingUp =>
      simp only [Flow.stepRelay, Lane.step, relay, Option.map_some, Option.some.injEq] at stepped
      simp [← stepped, ServeFlow.step, ServeFlow.stepRelay, Flow.view, relay, Relay.view]
  | finished => simp [Flow.stepRelay, relay] at stepped

theorem matched_of_step {flow next : Flow} {label : FlowLabel} (rest : List Action)
    (stepped : flow.step label = some next) :
    Matched (label.decided ++ rest) flow rest next := by
  cases label with
  | client label =>
      simp only [Flow.step] at stepped
      split at stepped
      case isTrue own =>
          obtain ⟨client, moved, rfl⟩ := Option.map_eq_some_iff.mp stepped
          exact matched_of_client rest own moved
      case isFalse => simp at stepped
  | main => exact matched_of_stepMain rest stepped
  | mainFailed =>
      apply Matched.single .mainFailed
      cases main : flow.main with
      | receiving | forwarding =>
          simp only [Flow.step, main, Option.some.injEq] at stepped
          simp [← stepped, ServeFlow.step, Flow.view, main, Main.view, FlowLabel.decided]
      | _ => simp [Flow.step, main] at stepped
  | intercept action =>
      apply Matched.single .main
      simp only [Flow.step] at stepped
      split at stepped
      case h_1 frame main =>
          simp only [Option.some.injEq] at stepped
          cases action with
          | forward bytes | deny reason =>
              simp [← stepped, ServeFlow.step, ServeFlow.stepMain, Flow.view, main, Main.view,
                FlowLabel.decided, scripted]
      case h_2 => simp at stepped
  | relay => exact matched_of_stepRelay rest stepped
  | relayFailed =>
      apply Matched.single .relayFailed
      cases relay : flow.relay with
      | receiving | sending =>
          simp only [Flow.step, relay, Option.some.injEq] at stepped
          simp [← stepped, ServeFlow.step, Flow.view, relay, Relay.view, FlowLabel.decided]
      | _ => simp [Flow.step, relay] at stepped
  | nodeReceive =>
      simp only [Flow.step] at stepped
      split at stepped
      case h_1 bytes others toNode =>
          simp only [Option.some.injEq] at stepped
          exact .hidden (by simp [← stepped, Flow.view, FlowLabel.decided])
      case h_2 => simp at stepped
  | nodeSend frame =>
      simp only [Flow.step] at stepped
      split at stepped
      case isTrue => simp at stepped
      case isFalse isOpen =>
          simp only [Option.some.injEq] at stepped
          apply Matched.single (.upstreamSend frame)
          simp [← stepped, ServeFlow.step, Flow.view, FlowLabel.decided, isOpen]
  | nodeClose =>
      simp only [Flow.step, Option.some.injEq] at stepped
      apply Matched.single .upstreamClose
      simp [← stepped, ServeFlow.step, Flow.view, FlowLabel.decided]

theorem matched_of_execute {flow final : Flow} {trace : List FlowLabel}
    (reached : execute Flow.step flow trace = some final) :
    Matched (trace.flatMap FlowLabel.decided) flow [] final := by
  induction trace generalizing flow with
  | nil =>
      obtain rfl := Option.some.inj reached
      exact .hidden rfl
  | cons label rest induction =>
      obtain ⟨next, stepped, later⟩ := Option.bind_eq_some_iff.mp reached
      obtain ⟨first, before⟩ := matched_of_step (rest.flatMap FlowLabel.decided) stepped
      obtain ⟨second, after⟩ := induction later
      exact ⟨first ++ second, execute_append_eq_some.mpr ⟨_, before, after⟩⟩

/-- Every run of the client's flow is one of `serve_flow` with a handler that
decides as the run says, and what its client and node do is what some app and
some upstream do. -/
theorem serveFlow_of_execute {final : Flow} {spawned : Bool} {trace : List FlowLabel}
    (reached : execute Flow.step (Flow.initial spawned) trace = some final) :
    ∃ labels, execute (ServeFlow.step scripted)
        (ServeFlow.Flow.initial (trace.flatMap FlowLabel.decided) spawned) labels =
      some (final.view []) := by
  obtain ⟨labels, matched⟩ := matched_of_execute reached
  exact ⟨labels, view_initial _ spawned ▸ matched⟩

end CeRs.Adapt
