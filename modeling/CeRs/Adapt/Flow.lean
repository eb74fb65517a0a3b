import CeRs.Lane.Frames

/-!
# A flow with an adapter in the middle

`serve_flow` stands between the client's ring and the ring of the node.  One
thread takes the client's frames one by one and asks the handler about each:
what the handler forwards goes to the node, and a denial ends the loop.  A second
thread passes the node's frames back as they are.  Either of them closes both
rings when it leaves its loop.
-/

namespace CeRs.Adapt

open Transition

/-- `Action`, what the handler decides for one request. -/
inductive Action
  | forward (bytes : List UInt8)
  | deny (reason : String)
  deriving DecidableEq, Repr

/-- Bytes for the node, with the frame that the handler was asked about; the
frame is not sent. -/
structure Forwarded where
  frame : Lane.Frame
  bytes : List UInt8
  deriving DecidableEq, Repr

/-- The thread of `serve_flow` itself. -/
inductive Main
  | receiving
  | intercepting (frame : Lane.Frame)
  | forwarding (frame : Lane.Frame) (bytes : List UInt8)
  | settling
  | closingDown
  | closingUp
  | joining
  | finished
  deriving DecidableEq, Repr

/-- The thread that passes the node's frames to the client. -/
inductive Relay
  | receiving
  | sending (frame : Option Lane.NodeResp)
  | closingDown
  | closingUp
  | finished

/-- The client's mux, the two threads, and the ring of the node.  `decisions`
lists the frames the handler was asked about, `acted` what the node has taken
off its ring. -/
structure Flow where
  client : Lane.State
  main : Main
  relay : Relay
  decisions : List (Lane.Frame × Action)
  toNode : List Forwarded
  acted : List Forwarded
  fromNode : List (Option Lane.NodeResp)
  nodeClosed : Bool

/-- A step of the client's side, of either thread, or of the node.  A receive or
a send of the threads can fail at any time. -/
inductive FlowLabel
  | client (label : Lane.Label)
  | main
  | mainFailed
  | intercept (action : Action)
  | relay
  | relayFailed
  | nodeReceive
  | nodeSend (frame : Option Lane.NodeResp)
  | nodeClose

/-- The thread that relays is missing if it could not be spawned. -/
def Flow.initial (spawned : Bool) : Flow where
  client := Lane.initial
  main := .receiving
  relay := if spawned then .receiving else .finished
  decisions := []
  toNode := []
  acted := []
  fromNode := []
  nodeClosed := false

/-- What the client's peer does with the client's ring is done by the adapter. -/
def ofClient : Lane.Label → Bool
  | .nodeReceive | .nodeSend _ => false
  | _ => true

def Flow.stepMain (flow : Flow) : Option Flow :=
  match flow.main with
  | .receiving =>
      match flow.client.up with
      | frame :: _ =>
          (Lane.step flow.client .nodeReceive).map fun client =>
            { flow with client, main := .intercepting frame }
      | [] => none
  | .forwarding frame bytes =>
      if flow.nodeClosed then none
      else some { flow with main := .receiving, toNode := flow.toNode ++ [⟨frame, bytes⟩] }
  | .settling => some { flow with main := .closingDown }
  | .closingDown =>
      (Lane.step flow.client .close).map fun client => { flow with client, main := .closingUp }
  | .closingUp => some { flow with main := .joining, nodeClosed := true }
  | .joining =>
      match flow.relay with
      | .finished => some { flow with main := .finished }
      | _ => none
  | .intercepting _ | .finished => none

def Flow.stepRelay (flow : Flow) : Option Flow :=
  match flow.relay with
  | .receiving =>
      match flow.fromNode with
      | frame :: rest => some { flow with relay := .sending frame, fromNode := rest }
      | [] => none
  | .sending frame =>
      (Lane.step flow.client (.nodeSend frame)).map fun client =>
        { flow with client, relay := .receiving }
  | .closingDown =>
      (Lane.step flow.client .close).map fun client => { flow with client, relay := .closingUp }
  | .closingUp => some { flow with relay := .finished, nodeClosed := true }
  | .finished => none

def Flow.step (flow : Flow) : FlowLabel → Option Flow
  | .client label =>
      if ofClient label then
        (Lane.step flow.client label).map fun client => { flow with client }
      else none
  | .main => flow.stepMain
  | .mainFailed =>
      match flow.main with
      | .receiving | .forwarding _ _ => some { flow with main := .settling }
      | _ => none
  | .intercept action =>
      match flow.main with
      | .intercepting frame =>
          some { flow with
            main :=
              match action with
              | .forward bytes => .forwarding frame bytes
              | .deny _ => .settling
            decisions := flow.decisions ++ [(frame, action)] }
      | _ => none
  | .relay => flow.stepRelay
  | .relayFailed =>
      match flow.relay with
      | .receiving | .sending _ => some { flow with relay := .closingDown }
      | _ => none
  | .nodeReceive =>
      match flow.toNode with
      | forwarded :: rest =>
          some { flow with toNode := rest, acted := flow.acted ++ [forwarded] }
      | [] => none
  | .nodeSend frame =>
      if flow.nodeClosed then none else some { flow with fromNode := flow.fromNode ++ [frame] }
  | .nodeClose => some { flow with nodeClosed := true }

def forwarded? : Lane.Frame × Action → Option Forwarded
  | (frame, .forward bytes) => some ⟨frame, bytes⟩
  | (_, .deny _) => none

/-- What the handler has let through, in order. -/
def Flow.forwarded (flow : Flow) : List Forwarded :=
  flow.decisions.filterMap forwarded?

/-- The frame the handler is being asked about. -/
def Main.asking : Main → List Lane.Frame
  | .intercepting frame => [frame]
  | _ => []

/-- What the thread is about to send. -/
def Main.passing : Main → List Forwarded
  | .forwarding frame bytes => [⟨frame, bytes⟩]
  | _ => []

/-- The thread is in its loop. -/
def Main.running : Main → Bool
  | .receiving | .intercepting _ | .forwarding _ _ => true
  | _ => false

/-- Everything a step of the flow can do: what it does to the client, to the
decisions, and to the bytes on their way. -/
inductive FlowMoves (flow : Flow) : Flow → Prop
  | client (label : Lane.Label) (client : Lane.State) (relay : Relay)
      (stepped : Lane.step flow.client label = some client)
      (kept : client.received = flow.client.received) :
      FlowMoves flow { flow with client, relay }
  | took (frame : Lane.Frame) (client : Lane.State) (main : flow.main = .receiving)
      (stepped : Lane.step flow.client .nodeReceive = some client)
      (received : client.received = flow.client.received ++ [frame]) :
      FlowMoves flow { flow with client, main := .intercepting frame }
  | forwarded (frame : Lane.Frame) (bytes : List UInt8)
      (main : flow.main = .intercepting frame) :
      FlowMoves flow { flow with
        main := .forwarding frame bytes
        decisions := flow.decisions ++ [(frame, .forward bytes)] }
  | denied (frame : Lane.Frame) (reason : String) (main : flow.main = .intercepting frame) :
      FlowMoves flow { flow with
        main := .settling
        decisions := flow.decisions ++ [(frame, .deny reason)] }
  | sent (frame : Lane.Frame) (bytes : List UInt8) (main : flow.main = .forwarding frame bytes) :
      FlowMoves flow { flow with main := .receiving, toNode := flow.toNode ++ [⟨frame, bytes⟩] }
  | left (main : Main) (asking : flow.main.asking = []) (outside : main.running = false)
      (silent : main.asking = []) (quiet : main.passing = []) (nodeClosed : Bool) :
      FlowMoves flow { flow with main, nodeClosed }
  | closed (client : Lane.State) (main : flow.main = .closingDown)
      (stepped : Lane.step flow.client .close = some client)
      (kept : client.received = flow.client.received) :
      FlowMoves flow { flow with client, main := .closingUp }
  | acted (bytes : Forwarded) (rest : List Forwarded) (toNode : flow.toNode = bytes :: rest) :
      FlowMoves flow { flow with toNode := rest, acted := flow.acted ++ [bytes] }
  | relayed (relay : Relay) (fromNode : List (Option Lane.NodeResp)) (nodeClosed : Bool) :
      FlowMoves flow { flow with relay, fromNode, nodeClosed }

theorem received_of_moves {client next : Lane.State} {label : Lane.Label}
    (moves : Lane.Moves client label next) (other : label ≠ .nodeReceive) :
    next.received = client.received := by
  cases moves with
  | caller _ _ moves => cases moves <;> rfl
  | writer _ moves => cases moves <;> rfl
  | reader _ moves => cases moves <;> rfl
  | nodeReceived => exact absurd rfl other
  | called | watched | cancelled | droppedReceiver | refused | droppedClient | failed | nodeSent
  | closed => rfl

theorem received_of_step {client next : Lane.State} {label : Lane.Label}
    (stepped : Lane.step client label = some next) (other : label ≠ .nodeReceive) :
    next.received = client.received :=
  received_of_moves (Lane.moves_of_step stepped) other

theorem flowMoves_of_stepMain {flow next : Flow} (stepped : flow.stepMain = some next) :
    FlowMoves flow next := by
  cases main : flow.main with
  | receiving =>
      simp only [Flow.stepMain, main] at stepped
      split at stepped
      case h_1 frame rest up =>
          obtain ⟨client, received, rfl⟩ := Option.map_eq_some_iff.mp stepped
          refine .took frame client main received ?_
          simp only [Lane.step, up, Option.some.injEq] at received
          rw [← received]
      case h_2 => simp at stepped
  | forwarding frame bytes =>
      simp only [Flow.stepMain, main] at stepped
      split at stepped
      case isTrue => simp at stepped
      case isFalse => exact Option.some.inj stepped ▸ .sent frame bytes main
  | settling =>
      simp only [Flow.stepMain, main, Option.some.injEq] at stepped
      exact stepped ▸ .left .closingDown (by rw [main]; rfl) rfl rfl rfl flow.nodeClosed
  | closingDown =>
      simp only [Flow.stepMain, main] at stepped
      obtain ⟨client, closed, rfl⟩ := Option.map_eq_some_iff.mp stepped
      exact .closed client main closed (received_of_step closed (by simp))
  | closingUp =>
      simp only [Flow.stepMain, main, Option.some.injEq] at stepped
      exact stepped ▸ .left .joining (by rw [main]; rfl) rfl rfl rfl true
  | joining =>
      simp only [Flow.stepMain, main] at stepped
      split at stepped
      case h_1 =>
          exact Option.some.inj stepped ▸
            .left .finished (by rw [main]; rfl) rfl rfl rfl flow.nodeClosed
      case h_2 => simp at stepped
  | intercepting frame => simp [Flow.stepMain, main] at stepped
  | finished => simp [Flow.stepMain, main] at stepped

theorem flowMoves_of_stepRelay {flow next : Flow} (stepped : flow.stepRelay = some next) :
    FlowMoves flow next := by
  cases relay : flow.relay with
  | receiving =>
      simp only [Flow.stepRelay, relay] at stepped
      split at stepped
      case h_1 frame rest fromNode =>
          exact Option.some.inj stepped ▸ .relayed (.sending frame) rest flow.nodeClosed
      case h_2 => simp at stepped
  | sending frame =>
      simp only [Flow.stepRelay, relay] at stepped
      obtain ⟨client, sent, rfl⟩ := Option.map_eq_some_iff.mp stepped
      exact .client _ client .receiving sent (received_of_step sent (by simp))
  | closingDown =>
      simp only [Flow.stepRelay, relay] at stepped
      obtain ⟨client, closed, rfl⟩ := Option.map_eq_some_iff.mp stepped
      exact .client _ client .closingUp closed (received_of_step closed (by simp))
  | closingUp =>
      simp only [Flow.stepRelay, relay, Option.some.injEq] at stepped
      exact stepped ▸ .relayed .finished flow.fromNode true
  | finished => simp [Flow.stepRelay, relay] at stepped

theorem flowMoves_of_step {flow next : Flow} {label : FlowLabel}
    (stepped : flow.step label = some next) : FlowMoves flow next := by
  cases label with
  | client label =>
      simp only [Flow.step] at stepped
      split at stepped
      case isTrue own =>
          obtain ⟨client, moved, rfl⟩ := Option.map_eq_some_iff.mp stepped
          refine .client label client flow.relay moved (received_of_step moved ?_)
          rintro rfl
          simp [ofClient] at own
      case isFalse => simp at stepped
  | main => exact flowMoves_of_stepMain stepped
  | mainFailed =>
      cases main : flow.main with
      | receiving =>
          simp only [Flow.step, main, Option.some.injEq] at stepped
          exact stepped ▸ .left .settling (by rw [main]; rfl) rfl rfl rfl flow.nodeClosed
      | forwarding frame bytes =>
          simp only [Flow.step, main, Option.some.injEq] at stepped
          exact stepped ▸ .left .settling (by rw [main]; rfl) rfl rfl rfl flow.nodeClosed
      | _ => simp [Flow.step, main] at stepped
  | intercept action =>
      simp only [Flow.step] at stepped
      split at stepped
      case h_1 frame main =>
          cases action with
          | forward bytes => exact Option.some.inj stepped ▸ .forwarded frame bytes main
          | deny reason => exact Option.some.inj stepped ▸ .denied frame reason main
      case h_2 => simp at stepped
  | relay => exact flowMoves_of_stepRelay stepped
  | relayFailed =>
      simp only [Flow.step] at stepped
      split at stepped
      case h_1 =>
          exact Option.some.inj stepped ▸ .relayed .closingDown flow.fromNode flow.nodeClosed
      case h_2 =>
          exact Option.some.inj stepped ▸ .relayed .closingDown flow.fromNode flow.nodeClosed
      case h_3 => simp at stepped
  | nodeReceive =>
      simp only [Flow.step] at stepped
      split at stepped
      case h_1 bytes rest toNode => exact Option.some.inj stepped ▸ .acted bytes rest toNode
      case h_2 => simp at stepped
  | nodeSend frame =>
      simp only [Flow.step] at stepped
      split at stepped
      case isTrue => simp at stepped
      case isFalse =>
          exact Option.some.inj stepped ▸
            .relayed flow.relay (flow.fromNode ++ [frame]) flow.nodeClosed
  | nodeClose =>
      simp only [Flow.step, Option.some.injEq] at stepped
      exact stepped ▸ .relayed flow.relay flow.fromNode true

/-- What the handler was asked about is what was taken off the client's ring,
and what the node gets is what the handler let through. -/
structure Mediated (flow : Flow) : Prop where
  once : Lane.OneFrame flow.client
  taken : flow.client.received = flow.decisions.map Prod.fst ++ flow.main.asking
  passed : ∃ lost, flow.forwarded = flow.acted ++ flow.toNode ++ flow.main.passing ++ lost ∧
    (flow.main.running = true → lost = [])
  denied : AtEach (fun before _ => ∀ decision ∈ before, (forwarded? decision).isSome)
    flow.decisions
  granted : flow.main.running = true → ∀ decision ∈ flow.decisions, (forwarded? decision).isSome

theorem mediated_initial (spawned : Bool) : Mediated (Flow.initial spawned) where
  once := Lane.oneFrame_initial
  taken := rfl
  passed := ⟨[], rfl, fun _ => rfl⟩
  denied := atEach_nil _
  granted _ decision member := by simp [Flow.initial] at member

theorem forwarded_append (flow : Flow) (frame : Lane.Frame) (action : Action) :
    (flow.decisions ++ [(frame, action)]).filterMap forwarded? =
      flow.forwarded ++ (forwarded? (frame, action)).toList := by
  rw [List.filterMap_append, Flow.forwarded]
  cases action <;> rfl

theorem mediated_of_moves {flow next : Flow} (mediated : Mediated flow)
    (moves : FlowMoves flow next) : Mediated next := by
  obtain ⟨once, taken, ⟨lost, passed, none⟩, denied, granted⟩ := mediated
  cases moves with
  | client label client relay stepped kept =>
      exact ⟨Lane.oneFrame_of_moves once (Lane.moves_of_step stepped), kept.trans taken,
        ⟨lost, passed, none⟩, denied, granted⟩
  | took frame client main stepped received =>
      rw [main] at taken passed none granted
      refine ⟨Lane.oneFrame_of_moves once (Lane.moves_of_step stepped), ?_, ⟨lost, passed, none⟩,
        denied, granted⟩
      rw [received, taken]
      simp [Main.asking]
  | forwarded frame bytes main =>
      rw [main] at taken passed none granted
      have nothing := none rfl
      refine ⟨once, ?_, ⟨[], ?_, fun _ => rfl⟩, ?_, fun _ => ?_⟩
      · rw [taken]
        simp [Main.asking]
      · rw [Flow.forwarded, forwarded_append, passed, nothing]
        simp [Main.passing, forwarded?]
      · exact atEach_concat.mpr ⟨denied, granted rfl⟩
      · rw [List.forall_mem_append, List.forall_mem_singleton]
        exact ⟨granted rfl, rfl⟩
  | denied frame reason main =>
      rw [main] at taken passed none granted
      have nothing := none rfl
      refine ⟨once, ?_, ⟨[], ?_, fun _ => rfl⟩, ?_, fun running => by cases running⟩
      · rw [taken]
        simp [Main.asking]
      · rw [Flow.forwarded, forwarded_append, passed, nothing]
        simp [Main.passing, forwarded?]
      · exact atEach_concat.mpr ⟨denied, granted rfl⟩
  | sent frame bytes main =>
      rw [main] at taken passed none granted
      have nothing := none rfl
      refine ⟨once, taken, ⟨[], ?_, fun _ => rfl⟩, denied, fun _ => granted rfl⟩
      change flow.forwarded = _
      rw [passed, nothing]
      simp [Main.passing]
  | left main asking outside silent quiet nodeClosed =>
      refine ⟨once, ?_, ⟨flow.main.passing ++ lost, ?_, fun running => ?_⟩, denied,
        fun running => ?_⟩
      · rw [taken, asking, silent]
      · change flow.forwarded = _
        rw [passed, quiet]
        simp
      · exact absurd (outside.symm.trans running) Bool.false_ne_true
      · exact absurd (outside.symm.trans running) Bool.false_ne_true
  | closed client main stepped kept =>
      rw [main] at taken passed none granted
      exact ⟨Lane.oneFrame_of_moves once (Lane.moves_of_step stepped), kept.trans taken,
        ⟨lost, passed, fun running => by cases running⟩, denied, fun running => by cases running⟩
  | acted bytes rest toNode =>
      refine ⟨once, taken, ⟨lost, ?_, none⟩, denied, granted⟩
      change flow.forwarded = _
      rw [passed, toNode]
      simp
  | relayed relay fromNode nodeClosed =>
      exact ⟨once, taken, ⟨lost, passed, none⟩, denied, granted⟩

/-- The node acts on what the handler has let through, in that order. -/
theorem Mediated.acted_prefix {flow : Flow} (mediated : Mediated flow) :
    flow.acted <+: flow.forwarded := by
  obtain ⟨lost, passed, -⟩ := mediated.passed
  rw [passed, List.append_assoc, List.append_assoc]
  exact List.prefix_append _ _

/-- A denial is the last decision. -/
theorem Mediated.nil_of_denied {flow : Flow} (mediated : Mediated flow)
    {before after : List (Lane.Frame × Action)} {frame : Lane.Frame} {reason : String}
    (split : flow.decisions = before ++ (frame, .deny reason) :: after) : after = [] := by
  cases after with
  | nil => rfl
  | cons next after =>
      have earlier := mediated.denied (before ++ [(frame, .deny reason)]) next after
        (by simpa using split)
      have granted := earlier _ (List.mem_append_right _ (List.mem_singleton_self _))
      exact absurd granted (by simp [forwarded?])

theorem Mediated.decisions_le_one {flow : Flow} (mediated : Mediated flow) (caller : Nat) :
    flow.decisions.countP (fun decision => decision.1.caller == caller) ≤ 1 := by
  have received := mediated.once.received_le_one caller
  rw [mediated.taken, List.countP_append, List.countP_map] at received
  exact le_trans (Nat.le_add_right _ _) received

end CeRs.Adapt
