import CeRs.Lane.Mux
import CeRs.Transition

/-!
# The frames from the node

The ring hands the node's frames to the reader in the order in which they were
sent, and the reader deals with one after the other: what was sent is what has
been dealt with, the frame that the reader holds, and what is still in the ring.
-/

namespace CeRs.Lane

open Transition

/-- A frame that the reader has dealt with, and the caller whose sender it was
matched with. -/
structure Routed where
  frame : Option NodeResp
  caller : Option Nat

/-- The frame that a step of the reader deals with. -/
def routed (state : State) : Label → List Routed
  | .reader =>
      match state.reader with
      | .receiving =>
          if state.closed then []
          else
            match state.down with
            | none :: _ => [⟨none, none⟩]
            | _ => []
      | .routing response =>
          match response.result with
          | .ok (.event _) => [⟨some response, none⟩]
          | _ =>
              [⟨some response,
                (state.pending.find? fun entry => entry.1 == response.id).map Prod.snd⟩]
      | _ => []
  | _ => []

/-- The frames that the reader deals with in a run. -/
def dealt (state : State) (trace : List Label) : List (Option NodeResp) :=
  (emitted step routed state trace).map Routed.frame

/-- The frame that the node sends in a step. -/
def sends (_ : State) : Label → List (Option NodeResp)
  | .nodeSend frame => [frame]
  | _ => []

/-- The frames that the node sends in a run. -/
def sent (state : State) (trace : List Label) : List (Option NodeResp) :=
  emitted step sends state trace

/-- The frame that the reader has taken off the ring. -/
def State.reading (state : State) : List (Option NodeResp) :=
  match state.reader with
  | .routing response => [some response]
  | _ => []

theorem routed_of_notEvent {state : State} {response : NodeResp}
    (reader : state.reader = .routing response)
    (notEvent : ∀ message, response.result ≠ .ok (.event message)) :
    routed state .reader =
      [⟨some response,
        (state.pending.find? fun entry => entry.1 == response.id).map Prod.snd⟩] := by
  simp only [routed, reader]

theorem routed_of_routing {state : State} {response : NodeResp}
    (reader : state.reader = .routing response) :
    (routed state .reader).map Routed.frame = [some response] := by
  simp only [routed, reader]
  split <;> rfl

theorem fifo_of_readerMoves {state next : State} (moves : ReaderMoves state next) :
    state.reading ++ state.down =
      (routed state .reader).map Routed.frame ++ (next.reading ++ next.down) := by
  cases moves with
  | took response rest reader alive down => simp [State.reading, routed, reader, alive, down]
  | garbled rest reader alive down => simp [State.reading, routed, reader, alive, down]
  | pushed id message reader => simp [State.reading, routed, reader, deliver]
  | matched response entry reader notEvent found =>
      simp [routed_of_notEvent reader notEvent, State.reading, reader]
  | unmatched response reader notEvent missing =>
      simp [routed_of_notEvent reader notEvent, State.reading, reader]
  | answered index answer reader => simp [State.reading, routed, reader]
  | marked reader | closed reader | cleared reader | ended reader =>
      simp [State.reading, routed, reader]

/-- One step: what is sent enters the ring at its end, and what is dealt with
leaves at the front. -/
theorem fifo_of_moves {state next : State} {label : Label} (moves : Moves state label next) :
    state.reading ++ state.down ++ sends state label =
      (routed state label).map Routed.frame ++ (next.reading ++ next.down) := by
  cases moves with
  | reader _ moves => simpa [sends] using fifo_of_readerMoves moves
  | caller _ _ moves => cases moves <;> simp [sends, routed, State.reading, State.moveTo]
  | writer _ moves => cases moves <;> simp [sends, routed, State.reading]
  | failed reader => simp [sends, routed, State.reading, reader]
  | called | watched | cancelled | droppedReceiver | droppedClient | refused | nodeReceived
  | nodeSent | closed => simp [sends, routed, State.reading, State.moveTo]

/-- A whole run: the frames are dealt with in the order in which they were sent. -/
theorem fifo_of_execute {state final : State} {trace : List Label}
    (reached : execute step state trace = some final) :
    state.reading ++ state.down ++ sent state trace =
      dealt state trace ++ (final.reading ++ final.down) := by
  induction trace generalizing state with
  | nil =>
      obtain rfl : state = final := by simpa using reached
      simp [sent, dealt, emitted]
  | cons label rest induction =>
      obtain ⟨next, stepped, later⟩ := Option.bind_eq_some_iff.mp reached
      have one := fifo_of_moves (moves_of_step stepped)
      have rest := induction later
      simp only [sent, dealt, emitted, stepped, List.map_append] at rest ⊢
      rw [← List.append_assoc, one, List.append_assoc, rest, List.append_assoc]

end CeRs.Lane
