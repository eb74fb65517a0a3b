import CeRs.Serve.Loop

/-!
# Filtering at the source is invisible

A service that names its topics lets the node filter the stream, and over the
lane it gets the full one.  Traffic that the loop does not serve leaves no trace
in it: not in the de-duplication set, not in the backoff, not in what it does.
So the loop cannot tell the two streams apart.
-/

namespace CeRs.Serve

open Transition

/-- A message that the loop reads and drops: on a foreign topic, or no request. -/
def Unwanted (config : Config) (message : AppMessage) : Prop :=
  config.accept message.topic = false ∨ message.replyToken = none

instance (config : Config) (message : AppMessage) : Decidable (Unwanted config message) :=
  inferInstanceAs (Decidable (_ ∨ _))

/-- Everything but the reading of such messages. -/
def visible (config : Config) : Event → Bool
  | .read _ message => !decide (Unwanted config message)
  | _ => true

def State.shown (config : Config) (state : State) : State :=
  { state with history := state.history.filter (visible config) }

/-- The inputs that come through a filter of the messages. -/
def passes (admits : AppMessage → Bool) : Input → Bool
  | .item message => admits message
  | _ => true

variable {config : Config} {state next : State} {input : Input}

@[simp] theorem visible_of_ne {config : Config} {event : Event}
    (other : ∀ connection message, event ≠ .read connection message) :
    visible config event = true := by
  cases event with
  | read connection message => exact (other connection message rfl).elim
  | _ => rfl

@[simp] theorem shown_mk (config : Config) (point : Point) (seen : Finset UInt64)
    (backoffMs : Nat) (ready : Bool) (connection : Nat) (history : List Event) :
    State.shown config ⟨point, seen, backoffMs, ready, connection, history⟩ =
      ⟨point, seen, backoffMs, ready, connection, history.filter (visible config)⟩ := rfl

@[simp] theorem shown_backoffMs (config : Config) (state : State) :
    (state.shown config).backoffMs = state.backoffMs := rfl

@[simp] theorem shown_ready (config : Config) (state : State) :
    (state.shown config).ready = state.ready := rfl

@[simp] theorem shown_history (config : Config) (state : State) :
    (state.shown config).history = state.history.filter (visible config) := rfl

end CeRs.Serve
