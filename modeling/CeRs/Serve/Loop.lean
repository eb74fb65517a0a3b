import CeRs.Hex
import CeRs.Transition
import Mathlib.Data.Finset.Card

/-!
# The serve loop

`serve_where_signal` opens the inbound message stream, subscribes every topic
in turn, and then answers requests until the stream breaks, starting over from
the top.  The loop runs on one task, so its state between two awaits is a
program point together with the local variables; each input is the outcome of
the await the loop is suspended in, and every outcome the environment could
choose is an input.  The `history` records what the loop did, in order; the
source keeps no such list.
-/

namespace CeRs.Serve

/-- `AppMessage`, the decoded form of one frame of the message stream. -/
structure AppMessage where
  sender : String
  topic : String
  payloadHex : String
  receivedAt : UInt64
  replyToken : Option UInt64
  deriving DecidableEq, Repr

/-- `AppMessage::payload`. -/
def AppMessage.payload (message : AppMessage) : Option (List UInt8) :=
  Hex.decode message.payloadHex

/-- `Request`, what a handler receives; `sender` is the source's `from`. -/
structure Request where
  sender : String
  topic : String
  payload : List UInt8
  deriving DecidableEq, Repr

/-- The arguments of `serve_where_signal` that decide its control flow.
`signalled` says that a readiness flag was passed. -/
structure Config where
  subscribe : List String
  accept : String → Bool
  signalled : Bool

/-- One thing the loop did or observed. -/
inductive Event
  | opened (connection : Nat)
  | openFailed
  | confirmed (topic : String)
  | refused (topic : String)
  | waited (milliseconds : Nat)
  | read (connection : Nat) (message : AppMessage)
  | cleared
  | recorded (token : UInt64)
  | handled (connection : Nat) (token : UInt64) (request : Request)
  | posted (token : UInt64) (reply : List UInt8)
  | answered (token : UInt64)
  deriving DecidableEq, Repr

/-- Where the loop is suspended. -/
inductive Point
  | opening
  | subscribing (topic : String) (rest : List String)
  | backingOff
  | receiving
  | handling (token : UInt64) (request : Request)
  | replying (token : UInt64)
  | returned
  deriving DecidableEq, Repr

structure State where
  point : Point
  seen : Finset UInt64
  backoffMs : Nat
  ready : Bool
  connection : Nat
  history : List Event

/-- The outcome of the await the loop is suspended in. -/
inductive Input
  | openOk
  | openErr
  | subscribeOk
  | subscribeErr
  | slept
  | shutdown
  | item (message : AppMessage)
  | streamErr
  | streamEnd
  | handlerReturned (reply : List UInt8)
  | replyOk
  | replyErr
  deriving DecidableEq, Repr

def State.log (state : State) (event : Event) : State :=
  { state with history := state.history ++ [event] }

/-- The loop as it is first entered. -/
def initial : State where
  point := .opening
  seen := ∅
  backoffMs := 250
  ready := false
  connection := 0
  history := []

/-- The bound on the de-duplication set. -/
def dedupLimit : Nat := 100000

def State.record (state : State) (token : UInt64) : State :=
  { state.log (.recorded token) with seen := insert token state.seen }

def State.clear (state : State) : State :=
  { state.log .cleared with seen := ∅ }

/-- Record a token, emptying the set first once it would pass its bound. -/
def State.remember (state : State) (token : UInt64) : State :=
  if dedupLimit < (insert token state.seen).card then state.clear.record token
  else state.record token

/-- `answer_one`, up to the point where the handler has been called. -/
def answerOne (config : Config) (state : State) (message : AppMessage) : State :=
  if ¬ config.accept message.topic then state
  else
    match message.replyToken with
    | none => state
    | some token =>
        if token ∈ state.seen then state
        else
          let state := state.remember token
          match message.payload with
          | none => state
          | some payload =>
              let request := ⟨message.sender, message.topic, payload⟩
              { state.log (.handled state.connection token request) with
                point := .handling token request }

/-- The `for` loop over the topics still to be subscribed; past the last one
the flag is set, the backoff reset, and the loop starts to receive. -/
def subscribeFrom (config : Config) (state : State) : List String → State
  | topic :: rest => { state with point := .subscribing topic rest }
  | [] =>
      { state with
        point := .receiving
        ready := state.ready || config.signalled
        backoffMs := 250 }

/-- Resume the loop with the outcome of its await. -/
def step (config : Config) (state : State) : Input → Option State
  | .openOk =>
      match state.point with
      | .opening =>
          let connection := state.connection + 1
          some (subscribeFrom config
            { state.log (.opened connection) with connection } config.subscribe)
      | _ => none
  | .openErr =>
      match state.point with
      | .opening => some { state.log .openFailed with point := .backingOff }
      | _ => none
  | .subscribeOk =>
      match state.point with
      | .subscribing topic rest =>
          some (subscribeFrom config (state.log (.confirmed topic)) rest)
      | _ => none
  | .subscribeErr =>
      match state.point with
      | .subscribing topic _ => some { state.log (.refused topic) with point := .backingOff }
      | _ => none
  | .slept =>
      match state.point with
      | .backingOff =>
          some { state.log (.waited state.backoffMs) with
            point := .opening
            backoffMs := min (state.backoffMs * 2) 10000 }
      | _ => none
  | .shutdown =>
      match state.point with
      | .backingOff | .receiving => some { state with point := .returned }
      | _ => none
  | .item message =>
      match state.point with
      | .receiving =>
          some (answerOne config (state.log (.read state.connection message)) message)
      | _ => none
  | .streamErr | .streamEnd =>
      match state.point with
      | .receiving => some { state with point := .opening }
      | _ => none
  | .handlerReturned reply =>
      match state.point with
      | .handling token _ => some { state.log (.posted token reply) with point := .replying token }
      | _ => none
  | .replyOk =>
      match state.point with
      | .replying token => some { state.log (.answered token) with point := .receiving }
      | _ => none
  | .replyErr =>
      match state.point with
      | .replying _ => some { state with point := .receiving }
      | _ => none

@[simp] theorem log_history (state : State) (event : Event) :
    (state.log event).history = state.history ++ [event] := rfl

@[simp] theorem log_point (state : State) (event : Event) :
    (state.log event).point = state.point := rfl

@[simp] theorem log_seen (state : State) (event : Event) :
    (state.log event).seen = state.seen := rfl

@[simp] theorem log_ready (state : State) (event : Event) :
    (state.log event).ready = state.ready := rfl

@[simp] theorem log_connection (state : State) (event : Event) :
    (state.log event).connection = state.connection := rfl

@[simp] theorem log_backoffMs (state : State) (event : Event) :
    (state.log event).backoffMs = state.backoffMs := rfl

@[simp] theorem remember_point (state : State) (token : UInt64) :
    (state.remember token).point = state.point := by
  unfold State.remember
  split <;> rfl

@[simp] theorem remember_ready (state : State) (token : UInt64) :
    (state.remember token).ready = state.ready := by
  unfold State.remember
  split <;> rfl

@[simp] theorem remember_connection (state : State) (token : UInt64) :
    (state.remember token).connection = state.connection := by
  unfold State.remember
  split <;> rfl

@[simp] theorem remember_backoffMs (state : State) (token : UInt64) :
    (state.remember token).backoffMs = state.backoffMs := by
  unfold State.remember
  split <;> rfl

/-- What recording a token adds to the history. -/
def State.marks (state : State) (token : UInt64) : List Event :=
  if dedupLimit < (insert token state.seen).card then [.cleared, .recorded token]
  else [.recorded token]

@[simp] theorem remember_history (state : State) (token : UInt64) :
    (state.remember token).history = state.history ++ state.marks token := by
  unfold State.remember State.marks
  split <;> simp [State.record, State.clear]

theorem mem_marks {state : State} {token : UInt64} {event : Event}
    (member : event ∈ state.marks token) :
    event = .cleared ∨ event = .recorded token := by
  unfold State.marks at member
  split at member <;> simp_all

/-- The four ways a delivery can go; the last one is the only one that calls
the handler. -/
inductive Delivery (config : Config) (state : State) (message : AppMessage) :
    State → Prop
  | unwanted (foreign : config.accept message.topic = false ∨ message.replyToken = none) :
      Delivery config state message state
  | duplicate (token : UInt64) (accepted : config.accept message.topic = true)
      (request : message.replyToken = some token) (known : token ∈ state.seen) :
      Delivery config state message state
  | undecodable (token : UInt64) (accepted : config.accept message.topic = true)
      (request : message.replyToken = some token) (fresh : token ∉ state.seen)
      (garbled : message.payload = none) :
      Delivery config state message (state.remember token)
  | called (token : UInt64) (payload : List UInt8)
      (accepted : config.accept message.topic = true)
      (request : message.replyToken = some token) (fresh : token ∉ state.seen)
      (decoded : message.payload = some payload) :
      Delivery config state message
        { (state.remember token).log
            (.handled state.connection token ⟨message.sender, message.topic, payload⟩) with
          point := .handling token ⟨message.sender, message.topic, payload⟩ }

theorem delivery_answerOne (config : Config) (state : State) (message : AppMessage) :
    Delivery config state message (answerOne config state message) := by
  cases accepted : config.accept message.topic with
  | false => simpa [answerOne, accepted] using Delivery.unwanted (.inl accepted)
  | true =>
      cases request : message.replyToken with
      | none => simpa [answerOne, accepted, request] using Delivery.unwanted (.inr request)
      | some token =>
          by_cases known : token ∈ state.seen
          · simpa [answerOne, accepted, request, known] using
              Delivery.duplicate token accepted request known
          · cases decoded : message.payload with
            | none =>
                simpa [answerOne, accepted, request, known, decoded] using
                  Delivery.undecodable token accepted request known decoded
            | some payload =>
                simpa [answerOne, accepted, request, known, decoded] using
                  Delivery.called token payload accepted request known decoded

/-- Everything one step of the loop can do. -/
inductive Moves (config : Config) (state : State) : Input → State → Prop
  | opened (point : state.point = .opening) :
      Moves config state .openOk
        (subscribeFrom config { state.log (.opened (state.connection + 1)) with
          connection := state.connection + 1 } config.subscribe)
  | openFailed (point : state.point = .opening) :
      Moves config state .openErr { state.log .openFailed with point := .backingOff }
  | subscribed (topic : String) (rest : List String)
      (point : state.point = .subscribing topic rest) :
      Moves config state .subscribeOk
        (subscribeFrom config (state.log (.confirmed topic)) rest)
  | refused (topic : String) (rest : List String)
      (point : state.point = .subscribing topic rest) :
      Moves config state .subscribeErr { state.log (.refused topic) with point := .backingOff }
  | slept (point : state.point = .backingOff) :
      Moves config state .slept
        { state.log (.waited state.backoffMs) with
          point := .opening
          backoffMs := min (state.backoffMs * 2) 10000 }
  | stopped (point : state.point = .backingOff ∨ state.point = .receiving) :
      Moves config state .shutdown { state with point := .returned }
  | delivered (message : AppMessage) (next : State) (point : state.point = .receiving)
      (delivery : Delivery config (state.log (.read state.connection message)) message next) :
      Moves config state (.item message) next
  | failed (point : state.point = .receiving) :
      Moves config state .streamErr { state with point := .opening }
  | ended (point : state.point = .receiving) :
      Moves config state .streamEnd { state with point := .opening }
  | replied (reply : List UInt8) (token : UInt64) (request : Request)
      (point : state.point = .handling token request) :
      Moves config state (.handlerReturned reply)
        { state.log (.posted token reply) with point := .replying token }
  | accepted (token : UInt64) (point : state.point = .replying token) :
      Moves config state .replyOk { state.log (.answered token) with point := .receiving }
  | rejected (token : UInt64) (point : state.point = .replying token) :
      Moves config state .replyErr { state with point := .receiving }

theorem moves_of_step {config : Config} {state next : State} {input : Input}
    (stepped : step config state input = some next) : Moves config state input next := by
  cases input with
  | openOk =>
      simp only [step] at stepped
      split at stepped <;> simp only [Option.some.injEq, reduceCtorEq] at stepped
      exact stepped ▸ Moves.opened ‹_›
  | openErr =>
      simp only [step] at stepped
      split at stepped <;> simp only [Option.some.injEq, reduceCtorEq] at stepped
      exact stepped ▸ Moves.openFailed ‹_›
  | subscribeOk =>
      simp only [step] at stepped
      split at stepped <;> simp only [Option.some.injEq, reduceCtorEq] at stepped
      exact stepped ▸ Moves.subscribed _ _ ‹_›
  | subscribeErr =>
      simp only [step] at stepped
      split at stepped <;> simp only [Option.some.injEq, reduceCtorEq] at stepped
      exact stepped ▸ Moves.refused _ _ ‹_›
  | slept =>
      simp only [step] at stepped
      split at stepped <;> simp only [Option.some.injEq, reduceCtorEq] at stepped
      exact stepped ▸ Moves.slept ‹_›
  | shutdown =>
      simp only [step] at stepped
      split at stepped <;> simp only [Option.some.injEq, reduceCtorEq] at stepped
      · exact stepped ▸ Moves.stopped (.inl ‹_›)
      · exact stepped ▸ Moves.stopped (.inr ‹_›)
  | item message =>
      simp only [step] at stepped
      split at stepped <;> simp only [Option.some.injEq, reduceCtorEq] at stepped
      exact stepped ▸ Moves.delivered message _ ‹_› (delivery_answerOne config _ message)
  | streamErr =>
      simp only [step] at stepped
      split at stepped <;> simp only [Option.some.injEq, reduceCtorEq] at stepped
      exact stepped ▸ Moves.failed ‹_›
  | streamEnd =>
      simp only [step] at stepped
      split at stepped <;> simp only [Option.some.injEq, reduceCtorEq] at stepped
      exact stepped ▸ Moves.ended ‹_›
  | handlerReturned reply =>
      simp only [step] at stepped
      split at stepped <;> simp only [Option.some.injEq, reduceCtorEq] at stepped
      exact stepped ▸ Moves.replied reply _ _ ‹_›
  | replyOk =>
      simp only [step] at stepped
      split at stepped <;> simp only [Option.some.injEq, reduceCtorEq] at stepped
      exact stepped ▸ Moves.accepted _ ‹_›
  | replyErr =>
      simp only [step] at stepped
      split at stepped <;> simp only [Option.some.injEq, reduceCtorEq] at stepped
      exact stepped ▸ Moves.rejected _ ‹_›

end CeRs.Serve
