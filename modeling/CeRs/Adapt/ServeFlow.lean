import CeRs.Adapt.Flow
import CeRs.Transition

/-!
# Any flow, any handler

`serve_flow` between an arbitrary app and an arbitrary upstream.  Both endpoints
are queues that either peer fills as long as they are open and closes when it
likes; the handler is any function of its own state.  A receive may still hand
out frames that are left in a closed endpoint, a send may fail at any time, and
a closed endpoint takes nothing.
-/

namespace CeRs.ServeFlow

open Transition
open Adapt (Action)

variable {Request Reply Session : Type}

/-- `FlowHandler`, with the session state it keeps. -/
structure FlowHandler (Request Session : Type) where
  intercept : Session → Request → Action × Session
  onClose : Session → Session

/-- The thread of `serve_flow` itself. -/
inductive Main (Request : Type)
  | receiving
  | intercepting (request : Request)
  | forwarding (bytes : List UInt8)
  | settling
  | closingDown
  | closingUp
  | joining
  | finished

/-- The thread that passes the upstream frames to the app. -/
inductive Relay (Reply : Type)
  | receiving
  | sending (frame : Reply)
  | closingDown
  | closingUp
  | finished

/-- The two threads and the endpoints `down`, to the app, and `up`. -/
structure Flow (Request Reply Session : Type) where
  session : Session
  main : Main Request
  relay : Relay Reply
  fromApp : List Request
  fromUpstream : List Reply
  downClosed : Bool
  upClosed : Bool

/-- A step of a peer or of a thread; `mainFailed` and `relayFailed` are receives
and sends that fail. -/
inductive Label (Request Reply : Type)
  | appSend (frame : Request)
  | appClose
  | upstreamSend (frame : Reply)
  | upstreamClose
  | main
  | mainFailed
  | relay
  | relayFailed

/-- What the adapter is seen to do. -/
inductive Event (Request Reply : Type)
  | intercepted (request : Request) (action : Action)
  | forwarded (bytes : List UInt8)
  | refused (bytes : List UInt8)
  | relayed (frame : Reply)
  | closed
  deriving DecidableEq

/-- The thread that relays is missing if it could not be spawned. -/
def Flow.initial (session : Session) (spawned : Bool) : Flow Request Reply Session where
  session
  main := .receiving
  relay := if spawned then .receiving else .finished
  fromApp := []
  fromUpstream := []
  downClosed := false
  upClosed := false

variable (handler : FlowHandler Request Session)

def stepMain (flow : Flow Request Reply Session) : Option (Flow Request Reply Session) :=
  match flow.main with
  | .receiving =>
      match flow.fromApp with
      | request :: rest => some { flow with main := .intercepting request, fromApp := rest }
      | [] => none
  | .intercepting request =>
      let (action, session) := handler.intercept flow.session request
      some { flow with
        session
        main :=
          match action with
          | .forward bytes => .forwarding bytes
          | .deny _ => .settling }
  | .forwarding _ => if flow.upClosed then none else some { flow with main := .receiving }
  | .settling =>
      some { flow with session := handler.onClose flow.session, main := .closingDown }
  | .closingDown => some { flow with main := .closingUp, downClosed := true }
  | .closingUp => some { flow with main := .joining, upClosed := true }
  | .joining =>
      match flow.relay with
      | .finished => some { flow with main := .finished }
      | _ => none
  | .finished => none

def stepRelay (flow : Flow Request Reply Session) : Option (Flow Request Reply Session) :=
  match flow.relay with
  | .receiving =>
      match flow.fromUpstream with
      | frame :: rest => some { flow with relay := .sending frame, fromUpstream := rest }
      | [] => none
  | .sending _ => if flow.downClosed then none else some { flow with relay := .receiving }
  | .closingDown => some { flow with relay := .closingUp, downClosed := true }
  | .closingUp => some { flow with relay := .finished, upClosed := true }
  | .finished => none

def step (flow : Flow Request Reply Session) :
    Label Request Reply → Option (Flow Request Reply Session)
  | .appSend frame =>
      if flow.downClosed then none else some { flow with fromApp := flow.fromApp ++ [frame] }
  | .appClose => some { flow with downClosed := true }
  | .upstreamSend frame =>
      if flow.upClosed then none
      else some { flow with fromUpstream := flow.fromUpstream ++ [frame] }
  | .upstreamClose => some { flow with upClosed := true }
  | .main => stepMain handler flow
  | .mainFailed =>
      match flow.main with
      | .receiving | .forwarding _ => some { flow with main := .settling }
      | _ => none
  | .relay => stepRelay flow
  | .relayFailed =>
      match flow.relay with
      | .receiving | .sending _ => some { flow with relay := .closingDown }
      | _ => none

/-- What is seen of a step. -/
def events (flow : Flow Request Reply Session) :
    Label Request Reply → List (Event Request Reply)
  | .main =>
      match flow.main with
      | .intercepting request => [.intercepted request (handler.intercept flow.session request).1]
      | .forwarding bytes => [.forwarded bytes]
      | .settling => [.closed]
      | _ => []
  | .mainFailed =>
      match flow.main with
      | .forwarding bytes => [.refused bytes]
      | _ => []
  | .relay =>
      match flow.relay with
      | .sending frame => [.relayed frame]
      | _ => []
  | _ => []

/-- What is seen of a run. -/
def seen (session : Session) (spawned : Bool) (trace : List (Label Request Reply)) :
    List (Event Request Reply) :=
  emitted (step handler) (events handler) (Flow.initial session spawned) trace

def Label.fromApp? : Label Request Reply → Option Request
  | .appSend frame => some frame
  | _ => none

def Label.fromUpstream? : Label Request Reply → Option Reply
  | .upstreamSend frame => some frame
  | _ => none

def Event.request? : Event Request Reply → Option Request
  | .intercepted request _ => some request
  | _ => none

def Event.forwarded? : Event Request Reply → Option (List UInt8)
  | .forwarded bytes => some bytes
  | _ => none

def Event.relayed? : Event Request Reply → Option Reply
  | .relayed frame => some frame
  | _ => none

/-- The handler is asked, or a frame is sent upstream. -/
def Event.works : Event Request Reply → Bool
  | .intercepted _ _ | .forwarded _ => true
  | _ => false

/-- After this the handler is not asked again: a denial, a failed send upstream,
`on_close`. -/
def Event.ends : Event Request Reply → Bool
  | .intercepted _ (.deny _) | .refused _ | .closed => true
  | _ => false

def Event.isClosed : Event Request Reply → Bool
  | .closed => true
  | _ => false

/-- The handler's state after some requests. -/
def FlowHandler.after (session : Session) (requests : List Request) : Session :=
  requests.foldl (fun session request => (handler.intercept session request).2) session

/-- The results of `intercept` on some requests, one after the other. -/
def FlowHandler.actions : Session → List Request → List Action
  | _, [] => []
  | session, request :: rest =>
      (handler.intercept session request).1 ::
        FlowHandler.actions (handler.intercept session request).2 rest

theorem FlowHandler.actions_concat (session : Session) (requests : List Request)
    (request : Request) :
    handler.actions session (requests ++ [request]) =
      handler.actions session requests ++
        [(handler.intercept (handler.after session requests) request).1] := by
  induction requests generalizing session with
  | nil => rfl
  | cons first rest induction =>
      simp only [List.cons_append, actions, after, List.foldl_cons, List.cons.injEq, true_and]
      exact induction _

theorem FlowHandler.after_concat (session : Session) (requests : List Request)
    (request : Request) :
    handler.after session (requests ++ [request]) =
      (handler.intercept (handler.after session requests) request).2 := by
  simp [after]

/-- The thread is in its loop. -/
def Main.running : Main Request → Bool
  | .receiving | .intercepting _ | .forwarding _ => true
  | _ => false

/-- The thread has called `on_close`. -/
def Main.past : Main Request → Bool
  | .closingDown | .closingUp | .joining | .finished => true
  | _ => false

/-- The request that the handler is about to be asked. -/
def Main.asking : Main Request → List Request
  | .intercepting request => [request]
  | _ => []

def Relay.holding : Relay Reply → List Reply
  | .sending frame => [frame]
  | _ => []

def Relay.running : Relay Reply → Bool
  | .receiving | .sending _ => true
  | _ => false

/-- Everything a step can do, with what is seen of it. -/
inductive Moves (flow : Flow Request Reply Session) :
    Label Request Reply → List (Event Request Reply) → Flow Request Reply Session → Prop
  | offered (frame : Request) (isOpen : flow.downClosed = false) :
      Moves flow (.appSend frame) [] { flow with fromApp := flow.fromApp ++ [frame] }
  | supplied (frame : Reply) (isOpen : flow.upClosed = false) :
      Moves flow (.upstreamSend frame) []
        { flow with fromUpstream := flow.fromUpstream ++ [frame] }
  | appClosed : Moves flow .appClose [] { flow with downClosed := true }
  | upstreamClosed : Moves flow .upstreamClose [] { flow with upClosed := true }
  | took (request : Request) (rest : List Request) (main : flow.main = .receiving)
      (fromApp : flow.fromApp = request :: rest) :
      Moves flow .main [] { flow with main := .intercepting request, fromApp := rest }
  | granted (request : Request) (bytes : List UInt8) (main : flow.main = .intercepting request)
      (action : (handler.intercept flow.session request).1 = .forward bytes) :
      Moves flow .main [.intercepted request (.forward bytes)]
        { flow with
          session := (handler.intercept flow.session request).2
          main := .forwarding bytes }
  | denied (request : Request) (reason : String) (main : flow.main = .intercepting request)
      (action : (handler.intercept flow.session request).1 = .deny reason) :
      Moves flow .main [.intercepted request (.deny reason)]
        { flow with session := (handler.intercept flow.session request).2, main := .settling }
  | forwarded (bytes : List UInt8) (main : flow.main = .forwarding bytes)
      (isOpen : flow.upClosed = false) :
      Moves flow .main [.forwarded bytes] { flow with main := .receiving }
  | ended (main : flow.main = .receiving) :
      Moves flow .mainFailed [] { flow with main := .settling }
  | refused (bytes : List UInt8) (main : flow.main = .forwarding bytes) :
      Moves flow .mainFailed [.refused bytes] { flow with main := .settling }
  | settled (main : flow.main = .settling) :
      Moves flow .main [.closed]
        { flow with session := handler.onClose flow.session, main := .closingDown }
  | closedDown (main : flow.main = .closingDown) :
      Moves flow .main [] { flow with main := .closingUp, downClosed := true }
  | closedUp (main : flow.main = .closingUp) :
      Moves flow .main [] { flow with main := .joining, upClosed := true }
  | joined (main : flow.main = .joining) (relay : flow.relay = .finished) :
      Moves flow .main [] { flow with main := .finished }
  | relayTook (frame : Reply) (rest : List Reply) (relay : flow.relay = .receiving)
      (fromUpstream : flow.fromUpstream = frame :: rest) :
      Moves flow .relay [] { flow with relay := .sending frame, fromUpstream := rest }
  | relayed (frame : Reply) (relay : flow.relay = .sending frame)
      (isOpen : flow.downClosed = false) :
      Moves flow .relay [.relayed frame] { flow with relay := .receiving }
  | relayFailed (running : flow.relay.running = true) :
      Moves flow .relayFailed [] { flow with relay := .closingDown }
  | relayClosedDown (relay : flow.relay = .closingDown) :
      Moves flow .relay [] { flow with relay := .closingUp, downClosed := true }
  | relayClosedUp (relay : flow.relay = .closingUp) :
      Moves flow .relay [] { flow with relay := .finished, upClosed := true }

variable {handler} {flow next : Flow Request Reply Session} {label : Label Request Reply}

theorem moves_of_stepMain (stepped : stepMain handler flow = some next) :
    Moves handler flow .main (events handler flow .main) next := by
  cases main : flow.main with
  | receiving =>
      simp only [stepMain, main] at stepped
      simp only [events, main]
      split at stepped
      case h_1 request rest fromApp =>
          exact Option.some.inj stepped ▸ .took request rest main fromApp
      case h_2 => simp at stepped
  | intercepting request =>
      simp only [stepMain, main, Option.some.injEq] at stepped
      simp only [events, main]
      cases action : (handler.intercept flow.session request).1 with
      | forward bytes =>
          rw [action] at stepped
          exact stepped ▸ .granted request bytes main action
      | deny reason =>
          rw [action] at stepped
          exact stepped ▸ .denied request reason main action
  | forwarding bytes =>
      simp only [stepMain, main] at stepped
      simp only [events, main]
      split at stepped
      case isTrue => simp at stepped
      case isFalse isOpen =>
          exact Option.some.inj stepped ▸ .forwarded bytes main (by simpa using isOpen)
  | settling =>
      simp only [stepMain, main, Option.some.injEq] at stepped
      simp only [events, main]
      exact stepped ▸ .settled main
  | closingDown =>
      simp only [stepMain, main, Option.some.injEq] at stepped
      simp only [events, main]
      exact stepped ▸ .closedDown main
  | closingUp =>
      simp only [stepMain, main, Option.some.injEq] at stepped
      simp only [events, main]
      exact stepped ▸ .closedUp main
  | joining =>
      simp only [stepMain, main] at stepped
      simp only [events, main]
      split at stepped
      case h_1 relay => exact Option.some.inj stepped ▸ .joined main relay
      case h_2 => simp at stepped
  | finished => simp [stepMain, main] at stepped

theorem moves_of_stepRelay (stepped : stepRelay flow = some next) :
    Moves handler flow .relay (events handler flow .relay) next := by
  cases relay : flow.relay with
  | receiving =>
      simp only [stepRelay, relay] at stepped
      simp only [events, relay]
      split at stepped
      case h_1 frame rest fromUpstream =>
          exact Option.some.inj stepped ▸ .relayTook frame rest relay fromUpstream
      case h_2 => simp at stepped
  | sending frame =>
      simp only [stepRelay, relay] at stepped
      simp only [events, relay]
      split at stepped
      case isTrue => simp at stepped
      case isFalse isOpen =>
          exact Option.some.inj stepped ▸ .relayed frame relay (by simpa using isOpen)
  | closingDown =>
      simp only [stepRelay, relay, Option.some.injEq] at stepped
      simp only [events, relay]
      exact stepped ▸ .relayClosedDown relay
  | closingUp =>
      simp only [stepRelay, relay, Option.some.injEq] at stepped
      simp only [events, relay]
      exact stepped ▸ .relayClosedUp relay
  | finished => simp [stepRelay, relay] at stepped

theorem moves_of_step (stepped : step handler flow label = some next) :
    Moves handler flow label (events handler flow label) next := by
  cases label with
  | appSend frame =>
      simp only [step] at stepped
      split at stepped
      case isTrue => simp at stepped
      case isFalse isOpen =>
          exact Option.some.inj stepped ▸ .offered frame (by simpa using isOpen)
  | appClose =>
      simp only [step, Option.some.injEq] at stepped
      exact stepped ▸ .appClosed
  | upstreamSend frame =>
      simp only [step] at stepped
      split at stepped
      case isTrue => simp at stepped
      case isFalse isOpen =>
          exact Option.some.inj stepped ▸ .supplied frame (by simpa using isOpen)
  | upstreamClose =>
      simp only [step, Option.some.injEq] at stepped
      exact stepped ▸ .upstreamClosed
  | main => exact moves_of_stepMain stepped
  | mainFailed =>
      cases main : flow.main with
      | receiving =>
          simp only [step, main, Option.some.injEq] at stepped
          simp only [events, main]
          exact stepped ▸ .ended main
      | forwarding bytes =>
          simp only [step, main, Option.some.injEq] at stepped
          simp only [events, main]
          exact stepped ▸ .refused bytes main
      | _ => simp [step, main] at stepped
  | relay => exact moves_of_stepRelay stepped
  | relayFailed =>
      simp only [step] at stepped
      split at stepped
      case h_1 relay => exact Option.some.inj stepped ▸ .relayFailed (by rw [relay]; rfl)
      case h_2 relay => exact Option.some.inj stepped ▸ .relayFailed (by rw [relay]; rfl)
      case h_3 => simp at stepped

end CeRs.ServeFlow
