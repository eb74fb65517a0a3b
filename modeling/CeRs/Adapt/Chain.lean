import CeRs.Adapt.Exact
import CeRs.Network

/-!
# Adapters in a chain

The host interposes adapters between an app and the node: what an adapter sends
upstream is what the next one gets from its app, the last one's upstream is the
node, and an endpoint between two adapters is closed for both at once.  Every
adapter is the flow of any handler; the app and the node do as they like.
-/

namespace CeRs.AdapterChain

open Transition Network
open Adapt (Action)
open ServeFlow

/-- What the endpoints between the adapters carry. -/
abbrev Frame := List UInt8

/-- What a thread of an adapter does next. -/
inductive Thread
  | main
  | mainFailed
  | relay
  | relayFailed
  deriving DecidableEq

def Thread.label : Thread → ServeFlow.Label Frame Frame
  | .main => .main
  | .mainFailed => .mainFailed
  | .relay => .relay
  | .relayFailed => .relayFailed

inductive Label (count : Nat)
  | appSend (frame : Frame)
  | appClose
  | nodeSend (frame : Frame)
  | nodeClose
  | thread (place : Fin count) (thread : Thread)

/-- What a step of an adapter is to the adapter after it. -/
def upward {Session : Type} (flow : Flow Frame Frame Session) :
    Thread → Option (ServeFlow.Label Frame Frame)
  | .main =>
      match flow.main with
      | .forwarding bytes => some (.appSend bytes)
      | .closingUp => some .appClose
      | _ => none
  | .relay =>
      match flow.relay with
      | .closingUp => some .appClose
      | _ => none
  | _ => none

/-- What a step of an adapter is to the adapter before it. -/
def downward {Session : Type} (flow : Flow Frame Frame Session) :
    Thread → Option (ServeFlow.Label Frame Frame)
  | .main =>
      match flow.main with
      | .closingDown => some .upstreamClose
      | _ => none
  | .relay =>
      match flow.relay with
      | .sending frame => some (.upstreamSend frame)
      | .closingDown => some .upstreamClose
      | _ => none
  | _ => none

variable {count : Nat} {Session : Fin count → Type}

/-- The flows of the adapters, from the app to the node. -/
abbrev Chain (Session : Fin count → Type) := ∀ place, Flow Frame Frame (Session place)

def view (chain : Chain Session) (label : Label count) (place : Fin count) :
    Option (ServeFlow.Label Frame Frame) :=
  match label with
  | .appSend frame => if place.val = 0 then some (.appSend frame) else none
  | .appClose => if place.val = 0 then some .appClose else none
  | .nodeSend frame => if place.val + 1 = count then some (.upstreamSend frame) else none
  | .nodeClose => if place.val + 1 = count then some .upstreamClose else none
  | .thread acting thread =>
      if place = acting then some thread.label
      else if place.val = acting.val + 1 then upward (chain acting) thread
      else if place.val + 1 = acting.val then downward (chain acting) thread
      else none

def initial (sessions : ∀ place, Session place) (spawned : Fin count → Bool) :
    Chain Session :=
  fun place => Flow.initial (sessions place) (spawned place)

variable (handlers : ∀ place, FlowHandler Frame (Session place))

def step : Chain Session → Label count → Option (Chain Session) :=
  netStep (fun place => ServeFlow.step (handlers place)) view

/-- What one adapter of the chain performs in a run. -/
def traceAt (place : Fin count) (sessions : ∀ place, Session place)
    (spawned : Fin count → Bool) (trace : List (Label count)) :
    List (ServeFlow.Label Frame Frame) :=
  viewed (fun place => ServeFlow.step (handlers place)) view place
    (initial sessions spawned) trace

/-- What one adapter of the chain is seen to do in a run. -/
def seenAt (place : Fin count) (sessions : ∀ place, Session place)
    (spawned : Fin count → Bool) (trace : List (Label count)) : List (Event Frame Frame) :=
  seen (handlers place) (sessions place) (spawned place)
    (traceAt handlers place sessions spawned trace)

def Label.app? : Label count → Option Frame
  | .appSend frame => some frame
  | _ => none

def Label.node? : Label count → Option Frame
  | .nodeSend frame => some frame
  | _ => none

/-- The step closes the endpoint on the app's side. -/
def closesDown {Session : Type} (flow : Flow Frame Frame Session) :
    ServeFlow.Label Frame Frame → Bool
  | .appClose => true
  | .main =>
      match flow.main with
      | .closingDown => true
      | _ => false
  | .relay =>
      match flow.relay with
      | .closingDown => true
      | _ => false
  | _ => false

/-- The step closes the endpoint on the node's side. -/
def closesUp {Session : Type} (flow : Flow Frame Frame Session) :
    ServeFlow.Label Frame Frame → Bool
  | .upstreamClose => true
  | .main =>
      match flow.main with
      | .closingUp => true
      | _ => false
  | .relay =>
      match flow.relay with
      | .closingUp => true
      | _ => false
  | _ => false

section Flow

variable {Own : Type} {handler : FlowHandler Frame Own} {flow next : Flow Frame Frame Own}
  {label : ServeFlow.Label Frame Frame} {extra : List (Event Frame Frame)}

theorem downClosed_of_moves (moves : Moves handler flow label extra next) :
    next.downClosed = (flow.downClosed || closesDown flow label) := by
  cases moves with
  | appClosed => simp [closesDown]
  | took _ _ main | granted _ _ main | denied _ _ main | forwarded _ main | settled main
  | closedDown main | closedUp main | joined main => simp [closesDown, main]
  | relayTook _ _ relay | relayed _ relay | relayClosedDown relay | relayClosedUp relay =>
      simp [closesDown, relay]
  | offered | supplied | upstreamClosed | ended | refused | relayFailed => simp [closesDown]

theorem upClosed_of_moves (moves : Moves handler flow label extra next) :
    next.upClosed = (flow.upClosed || closesUp flow label) := by
  cases moves with
  | upstreamClosed => simp [closesUp]
  | took _ _ main | granted _ _ main | denied _ _ main | forwarded _ main | settled main
  | closedDown main | closedUp main | joined main => simp [closesUp, main]
  | relayTook _ _ relay | relayed _ relay | relayClosedDown relay | relayClosedUp relay =>
      simp [closesUp, relay]
  | offered | supplied | appClosed | ended | refused | relayFailed => simp [closesUp]

theorem downClosed_of_perform {seen : Option (ServeFlow.Label Frame Frame)}
    (performed : perform (ServeFlow.step handler) flow seen = some next) :
    next.downClosed = (flow.downClosed || seen.any (closesDown flow)) := by
  cases seen with
  | none => simp [← Option.some.inj performed]
  | some label => exact downClosed_of_moves (moves_of_step performed)

theorem upClosed_of_perform {seen : Option (ServeFlow.Label Frame Frame)}
    (performed : perform (ServeFlow.step handler) flow seen = some next) :
    next.upClosed = (flow.upClosed || seen.any (closesUp flow)) := by
  cases seen with
  | none => simp [← Option.some.inj performed]
  | some label => exact upClosed_of_moves (moves_of_step performed)

theorem closesUp_label {Other : Type} (other : Flow Frame Frame Other) (thread : Thread) :
    closesUp flow thread.label = (upward flow thread).any (closesDown other) := by
  cases thread with
  | main => cases main : flow.main <;> simp [Thread.label, closesUp, upward, closesDown, main]
  | relay =>
      cases relay : flow.relay <;> simp [Thread.label, closesUp, upward, closesDown, relay]
  | mainFailed | relayFailed => simp [Thread.label, closesUp, upward]

theorem closesDown_label {Other : Type} (other : Flow Frame Frame Other) (thread : Thread) :
    closesDown flow thread.label = (downward flow thread).any (closesUp other) := by
  cases thread with
  | main =>
      cases main : flow.main <;> simp [Thread.label, closesUp, downward, closesDown, main]
  | relay =>
      cases relay : flow.relay <;> simp [Thread.label, closesUp, downward, closesDown, relay]
  | mainFailed | relayFailed => simp [Thread.label, closesDown, downward]

variable (handler) in
theorem forwarded_label (thread : Thread) :
    (events handler flow thread.label).filterMap Event.forwarded? =
      (upward flow thread).toList.filterMap ServeFlow.Label.fromApp? := by
  cases thread with
  | main =>
      cases main : flow.main <;>
        simp [Thread.label, events, upward, main, Event.forwarded?, ServeFlow.Label.fromApp?]
  | relay =>
      cases relay : flow.relay <;>
        simp [Thread.label, events, upward, relay, Event.forwarded?, ServeFlow.Label.fromApp?]
  | mainFailed =>
      cases main : flow.main <;> simp [Thread.label, events, upward, main, Event.forwarded?]
  | relayFailed => rfl

variable (handler) in
theorem relayed_label (thread : Thread) :
    (events handler flow thread.label).filterMap Event.relayed? =
      (downward flow thread).toList.filterMap ServeFlow.Label.fromUpstream? := by
  cases thread with
  | main =>
      cases main : flow.main <;>
        simp [Thread.label, events, downward, main, Event.relayed?,
          ServeFlow.Label.fromUpstream?]
  | relay =>
      cases relay : flow.relay <;>
        simp [Thread.label, events, downward, relay, Event.relayed?,
          ServeFlow.Label.fromUpstream?]
  | mainFailed =>
      cases main : flow.main <;> simp [Thread.label, events, downward, main, Event.relayed?]
  | relayFailed => rfl

end Flow

/-- The peer before the adapter acts. -/
def ofApp : ServeFlow.Label Frame Frame → Bool
  | .appSend _ | .appClose => true
  | _ => false

/-- The peer after the adapter acts. -/
def ofUpstream : ServeFlow.Label Frame Frame → Bool
  | .upstreamSend _ | .upstreamClose => true
  | _ => false

/-- What neighbours see of one label: one of them acts and the other sees what
passes between them, or the label is about nothing between them. -/
inductive Adjacent {Below Above : Type} (below : Flow Frame Frame Below)
    (above : Flow Frame Frame Above) :
    Option (ServeFlow.Label Frame Frame) → Option (ServeFlow.Label Frame Frame) → Prop
  | below (thread : Thread) : Adjacent below above (some thread.label) (upward below thread)
  | above (thread : Thread) : Adjacent below above (downward above thread) (some thread.label)
  | outside (first second : Option (ServeFlow.Label Frame Frame))
      (app : ∀ label ∈ first, ofApp label = true)
      (upstream : ∀ label ∈ second, ofUpstream label = true) :
      Adjacent below above first second

theorem ofApp_upward {Own : Type} (flow : Flow Frame Frame Own) (thread : Thread) :
    ∀ label ∈ upward flow thread, ofApp label = true := by
  cases thread with
  | main => cases main : flow.main <;> simp [upward, main, ofApp]
  | relay => cases relay : flow.relay <;> simp [upward, relay, ofApp]
  | mainFailed | relayFailed => simp [upward]

theorem ofUpstream_downward {Own : Type} (flow : Flow Frame Frame Own) (thread : Thread) :
    ∀ label ∈ downward flow thread, ofUpstream label = true := by
  cases thread with
  | main => cases main : flow.main <;> simp [downward, main, ofUpstream]
  | relay => cases relay : flow.relay <;> simp [downward, relay, ofUpstream]
  | mainFailed | relayFailed => simp [downward]

theorem adjacent_view (chain : Chain Session) (label : Label count) {below above : Fin count}
    (next : above.val = below.val + 1) :
    Adjacent (chain below) (chain above) (view chain label below)
      (view chain label above) := by
  have inside := above.isLt
  cases label with
  | appSend frame | appClose =>
      refine .outside _ _ ?_ (by simp [view, next])
      simp only [view]
      split <;> simp [ofApp]
  | nodeSend frame | nodeClose =>
      refine .outside _ _ (by simp [view]; omega) ?_
      simp only [view]
      split <;> simp [ofUpstream]
  | thread acting thread =>
      rcases eq_or_ne acting below with rfl | notBelow
      · have other : above ≠ acting := by grind
        simp only [view, if_true, if_neg other, if_pos next]
        exact .below thread
      rcases eq_or_ne acting above with rfl | notAbove
      · have other : below.val ≠ acting.val + 1 := by omega
        simp only [view, if_true, if_neg notBelow.symm, if_neg other, if_pos next.symm]
        exact .above thread
      refine .outside _ _ ?_ ?_
      · simp only [view, if_neg notBelow.symm]
        split
        case isTrue => exact ofApp_upward _ _
        case isFalse =>
            rw [if_neg (by grind)]
            simp
      · simp only [view, if_neg notAbove.symm]
        rw [if_neg (by grind)]
        split
        case isTrue => exact ofUpstream_downward _ _
        case isFalse => simp

end CeRs.AdapterChain
