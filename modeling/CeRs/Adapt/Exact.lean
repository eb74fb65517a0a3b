import CeRs.Adapt.ServeFlow

/-!
# The relay is exact

Under every schedule of the two threads and the peers, what is sent upstream is
what the handler makes of the app's frames, one after the other, up to a denial
or a failed send.  What is sent to the app is what came from upstream.  The
handler is told of the end once, when it is asked no more.
-/

namespace CeRs.ServeFlow

open Transition
open Adapt (Action)

variable {Request Reply Session : Type} (handler : FlowHandler Request Session)

/-- Requests that the handler was asked while nothing has been sent for them:
none, or one whose bytes are about to be sent, that was denied, or whose send has
failed. -/
inductive Unsent (main : Main Request) (history : List (Event Request Reply))
    (session : Session) : List Request → Prop
  | none (passed : ∀ bytes, main ≠ .forwarding bytes) : Unsent main history session []
  | passing (request : Request) (bytes : List UInt8)
      (action : (handler.intercept session request).1 = .forward bytes)
      (forwarding : main = .forwarding bytes) : Unsent main history session [request]
  | denied (request : Request) (reason : String)
      (action : (handler.intercept session request).1 = .deny reason)
      (left : main.running = false) : Unsent main history session [request]
  | refused (request : Request) (bytes : List UInt8)
      (action : (handler.intercept session request).1 = .forward bytes)
      (failed : .refused bytes ∈ history) (left : main.running = false) :
      Unsent main history session [request]

/-- What holds of the app's side after a run. -/
structure Served (session : Session) (trace : List (Label Request Reply))
    (history : List (Event Request Reply)) (flow : Flow Request Reply Session) : Prop where
  asked : trace.filterMap Label.fromApp? =
    history.filterMap Event.request? ++ flow.main.asking ++ flow.fromApp
  current : flow.main.past = false →
    flow.session = handler.after session (history.filterMap Event.request?)
  upstream : ∃ served beyond, history.filterMap Event.request? = served ++ beyond ∧
    handler.actions session served =
      (history.filterMap Event.forwarded?).map Action.forward ∧
    Unsent handler flow.main history (handler.after session served) beyond
  alive : flow.main.running = true → ∀ event ∈ history, event.ends = false
  ordered : AtEach (fun before event => event.works = true →
    ∀ earlier ∈ before, earlier.ends = false) history
  closes : history.countP Event.isClosed = if flow.main.past then 1 else 0

variable {handler} {flow next : Flow Request Reply Session} {label : Label Request Reply}
  {session : Session} {trace : List (Label Request Reply)}
  {history extra : List (Event Request Reply)} {main : Main Request} {beyond : List Request}

namespace Unsent

theorem append (unsent : Unsent handler main history session beyond)
    (extra : List (Event Request Reply)) :
    Unsent handler main (history ++ extra) session beyond := by
  cases unsent with
  | none passed => exact .none passed
  | passing request bytes action forwarding => exact .passing request bytes action forwarding
  | denied request reason action left => exact .denied request reason action left
  | refused request bytes action failed left =>
      exact .refused request bytes action (List.mem_append_left _ failed) left

theorem eq_nil (unsent : Unsent handler main history session beyond)
    (running : main.running = true) (passed : ∀ bytes, main ≠ .forwarding bytes) :
    beyond = [] := by
  cases unsent with
  | none => rfl
  | passing request bytes action forwarding => exact absurd forwarding (passed bytes)
  | denied request reason action left => simp [running] at left
  | refused request bytes action failed left => simp [running] at left

theorem of_forwarding {bytes : List UInt8}
    (unsent : Unsent handler (.forwarding bytes) history session beyond) :
    ∃ request, beyond = [request] ∧
      (handler.intercept session request).1 = .forward bytes := by
  cases unsent with
  | none passed => exact absurd rfl (passed bytes)
  | passing request other action forwarding =>
      obtain rfl := Main.forwarding.inj forwarding
      exact ⟨request, rfl, action⟩
  | denied request reason action left => simp [Main.running] at left
  | refused request other action failed left => simp [Main.running] at left

theorem of_left {after : Main Request}
    (unsent : Unsent handler main history session beyond) (left : main.running = false)
    (outside : after.running = false) : Unsent handler after history session beyond := by
  cases unsent with
  | none passed =>
      refine .none fun bytes forwarding => ?_
      simp [forwarding, Main.running] at outside
  | passing request bytes action forwarding => simp [forwarding, Main.running] at left
  | denied request reason action => exact .denied request reason action outside
  | refused request bytes action failed => exact .refused request bytes action failed outside

end Unsent

theorem served_initial (handler : FlowHandler Request Session) (session : Session)
    (spawned : Bool) :
    Served handler session ([] : List (Label Request Reply)) []
      (Flow.initial session spawned) where
  asked := rfl
  current _ := rfl
  upstream := ⟨[], [], rfl, rfl, .none fun _ => nofun⟩
  alive _ _ member := absurd member List.not_mem_nil
  ordered := atEach_nil _
  closes := rfl

namespace Served

theorem asked_of_moves (served : Served handler session trace history flow)
    (moves : Moves handler flow label extra next) :
    (trace ++ [label]).filterMap Label.fromApp? =
      (history ++ extra).filterMap Event.request? ++ next.main.asking ++ next.fromApp := by
  have asked := served.asked
  rw [List.filterMap_append, List.filterMap_append, asked]
  cases moves with
  | offered => simp [Label.fromApp?]
  | took request rest main fromApp =>
      simp [Label.fromApp?, main, fromApp, Main.asking]
  | granted request bytes main | denied request reason main =>
      simp [List.filterMap_cons, Label.fromApp?, Event.request?, main, Main.asking]
  | forwarded bytes main | refused bytes main | ended main | settled main | closedDown main
  | closedUp main | joined main =>
      simp [List.filterMap_cons, Label.fromApp?, Event.request?, main, Main.asking]
  | supplied | appClosed | upstreamClosed | relayTook | relayed | relayFailed | relayClosedDown
  | relayClosedUp =>
      simp [List.filterMap_cons, Label.fromApp?, Event.request?]

theorem current_of_moves (served : Served handler session trace history flow)
    (moves : Moves handler flow label extra next) (early : next.main.past = false) :
    next.session =
      handler.after session ((history ++ extra).filterMap Event.request?) := by
  have current := served.current
  rw [List.filterMap_append]
  cases moves with
  | granted request bytes main | denied request reason main =>
      have before : flow.session = _ := current (by rw [main]; rfl)
      simp [Event.request?, FlowHandler.after_concat, before]
  | took request rest main | forwarded bytes main | refused bytes main | ended main =>
      simpa [List.filterMap_cons, Event.request?] using current (by rw [main]; rfl)
  | settled | closedDown | closedUp | joined => exact absurd early.symm (by simp [Main.past])
  | offered | supplied | appClosed | upstreamClosed | relayTook | relayed | relayFailed
  | relayClosedDown | relayClosedUp =>
      simpa [List.filterMap_cons, Event.request?] using current early

theorem alive_of_moves (served : Served handler session trace history flow)
    (moves : Moves handler flow label extra next) (running : next.main.running = true) :
    ∀ event ∈ history ++ extra, event.ends = false := by
  have alive := served.alive
  rw [List.forall_mem_append]
  cases moves with
  | took request rest main | granted request bytes main | forwarded bytes main =>
      exact ⟨alive (by rw [main]; rfl), by simp [Event.ends]⟩
  | denied | refused | ended | settled | closedDown | closedUp | joined =>
      exact absurd running.symm (by simp [Main.running])
  | offered | supplied | appClosed | upstreamClosed | relayTook | relayed | relayFailed
  | relayClosedDown | relayClosedUp => exact ⟨alive running, by simp [Event.ends]⟩

theorem ordered_of_moves (served : Served handler session trace history flow)
    (moves : Moves handler flow label extra next) :
    AtEach (fun before event => event.works = true →
      ∀ earlier ∈ before, earlier.ends = false) (history ++ extra) := by
  have ordered := served.ordered
  cases moves with
  | granted request bytes main | denied request reason main | forwarded bytes main =>
      exact atEach_concat.mpr ⟨ordered, fun _ => served.alive (by rw [main]; rfl)⟩
  | refused | settled | relayed =>
      exact atEach_concat.mpr ⟨ordered, fun works => by simp [Event.works] at works⟩
  | took | ended | closedDown | closedUp | joined | offered | supplied | appClosed
  | upstreamClosed | relayTook | relayFailed | relayClosedDown | relayClosedUp =>
      simpa using ordered

theorem closes_of_moves (served : Served handler session trace history flow)
    (moves : Moves handler flow label extra next) :
    (history ++ extra).countP Event.isClosed = if next.main.past then 1 else 0 := by
  have closes := served.closes
  rw [List.countP_append]
  cases moves with
  | took request rest main | granted request bytes main | denied request reason main
  | forwarded bytes main | refused bytes main | ended main | settled main | closedDown main
  | closedUp main | joined main =>
      rw [main] at closes
      simp [closes, Main.past, List.countP_cons, Event.isClosed]
  | offered | supplied | appClosed | upstreamClosed | relayTook | relayed | relayFailed
  | relayClosedDown | relayClosedUp => simp [closes, Event.isClosed]

theorem upstream_of_moves (served : Served handler session trace history flow)
    (moves : Moves handler flow label extra next) :
    ∃ served beyond, (history ++ extra).filterMap Event.request? = served ++ beyond ∧
      handler.actions session served =
        ((history ++ extra).filterMap Event.forwarded?).map Action.forward ∧
      Unsent handler next.main (history ++ extra) (handler.after session served) beyond := by
  obtain ⟨passed, beyond, asked, actions, unsent⟩ := served.upstream
  have current := served.current
  rw [List.filterMap_append, List.filterMap_append, asked]
  rw [asked] at current
  cases moves with
  | took request rest main =>
      obtain rfl := unsent.eq_nil (by rw [main]; rfl) (by simp [main])
      exact ⟨passed, [], by simp, by simpa using actions, .none (by simp)⟩
  | granted request bytes main action =>
      obtain rfl := unsent.eq_nil (by rw [main]; rfl) (by simp [main])
      rw [List.append_nil] at current
      rw [current (by rw [main]; rfl)] at action
      refine ⟨passed, [request], ?_, ?_, .passing request bytes action rfl⟩
      · simp [Event.request?]
      · simpa [List.filterMap_cons, Event.forwarded?] using actions
  | denied request reason main action =>
      obtain rfl := unsent.eq_nil (by rw [main]; rfl) (by simp [main])
      rw [List.append_nil] at current
      rw [current (by rw [main]; rfl)] at action
      refine ⟨passed, [request], ?_, ?_, .denied request reason action rfl⟩
      · simp [Event.request?]
      · simpa [List.filterMap_cons, Event.forwarded?] using actions
  | forwarded bytes main =>
      rw [main] at unsent
      obtain ⟨request, rfl, action⟩ := unsent.of_forwarding
      refine ⟨passed ++ [request], [], ?_, ?_, .none (by simp)⟩
      · simp [List.filterMap_cons, Event.request?]
      · simp [FlowHandler.actions_concat, actions, action, Event.forwarded?]
  | ended main =>
      obtain rfl := unsent.eq_nil (by rw [main]; rfl) (by simp [main])
      exact ⟨passed, [], by simp, by simpa using actions, .none (by simp)⟩
  | refused bytes main =>
      rw [main] at unsent
      obtain ⟨request, rfl, action⟩ := unsent.of_forwarding
      refine ⟨passed, [request], ?_, ?_, .refused request bytes action (by simp) rfl⟩
      · simp [List.filterMap_cons, Event.request?]
      · simpa [List.filterMap_cons, Event.forwarded?] using actions
  | settled main =>
      refine ⟨passed, beyond, ?_, ?_, ?_⟩
      · simp [List.filterMap_cons, Event.request?]
      · simpa [List.filterMap_cons, Event.forwarded?] using actions
      · exact (unsent.append _).of_left (by rw [main]; rfl) rfl
  | closedDown main | closedUp main | joined main =>
      refine ⟨passed, beyond, by simp, by simpa using actions, ?_⟩
      exact (unsent.append _).of_left (by rw [main]; rfl) rfl
  | offered | supplied | appClosed | upstreamClosed | relayTook | relayed | relayFailed
  | relayClosedDown | relayClosedUp =>
      refine ⟨passed, beyond, ?_, ?_, unsent.append _⟩
      · simp [List.filterMap_cons, Event.request?]
      · simpa [List.filterMap_cons, Event.forwarded?] using actions

theorem of_moves (served : Served handler session trace history flow)
    (moves : Moves handler flow label extra next) :
    Served handler session (trace ++ [label]) (history ++ extra) next where
  asked := served.asked_of_moves moves
  current := served.current_of_moves moves
  upstream := served.upstream_of_moves moves
  alive := served.alive_of_moves moves
  ordered := served.ordered_of_moves moves
  closes := served.closes_of_moves moves

end Served

/-- What holds of the upstream side after a run: the frames that came from there
have been relayed, in this order, but for the one in hand and those still in the
endpoint; one may be lost when the thread leaves. -/
def Relayed (trace : List (Label Request Reply)) (history : List (Event Request Reply))
    (flow : Flow Request Reply Session) : Prop :=
  ∃ lost, trace.filterMap Label.fromUpstream? =
      history.filterMap Event.relayed? ++ flow.relay.holding ++ lost ++ flow.fromUpstream ∧
    (flow.relay.running = true → lost = [])

theorem relayed_of_moves (relayed : Relayed trace history flow)
    (moves : Moves handler flow label extra next) :
    Relayed (trace ++ [label]) (history ++ extra) next := by
  obtain ⟨lost, received, none⟩ := relayed
  rw [Relayed, List.filterMap_append, List.filterMap_append, received]
  cases moves with
  | supplied frame isOpen =>
      exact ⟨lost, by simp [Label.fromUpstream?], none⟩
  | relayTook frame rest relay fromUpstream =>
      rw [relay] at none
      refine ⟨[], ?_, fun _ => rfl⟩
      simp [Label.fromUpstream?, relay, fromUpstream, Relay.holding, none rfl]
  | relayed frame relay isOpen =>
      rw [relay] at none
      refine ⟨[], ?_, fun _ => rfl⟩
      simp [List.filterMap_cons, Label.fromUpstream?, Event.relayed?, relay, Relay.holding,
        none rfl]
  | relayFailed running =>
      refine ⟨flow.relay.holding, ?_, fun running => by simp [Relay.running] at running⟩
      simp [List.filterMap_cons, Label.fromUpstream?, Relay.holding, none running]
  | relayClosedDown relay | relayClosedUp relay =>
      refine ⟨lost, ?_, fun running => by simp [Relay.running] at running⟩
      simp [Label.fromUpstream?, relay, Relay.holding]
  | offered | appClosed | upstreamClosed | took | granted | denied | forwarded | ended | refused
  | settled | closedDown | closedUp | joined =>
      exact ⟨lost, by simp [List.filterMap_cons, Label.fromUpstream?, Event.relayed?], none⟩

theorem relayed_initial (session : Session) (spawned : Bool) :
    Relayed ([] : List (Label Request Reply)) []
      (Flow.initial session spawned : Flow Request Reply Session) :=
  ⟨[], by cases spawned <;> rfl, fun _ => rfl⟩

/-- The step is one of the threads' own: a receive or a send fails only because
its endpoint is closed. -/
def Flow.own (flow : Flow Request Reply Session) : Label Request Reply → Bool
  | .main | .relay => true
  | .mainFailed =>
      match flow.main with
      | .receiving => flow.downClosed
      | .forwarding _ => flow.upClosed
      | _ => false
  | .relayFailed =>
      match flow.relay with
      | .receiving => flow.upClosed
      | .sending _ => flow.downClosed
      | _ => false
  | _ => false

variable (handler) in
/-- What the threads do while the peers do nothing. -/
def stepAlone (flow : Flow Request Reply Session) (label : Label Request Reply) :
    Option (Flow Request Reply Session) :=
  if flow.own label then step handler flow label else none

/-- A bound on what the thread still does without a further request. -/
def Main.weight : Main Request → Nat
  | .intercepting _ => 7
  | .forwarding _ => 6
  | .receiving => 5
  | .settling => 4
  | .closingDown => 3
  | .closingUp => 2
  | .joining => 1
  | .finished => 0

def Relay.weight : Relay Reply → Nat
  | .sending _ => 4
  | .receiving => 3
  | .closingDown => 2
  | .closingUp => 1
  | .finished => 0

/-- A bound on what the threads do while the peers do nothing. -/
def Flow.weight (flow : Flow Request Reply Session) : Nat :=
  3 * flow.fromApp.length + flow.main.weight + 2 * flow.fromUpstream.length + flow.relay.weight

theorem step_of_stepAlone (stepped : stepAlone handler flow label = some next) :
    flow.own label = true ∧ step handler flow label = some next := by
  rw [stepAlone] at stepped
  split at stepped
  case isTrue own => exact ⟨own, stepped⟩
  case isFalse => simp at stepped

theorem weight_lt_of_moves (moves : Moves handler flow label extra next)
    (own : flow.own label = true) : next.weight < flow.weight := by
  cases moves with
  | offered | supplied | appClosed | upstreamClosed => simp [Flow.own] at own
  | took request rest main fromApp =>
      simp only [Flow.weight, main, fromApp, Main.weight, List.length_cons]
      omega
  | granted request bytes main | denied request reason main | forwarded bytes main
  | ended main | refused bytes main | settled main | closedDown main | closedUp main
  | joined main => simp [Flow.weight, main, Main.weight]
  | relayTook frame rest relay fromUpstream =>
      simp only [Flow.weight, relay, fromUpstream, Relay.weight, List.length_cons]
      omega
  | relayed frame relay | relayClosedDown relay | relayClosedUp relay =>
      simp [Flow.weight, relay, Relay.weight]
  | relayFailed running =>
      cases relay : flow.relay with
      | receiving | sending => simp [Flow.weight, relay, Relay.weight]
      | _ => simp [relay, Relay.running] at running

theorem weight_lt_of_stepAlone (stepped : stepAlone handler flow label = some next) :
    next.weight < flow.weight := by
  obtain ⟨own, stepped⟩ := step_of_stepAlone stepped
  exact weight_lt_of_moves (moves_of_step stepped) own

/-- A thread that has passed its closes leaves closed endpoints. -/
structure Shut (spawned : Bool) (flow : Flow Request Reply Session) : Prop where
  down : flow.main.weight ≤ 2 → flow.downClosed = true
  up : flow.main.weight ≤ 1 → flow.upClosed = true
  relayDown : spawned = true → flow.relay.weight ≤ 1 → flow.downClosed = true
  relayUp : spawned = true → flow.relay.weight = 0 → flow.upClosed = true

theorem shut_initial (session : Session) (spawned : Bool) :
    Shut spawned (Flow.initial session spawned : Flow Request Reply Session) where
  down late := by simp [Flow.initial, Main.weight] at late
  up late := by simp [Flow.initial, Main.weight] at late
  relayDown there late := by simp [Flow.initial, there, Relay.weight] at late
  relayUp there late := by simp [Flow.initial, there, Relay.weight] at late

theorem shut_of_moves {spawned : Bool} (shut : Shut spawned flow)
    (moves : Moves handler flow label extra next) : Shut spawned next := by
  obtain ⟨down, up, relayDown, relayUp⟩ := shut
  cases moves with
  | offered | supplied => exact ⟨down, up, relayDown, relayUp⟩
  | appClosed => exact ⟨fun _ => rfl, up, fun _ _ => rfl, relayUp⟩
  | upstreamClosed => exact ⟨down, fun _ => rfl, relayDown, fun _ _ => rfl⟩
  | took | granted | denied | forwarded | ended | refused | settled =>
      refine ⟨fun late => ?_, fun late => ?_, relayDown, relayUp⟩
      · simp [Main.weight] at late
      · simp [Main.weight] at late
  | closedDown =>
      exact ⟨fun _ => rfl, fun late => by simp [Main.weight] at late, fun _ _ => rfl, relayUp⟩
  | closedUp main =>
      exact ⟨fun _ => down (by simp [main, Main.weight]), fun _ => rfl, relayDown, fun _ _ => rfl⟩
  | joined main =>
      exact ⟨fun _ => down (by simp [main, Main.weight]), fun _ => up (by simp [main, Main.weight]),
        relayDown, relayUp⟩
  | relayTook | relayed | relayFailed =>
      refine ⟨down, up, fun _ late => ?_, fun _ late => ?_⟩
      · simp [Relay.weight] at late
      · simp [Relay.weight] at late
  | relayClosedDown =>
      exact ⟨fun _ => rfl, up, fun _ _ => rfl, fun _ late => by simp [Relay.weight] at late⟩
  | relayClosedUp relay =>
      exact ⟨down, fun _ => rfl, fun there _ => relayDown there (by simp [relay, Relay.weight]),
        fun _ _ => rfl⟩

/-- The threads wait for the peers: the app has sent nothing, and neither
endpoint that they watch is closed. -/
structure Waiting (spawned : Bool) (flow : Flow Request Reply Session) : Prop where
  main : flow.main = .receiving
  nothing : flow.fromApp = []
  downOpen : flow.downClosed = false
  upOpen : spawned = true → flow.upClosed = false

section Resting

variable (upWaits : List UInt8 → Bool) (downWaits : Reply → Bool)

/-- The step is a send that waits for room. -/
def Flow.waits (flow : Flow Request Reply Session) : Label Request Reply → Bool
  | .main =>
      match flow.main with
      | .forwarding bytes => upWaits bytes
      | _ => false
  | .relay =>
      match flow.relay with
      | .sending frame => downWaits frame
      | _ => false
  | _ => false

variable (handler) in
/-- The threads can do nothing unless a peer moves or takes a frame. -/
def Resting (flow : Flow Request Reply Session) : Prop :=
  ∀ label, flow.waits upWaits downWaits label = false → stepAlone handler flow label = none

/-- The thread that asks the handler is in a send on an open endpoint. -/
def MainWaits (flow : Flow Request Reply Session) : Prop :=
  ∃ bytes, flow.main = .forwarding bytes ∧ flow.upClosed = false ∧ upWaits bytes = true

def RelayWaits (flow : Flow Request Reply Session) : Prop :=
  ∃ frame, flow.relay = .sending frame ∧ flow.downClosed = false ∧ downWaits frame = true

variable {upWaits downWaits}

theorem relay_of_resting (rest : Resting handler upWaits downWaits flow) :
    flow.relay = .finished ∨
      (flow.relay = .receiving ∧ flow.fromUpstream = [] ∧ flow.upClosed = false) ∨
        RelayWaits downWaits flow := by
  have fails := rest .relayFailed rfl
  cases relay : flow.relay with
  | receiving =>
      have goes := rest .relay (by simp [Flow.waits, relay])
      refine .inr (.inl ⟨rfl, ?_, ?_⟩)
      · cases left : flow.fromUpstream with
        | nil => rfl
        | cons frame rest => simp [stepAlone, Flow.own, step, stepRelay, relay, left] at goes
      · simpa [stepAlone, Flow.own, step, relay] using fails
  | sending frame =>
      have isOpen : flow.downClosed = false := by
        simpa [stepAlone, Flow.own, step, relay] using fails
      cases waits : downWaits frame with
      | true => exact .inr (.inr ⟨frame, relay, isOpen, waits⟩)
      | false =>
          have goes := rest .relay (by simp [Flow.waits, relay, waits])
          simp [stepAlone, Flow.own, step, stepRelay, relay, isOpen] at goes
  | closingDown | closingUp =>
      have goes := rest .relay (by simp [Flow.waits, relay])
      simp [stepAlone, Flow.own, step, stepRelay, relay] at goes
  | finished => exact .inl rfl

theorem main_of_resting {spawned : Bool} (shut : Shut spawned flow)
    (rest : Resting handler upWaits downWaits flow) :
    flow.main = .finished ∨
      (flow.main = .receiving ∧ flow.fromApp = [] ∧ flow.downClosed = false) ∨
        MainWaits upWaits flow := by
  have fails := rest .mainFailed rfl
  cases main : flow.main with
  | receiving =>
      have goes := rest .main (by simp [Flow.waits, main])
      refine .inr (.inl ⟨rfl, ?_, ?_⟩)
      · cases fromApp : flow.fromApp with
        | nil => rfl
        | cons request rest => simp [stepAlone, Flow.own, step, stepMain, main, fromApp] at goes
      · simpa [stepAlone, Flow.own, step, main] using fails
  | forwarding bytes =>
      have isOpen : flow.upClosed = false := by
        simpa [stepAlone, Flow.own, step, main] using fails
      cases waits : upWaits bytes with
      | true => exact .inr (.inr ⟨bytes, main, isOpen, waits⟩)
      | false =>
          have goes := rest .main (by simp [Flow.waits, main, waits])
          simp [stepAlone, Flow.own, step, stepMain, main, isOpen] at goes
  | joining =>
      have goes := rest .main (by simp [Flow.waits, main])
      rcases relay_of_resting rest with finished | ⟨-, -, upOpen⟩ | ⟨frame, -, downOpen, -⟩
      · simp [stepAlone, Flow.own, step, stepMain, main, finished] at goes
      · have closed := shut.up (by simp [main, Main.weight])
        simp [closed] at upOpen
      · have closed := shut.down (by simp [main, Main.weight])
        simp [closed] at downOpen
  | intercepting | settling | closingDown | closingUp =>
      have goes := rest .main (by simp [Flow.waits, main])
      simp [stepAlone, Flow.own, step, stepMain, main] at goes
  | finished => exact .inl rfl

end Resting

variable (handler) in
/-- The threads can do nothing unless a peer moves. -/
def Stuck (flow : Flow Request Reply Session) : Prop :=
  ∀ label, stepAlone handler flow label = none

/-- Left to themselves, the threads come to the end of `serve_flow` or wait. -/
theorem finished_or_waiting {spawned : Bool} (shut : Shut spawned flow)
    (stuck : Stuck handler flow) : flow.main = .finished ∨ Waiting spawned flow := by
  have rest : Resting handler (fun _ => false) (fun _ => false) flow := fun label _ => stuck label
  rcases main_of_resting shut rest with finished | ⟨main, nothing, downOpen⟩ | ⟨bytes, -, -, waits⟩
  · exact .inl finished
  · refine .inr ⟨main, nothing, downOpen, fun there => ?_⟩
    rcases relay_of_resting rest with finished | ⟨-, -, upOpen⟩ | ⟨frame, -, -, waits⟩
    · have closed := shut.relayDown there (by simp [finished, Relay.weight])
      simp [closed] at downOpen
    · exact upOpen
    · cases waits
  · cases waits

/-- Everything that holds after a run. -/
structure Accounted (handler : FlowHandler Request Session) (session : Session) (spawned : Bool)
    (trace : List (Label Request Reply)) (flow : Flow Request Reply Session) : Prop where
  reached : execute (step handler) (Flow.initial session spawned) trace = some flow
  served : Served handler session trace (seen handler session spawned trace) flow
  relayed : Relayed trace (seen handler session spawned trace) flow
  shut : Shut spawned flow

theorem accounted_of_execute {spawned : Bool}
    (reached : execute (step handler) (Flow.initial session spawned) trace = some flow) :
    Accounted handler session spawned trace flow := by
  refine invariant_of_execute (Accounted handler session spawned) ?_ ?_ reached
  · exact ⟨rfl, served_initial handler session spawned, relayed_initial session spawned,
      shut_initial session spawned⟩
  · rintro trace flow label next ⟨before, served, relayed, shut⟩ stepped
    have moves := moves_of_step stepped
    have grows : seen handler session spawned (trace ++ [label]) =
        seen handler session spawned trace ++ events handler flow label :=
      emitted_concat before
    refine ⟨execute_concat_eq_some.mpr ⟨flow, before, stepped⟩, ?_, ?_, shut_of_moves shut moves⟩
    · rw [grows]
      exact served.of_moves moves
    · rw [grows]
      exact relayed_of_moves relayed moves

/-- The relay after a run, exactly. -/
structure Exact (handler : FlowHandler Request Session) (session : Session) (spawned : Bool)
    (trace : List (Label Request Reply)) (history : List (Event Request Reply))
    (flow : Flow Request Reply Session) : Prop where
  upstream : ∃ served beyond rest,
    trace.filterMap Label.fromApp? = served ++ beyond ++ rest ∧
    history.filterMap Event.request? = served ++ beyond ∧
    handler.actions session served =
      (history.filterMap Event.forwarded?).map Action.forward ∧
    Unsent handler flow.main history (handler.after session served) beyond
  denied : ∀ before request reason after,
    history = before ++ .intercepted request (.deny reason) :: after →
      ∀ event ∈ after, event.works = false
  verbatim : history.filterMap Event.relayed? <+: trace.filterMap Label.fromUpstream?
  closedOnce : history.countP Event.isClosed ≤ 1
  closedLast : ∀ before after, history = before ++ .closed :: after →
    ∀ event ∈ after, event.works = false
  returned : flow.main = .finished → history.countP Event.isClosed = 1
  ends : ∀ later final, execute (stepAlone handler) flow later = some final →
    later.length ≤ flow.weight ∧
      (Stuck handler final → final.main = .finished ∨ Waiting spawned final)

/-- What ends the loop is followed by no request and no send upstream. -/
theorem Served.not_works_of_ends (served : Served handler session trace history flow)
    {before after : List (Event Request Reply)} {last : Event Request Reply}
    (split : history = before ++ last :: after) (ends : last.ends = true) :
    ∀ event ∈ after, event.works = false := by
  intro event member
  obtain ⟨middle, rest, rfl⟩ := List.append_of_mem member
  rw [← Bool.not_eq_true]
  intro works
  have earlier := served.ordered (before ++ last :: middle) event rest (by simp [split]) works
    last (by simp)
  simp [ends] at earlier

theorem execute_of_stepAlone {later : List (Label Request Reply)}
    {final : Flow Request Reply Session}
    (alone : execute (stepAlone handler) flow later = some final) :
    execute (step handler) flow later = some final := by
  induction later generalizing flow with
  | nil => exact alone
  | cons label rest induction =>
      obtain ⟨next, stepped, later⟩ := Option.bind_eq_some_iff.mp alone
      rw [execute_cons, (step_of_stepAlone stepped).2]
      exact induction later

/-- The relay is exact after every run: for every handler, every behaviour of the
app and of upstream, and every schedule. -/
theorem relay_exact (handler : FlowHandler Request Session) {session : Session} {spawned : Bool}
    {trace : List (Label Request Reply)} {flow : Flow Request Reply Session}
    (reached : execute (step handler) (Flow.initial session spawned) trace = some flow) :
    Exact handler session spawned trace (seen handler session spawned trace) flow := by
  obtain ⟨-, served, ⟨lost, received, -⟩, -⟩ := accounted_of_execute reached
  constructor
  case upstream =>
    obtain ⟨passed, beyond, asked, actions, unsent⟩ := served.upstream
    refine ⟨passed, beyond, flow.main.asking ++ flow.fromApp, ?_, asked, actions, unsent⟩
    rw [served.asked, asked, List.append_assoc (passed ++ beyond)]
  case denied =>
    intro before request reason after split
    exact served.not_works_of_ends split rfl
  case verbatim =>
    rw [received, List.append_assoc, List.append_assoc]
    exact List.prefix_append _ _
  case closedOnce =>
    rw [served.closes]
    split <;> omega
  case closedLast =>
    intro before after split
    exact served.not_works_of_ends split rfl
  case returned =>
    intro finished
    rw [served.closes, finished]
    rfl
  case ends =>
    intro later final alone
    have bound := length_add_measure_le (fun _ => True) Flow.weight trivial
      (fun _ _ _ _ _ => trivial) (fun _ _ _ _ stepped => weight_lt_of_stepAlone stepped) alone
    refine ⟨by omega, ?_⟩
    have whole : execute (step handler) (Flow.initial session spawned) (trace ++ later) =
        some final :=
      execute_append_eq_some.mpr ⟨flow, reached, execute_of_stepAlone alone⟩
    exact finished_or_waiting (accounted_of_execute whole).shut

/-- A handler that lets through what the session has credit for. -/
def budget : FlowHandler (List UInt8) Nat where
  intercept
    | 0, _ => (.deny "no credit", 0)
    | credit + 1, request => (.forward request, credit)
  onClose credit := credit

/-- The app asks three times on a credit for one, and upstream answers once. -/
def meteredRun : List (Label (List UInt8) (List UInt8)) :=
  [.appSend [1], .appSend [2], .main, .main, .main, .upstreamSend [9], .relay, .appSend [3],
    .main, .relay, .main, .main, .main, .main, .relayFailed, .relay, .relay, .main]

theorem relay_exact_metered :
    ∃ flow, execute (step budget) (Flow.initial 1 true) meteredRun = some flow ∧
      flow.main = .finished ∧
      seen budget 1 true meteredRun =
        [.intercepted [1] (.forward [1]), .forwarded [1], .relayed [9],
          .intercepted [2] (.deny "no credit"), .closed] ∧
      Exact budget 1 true meteredRun (seen budget 1 true meteredRun) flow :=
  ⟨_, rfl, rfl, rfl, relay_exact budget rfl⟩

end CeRs.ServeFlow
