import CeRs.Adapt.Flow
import CeRs.Lane.Fallback
import CeRs.Lane.Streams

/-!
# Calls of a client behind an adapter

A hot-path call of a client whose lane an adapter is interposed on becomes a
frame of the client's mux, and the node sees of it what the handler forwards.
A denial takes the flow down; the operations that wait on it resolve to
`LaneGone`, and these calls and all later ones are posted over HTTP, where there
is no adapter.
-/

namespace CeRs.Adapt

open Transition
open Fallback (Outcome Point)
open Lane (NodeOp Answer)

/-- The hot-path methods: those of the fallback and two more. -/
inductive Method
  | fallback (method : Fallback.Method)
  | reply (token : UInt64) (payload : List UInt8)
  | subscribe (topic : String)
  deriving DecidableEq, Repr

def Method.laneOp : Method → Option NodeOp
  | .fallback method => method.laneOp
  | .reply token payload => some (.reply token payload)
  | .subscribe topic => some (.subscribe topic)

def Method.laneOutcome : Method → Answer → Outcome
  | .fallback method, answer => method.laneOutcome answer
  | _, .ok .done => .done
  | _, .ok _ => .failed "CE lane: unexpected response"
  | _, .error reason => .failed s!"CE node: {reason}"

def Method.httpOutcome (method : Method) (answer : Http.Answer Http.Json) : Outcome :=
  match method with
  | .fallback method => method.httpOutcome answer
  | _ =>
      match Http.ok answer with
      | .ok _ => .done
      | .error message => .failed message

/-- A call of the client, with the caller of the mux that runs its operation. -/
structure Call where
  method : Method
  laneCaller : Option Nat
  point : Point
  deriving DecidableEq, Repr

/-- `httpReceived` lists the calls whose HTTP request the node has received. -/
structure State where
  flow : Flow
  total : Nat
  calls : Nat → Call
  httpReceived : List Nat

/-- `post` says whether the node receives the request, and what comes back. -/
inductive Label
  | begin (method : Method)
  | look (call : Nat)
  | flow (label : FlowLabel)
  | land (call : Nat)
  | post (call : Nat) (arrives : Bool) (answer : Http.Answer Http.Json)

def initial (spawned : Bool) : State where
  flow := .initial spawned
  total := 0
  calls := fun _ => ⟨.subscribe "", none, .idle⟩
  httpReceived := []

def State.setCall (state : State) (index : Nat) (call : Call) : State :=
  { state with calls := Function.update state.calls index call }

def step (state : State) : Label → Option State
  | .begin method =>
      some { state.setCall state.total ⟨method, none, .looking⟩ with total := state.total + 1 }
  | .look index =>
      let call := state.calls index
      match call.point with
      | .looking =>
          match call.method.laneOp with
          | some op =>
              if state.flow.client.dead then
                some (state.setCall index { call with point := .posting })
              else
                (Lane.step state.flow.client (.call op)).map fun client =>
                  { state.setCall index
                      { call with
                        laneCaller := some state.flow.client.total
                        point := .onLane } with
                    flow := { state.flow with client } }
          | none => some (state.setCall index { call with point := .posting })
      | _ => none
  | .flow label => (state.flow.step label).map fun flow => { state with flow }
  | .land index =>
      let call := state.calls index
      match call.point, call.laneCaller with
      | .onLane, some caller =>
          match (state.flow.client.callers caller).point with
          | .returned (some answer) =>
              some (state.setCall index
                { call with point := .finished (call.method.laneOutcome answer) })
          -- lane gone mid-flight: fall back to HTTP below
          | .returned none => some (state.setCall index { call with point := .posting })
          | _ => none
      | _, _ => none
  | .post index arrives answer =>
      let call := state.calls index
      match call.point, arrives, answer with
      | .posting, false, .response .. => none
      | .posting, _, _ =>
          some { state.setCall index
              { call with point := .finished (call.method.httpOutcome answer) } with
            httpReceived := state.httpReceived ++ if arrives then [index] else [] }
      | _, _, _ => none

/-- How often the node acts on the call over the lane. -/
def State.laneActs (state : State) (index : Nat) : Nat :=
  match (state.calls index).laneCaller with
  | some caller => state.flow.acted.countP fun forwarded => forwarded.frame.caller == caller
  | none => 0

def State.httpActs (state : State) (index : Nat) : Nat :=
  state.httpReceived.count index

/-- How often the node acts on the call in total. -/
def State.acts (state : State) (index : Nat) : Nat :=
  state.laneActs index + state.httpActs index

/-- The handler was asked about the request of the call, and decided so. -/
def State.Decided (state : State) (index : Nat) (action : Action) : Prop :=
  ∃ caller frame, (state.calls index).laneCaller = some caller ∧ frame.caller = caller ∧
    some frame.request.op = (state.calls index).method.laneOp ∧
      (frame, action) ∈ state.flow.decisions

/-- The call cannot ride the lane: its recipient has no binary form, the lane
was dead, or its operation has resolved to `LaneGone`. -/
def FellBack (client : Lane.State) (call : Call) : Prop :=
  match call.laneCaller with
  | none => call.method.laneOp = none ∨ client.dead = true
  | some caller => (client.callers caller).point = .returned none

/-- Everything a step can do. -/
inductive Moves (state : State) : State → Prop
  | began (method : Method) :
      Moves state
        { state.setCall state.total ⟨method, none, .looking⟩ with total := state.total + 1 }
  | bypassed (index : Nat) (point : (state.calls index).point = .looking)
      (cause : (state.calls index).method.laneOp = none ∨ state.flow.client.dead = true) :
      Moves state (state.setCall index { state.calls index with point := .posting })
  | entered (index : Nat) (client : Lane.State) (op : NodeOp)
      (point : (state.calls index).point = .looking)
      (laneOp : (state.calls index).method.laneOp = some op)
      (stepped : Lane.step state.flow.client (.call op) = some client) :
      Moves state
        { state.setCall index
            { state.calls index with
              laneCaller := some state.flow.client.total
              point := .onLane } with
          flow := { state.flow with client } }
  | flowed (flow : Flow) (moves : FlowMoves state.flow flow) : Moves state { state with flow }
  | answered (index : Nat) (outcome : Outcome) (point : (state.calls index).point = .onLane) :
      Moves state (state.setCall index { state.calls index with point := .finished outcome })
  | fellBack (index caller : Nat) (point : (state.calls index).point = .onLane)
      (own : (state.calls index).laneCaller = some caller)
      (gone : (state.flow.client.callers caller).point = .returned none) :
      Moves state (state.setCall index { state.calls index with point := .posting })
  | posted (index : Nat) (arrives : Bool) (outcome : Outcome)
      (point : (state.calls index).point = .posting) :
      Moves state
        { state.setCall index { state.calls index with point := .finished outcome } with
          httpReceived := state.httpReceived ++ if arrives then [index] else [] }

theorem moves_of_step {state next : State} {label : Label}
    (stepped : step state label = some next) : Moves state next := by
  cases label with
  | begin method => exact Option.some.inj stepped ▸ .began method
  | look index =>
      simp only [step] at stepped
      split at stepped
      case h_1 point =>
          split at stepped
          case h_1 op laneOp =>
              split at stepped
              case isTrue dead =>
                  exact Option.some.inj stepped ▸ .bypassed index point (.inr dead)
              case isFalse alive =>
                  obtain ⟨client, called, rfl⟩ := Option.map_eq_some_iff.mp stepped
                  exact .entered index client op point laneOp called
          case h_2 laneOp => exact Option.some.inj stepped ▸ .bypassed index point (.inl laneOp)
      case h_2 => simp at stepped
  | flow label =>
      obtain ⟨flow, moved, rfl⟩ := Option.map_eq_some_iff.mp stepped
      exact .flowed flow (flowMoves_of_step moved)
  | land index =>
      simp only [step] at stepped
      split at stepped
      case h_1 caller point own =>
          split at stepped
          case h_1 answer returned => exact Option.some.inj stepped ▸ .answered index _ point
          case h_2 gone => exact Option.some.inj stepped ▸ .fellBack index caller point own gone
          case h_3 => simp at stepped
      case h_2 => simp at stepped
  | post index arrives answer =>
      simp only [step] at stepped
      split at stepped
      case h_1 => simp at stepped
      case h_2 point _ => exact Option.some.inj stepped ▸ .posted index _ _ point
      case h_3 => simp at stepped

/-- The operation a caller of the mux is about to send. -/
def asked : Lane.Point → Option NodeOp
  | .watchChecking => some .watch
  | .checking op | .allocating op | .inserting op _ | .sending op _ => some op
  | _ => none

/-- The caller of the mux asks the node for this operation. -/
structure Asks (client : Lane.State) (caller : Nat) (op : NodeOp) : Prop where
  point : ∀ other, asked (client.callers caller).point = some other → other = op
  frames : ∀ frame ∈ client.frames, frame.caller = caller → frame.request.op = op

theorem asked_resume (watch : Bool) (answer : Option Answer) :
    asked (Lane.resume watch answer) = none := by
  unfold Lane.resume
  split
  · split <;> rfl
  · rfl

theorem asked_of_moves {client next : Lane.State} {label : Lane.Label}
    (moves : Lane.Moves client label next) {caller : Nat} (known : caller < client.total)
    {op : NodeOp} (asks : asked (next.callers caller).point = some op) :
    asked (client.callers caller).point = some op := by
  cases moves with
  | caller other _ moves =>
      by_cases same : caller = other
      · subst same
        cases moves with
        | foundAlive op point | allocated op point | inserted op id point | notStarted point =>
            rw [point]
            simpa [asked] using asks
        | foundDead | withdrawn | answered | orphaned =>
            simp [asked_resume] at asks
        | started | sent | notSent | marked | registered | raced | confirmed =>
            simp [asked] at asks
      · rwa [moves.callers_of_ne same] at asks
  | reader _ moves => rwa [moves.point_eq] at asks
  | writer _ moves => cases moves <;> exact asks
  | called | watched => simpa [known.ne] using asks
  | cancelled other id waiting =>
      by_cases same : caller = other
      · simp [same, asked] at asks
      · simpa [same] using asks
  | droppedReceiver other watching =>
      by_cases same : caller = other
      · simpa [same] using asks
      · simpa [same] using asks
  | refused | nodeReceived | droppedClient | failed | nodeSent | closed => exact asks

theorem asks_of_moves {client next : Lane.State} {label : Lane.Label} {caller : Nat}
    {op : NodeOp} (asks : Asks client caller op) (moves : Lane.Moves client label next)
    (known : caller < client.total) : Asks next caller op where
  point other about := asks.point other (asked_of_moves moves known about)
  frames frame member own := by
    rcases Lane.mem_frames_of_moves moves member with old | sending
    · exact asks.frames frame old own
    · exact asks.point frame.request.op (by rw [← own, sending]; rfl)

theorem asks_of_called {client next : Lane.State} {op : NodeOp} (once : Lane.OneFrame client)
    (stepped : Lane.step client (.call op) = some next) : Asks next client.total op := by
  cases Lane.moves_of_step stepped with
  | called op alive =>
      refine ⟨fun other about => ?_, fun frame member own => ?_⟩
      · simpa [asked, Lane.newCaller, eq_comm] using about
      · have none := once.unsent client.total (by rw [once.fresh client.total le_rfl]; rfl)
        rw [Lane.State.framesOf, List.countP_eq_zero] at none
        exact absurd (beq_iff_eq.mpr own) (none frame member)

/-- What is known of a call after `posts` posts: the frame of its caller asks
for its operation, and it is posted only when it cannot ride the lane. -/
structure CallTracked (client : Lane.State) (call : Call) (posts : Nat) : Prop where
  unposted : call.point.unposted = true → posts = 0
  looking : call.point = .looking → call.laneCaller = none
  known : ∀ caller, call.laneCaller = some caller → caller < client.total
  asks : ∀ caller, call.laneCaller = some caller →
    ∃ op, call.method.laneOp = some op ∧ Asks client caller op
  fellBack : call.point = .posting ∨ 0 < posts → FellBack client call

structure Tracked (state : State) : Prop where
  mediated : Mediated state.flow
  fresh : ∀ index, state.total ≤ index → (state.calls index).point = .idle
  calls : ∀ index, CallTracked state.flow.client (state.calls index) (state.httpActs index)

theorem tracked_initial (spawned : Bool) : Tracked (initial spawned) where
  mediated := mediated_initial spawned
  fresh _ _ := rfl
  calls index := by
    refine ⟨fun _ => rfl, fun _ => rfl, fun caller own => ?_, fun caller own => ?_, fun late => ?_⟩
    · simp [initial] at own
    · simp [initial] at own
    · simp [initial, State.httpActs] at late

theorem CallTracked.of_client {client next : Lane.State} {call : Call} {posts : Nat}
    {label : Lane.Label} (tracked : CallTracked client call posts)
    (moves : Lane.Moves client label next) : CallTracked next call posts where
  unposted := tracked.unposted
  looking := tracked.looking
  known caller own := (tracked.known caller own).trans_le (Lane.total_le_of_moves moves)
  asks caller own := by
    obtain ⟨op, laneOp, asks⟩ := tracked.asks caller own
    exact ⟨op, laneOp, asks_of_moves asks moves (tracked.known caller own)⟩
  fellBack late := by
    have fellBack := tracked.fellBack late
    unfold FellBack at fellBack ⊢
    split at fellBack
    case h_1 => exact fellBack.imp_right (Lane.dead_of_moves moves)
    case h_2 caller own =>
        exact Lane.returned_of_moves moves (tracked.known caller own) fellBack

theorem CallTracked.of_flow {flow next : Flow} {call : Call} {posts : Nat}
    (tracked : CallTracked flow.client call posts) (moves : FlowMoves flow next) :
    CallTracked next.client call posts := by
  cases moves with
  | client _ _ _ stepped | took _ _ _ stepped | closed _ _ stepped =>
      exact tracked.of_client (Lane.moves_of_step stepped)
  | forwarded | denied | sent | left | acted | relayed => exact tracked

theorem Tracked.of_call {state : State} (tracked : Tracked state) {index : Nat} {call : Call}
    {next : State} (calls : next.calls = Function.update state.calls index call)
    (flow : next.flow = state.flow) (total : state.total ≤ next.total)
    (started : index < next.total)
    (posts : ∀ other, other ≠ index → next.httpActs other = state.httpActs other)
    (here : CallTracked state.flow.client call (next.httpActs index)) : Tracked next where
  mediated := flow ▸ tracked.mediated
  fresh other beyond := by
    have different : other ≠ index := by omega
    rw [calls, Function.update_of_ne different]
    exact tracked.fresh other (total.trans beyond)
  calls := by
    rw [flow, calls]
    refine (Function.forall_update_iff state.calls fun other call =>
      CallTracked state.flow.client call (next.httpActs other)).mpr
        ⟨here, fun other different => ?_⟩
    rw [posts other different]
    exact tracked.calls other

theorem Tracked.started {state : State} (tracked : Tracked state) {index : Nat}
    (busy : (state.calls index).point ≠ .idle) : index < state.total := by
  by_contra beyond
  exact busy (tracked.fresh index (Nat.le_of_not_lt beyond))

theorem Tracked.of_flow {state : State} (tracked : Tracked state) {flow : Flow}
    (moves : FlowMoves state.flow flow) : Tracked { state with flow } where
  mediated := mediated_of_moves tracked.mediated moves
  fresh := tracked.fresh
  calls index := (tracked.calls index).of_flow moves

theorem tracked_of_moves {state next : State} (tracked : Tracked state)
    (moves : Moves state next) : Tracked next := by
  cases moves with
  | began method =>
      have fresh := tracked.fresh state.total le_rfl
      have unposted := (tracked.calls state.total).unposted (by rw [fresh]; rfl)
      refine tracked.of_call rfl rfl (Nat.le_succ _) (Nat.lt_succ_self _) (fun _ _ => rfl) ?_
      refine ⟨fun _ => unposted, fun _ => rfl, fun caller own => ?_, fun caller own => ?_,
        fun late => ?_⟩
      · simp at own
      · simp at own
      · exact absurd late (Fallback.not_posted (by simp) unposted)
  | bypassed index point cause =>
      have old := tracked.calls index
      have noCaller := old.looking point
      refine tracked.of_call rfl rfl le_rfl (tracked.started (by simp [point])) (fun _ _ => rfl) ?_
      refine ⟨fun _ => old.unposted (by rw [point]; rfl), fun _ => noCaller, old.known, old.asks,
        fun _ => ?_⟩
      simpa [FellBack, noCaller] using cause
  | entered index client op point laneOp stepped =>
      have moved := tracked.of_flow (.client _ client state.flow.relay stepped
        (received_of_step stepped (by simp)))
      have old := moved.calls index
      have room : client.total = state.flow.client.total + 1 := by
        cases Lane.moves_of_step stepped
        rfl
      refine moved.of_call rfl rfl le_rfl (tracked.started (by simp [point])) (fun _ _ => rfl) ?_
      have unposted := old.unposted (by rw [point]; rfl)
      refine ⟨fun _ => unposted, fun looking => by simp at looking, fun caller own => ?_,
        fun caller own => ?_, fun late => ?_⟩
      · obtain rfl := Option.some.inj own
        change state.flow.client.total < client.total
        omega
      · obtain rfl := Option.some.inj own
        exact ⟨op, laneOp, asks_of_called tracked.mediated.once stepped⟩
      · exact absurd late (Fallback.not_posted (by simp) unposted)
  | flowed flow moves => exact tracked.of_flow moves
  | answered index outcome point =>
      have old := tracked.calls index
      have unposted := old.unposted (by rw [point]; rfl)
      refine tracked.of_call rfl rfl le_rfl (tracked.started (by simp [point])) (fun _ _ => rfl) ?_
      exact ⟨fun _ => unposted, fun looking => by simp at looking, old.known, old.asks,
        fun late => absurd late (Fallback.not_posted (by simp) unposted)⟩
  | fellBack index caller point own gone =>
      have old := tracked.calls index
      refine tracked.of_call rfl rfl le_rfl (tracked.started (by simp [point])) (fun _ _ => rfl) ?_
      refine ⟨fun _ => old.unposted (by rw [point]; rfl), fun looking => by simp at looking,
        old.known, old.asks, fun _ => ?_⟩
      simpa [FellBack, own] using gone
  | posted index arrives outcome point =>
      have old := tracked.calls index
      refine tracked.of_call rfl rfl le_rfl (tracked.started (by simp [point]))
        (fun other different => ?_) ?_
      · have counted := Fallback.count_posted state.httpReceived index other arrives
        simpa [State.httpActs, Ne.symm different] using counted
      · exact ⟨fun absurd => by simp [Fallback.Point.unposted] at absurd,
          fun looking => by simp at looking, old.known, old.asks,
          fun _ => old.fellBack (.inl point)⟩

theorem tracked_of_execute {spawned : Bool} {trace : List Label} {final : State}
    (reached : execute step (initial spawned) trace = some final) : Tracked final :=
  stateInvariant_of_execute Tracked (tracked_initial spawned)
    (fun _ _ _ tracked stepped => tracked_of_moves tracked (moves_of_step stepped)) reached

theorem mem_frames_of_decided {flow : Flow} (mediated : Mediated flow)
    {decision : Lane.Frame × Action} (member : decision ∈ flow.decisions) :
    decision.1 ∈ flow.client.frames := by
  have received : decision.1 ∈ flow.client.received := by
    rw [mediated.taken]
    exact List.mem_append_left _ (List.mem_map_of_mem member)
  exact List.mem_append_right _ received

theorem mem_decisions_of_acted {flow : Flow} (mediated : Mediated flow) {forwarded : Forwarded}
    (member : forwarded ∈ flow.acted) :
    (forwarded.frame, .forward forwarded.bytes) ∈ flow.decisions := by
  obtain ⟨⟨frame, action⟩, decided, through⟩ :=
    List.mem_filterMap.mp (mediated.acted_prefix.subset member)
  cases action with
  | forward bytes =>
      obtain rfl := Option.some.inj through
      exact decided
  | deny reason => cases through

theorem Tracked.decided_of_acted {state : State} (tracked : Tracked state) {index : Nat}
    (acts : 0 < state.laneActs index) : ∃ bytes, state.Decided index (.forward bytes) := by
  unfold State.laneActs at acts
  split at acts
  case h_1 caller own =>
      obtain ⟨forwarded, member, same⟩ := List.countP_pos_iff.mp acts
      have decided := mem_decisions_of_acted tracked.mediated member
      obtain ⟨op, laneOp, asks⟩ := (tracked.calls index).asks caller own
      have request := asks.frames _ (mem_frames_of_decided tracked.mediated decided)
        (beq_iff_eq.mp same)
      exact ⟨forwarded.bytes, caller, forwarded.frame, own, beq_iff_eq.mp same,
        by rw [laneOp, request], decided⟩
  case h_2 => simp at acts

/-- A denied call never reaches the node over the lane. -/
theorem Tracked.laneActs_of_denied {state : State} (tracked : Tracked state) {index : Nat}
    {reason : String} (denied : state.Decided index (.deny reason)) :
    state.laneActs index = 0 := by
  obtain ⟨caller, frame, own, rfl, -, member⟩ := denied
  by_contra acts
  unfold State.laneActs at acts
  rw [own] at acts
  obtain ⟨forwarded, acted, same⟩ := List.countP_pos_iff.mp (Nat.pos_of_ne_zero acts)
  have decided := mem_decisions_of_acted tracked.mediated acted
  obtain ⟨before, after, split⟩ := List.mem_iff_append.mp member
  obtain rfl := tracked.mediated.nil_of_denied split
  have earlier : (forwarded.frame, .forward forwarded.bytes) ∈ before := by
    simpa [split] using decided
  have once := tracked.mediated.decisions_le_one frame.caller
  rw [split, List.countP_append, List.countP_singleton, if_pos (by simp)] at once
  have positive : 0 < before.countP fun decision => decision.1.caller == frame.caller :=
    List.countP_pos_iff.mpr ⟨_, earlier, same⟩
  omega

/-- In every run of a client behind an adapter, the node acts over the lane on
what the handler has let through, in order, and on nothing after a denial.  A
call that reaches it otherwise was posted over HTTP because it could not ride
the lane. -/
theorem acts_if_forwarded_or_fell_back {spawned : Bool} {trace : List Label} {final : State}
    (reached : execute step (initial spawned) trace = some final) :
    final.flow.acted <+: final.flow.forwarded ∧
      (∀ before frame reason after,
        final.flow.decisions = before ++ (frame, .deny reason) :: after → after = []) ∧
      ∀ index,
        (0 < final.laneActs index → ∃ bytes, final.Decided index (.forward bytes)) ∧
        (∀ reason, final.Decided index (.deny reason) → final.laneActs index = 0) ∧
        (0 < final.httpActs index → FellBack final.flow.client (final.calls index)) := by
  have tracked := tracked_of_execute reached
  refine ⟨tracked.mediated.acted_prefix, fun _ _ _ _ => tracked.mediated.nil_of_denied,
    fun index => ⟨tracked.decided_of_acted, fun _ => tracked.laneActs_of_denied, fun posted => ?_⟩⟩
  exact (tracked.calls index).fellBack (.inr posted)

/-- A publish on its way to the handler. -/
def interceptedRun : List Label :=
  [.begin (.fallback (.publish "t" [104])), .look 0] ++
    [.client (.caller 0), .client (.caller 0), .client (.caller 0), .client (.caller 0),
      .client .writer, .client .writer, .main].map .flow

/-- The handler lets it through. -/
def forwardedRun : List Label :=
  interceptedRun ++ [.intercept (.forward [104]), .main, .nodeReceive].map .flow

theorem acts_if_forwarded_or_fell_back_forwarded :
    let final := (execute step (initial true) forwardedRun).get (by decide)
    final.laneActs 0 = 1 ∧ ∃ bytes, final.Decided 0 (.forward bytes) := by
  intro final
  have reached : execute step (initial true) forwardedRun = some final := (Option.some_get _).symm
  have acts : final.laneActs 0 = 1 := by decide
  obtain ⟨-, -, calls⟩ := acts_if_forwarded_or_fell_back reached
  exact ⟨acts, (calls 0).1 (by omega)⟩

/-- The handler denies it, and the client posts it over HTTP. -/
def deniedRun : List Label :=
  interceptedRun ++
    [.intercept (.deny "over budget"), .main, .main, .client .readerFailed, .client .reader,
      .client .reader, .client .reader, .client (.caller 0)].map .flow ++
    [.land 0, .post 0 true (.response "200 OK" true ⟨"", .ok none⟩)]

/-- The node acts on a call that was denied. -/
theorem denied_call_reaches_node :
    ¬ ∀ spawned trace final index, execute step (initial spawned) trace = some final →
      0 < final.acts index → ∃ bytes, final.Decided index (.forward bytes) := by
  intro claimed
  let final := (execute step (initial true) deniedRun).get (by decide)
  obtain ⟨bytes, caller, frame, -, -, -, member⟩ :=
    claimed true deniedRun final 0 (Option.some_get _).symm (by decide)
  have decisions : final.flow.decisions =
      [(⟨⟨1, .publish "t" [104]⟩, 0⟩, .deny "over budget")] := by decide
  simp [decisions] at member

end CeRs.Adapt
