import CeRs.Hex
import CeRs.Http
import CeRs.Lane.Frames

/-!
# The transparent fallback to HTTP

`send_message`, `publish` and `request` first try the lane and, when it is
absent, dead or dies under them, post the same call over HTTP.  The state below
is the lane's with one record for each call of the client; a label of the lane
is any step of the mux, those of other users of the lane included.

`LaneGone` does not say whether the node has received the frame.  The node acts
on a call at most once over each transport, and twice only if its frame was
received and the operation resolved to `LaneGone` all the same.
-/

namespace CeRs.Fallback

open Transition
open Lane (NodeOp NodeOk Answer)

/-- Unicode white space, as `str::trim` removes it. -/
def isWhitespace (character : Char) : Bool :=
  let code := character.toNat
  (9 ≤ code && code ≤ 13) || code == 0x20 || code == 0x85 || code == 0xA0 || code == 0x1680 ||
    (0x2000 ≤ code && code ≤ 0x200A) || code == 0x2028 || code == 0x2029 || code == 0x202F ||
    code == 0x205F || code == 0x3000

def trim (text : String) : String :=
  String.ofList
    ((text.toList.dropWhile isWhitespace).reverse.dropWhile isWhitespace).reverse

/-- `CeClient::parse_node_id`. -/
def parseNodeId (hexId : String) : Option (List UInt8) :=
  match Hex.decode (trim hexId) with
  | some bytes => if bytes.length = 32 then some bytes else none
  | none => none

inductive Method
  | sendMessage (recipient topic : String) (payload : List UInt8)
  | publish (topic : String) (payload : List UInt8)
  | request (recipient topic : String) (payload : List UInt8) (timeoutMs : UInt64)
  deriving DecidableEq, Repr

/-- The operation a method asks of the lane, unless the recipient has no
binary form. -/
def Method.laneOp : Method → Option NodeOp
  | .sendMessage recipient topic payload =>
      (parseNodeId recipient).map fun node => .send node topic payload
  | .publish topic payload => some (.publish topic payload)
  | .request recipient topic payload timeoutMs =>
      (parseNodeId recipient).map fun node => .request node topic payload timeoutMs

/-- What a method returns: `Ok` with the reply payload of a request, or `Err`. -/
inductive Outcome
  | done
  | payload (bytes : List UInt8)
  | failed (message : String)
  deriving DecidableEq, Repr

/-- The arms of each method for an answer of the node. -/
def Method.laneOutcome : Method → Answer → Outcome
  | .request .., .ok (.reply payload) => .payload payload
  | .request .., .ok _ => .failed "CE lane: unexpected response"
  | _, .ok .done => .done
  | _, .ok _ => .failed "CE lane: unexpected response"
  | _, .error reason => .failed s!"CE node: {reason}"

/-- The result of posting the call, for a request without the hex decoder's own
detail. -/
def Method.httpOutcome (method : Method) (answer : Http.Answer Http.Json) : Outcome :=
  match method with
  | .request .. =>
      match Http.jsonText answer with
      | .ok digits =>
          match Hex.decode digits with
          | some payload => .payload payload
          | none => .failed "bad reply payload hex"
      | .error message => .failed message
  | _ =>
      match Http.ok answer with
      | .ok _ => .done
      | .error message => .failed message

inductive Point
  | idle
  | looking
  | onLane
  | posting
  | finished (outcome : Outcome)
  deriving DecidableEq, Repr

/-- A call of the client, with the caller of the mux that runs its operation. -/
structure Call where
  method : Method
  laneCaller : Option Nat
  point : Point
  deriving DecidableEq, Repr

/-- `httpReceived` lists the calls whose HTTP request the node has received. -/
structure State where
  lane : Option Lane.State
  total : Nat
  calls : Nat → Call
  httpReceived : List Nat

/-- `post` says whether the node receives the request, and what comes back. -/
inductive Label
  | begin (method : Method)
  | look (call : Nat)
  | lane (label : Lane.Label)
  | land (call : Nat)
  | post (call : Nat) (arrives : Bool) (answer : Http.Answer Http.Json)

/-- `lane_cell` after its first use: bound or unavailable for good. -/
def initial (bound : Bool) : State where
  lane := if bound then some Lane.initial else none
  total := 0
  calls := fun _ => ⟨.publish "" [], none, .idle⟩
  httpReceived := []

def State.setCall (state : State) (index : Nat) (call : Call) : State :=
  { state with calls := Function.update state.calls index call }

def step (state : State) : Label → Option State
  | .begin method =>
      some { state.setCall state.total ⟨method, none, .looking⟩ with total := state.total + 1 }
  | .look index =>
      let call := state.calls index
      match call.point with
      | .looking =>
          match state.lane, call.method.laneOp with
          | some lane, some op =>
              if lane.dead then some (state.setCall index { call with point := .posting })
              else
                (Lane.step lane (.call op)).map fun next =>
                  { state.setCall index
                      { call with laneCaller := some lane.total, point := .onLane } with
                    lane := some next }
          | _, _ => some (state.setCall index { call with point := .posting })
      | _ => none
  | .lane label =>
      (state.lane.bind fun lane => Lane.step lane label).map fun next =>
        { state with lane := some next }
  | .land index =>
      let call := state.calls index
      match call.point, state.lane, call.laneCaller with
      | .onLane, some lane, some caller =>
          match (lane.callers caller).point with
          | .returned (some answer) =>
              some (state.setCall index
                { call with point := .finished (call.method.laneOutcome answer) })
          -- lane gone mid-flight: fall back to HTTP below
          | .returned none => some (state.setCall index { call with point := .posting })
          | _ => none
      | _, _, _ => none
  | .post index arrives answer =>
      let call := state.calls index
      match call.point, arrives, answer with
      | .posting, false, .response .. => none
      | .posting, _, _ =>
          some { state.setCall index
              { call with point := .finished (call.method.httpOutcome answer) } with
            httpReceived := state.httpReceived ++ if arrives then [index] else [] }
      | _, _, _ => none

/-- How often the node acts on the call over the lane: once on each frame of
the call that it receives. -/
def State.laneActs (state : State) (index : Nat) : Nat :=
  match state.lane, (state.calls index).laneCaller with
  | some lane, some caller => lane.received.countP fun frame => frame.caller == caller
  | _, _ => 0

def State.httpActs (state : State) (index : Nat) : Nat :=
  state.httpReceived.count index

/-- How often the node acts on the call in total. -/
def State.acts (state : State) (index : Nat) : Nat :=
  state.laneActs index + state.httpActs index

/-- The call's operation on the lane has resolved, to an answer or `LaneGone`. -/
def State.Resolved (state : State) (index : Nat) (answer : Option Answer) : Prop :=
  ∃ lane caller, state.lane = some lane ∧ (state.calls index).laneCaller = some caller ∧
    (lane.callers caller).point = .returned answer

/-- Everything a step can do. -/
inductive Moves (state : State) : State → Prop
  | began (method : Method) :
      Moves state
        { state.setCall state.total ⟨method, none, .looking⟩ with total := state.total + 1 }
  | bypassed (index : Nat) (point : (state.calls index).point = .looking) :
      Moves state (state.setCall index { state.calls index with point := .posting })
  | entered (index : Nat) (lane next : Lane.State) (op : NodeOp)
      (point : (state.calls index).point = .looking) (bound : state.lane = some lane)
      (stepped : Lane.step lane (.call op) = some next) :
      Moves state
        { state.setCall index
            { state.calls index with laneCaller := some lane.total, point := .onLane } with
          lane := some next }
  | laneMoved (lane next : Lane.State) (label : Lane.Label) (bound : state.lane = some lane)
      (stepped : Lane.step lane label = some next) :
      Moves state { state with lane := some next }
  | answered (index : Nat) (outcome : Outcome) (point : (state.calls index).point = .onLane) :
      Moves state (state.setCall index { state.calls index with point := .finished outcome })
  | fellBack (index : Nat) (lane : Lane.State) (caller : Nat)
      (point : (state.calls index).point = .onLane) (bound : state.lane = some lane)
      (own : (state.calls index).laneCaller = some caller)
      (gone : (lane.callers caller).point = .returned none) :
      Moves state (state.setCall index { state.calls index with point := .posting })
  | posted (index : Nat) (arrives : Bool) (outcome : Outcome)
      (point : (state.calls index).point = .posting) :
      Moves state
        { state.setCall index { state.calls index with point := .finished outcome } with
          httpReceived := state.httpReceived ++ if arrives then [index] else [] }

theorem moves_of_step {state next : State} {label : Label}
    (stepped : step state label = some next) : Moves state next := by
  cases label with
  | begin method => exact Option.some.inj stepped ▸ .began method
  | look index =>
      simp only [step] at stepped
      split at stepped
      case h_1 point =>
          split at stepped
          case h_1 lane op bound laneOp =>
              split at stepped
              case isTrue dead => exact Option.some.inj stepped ▸ .bypassed index point
              case isFalse alive =>
                  obtain ⟨entered, called, rfl⟩ := Option.map_eq_some_iff.mp stepped
                  exact .entered index lane entered op point bound called
          case h_2 => exact Option.some.inj stepped ▸ .bypassed index point
      case h_2 => simp at stepped
  | lane label =>
      obtain ⟨moved, found, rfl⟩ := Option.map_eq_some_iff.mp stepped
      obtain ⟨lane, bound, stepped⟩ := Option.bind_eq_some_iff.mp found
      exact .laneMoved lane moved label bound stepped
  | land index =>
      simp only [step] at stepped
      split at stepped
      case h_1 lane caller point bound own =>
          split at stepped
          case h_1 answer returned => exact Option.some.inj stepped ▸ .answered index _ point
          case h_2 gone =>
              exact Option.some.inj stepped ▸ .fellBack index lane caller point bound own gone
          case h_3 => simp at stepped
      case h_2 => simp at stepped
  | post index arrives answer =>
      simp only [step] at stepped
      split at stepped
      case h_1 => simp at stepped
      case h_2 point _ => exact Option.some.inj stepped ▸ .posted index _ _ point
      case h_3 => simp at stepped

/-- The HTTP request of the call has not been sent. -/
def Point.unposted : Point → Bool
  | .finished _ => false
  | _ => true

theorem not_posted {point : Point} {posts : Nat} (elsewhere : point ≠ .posting)
    (unposted : posts = 0) : ¬ (point = .posting ∨ 0 < posts) := by
  rintro (posting | posted)
  · exact elsewhere posting
  · exact posted.ne' unposted

/-- What is known of a call after `posts` posts: it is posted at most once, as
its last step, and only when its operation on the lane, if it has one, has
resolved to `LaneGone`. -/
structure CallTracked (lane : Option Lane.State) (call : Call) (posts : Nat) : Prop where
  atMostOne : posts ≤ 1
  unposted : call.point.unposted = true → posts = 0
  looking : call.point = .looking → call.laneCaller = none
  known : ∀ caller, call.laneCaller = some caller →
    ∃ bound, lane = some bound ∧ caller < bound.total
  gone : ∀ caller, call.laneCaller = some caller → call.point = .posting ∨ 0 < posts →
    ∃ bound, lane = some bound ∧ (bound.callers caller).point = .returned none

structure Tracked (state : State) : Prop where
  lane : ∀ bound, state.lane = some bound → Lane.OneFrame bound
  fresh : ∀ index, state.total ≤ index → (state.calls index).point = .idle
  calls : ∀ index, CallTracked state.lane (state.calls index) (state.httpActs index)

theorem tracked_initial (bound : Bool) : Tracked (initial bound) where
  lane lane equal := by
    cases bound with
    | false => simp [initial] at equal
    | true =>
        obtain rfl := Option.some.inj equal
        exact Lane.oneFrame_initial
  fresh _ _ := rfl
  calls index := by
    refine ⟨Nat.zero_le 1, fun _ => rfl, fun _ => rfl, fun caller own => ?_,
      fun caller own => ?_⟩
    · simp [initial] at own
    · simp [initial] at own

theorem CallTracked.of_lane {lane next : Lane.State} {call : Call} {posts : Nat}
    {label : Lane.Label} (tracked : CallTracked (some lane) call posts)
    (stepped : Lane.step lane label = some next) : CallTracked (some next) call posts where
  atMostOne := tracked.atMostOne
  unposted := tracked.unposted
  looking := tracked.looking
  known caller own := by
    obtain ⟨bound, equal, known⟩ := tracked.known caller own
    obtain rfl := Option.some.inj equal
    exact ⟨next, rfl, known.trans_le (Lane.total_le_of_moves (Lane.moves_of_step stepped))⟩
  gone caller own late := by
    obtain ⟨bound, equal, known⟩ := tracked.known caller own
    obtain rfl := Option.some.inj equal
    obtain ⟨other, equal, returned⟩ := tracked.gone caller own late
    obtain rfl := Option.some.inj equal
    exact ⟨next, rfl, Lane.returned_of_moves (Lane.moves_of_step stepped) known returned⟩

theorem Tracked.of_call {state : State} (tracked : Tracked state) {index : Nat} {call : Call}
    {next : State} (calls : next.calls = Function.update state.calls index call)
    (lane : next.lane = state.lane) (total : state.total ≤ next.total)
    (started : index < next.total)
    (posts : ∀ other, other ≠ index → next.httpActs other = state.httpActs other)
    (here : CallTracked state.lane call (next.httpActs index)) : Tracked next where
  lane bound equal := tracked.lane bound (lane ▸ equal)
  fresh other beyond := by
    have different : other ≠ index := by omega
    rw [calls, Function.update_of_ne different]
    exact tracked.fresh other (total.trans beyond)
  calls := by
    rw [lane, calls]
    refine (Function.forall_update_iff state.calls fun other call =>
      CallTracked state.lane call (next.httpActs other)).mpr ⟨here, fun other different => ?_⟩
    rw [posts other different]
    exact tracked.calls other

theorem Tracked.started {state : State} (tracked : Tracked state) {index : Nat}
    (busy : (state.calls index).point ≠ .idle) : index < state.total := by
  by_contra beyond
  exact busy (tracked.fresh index (Nat.le_of_not_lt beyond))

/-- A post adds at most one to what the node has received of its call. -/
theorem count_posted (received : List Nat) (index other : Nat) (arrives : Bool) :
    (received ++ if arrives then [index] else []).count other =
      received.count other + if arrives ∧ index = other then 1 else 0 := by
  cases arrives with
  | false => simp
  | true => simp [List.count_singleton]

theorem Tracked.of_lane {state : State} (tracked : Tracked state) {lane next : Lane.State}
    {label : Lane.Label} (bound : state.lane = some lane)
    (stepped : Lane.step lane label = some next) : Tracked { state with lane := some next } where
  lane other equal := by
    obtain rfl := Option.some.inj equal
    exact Lane.oneFrame_of_moves (tracked.lane lane bound) (Lane.moves_of_step stepped)
  fresh := tracked.fresh
  calls index := (bound ▸ tracked.calls index).of_lane stepped

theorem tracked_of_moves {state next : State} (tracked : Tracked state)
    (moves : Moves state next) : Tracked next := by
  cases moves with
  | began method =>
      have fresh := tracked.fresh state.total le_rfl
      have unposted := (tracked.calls state.total).unposted (by rw [fresh]; rfl)
      refine tracked.of_call rfl rfl (Nat.le_succ _) (Nat.lt_succ_self _) (fun _ _ => rfl) ?_
      refine ⟨?_, fun _ => unposted, fun _ => rfl, fun caller own => ?_, fun caller own => ?_⟩
      · exact unposted.le.trans (Nat.zero_le 1)
      · simp at own
      · simp at own
  | bypassed index point =>
      have old := tracked.calls index
      refine tracked.of_call rfl rfl le_rfl (tracked.started (by simp [point])) (fun _ _ => rfl) ?_
      refine ⟨old.atMostOne, fun _ => old.unposted (by rw [point]; rfl), fun _ => old.looking point,
        old.known, fun caller own => ?_⟩
      simp [old.looking point] at own
  | entered index lane after op point bound stepped =>
      have moved := tracked.of_lane bound stepped
      have old := moved.calls index
      have room : after.total = lane.total + 1 := by
        cases Lane.moves_of_step stepped
        rfl
      refine moved.of_call rfl rfl le_rfl (tracked.started (by simp [point])) (fun _ _ => rfl) ?_
      refine ⟨old.atMostOne, fun _ => old.unposted (by rw [point]; rfl),
        fun looking => by simp at looking, fun caller own => ?_, fun caller own late => ?_⟩
      · obtain rfl := Option.some.inj own
        exact ⟨after, rfl, by omega⟩
      · have unposted := old.unposted (by rw [point]; rfl)
        exact absurd late (not_posted (by simp) unposted)
  | laneMoved lane after label bound stepped => exact tracked.of_lane bound stepped
  | answered index outcome point =>
      have old := tracked.calls index
      have unposted := old.unposted (by rw [point]; rfl)
      refine tracked.of_call rfl rfl le_rfl (tracked.started (by simp [point])) (fun _ _ => rfl) ?_
      refine ⟨old.atMostOne, fun _ => unposted, fun looking => by simp at looking, old.known,
        fun caller own late => ?_⟩
      exact absurd late (not_posted (by simp) unposted)
  | fellBack index lane caller point bound own gone =>
      have old := tracked.calls index
      refine tracked.of_call rfl rfl le_rfl (tracked.started (by simp [point])) (fun _ _ => rfl) ?_
      refine ⟨old.atMostOne, fun _ => old.unposted (by rw [point]; rfl),
        fun looking => by simp at looking, old.known, fun other same _ => ?_⟩
      obtain rfl := Option.some.inj (own.symm.trans same)
      exact ⟨lane, bound, gone⟩
  | posted index arrives outcome point =>
      have old := tracked.calls index
      have unposted : state.httpReceived.count index = 0 :=
        old.unposted (by rw [point]; rfl)
      refine tracked.of_call rfl rfl le_rfl (tracked.started (by simp [point]))
        (fun other different => ?_) ?_
      · have counted := count_posted state.httpReceived index other arrives
        simpa [State.httpActs, Ne.symm different] using counted
      · refine ⟨?_, fun absurd => by simp [Point.unposted] at absurd,
          fun looking => by simp at looking, old.known,
          fun caller own _ => old.gone caller own (.inl point)⟩
        have counted := count_posted state.httpReceived index index arrives
        rw [State.httpActs, counted, unposted]
        split <;> omega

theorem tracked_of_execute {bound : Bool} {trace : List Label} {final : State}
    (reached : execute step (initial bound) trace = some final) : Tracked final :=
  stateInvariant_of_execute Tracked (tracked_initial bound)
    (fun _ _ _ tracked stepped => tracked_of_moves tracked (moves_of_step stepped)) reached

theorem laneActs_le_one {state : State} (tracked : Tracked state) (index : Nat) :
    state.laneActs index ≤ 1 := by
  unfold State.laneActs
  split
  case h_1 lane caller bound own =>
      exact Lane.OneFrame.received_le_one (tracked.lane lane bound) caller
  case h_2 => exact Nat.zero_le 1

/-- In every run the node acts on a call at most once over each transport.  It
acts on it twice only if it has received the call's frame and the operation has
resolved to `LaneGone`; a call that got the node's answer is never posted. -/
theorem acts_at_most_once_per_transport {bound : Bool} {trace : List Label} {final : State}
    (reached : execute step (initial bound) trace = some final) (index : Nat) :
    final.laneActs index ≤ 1 ∧ final.httpActs index ≤ 1 ∧
      (1 < final.acts index → final.laneActs index = 1 ∧ final.Resolved index none) ∧
      ∀ answer, final.Resolved index (some answer) → final.httpActs index = 0 := by
  have tracked := tracked_of_execute reached
  have lane := laneActs_le_one tracked index
  have call := tracked.calls index
  refine ⟨lane, call.atMostOne, fun twice => ?_, fun answer resolved => ?_⟩
  · have http := call.atMostOne
    rw [State.acts] at twice
    have acted : final.laneActs index = 1 := by omega
    refine ⟨acted, ?_⟩
    unfold State.laneActs at acted
    split at acted
    case h_1 lane caller bound own =>
        obtain ⟨_, equal, known⟩ := call.known caller own
        obtain rfl := Option.some.inj (bound.symm.trans equal)
        obtain ⟨_, equal, returned⟩ := call.gone caller own (.inr (by omega))
        obtain rfl := Option.some.inj (bound.symm.trans equal)
        exact ⟨_, caller, bound, own, returned⟩
    case h_2 => simp at acted
  · obtain ⟨lane, caller, bound, own, answered⟩ := resolved
    by_contra posted
    obtain ⟨_, equal, returned⟩ := call.gone caller own (.inr (Nat.pos_of_ne_zero posted))
    obtain rfl := Option.some.inj (bound.symm.trans equal)
    simp [answered] at returned

/-- A publish whose answer arrives over the lane. -/
def answeredRun : List Label :=
  [.begin (.publish "t" [104]), .look 0, .lane (.caller 0), .lane (.caller 0),
    .lane (.caller 0), .lane (.caller 0), .lane .writer, .lane .writer, .lane .nodeReceive,
    .lane (.nodeSend (some ⟨1, .ok .done⟩)), .lane .reader, .lane .reader, .lane .reader,
    .lane (.caller 0), .land 0]

theorem acts_at_most_once_per_transport_answered :
    let final := (execute step (initial true) answeredRun).get (by decide)
    final.laneActs 0 = 1 ∧ final.httpActs 0 = 0 := by
  intro final
  have reached : execute step (initial true) answeredRun = some final :=
    (Option.some_get _).symm
  obtain ⟨-, -, -, unposted⟩ := acts_at_most_once_per_transport reached 0
  exact ⟨rfl, unposted (.ok .done) ⟨_, 0, rfl, rfl, rfl⟩⟩

/-- The node takes the frame of a publish from the ring and acts on it, and the
lane dies before the answer arrives. -/
def diedBeforeAnswerRun : List Label :=
  [.begin (.publish "t" [104]), .look 0, .lane (.caller 0), .lane (.caller 0),
    .lane (.caller 0), .lane (.caller 0), .lane .writer, .lane .writer, .lane .nodeReceive,
    .lane .close, .lane .readerFailed, .lane .reader, .lane .reader, .lane .reader,
    .lane .reader, .lane (.caller 0), .land 0,
    .post 0 true (.response "200 OK" true ⟨"", .ok none⟩)]

theorem publish_acted_on_twice :
    ¬ ∀ bound trace final, execute step (initial bound) trace = some final →
      ∀ index, final.acts index ≤ 1 := by
  intro claimed
  have once := claimed true diedBeforeAnswerRun
    ((execute step (initial true) diedBeforeAnswerRun).get (by decide))
    (Option.some_get _).symm 0
  exact absurd once (by decide)

end CeRs.Fallback
