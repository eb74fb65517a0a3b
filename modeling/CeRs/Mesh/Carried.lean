import CeRs.Lane.Fallback
import CeRs.Lane.Linearizable
import CeRs.Mesh.Requests

/-!
# Requests that lanes carry to the mesh

Clients run `CeClient::request`, each over its lane and to its own node.  A node
takes a request off the ring, asks it of the instance that has the recipient's
id, and answers on the ring when the mesh has brought a reply, perhaps more than
once; it may answer a frame with an error at any time, also when the request
takes effect all the same.  A call whose operation has resolved to `LaneGone`
posts its request over HTTP, whatever has become of the frame, and so does a call
that has no lane to use.  `address` says which instance a node id names, and
`identity` what the mesh calls a client.  `carried` lists the frames and the
posts that became requests of the mesh, in the order of these.
-/

namespace CeRs.Carried

open Transition Serve
open Lane (NodeOp NodeResp Answer Frame)

/-- A request as it goes over one transport: the operation of a caller of the
client's lane, or a post by its number. -/
inductive Attempt
  | lane (client caller : Nat)
  | http (number : Nat)
  deriving DecidableEq, Repr

/-- A frame that became a request, with its client, its place among the frames
that the node has received from that client, and its caller there; or a post. -/
inductive Carriage
  | frame (client position caller : Nat)
  | post (number : Nat)
  deriving DecidableEq, Repr

def Carriage.attempt : Carriage → Attempt
  | .frame client _ caller => .lane client caller
  | .post number => .http number

/-- The two are one frame that the node has received, or one post. -/
def Carriage.same : Carriage → Carriage → Bool
  | .frame client position _, .frame other place _ => client == other && position == place
  | .post number, .post other => number == other
  | _, _ => false

/-- What a client posts; `resends` is the caller whose operation on the lane has
resolved to `LaneGone`, if there was one. -/
structure Post (Index : Type*) where
  client : Nat
  resends : Option Nat
  op : Index × Request
  deriving DecidableEq, Repr

abbrev Seen (Index : Type*) := Linear.Event Attempt (Index × Request) (List UInt8)

structure World (Index Object : Type*) where
  lanes : Nat → Lane.State
  mesh : Mesh.World Index Object
  carried : List Carriage
  posts : List (Post Index)
  history : List (Seen Index)

/-- The step `take` brings a post to the node, and `respond` the reply to the
client. -/
inductive Label (Index : Type*)
  | lane (client : Nat) (label : Lane.Label)
  | ask (client position : Nat) (token : UInt64)
  | answer (request : Nat) (reply : List UInt8)
  | refuse (client position : Nat) (answer : Answer)
  | post (post : Post Index)
  | take (number : Nat) (token : UInt64)
  | respond (request : Nat) (reply : List UInt8)
  | mesh (label : Mesh.Label Index)

variable {Index Object : Type*}

def World.initial (objects : Index → Object) : World Index Object :=
  ⟨fun _ => Lane.initial, .initial objects, [], [], []⟩

/-- The world after a step of a lane, with what its callers see. -/
def World.after (world : World Index Object) (client : Nat) (lane : Lane.State)
    (news : List (Seen Index)) : World Index Object :=
  { world with
    lanes := Function.update world.lanes client lane
    history := world.history ++ news }

@[simp] theorem lanes_after_self (world : World Index Object) (client : Nat) (lane : Lane.State)
    (news : List (Seen Index)) : (world.after client lane news).lanes client = lane :=
  Function.update_self ..

theorem lanes_after_of_ne (world : World Index Object) {client other : Nat}
    (different : other ≠ client) (lane : Lane.State) (news : List (Seen Index)) :
    (world.after client lane news).lanes other = world.lanes other :=
  Function.update_of_ne different ..

/-- The answer is neither a reply nor an event. -/
def unreplying : Answer → Bool
  | .ok (.reply _) | .ok (.event _) => false
  | _ => true

/-- All requests come from the clients. -/
def unasking : Mesh.Label Index → Bool
  | .ask .. => false
  | _ => true

variable [DecidableEq Index] (config : Index → Config)
  (handler : Index → Object → Request → Object × List UInt8)
  (address : List UInt8 → Option Index) (identity : Nat → String)

/-- What an operation of the client asks of which instance. -/
def asks (client : Nat) : NodeOp → Option (Index × Request)
  | .request recipient topic payload _ =>
      (address recipient).map fun target => (target, ⟨identity client, topic, payload⟩)
  | _ => none

/-- What the callers of `request` see of a step of their lane. -/
def seen (client : Nat) (state : Lane.State) (label : Lane.Label) (next : Lane.State) :
    List (Seen Index) :=
  match label with
  | .call op =>
      ((asks address identity client op).map fun op =>
        .invoked (.lane client state.total) op).toList
  | .caller index =>
      match (next.callers index).point with
      | .returned (some (.ok (.reply payload))) => [.returned (.lane client index) payload]
      | _ => []
  | _ => []

def World.advance (world : World Index Object) (client : Nat) (label : Lane.Label) :
    Option (World Index Object) :=
  (Lane.step (world.lanes client) label).map fun next =>
    world.after client next (seen address identity client (world.lanes client) label next)

/-- The operation has resolved to `LaneGone`. -/
def gone : Lane.Point → Bool
  | .returned none => true
  | _ => false

/-- A call that has been on the lane posts its own request, once. -/
def World.MayPost (world : World Index Object) (post : Post Index) : Prop :=
  match post.resends with
  | some caller =>
      .invoked (.lane post.client caller) post.op ∈ world.history ∧
        gone ((world.lanes post.client).callers caller).point = true ∧
        ∀ other ∈ world.posts, other.client = post.client → other.resends ≠ some caller
  | none => post.op.2.sender = identity post.client

instance (world : World Index Object) (post : Post Index) :
    Decidable (world.MayPost identity post) := by
  unfold World.MayPost
  split <;> infer_instance

/-- The node asks the mesh what a frame or a post asks for, once. -/
def World.carry (world : World Index Object) (carriage : Carriage) (op : Index × Request)
    (token : UInt64) : Option (World Index Object) :=
  if ∃ other ∈ world.carried, other.same carriage = true then none
  else
    (Mesh.World.step config handler world.mesh (.ask op.1 op.2 token)).map fun mesh =>
      { world with
        mesh := mesh
        carried := world.carried ++ [carriage] }

def World.step (world : World Index Object) : Label Index → Option (World Index Object)
  | .lane client label =>
      if label.unanswering then world.advance address identity client label else none
  | .ask client position token =>
      match (world.lanes client).received[position]? with
      | some frame =>
          match asks address identity client frame.request.op with
          | some op => world.carry config handler (.frame client position frame.caller) op token
          | none => none
      | none => none
  | .answer request reply =>
      match world.carried[request]? with
      | some (.frame client position _) =>
          match (world.lanes client).received[position]? with
          | some frame =>
              if .returned request reply ∈ world.mesh.history then
                world.advance address identity client
                  (.nodeSend (some ⟨frame.request.id, .ok (.reply reply)⟩))
              else none
          | none => none
      | _ => none
  | .refuse client position answer =>
      match (world.lanes client).received[position]? with
      | some frame =>
          if unreplying answer then
            world.advance address identity client (.nodeSend (some ⟨frame.request.id, answer⟩))
          else none
      | none => none
  | .post post =>
      if world.MayPost identity post then
        some { world with
          posts := world.posts ++ [post]
          history := world.history ++ [.invoked (.http world.posts.length) post.op] }
      else none
  | .take number token =>
      match world.posts[number]? with
      | some post => world.carry config handler (.post number) post.op token
      | none => none
  | .respond request reply =>
      match world.carried[request]? with
      | some (.post number) =>
          if .returned request reply ∈ world.mesh.history then
            some { world with history := world.history ++ [.returned (.http number) reply] }
          else none
      | _ => none
  | .mesh label =>
      if unasking label then
        (Mesh.World.step config handler world.mesh label).map fun mesh =>
          { world with mesh := mesh }
      else none

/-- What the node sends answers a frame under its id, with a reply only if the
mesh has brought it for the request that the frame became. -/
def Genuine (world : World Index Object) (client : Nat) (response : NodeResp) : Prop :=
  (∀ message, response.result ≠ .ok (.event message)) →
    ∃ (position : Nat) (frame : Frame),
      (world.lanes client).received[position]? = some frame ∧
      frame.request.id = response.id ∧
      ∀ reply, response.result = .ok (.reply reply) → ∃ (request caller : Nat),
        world.carried[request]? = some (.frame client position caller) ∧
        .returned request reply ∈ world.mesh.history

/-- What the frame or the post asks. -/
def Carries (world : World Index Object) : Carriage → Index × Request → Prop
  | .frame client position caller, op => ∃ frame,
      (world.lanes client).received[position]? = some frame ∧ frame.caller = caller ∧
        asks address identity client frame.request.op = some op
  | .post number, op => ∃ post, world.posts[number]? = some post ∧ post.op = op

/-- Everything a step can do. -/
inductive WorldMoves (world : World Index Object) : World Index Object → Prop
  | advanced (client : Nat) (label : Lane.Label) (lane : Lane.State)
      (stepped : Lane.step (world.lanes client) label = some lane)
      (genuine : ∀ response, label = .nodeSend (some response) →
        Genuine world client response) :
      WorldMoves world (world.after client lane
        (seen address identity client (world.lanes client) label lane))
  | carried (carriage : Carriage) (op : Index × Request) (token : UInt64)
      (carries : Carries address identity world carriage op)
      (fresh : ∀ other ∈ world.carried, other.same carriage = false)
      (mesh : Mesh.World Index Object)
      (stepped : Mesh.World.step config handler world.mesh (.ask op.1 op.2 token) = some mesh) :
      WorldMoves world { world with
        mesh := mesh
        carried := world.carried ++ [carriage] }
  | posted (post : Post Index) (may : world.MayPost identity post) :
      WorldMoves world { world with
        posts := world.posts ++ [post]
        history := world.history ++ [.invoked (.http world.posts.length) post.op] }
  | responded (request number : Nat) (reply : List UInt8)
      (carried : world.carried[request]? = some (.post number))
      (heard : .returned request reply ∈ world.mesh.history) :
      WorldMoves world { world with
        history := world.history ++ [.returned (.http number) reply] }
  | turned (label : Mesh.Label Index) (unasked : unasking label = true)
      (mesh : Mesh.World Index Object)
      (stepped : Mesh.World.step config handler world.mesh label = some mesh) :
      WorldMoves world { world with mesh := mesh }

variable {config handler address identity} {world next : World Index Object} {label : Label Index}

theorem worldMoves_of_carry {carriage : Carriage} {op : Index × Request} {token : UInt64}
    (carries : Carries address identity world carriage op)
    (carried : world.carry config handler carriage op token = some next) :
    WorldMoves config handler address identity world next := by
  rw [World.carry] at carried
  split at carried
  case isTrue => simp at carried
  case isFalse fresh =>
      obtain ⟨mesh, moved, rfl⟩ := Option.map_eq_some_iff.mp carried
      exact .carried carriage op token carries
        (fun other member => Bool.eq_false_iff.mpr fun same => fresh ⟨other, member, same⟩)
        mesh moved

theorem worldMoves_of_advance {client : Nat} {label : Lane.Label}
    (genuine : ∀ response, label = .nodeSend (some response) → Genuine world client response)
    (advanced : world.advance address identity client label = some next) :
    WorldMoves config handler address identity world next := by
  obtain ⟨lane, moved, rfl⟩ := Option.map_eq_some_iff.mp advanced
  exact .advanced client label lane moved genuine

omit [DecidableEq Index] in
/-- What is no answer to a frame is an event. -/
theorem genuine_of_unanswering {client : Nat} {response : NodeResp}
    (unanswering : (Lane.Label.nodeSend (some response)).unanswering = true) :
    Genuine world client response := by
  intro notEvent
  obtain ⟨id, result⟩ := response
  cases result with
  | error message => simp [Lane.Label.unanswering] at unanswering
  | ok answer =>
      cases answer with
      | event message => exact (notEvent message rfl).elim
      | done | status | reply => simp [Lane.Label.unanswering] at unanswering

theorem worldMoves_of_step
    (stepped : world.step config handler address identity label = some next) :
    WorldMoves config handler address identity world next := by
  cases label with
  | lane client label =>
      simp only [World.step] at stepped
      split at stepped
      case isFalse => simp at stepped
      case isTrue unanswering =>
          refine worldMoves_of_advance ?_ stepped
          rintro response rfl
          exact genuine_of_unanswering unanswering
  | ask client position token =>
      simp only [World.step] at stepped
      split at stepped
      case h_2 => simp at stepped
      case h_1 frame here =>
          split at stepped
          case h_2 => simp at stepped
          case h_1 op asked =>
              have carries : Carries address identity world
                  (.frame client position frame.caller) op := ⟨frame, here, rfl, asked⟩
              exact worldMoves_of_carry carries stepped
  | answer request reply =>
      simp only [World.step] at stepped
      split at stepped
      case h_2 => simp at stepped
      case h_1 client position caller carried =>
          split at stepped
          case h_2 => simp at stepped
          case h_1 frame here =>
              split at stepped
              case isFalse => simp at stepped
              case isTrue returned =>
                  refine worldMoves_of_advance ?_ stepped
                  rintro response ⟨⟩ -
                  refine ⟨position, frame, here, rfl, ?_⟩
                  rintro other ⟨⟩
                  exact ⟨request, caller, carried, returned⟩
  | refuse client position answer =>
      simp only [World.step] at stepped
      split at stepped
      case h_2 => simp at stepped
      case h_1 frame here =>
          split at stepped
          case isFalse => simp at stepped
          case isTrue refuses =>
              refine worldMoves_of_advance ?_ stepped
              rintro response ⟨⟩ -
              refine ⟨position, frame, here, rfl, ?_⟩
              intro reply same
              obtain rfl : answer = .ok (.reply reply) := same
              simp [unreplying] at refuses
  | post post =>
      simp only [World.step] at stepped
      split at stepped
      case isFalse => simp at stepped
      case isTrue may => exact Option.some.inj stepped ▸ .posted post may
  | take number token =>
      simp only [World.step] at stepped
      split at stepped
      case h_2 => simp at stepped
      case h_1 post here =>
          have carries : Carries address identity world (.post number) post.op :=
            ⟨post, here, rfl⟩
          exact worldMoves_of_carry carries stepped
  | respond request reply =>
      simp only [World.step] at stepped
      split at stepped
      case h_2 => simp at stepped
      case h_1 number carried =>
          split at stepped
          case isFalse => simp at stepped
          case isTrue heard =>
              exact Option.some.inj stepped ▸ .responded request number reply carried heard
  | mesh label =>
      simp only [World.step] at stepped
      split at stepped
      case isFalse => simp at stepped
      case isTrue unasked =>
          obtain ⟨mesh, moved, rfl⟩ := Option.map_eq_some_iff.mp stepped
          exact .turned label unasked mesh moved

section Fallback

open Fallback (Method parseNodeId)

variable {client : Nat} {recipient topic : String} {payload : List UInt8} {timeoutMs : UInt64}

omit [DecidableEq Index] in
theorem asks_laneOp :
    ((Method.request recipient topic payload timeoutMs).laneOp.bind
      fun op => asks address identity client op) =
        ((parseNodeId recipient).bind address).map fun target =>
          (target, ⟨identity client, topic, payload⟩) := by
  cases parsed : parseNodeId recipient with
  | none => simp [Method.laneOp, parsed]
  | some bytes => simp [Method.laneOp, parsed, asks]

omit [DecidableEq Index] in
theorem returned_mem_seen_iff {state lane : Lane.State} {index : Nat} {id : Attempt}
    {reply : List UInt8} :
    .returned id reply ∈
        (seen address identity client state (.caller index) lane : List (Seen Index)) ↔
      id = .lane client index ∧ ∃ answer, (lane.callers index).point = .returned (some answer) ∧
        (Method.request recipient topic payload timeoutMs).laneOutcome answer =
          .payload reply := by
  simp only [seen]
  split
  case h_1 bytes point =>
      rw [List.mem_singleton]
      constructor
      · rintro ⟨⟩
        exact ⟨rfl, _, point, rfl⟩
      · rintro ⟨rfl, answer, same, outcome⟩
        obtain rfl : answer = .ok (.reply bytes) := by simpa [point] using same.symm
        obtain rfl : bytes = reply := by simpa [Method.laneOutcome] using outcome
        rfl
  case h_2 other =>
      refine iff_of_false List.not_mem_nil ?_
      rintro ⟨-, answer, point, outcome⟩
      cases answer with
      | error reason => simp [Method.laneOutcome] at outcome
      | ok answer =>
          cases answer with
          | reply bytes => exact other bytes point
          | done | status | event => simp [Method.laneOutcome] at outcome

omit [DecidableEq Index] in
/-- A call that goes over to HTTP may post here. -/
theorem mayPost_of_tracked {state : Fallback.State} (tracked : Fallback.Tracked state)
    {index : Nat} (point : (state.calls index).point = .posting)
    (lane : state.lane = some (world.lanes client)) {op : Index × Request}
    (sender : op.2.sender = identity client)
    (asked : ∀ caller, (state.calls index).laneCaller = some caller →
      .invoked (.lane client caller) op ∈ world.history ∧
        ∀ other ∈ world.posts, other.client = client → other.resends ≠ some caller) :
    world.MayPost identity ⟨client, (state.calls index).laneCaller, op⟩ := by
  simp only [World.MayPost]
  split
  case h_1 caller own =>
      obtain ⟨invoked, once⟩ := asked caller own
      obtain ⟨bound, same, resolved⟩ := (tracked.calls index).gone caller own (.inl point)
      obtain rfl := Option.some.inj (lane.symm.trans same)
      exact ⟨invoked, by rw [resolved]; rfl, once⟩
  case h_2 => exact sender

end Fallback

end CeRs.Carried
