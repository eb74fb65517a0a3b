import CeRs.Mesh.Carried
import CeRs.Mesh.Linearizable

/-!
# Requests from end to end

Through the pending maps, the threads and the rings of the lanes, the nodes, the
message streams, the serve loops and back, what the callers of all clients see
of their requests is one sequential run of the handlers.  A call goes over HTTP
after its operation on the lane has resolved to `LaneGone`, so it can take effect
once over each of the two.
-/

namespace CeRs.Carried

open Transition Serve Linear
open Lane (NodeOp NodeResp Answer Frame Matched)
open Mesh (apply Few grows_of_step appended_of_ask asked_of_step)

variable {Index Object : Type*} {address : List UInt8 → Option Index} {identity : Nat → String}
  {objects : Index → Object} {world next : World Index Object}

/-- A post that follows an operation of the lane asks for the same, and there is
nothing that the operation returned. -/
def Resends (world : World Index Object) (post : Post Index) : Prop :=
  ∀ caller, post.resends = some caller →
    .invoked (.lane post.client caller) post.op ∈ world.history ∧
      ((world.lanes post.client).callers caller).point = .returned none

/-- The lanes, the frames, the posts and the requests speak of the same
operations. -/
structure Joined (address : List UInt8 → Option Index) (identity : Nat → String)
    (world : World Index Object) : Prop where
  lanes : ∀ client, ∃ trace, Matched trace (world.lanes client) ∧
    ∀ response, some response ∈ Lane.sent Lane.initial trace → Genuine world client response
  asking : ∀ client index op, ((world.lanes client).callers index).point.op? = some op →
    ∀ asked ∈ asks address identity client op, .invoked (.lane client index) asked ∈ world.history
  frames : ∀ client, ∀ frame ∈ (world.lanes client).frames,
    ∀ asked ∈ asks address identity client frame.request.op,
      .invoked (.lane client frame.caller) asked ∈ world.history
  called : ∀ client caller op, .invoked (.lane client caller) op ∈ world.history →
    caller < (world.lanes client).total
  posted : ∀ number op, .invoked (.http number) op ∈ world.history ↔
    ∃ post, world.posts[number]? = some post ∧ post.op = op
  resends : ∀ post ∈ world.posts, Resends world post
  resendsOnce : ∀ (first second : Nat) one other caller, world.posts[first]? = some one →
    world.posts[second]? = some other → one.client = other.client →
      one.resends = some caller → other.resends = some caller → first = second
  heard : ∀ client caller reply, .returned (.lane client caller) reply ∈ world.history →
    ((world.lanes client).callers caller).point = .returned (some (.ok (.reply reply)))
  carried : ∀ (request : Nat) carriage, world.carried[request]? = some carriage →
    ∃ asked token, Carries address identity world carriage asked ∧
      world.mesh.asked[request]? = some ⟨asked.1, asked.2, token⟩
  length_eq : world.carried.length = world.mesh.asked.length
  once : ∀ (first second : Nat) (one other : Carriage), world.carried[first]? = some one →
    world.carried[second]? = some other → one.attempt = other.attempt → first = second
  returned : ∀ id reply, .returned id reply ∈ world.history →
    ∃ (request : Nat) (carriage : Carriage), world.carried[request]? = some carriage ∧
      carriage.attempt = id ∧ .returned request reply ∈ world.mesh.history
  ordered : ∀ first second, Precedes world.history first second →
    ∀ (earlier later : Nat) (one other : Carriage), world.carried[earlier]? = some one →
      one.attempt = first → world.carried[later]? = some other → other.attempt = second →
        Precedes world.mesh.history earlier later

theorem joined_initial :
    Joined address identity (World.initial objects : World Index Object) where
  lanes := fun _ => ⟨[], Lane.matched_initial, by simp [Lane.sent, emitted]⟩
  asking := by simp [World.initial, Lane.initial, Lane.newCaller, Lane.Point.op?]
  frames := by simp [World.initial, Lane.initial, Lane.State.frames, Lane.Writer.held]
  called := by simp [World.initial]
  posted := by simp [World.initial]
  resends := by simp [World.initial]
  resendsOnce := by simp [World.initial]
  heard := by simp [World.initial]
  carried := by simp [World.initial]
  length_eq := rfl
  once := by simp [World.initial]
  returned := by simp [World.initial]
  ordered := fun first second precedes => (not_precedes_nil first second precedes).elim

theorem Genuine.grow {client : Nat} {response : NodeResp}
    (genuine : Genuine world client response)
    (received : (world.lanes client).received <+: (next.lanes client).received)
    (carried : world.carried <+: next.carried)
    (history : world.mesh.history <+: next.mesh.history) : Genuine next client response := by
  intro notEvent
  obtain ⟨position, frame, here, same, replies⟩ := genuine notEvent
  refine ⟨position, frame, getElem?_of_prefix received here, same, fun reply result => ?_⟩
  obtain ⟨request, caller, became, returned⟩ := replies reply result
  exact ⟨request, caller, getElem?_of_prefix carried became, history.subset returned⟩

section Advance

variable {client : Nat} {label : Lane.Label} {lane : Lane.State}

/-- What a caller is seen to get is the reply that the mesh has brought for its
frame. -/
theorem Joined.returned_seen (joined : Joined address identity world)
    (stepped : Lane.step (world.lanes client) label = some lane)
    (fewer : lane.total < UInt64.size) {id : Attempt} {reply : List UInt8}
    (member : .returned id reply ∈
      (seen address identity client (world.lanes client) label lane : List (Seen Index))) :
    ∃ (request : Nat) (carriage : Carriage), world.carried[request]? = some carriage ∧
      carriage.attempt = id ∧ .returned request reply ∈ world.mesh.history := by
  cases label with
  | caller index =>
      simp only [seen] at member
      split at member
      case h_2 => simp at member
      case h_1 payload point =>
          obtain ⟨rfl, rfl⟩ := Linear.Event.returned.inj (List.mem_singleton.mp member)
          obtain ⟨trace, matched, genuine⟩ := joined.lanes client
          have after := matched.of_moves stepped
          obtain ⟨number, given, notEvent, own⟩ := after.returned_sent fewer point
          rw [Lane.sent, emitted_concat matched.accounted.reached] at given
          obtain ⟨position, frame, here, same, replies⟩ :=
            genuine _ (by simpa [Lane.sends, Lane.sent] using given) notEvent
          obtain ⟨request, caller, became, heard⟩ := replies reply rfl
          obtain ⟨-, -, ⟨frame', there, callers, -⟩, -⟩ := joined.carried request _ became
          obtain rfl := Option.some.inj (here.symm.trans there)
          obtain ⟨added, received⟩ := Lane.received_of_moves (Lane.moves_of_step stepped)
          have kept : frame ∈ lane.received :=
            received ▸ List.mem_append_left added (List.mem_of_getElem? here)
          obtain rfl : caller = index := callers.symm.trans (own frame kept same)
          exact ⟨request, _, became, rfl, heard⟩
  | call op => simp [seen] at member
  | watch | cancel | dropReceiver | dropClient | writer | writerRefused | reader | readerFailed
  | nodeReceive | nodeSend | close => simp [seen] at member

theorem received_after (moves : Lane.Moves (world.lanes client) label lane) (other : Nat)
    (news : List (Seen Index)) :
    (world.lanes other).received <+: ((world.after client lane news).lanes other).received := by
  by_cases same : other = client
  · subst same
    obtain ⟨added, received⟩ := Lane.received_of_moves moves
    rw [lanes_after_self, received]
    exact List.prefix_append ..
  · rw [lanes_after_of_ne world same]

theorem Joined.lanes_after (joined : Joined address identity world)
    (stepped : Lane.step (world.lanes client) label = some lane)
    (genuine : ∀ response, label = .nodeSend (some response) → Genuine world client response)
    (news : List (Seen Index)) (other : Nat) :
    ∃ trace, Matched trace ((world.after client lane news).lanes other) ∧
      ∀ response, some response ∈ Lane.sent Lane.initial trace →
        Genuine (world.after client lane news) other response := by
  have moves := Lane.moves_of_step stepped
  obtain ⟨trace, matched, answers⟩ := joined.lanes other
  have grown : ∀ response, Genuine world other response →
      Genuine (world.after client lane news) other response := fun response genuine =>
    genuine.grow (received_after moves other news) (List.prefix_refl _) (List.prefix_refl _)
  by_cases same : other = client
  · subst same
    refine ⟨trace ++ [label], ?_, fun response member => ?_⟩
    · rw [lanes_after_self]
      exact matched.of_moves stepped
    · rw [Lane.sent, emitted_concat matched.accounted.reached] at member
      rcases List.mem_append.mp member with before | new
      · exact grown response (answers response before)
      · refine grown response (genuine response ?_)
        cases label <;> simp only [Lane.sends, List.not_mem_nil, List.mem_singleton] at new
        case nodeSend frame => rw [← new]
  · refine ⟨trace, ?_, fun response member => grown response (answers response member)⟩
    rw [lanes_after_of_ne world same]
    exact matched

theorem Joined.asking_after (joined : Joined address identity world)
    (moves : Lane.Moves (world.lanes client) label lane) {other index : Nat} {op : NodeOp}
    {asked : Index × Request} (asks : asks address identity other op = some asked)
    {news : List (Seen Index)}
    (seen : news = seen address identity client (world.lanes client) label lane)
    (own : (((world.after client lane news).lanes other).callers index).point.op? = some op) :
    .invoked (.lane other index) asked ∈ (world.after client lane news).history := by
  by_cases same : other = client
  · subst same
    rw [lanes_after_self] at own
    rcases Lane.op?_of_moves moves own with before | ⟨rfl, rfl | ⟨rfl, rfl⟩⟩
    · exact List.mem_append_left _ (joined.asking other index op before asked asks)
    · refine List.mem_append_right _ ?_
      rw [seen, Carried.seen, asks]
      exact List.mem_singleton_self _
    · simp [Carried.asks] at asks
  · rw [lanes_after_of_ne world same] at own
    exact List.mem_append_left _ (joined.asking other index op own asked asks)

theorem Joined.frames_after (joined : Joined address identity world)
    (moves : Lane.Moves (world.lanes client) label lane) {other : Nat} {frame : Frame}
    {asked : Index × Request} (asks : asks address identity other frame.request.op = some asked)
    {news : List (Seen Index)}
    (member : frame ∈ ((world.after client lane news).lanes other).frames) :
    .invoked (.lane other frame.caller) asked ∈ (world.after client lane news).history := by
  refine List.mem_append_left _ ?_
  by_cases same : other = client
  · subst same
    rw [lanes_after_self] at member
    rcases Lane.mem_frames_of_moves moves member with before | sending
    · exact joined.frames other frame before asked asks
    · exact joined.asking other frame.caller frame.request.op (by rw [sending]; rfl) asked asks
  · rw [lanes_after_of_ne world same] at member
    exact joined.frames other frame member asked asks

theorem invoked_seen (moves : Lane.Moves (world.lanes client) label lane) {id : Attempt}
    {op : Index × Request}
    (member : .invoked id op ∈
      (seen address identity client (world.lanes client) label lane : List (Seen Index))) :
    id = .lane client (world.lanes client).total ∧
      lane.total = (world.lanes client).total + 1 := by
  cases moves with
  | called asked =>
      obtain ⟨found, -, same⟩ := Option.map_eq_some_iff.mp (Option.mem_toList.mp member)
      exact ⟨(Linear.Event.invoked.inj same).1.symm, rfl⟩
  | caller index =>
      simp only [seen] at member
      split at member <;> simp at member
  | watched | cancelled | droppedReceiver | droppedClient | writer | refused | reader | failed
  | nodeReceived | nodeSent | closed => simp [seen] at member

theorem total_le_after (moves : Lane.Moves (world.lanes client) label lane) (other : Nat)
    (news : List (Seen Index)) :
    (world.lanes other).total ≤ ((world.after client lane news).lanes other).total := by
  by_cases same : other = client
  · subst same
    rw [lanes_after_self]
    exact Lane.total_le_of_moves moves
  · rw [lanes_after_of_ne world same]

theorem point_of_seen {id : Attempt} {reply : List UInt8}
    (member : .returned id reply ∈
      (seen address identity client (world.lanes client) label lane : List (Seen Index))) :
    ∃ caller, id = .lane client caller ∧
      (lane.callers caller).point = .returned (some (.ok (.reply reply))) := by
  cases label with
  | caller index =>
      simp only [seen] at member
      split at member
      case h_2 => simp at member
      case h_1 payload point =>
          obtain ⟨rfl, rfl⟩ := Linear.Event.returned.inj (List.mem_singleton.mp member)
          exact ⟨index, rfl, point⟩
  | call op => simp [seen] at member
  | watch | cancel | dropReceiver | dropClient | writer | writerRefused | reader | readerFailed
  | nodeReceive | nodeSend | close => simp [seen] at member

theorem point_after (moves : Lane.Moves (world.lanes client) label lane) {other caller : Nat}
    {answer : Option Answer} (news : List (Seen Index))
    (known : caller < (world.lanes other).total)
    (point : ((world.lanes other).callers caller).point = .returned answer) :
    (((world.after client lane news).lanes other).callers caller).point = .returned answer := by
  by_cases same : other = client
  · subst same
    rw [lanes_after_self]
    exact Lane.returned_of_moves moves known point
  · rwa [lanes_after_of_ne world same]

theorem Carries.grow {carriage : Carriage} {op : Index × Request}
    (carries : Carries address identity world carriage op)
    (received : ∀ client, (world.lanes client).received <+: (next.lanes client).received)
    (posts : world.posts <+: next.posts) : Carries address identity next carriage op := by
  cases carriage with
  | frame client position caller =>
      obtain ⟨frame, here, own⟩ := carries
      exact ⟨frame, getElem?_of_prefix (received client) here, own⟩
  | post number =>
      obtain ⟨post, here, own⟩ := carries
      exact ⟨post, getElem?_of_prefix posts here, own⟩

theorem Joined.invoked (joined : Joined address identity world) {carriage : Carriage}
    {op : Index × Request} (carries : Carries address identity world carriage op) :
    .invoked carriage.attempt op ∈ world.history := by
  cases carriage with
  | frame client position caller =>
      obtain ⟨frame, received, rfl, asks⟩ := carries
      exact joined.frames client frame (List.mem_append_right _ (List.mem_of_getElem? received))
        op asks
  | post number => exact (joined.posted number op).mpr carries

theorem Joined.caller_lt (joined : Joined address identity world) {request : Nat}
    {client caller : Nat} {carriage : Carriage} (here : world.carried[request]? = some carriage)
    (own : carriage.attempt = .lane client caller) : caller < (world.lanes client).total := by
  obtain ⟨op, -, carries, -⟩ := joined.carried request carriage here
  exact joined.called client caller op (own ▸ joined.invoked carries)

theorem Joined.number_lt (joined : Joined address identity world) {request number : Nat}
    {carriage : Carriage} (here : world.carried[request]? = some carriage)
    (own : carriage.attempt = .http number) : number < world.posts.length := by
  obtain ⟨op, -, carries, -⟩ := joined.carried request carriage here
  obtain ⟨post, there, -⟩ := (joined.posted number op).mp (own ▸ joined.invoked carries)
  exact (List.getElem?_eq_some_iff.mp there).1

theorem Joined.advanced (joined : Joined address identity world)
    (stepped : Lane.step (world.lanes client) label = some lane)
    (genuine : ∀ response, label = .nodeSend (some response) → Genuine world client response)
    (fewer : lane.total < UInt64.size) :
    Joined address identity (world.after client lane
      (seen address identity client (world.lanes client) label lane)) := by
  have moves := Lane.moves_of_step stepped
  constructor
  case lanes => exact joined.lanes_after stepped genuine _
  case asking => exact fun other index op own asked asks => joined.asking_after moves asks rfl own
  case frames => exact fun other frame member asked asks => joined.frames_after moves asks member
  case called =>
    intro other caller op member
    rcases List.mem_append.mp member with before | new
    · exact (joined.called other caller op before).trans_le (total_le_after moves other _)
    · obtain ⟨same, grown⟩ := invoked_seen moves new
      obtain ⟨rfl, rfl⟩ := Attempt.lane.inj same
      rw [lanes_after_self, grown]
      exact Nat.lt_succ_self _
  case posted =>
    intro number op
    refine Iff.trans ⟨fun member => ?_, List.mem_append_left _⟩ (joined.posted number op)
    rcases List.mem_append.mp member with before | new
    · exact before
    · cases (invoked_seen moves new).1
  case resends =>
    intro post member caller own
    obtain ⟨invoked, point⟩ := joined.resends post member caller own
    exact ⟨List.mem_append_left _ invoked,
      point_after moves _ (joined.called _ _ _ invoked) point⟩
  case resendsOnce => exact joined.resendsOnce
  case heard =>
    intro other caller reply member
    rcases List.mem_append.mp member with before | new
    · obtain ⟨request, carriage, carried, own, -⟩ := joined.returned _ reply before
      exact point_after moves _ (joined.caller_lt carried own) (joined.heard _ _ _ before)
    · obtain ⟨found, same, point⟩ := point_of_seen new
      obtain ⟨rfl, rfl⟩ := Attempt.lane.inj same
      rwa [lanes_after_self]
  case carried =>
    intro request carriage here
    obtain ⟨asked, token, carries, there⟩ := joined.carried request carriage here
    exact ⟨asked, token,
      carries.grow (fun other => received_after moves other _) (List.prefix_refl _), there⟩
  case length_eq => exact joined.length_eq
  case once => exact joined.once
  case returned =>
    intro id reply member
    rcases List.mem_append.mp member with before | new
    · exact joined.returned id reply before
    · exact joined.returned_seen stepped fewer new
  case ordered =>
    intro first second precedes earlier later one other here own there own'
    have before : Precedes world.history first second := by
      rcases precedes_append precedes with before | ⟨op, new⟩
      · exact before
      · obtain ⟨rfl, -⟩ := invoked_seen moves new
        exact absurd (joined.caller_lt there own') (Nat.lt_irrefl _)
    exact joined.ordered first second before earlier later one other here own there own'

end Advance

/-- What the frames and the posts of one attempt are. -/
theorem Joined.same_of_attempt (joined : Joined address identity world) {one other : Carriage}
    {op op' : Index × Request} (carries : Carries address identity world one op)
    (carries' : Carries address identity world other op')
    (same : one.attempt = other.attempt) : one.same other = true := by
  cases one with
  | frame client position caller =>
      cases other with
      | post number => cases same
      | frame client' place caller' =>
          obtain ⟨rfl, rfl⟩ := Attempt.lane.inj same
          obtain ⟨frame, here, own, -⟩ := carries
          obtain ⟨frame', there, own', -⟩ := carries'
          -- The node receives one frame of each caller.
          obtain ⟨trace, matched, -⟩ := joined.lanes client
          have equal := Lane.position_unique matched.accounted.once here there
            (own.trans own'.symm)
          simp [Carriage.same, equal]
  | post number =>
      cases other with
      | frame => cases same
      | post number' =>
          obtain rfl := Attempt.http.inj same
          simp [Carriage.same]

theorem Joined.carry (joined : Joined address identity world) {carriage : Carriage}
    {op : Index × Request} {token : UInt64}
    (carries : Carries address identity world carriage op)
    (fresh : ∀ other ∈ world.carried, other.same carriage = false)
    {mesh : Mesh.World Index Object}
    (asked : mesh.asked = world.mesh.asked ++ [⟨op.1, op.2, token⟩])
    (history : mesh.history = world.mesh.history ++ [.invoked world.mesh.asked.length op]) :
    Joined address identity { world with
      mesh := mesh
      carried := world.carried ++ [carriage] } := by
  have known : ∀ (request : Nat) (other : Carriage),
      (world.carried ++ [carriage])[request]? = some other →
        world.carried[request]? = some other ∨
          request = world.mesh.asked.length ∧ other = carriage := by
    intro request other found
    rw [← joined.length_eq]
    exact getElem?_concat_cases found
  have alone : ∀ (request : Nat) (other : Carriage), world.carried[request]? = some other →
      other.attempt ≠ carriage.attempt := by
    intro request other found same
    obtain ⟨op', -, carries', -⟩ := joined.carried request other found
    have clash := joined.same_of_attempt carries' carries same
    rw [fresh other (List.mem_of_getElem? found)] at clash
    cases clash
  constructor
  case lanes =>
    intro other
    obtain ⟨trace, matched, answers⟩ := joined.lanes other
    exact ⟨trace, matched, fun response member => (answers response member).grow
      (List.prefix_refl _) (List.prefix_append ..) (history ▸ List.prefix_append ..)⟩
  case asking => exact joined.asking
  case frames => exact joined.frames
  case called => exact joined.called
  case posted => exact joined.posted
  case resends => exact joined.resends
  case resendsOnce => exact joined.resendsOnce
  case heard => exact joined.heard
  case carried =>
    intro request other found
    rcases known request other found with old | ⟨rfl, rfl⟩
    · obtain ⟨asked', token', carries', there⟩ := joined.carried request other old
      exact ⟨asked', token', carries'.grow (fun _ => List.prefix_refl _) (List.prefix_refl _),
        getElem?_of_prefix (asked ▸ List.prefix_append ..) there⟩
    · exact ⟨op, token, carries.grow (fun _ => List.prefix_refl _) (List.prefix_refl _),
        by rw [asked]; exact List.getElem?_concat_length⟩
  case length_eq => simp [asked, joined.length_eq]
  case once =>
    intro first second one other found found' same
    refine position_unique_concat joined.once (fun other member => ?_) found found' same
    obtain ⟨request, old⟩ := List.getElem?_of_mem member
    exact ⟨alone request other old, fun same => alone request other old same.symm⟩
  case returned =>
    intro id reply member
    obtain ⟨request, other, carried, own, heard⟩ := joined.returned id reply member
    refine ⟨request, other, getElem?_of_prefix (List.prefix_append ..) carried, own, ?_⟩
    rw [history]
    exact List.mem_append_left _ heard
  case ordered =>
    rintro _ _ precedes earlier later one other found rfl found' rfl
    obtain ⟨reply, returned⟩ := precedes.returned
    obtain ⟨request, answered, carried, own, heard⟩ := joined.returned _ reply returned
    have old : world.carried[earlier]? = some one := by
      rcases known earlier _ found with old | ⟨-, rfl⟩
      · exact old
      · exact (alone request answered carried own).elim
    rw [history]
    rcases known later _ found' with old' | ⟨rfl, -⟩
    · exact (joined.ordered _ _ precedes earlier later one other old rfl old' rfl).extend
        (List.prefix_append ..)
    · obtain rfl := joined.once earlier request _ _ old carried own.symm
      exact precedes_of_returned heard op

theorem gone_iff {point : Lane.Point} : gone point = true ↔ point = .returned none := by
  cases point with
  | returned answer => cases answer <;> simp [gone]
  | _ => simp [gone]

theorem resends_of_mayPost [DecidableEq Index] {post : Post Index}
    (may : world.MayPost identity post) : Resends world post := by
  intro caller own
  simp only [World.MayPost, own] at may
  exact ⟨may.1, gone_iff.mp may.2.1⟩

theorem unsent_of_mayPost [DecidableEq Index] {post : Post Index}
    (may : world.MayPost identity post) {caller : Nat} (own : post.resends = some caller) :
    ∀ other ∈ world.posts, other.client = post.client → other.resends ≠ some caller := by
  simp only [World.MayPost, own] at may
  exact may.2.2

/-- A new post makes no second one of an operation on the lane. -/
theorem Joined.resendsOnce_post (joined : Joined address identity world) [DecidableEq Index]
    {post : Post Index} (may : world.MayPost identity post) {first second : Nat}
    {one other : Post Index} {caller : Nat} (here : (world.posts ++ [post])[first]? = some one)
    (there : (world.posts ++ [post])[second]? = some other) (same : one.client = other.client)
    (own : one.resends = some caller) (own' : other.resends = some caller) : first = second := by
  have unique : ∀ (first second : Nat) (one other : Post Index), world.posts[first]? = some one →
      world.posts[second]? = some other → one.client = other.client ∧
        one.resends = some caller ∧ other.resends = some caller → first = second :=
    fun first second one other old old' both =>
      joined.resendsOnce first second one other caller old old' both.1 both.2.1 both.2.2
  refine position_unique_concat unique (fun one member => ⟨?_, ?_⟩) here there ⟨same, own, own'⟩
  · rintro ⟨same, own, own'⟩
    exact unsent_of_mayPost may own' one member same own
  · rintro ⟨same, own, own'⟩
    exact unsent_of_mayPost may own one member same.symm own'

theorem Joined.post (joined : Joined address identity world) [DecidableEq Index]
    {post : Post Index} (may : world.MayPost identity post) :
    Joined address identity { world with
      posts := world.posts ++ [post]
      history := world.history ++ [.invoked (.http world.posts.length) post.op] } := by
  constructor
  case lanes =>
    intro other
    obtain ⟨trace, matched, answers⟩ := joined.lanes other
    exact ⟨trace, matched, answers⟩
  case asking =>
    exact fun client index op own asked asks =>
      List.mem_append_left _ (joined.asking client index op own asked asks)
  case frames =>
    exact fun client frame member asked asks =>
      List.mem_append_left _ (joined.frames client frame member asked asks)
  case called =>
    intro client caller op member
    exact joined.called client caller op (by simpa using member)
  case posted =>
    intro number op
    rw [List.mem_append, joined.posted]
    constructor
    · rintro (⟨found, here, rfl⟩ | last)
      · exact ⟨found, getElem?_of_prefix (List.prefix_append ..) here, rfl⟩
      · obtain ⟨same, rfl⟩ := Linear.Event.invoked.inj (List.mem_singleton.mp last)
        obtain rfl := Attempt.http.inj same
        exact ⟨post, List.getElem?_concat_length, rfl⟩
    · rintro ⟨found, here, rfl⟩
      rcases getElem?_concat_cases here with old | ⟨rfl, rfl⟩
      · exact .inl ⟨found, old, rfl⟩
      · exact .inr (List.mem_singleton_self _)
  case resends =>
    intro found member caller own
    rcases List.mem_append.mp member with old | last
    · obtain ⟨invoked, point⟩ := joined.resends found old caller own
      exact ⟨List.mem_append_left _ invoked, point⟩
    · obtain rfl := List.mem_singleton.mp last
      obtain ⟨invoked, point⟩ := resends_of_mayPost may caller own
      exact ⟨List.mem_append_left _ invoked, point⟩
  case resendsOnce =>
    intro first second one other caller found found' same own own'
    exact joined.resendsOnce_post may found found' same own own'
  case heard =>
    intro client caller reply member
    exact joined.heard client caller reply (by simpa using member)
  case carried =>
    intro request carriage found
    obtain ⟨asked, token, carries, there⟩ := joined.carried request carriage found
    exact ⟨asked, token, carries.grow (fun _ => List.prefix_refl _) (List.prefix_append ..), there⟩
  case length_eq => exact joined.length_eq
  case once => exact joined.once
  case returned =>
    intro id reply member
    exact joined.returned id reply (by simpa using member)
  case ordered =>
    intro first second precedes earlier later one other here own there own'
    rcases precedes_concat precedes with before | ⟨op, reply, same, -⟩
    · exact joined.ordered first second before earlier later one other here own there own'
    · obtain ⟨rfl, -⟩ := Linear.Event.invoked.inj same
      exact absurd (joined.number_lt there own') (Nat.lt_irrefl _)

theorem Joined.respond (joined : Joined address identity world) {request number : Nat}
    {reply : List UInt8} (carried : world.carried[request]? = some (.post number))
    (heard : .returned request reply ∈ world.mesh.history) :
    Joined address identity { world with
      history := world.history ++ [.returned (.http number) reply] } := by
  constructor
  case lanes =>
    intro other
    obtain ⟨trace, matched, answers⟩ := joined.lanes other
    exact ⟨trace, matched, answers⟩
  case asking =>
    exact fun client index op own asked asks =>
      List.mem_append_left _ (joined.asking client index op own asked asks)
  case frames =>
    exact fun client frame member asked asks =>
      List.mem_append_left _ (joined.frames client frame member asked asks)
  case called =>
    intro client caller op member
    exact joined.called client caller op (by simpa using member)
  case posted => simpa using joined.posted
  case resends =>
    intro found member caller own
    obtain ⟨invoked, point⟩ := joined.resends found member caller own
    exact ⟨List.mem_append_left _ invoked, point⟩
  case resendsOnce => exact joined.resendsOnce
  case heard =>
    intro client caller reply member
    exact joined.heard client caller reply (by simpa using member)
  case carried => exact joined.carried
  case length_eq => exact joined.length_eq
  case once => exact joined.once
  case returned =>
    intro id other member
    rcases List.mem_append.mp member with old | last
    · exact joined.returned id other old
    · obtain ⟨rfl, rfl⟩ := Linear.Event.returned.inj (List.mem_singleton.mp last)
      exact ⟨request, _, carried, rfl, heard⟩
  case ordered =>
    intro first second precedes
    rcases precedes_concat precedes with before | ⟨op, reply, same, -⟩
    · exact joined.ordered first second before
    · cases same

theorem Joined.turned (joined : Joined address identity world) {mesh : Mesh.World Index Object}
    (asked : mesh.asked = world.mesh.asked) (history : world.mesh.history <+: mesh.history) :
    Joined address identity { world with mesh := mesh } := by
  constructor
  case lanes =>
    intro other
    obtain ⟨trace, matched, answers⟩ := joined.lanes other
    exact ⟨trace, matched, fun response member => (answers response member).grow
      (List.prefix_refl _) (List.prefix_refl _) history⟩
  case asking => exact joined.asking
  case frames => exact joined.frames
  case called => exact joined.called
  case posted => exact joined.posted
  case resends => exact joined.resends
  case resendsOnce => exact joined.resendsOnce
  case heard => exact joined.heard
  case carried =>
    intro request carriage found
    rw [asked]
    exact joined.carried request carriage found
  case length_eq => exact joined.length_eq.trans (congrArg List.length asked.symm)
  case once => exact joined.once
  case returned =>
    intro id reply member
    obtain ⟨request, carriage, carried, own, heard⟩ := joined.returned id reply member
    exact ⟨request, carriage, carried, own, history.subset heard⟩
  case ordered =>
    intro first second precedes earlier later one other here own there own'
    exact (joined.ordered first second precedes earlier later one other here own there own').extend
      history

section Run

variable [DecidableEq Index] {config : Index → Config}
  {handler : Index → Object → Request → Object × List UInt8} {trace : List (Label Index)}
  {final : World Index Object}

/-- No lane has been used so often that its ids repeat. -/
def Numbered (world : World Index Object) : Prop :=
  ∀ client, (world.lanes client).total < UInt64.size

theorem numbered_of_moves (moves : WorldMoves config handler address identity world next)
    (numbered : Numbered next) : Numbered world := by
  intro client
  cases moves with
  | advanced other label lane stepped =>
      exact (total_le_after (Lane.moves_of_step stepped) client _).trans_lt (numbered client)
  | carried | posted | responded | turned => exact numbered client

theorem Joined.moves (joined : Joined address identity world)
    (moves : WorldMoves config handler address identity world next) (numbered : Numbered next) :
    Joined address identity next := by
  cases moves with
  | advanced client label lane stepped genuine =>
      exact joined.advanced stepped genuine (by simpa using numbered client)
  | carried carriage op token carries fresh mesh stepped =>
      obtain ⟨asked, history⟩ := appended_of_ask stepped
      exact joined.carry carries fresh asked history
  | posted post may => exact joined.post may
  | responded request number reply carried heard => exact joined.respond carried heard
  | turned label unasked mesh stepped =>
      refine joined.turned (asked_of_step stepped ?_) (grows_of_step stepped).history
      rintro target request token rfl
      simp [unasking] at unasked

theorem joined_of_execute
    (reached : execute (World.step config handler address identity) (World.initial objects) trace =
      some final) (numbered : Numbered final) : Joined address identity final := by
  refine stateInvariant_of_execute (fun world => Numbered world → Joined address identity world)
    (fun _ => joined_initial) ?_ reached numbered
  intro world label next joined stepped numbered
  have moves := worldMoves_of_step stepped
  exact (joined (numbered_of_moves moves numbered)).moves moves numbered

theorem mesh_of_execute
    (reached : execute (World.step config handler address identity) (World.initial objects) trace =
      some final) :
    ∃ labels, execute (Mesh.World.step config handler) (Mesh.World.initial objects) labels =
      some final.mesh := by
  refine stateInvariant_of_execute (fun world => ∃ labels,
    execute (Mesh.World.step config handler) (Mesh.World.initial objects) labels =
      some world.mesh) ⟨[], rfl⟩ ?_ reached
  rintro world label next ⟨labels, before⟩ stepped
  cases worldMoves_of_step stepped with
  | advanced | posted | responded => exact ⟨labels, before⟩
  | carried _ _ _ _ _ mesh turned | turned _ _ mesh turned =>
      exact ⟨labels ++ [_], execute_concat_eq_some.mpr ⟨world.mesh, before, turned⟩⟩

/-- The attempt that a request comes from. -/
def World.owner (world : World Index Object) (request : Nat) : Attempt :=
  ((world.carried[request]?).map Carriage.attempt).getD (.http 0)

/-- The request that took effect is the frame or the post of its owner. -/
theorem Joined.owned (joined : Joined address identity world)
    {effects : List (Mesh.Served Index)}
    (linked : Mesh.Linked config handler objects world.mesh effects)
    {effect : Mesh.Served Index} (effective : effect ∈ effects) :
    ∃ carriage, world.carried[effect.id]? = some carriage ∧
      carriage.attempt = world.owner effect.id ∧
      Carries address identity world carriage effect.op := by
  obtain ⟨asked, there, op⟩ :=
    (linked.invoked_iff _ _).mp (linked.linearizes.invoked effect effective)
  have bound : effect.id < world.carried.length := by
    rw [joined.length_eq]
    exact (List.getElem?_eq_some_iff.mp there).1
  have carried := List.getElem?_eq_getElem bound
  obtain ⟨op', token, carries, mesh⟩ := joined.carried _ _ carried
  obtain rfl := Option.some.inj (there.symm.trans mesh)
  refine ⟨_, carried, by rw [World.owner, carried]; rfl, ?_⟩
  rw [op]
  exact carries

/-- What a call of `request` does over both transports. -/
structure Transports (world : World Index Object)
    (effects : List (Linear.Effect Attempt (Index × Request) (List UInt8))) : Prop where
  lane : ∀ effect ∈ effects, ∀ client caller, effect.id = .lane client caller →
    ∃ frame ∈ (world.lanes client).received, frame.caller = caller
  http : ∀ effect ∈ effects, ∀ number, effect.id = .http number →
    ∃ post, world.posts[number]? = some post ∧ post.op = effect.op
  resent : ∀ post ∈ world.posts, ∀ caller, post.resends = some caller →
    .invoked (.lane post.client caller) post.op ∈ world.history ∧
      ((world.lanes post.client).callers caller).point = .returned none ∧
      ∀ reply, .returned (.lane post.client caller) reply ∉ world.history
  once : ∀ (first second : Nat) one other caller, world.posts[first]? = some one →
    world.posts[second]? = some other → one.client = other.client →
      one.resends = some caller → other.resends = some caller → first = second

theorem Joined.transports (joined : Joined address identity world)
    {effects : List (Mesh.Served Index)}
    (linked : Mesh.Linked config handler objects world.mesh effects) :
    Transports world (effects.map (Effect.rename world.owner)) where
  lane := by
    intro effect member client caller own
    obtain ⟨original, effective, rfl⟩ := List.mem_map.mp member
    obtain ⟨carriage, -, same, carries⟩ := joined.owned linked effective
    have attempt : carriage.attempt = .lane client caller := same.trans own
    cases carriage with
    | post number => cases attempt
    | frame client' position caller' =>
        obtain ⟨rfl, rfl⟩ := Attempt.lane.inj attempt
        obtain ⟨frame, received, mine, -⟩ := carries
        exact ⟨frame, List.mem_of_getElem? received, mine⟩
  http := by
    intro effect member number own
    obtain ⟨original, effective, rfl⟩ := List.mem_map.mp member
    obtain ⟨carriage, -, same, carries⟩ := joined.owned linked effective
    have attempt : carriage.attempt = .http number := same.trans own
    cases carriage with
    | frame => cases attempt
    | post other =>
        obtain rfl := Attempt.http.inj attempt
        exact carries
  resent := by
    intro post member caller own
    obtain ⟨invoked, point⟩ := joined.resends post member caller own
    refine ⟨invoked, point, fun reply returned => ?_⟩
    have answered := joined.heard _ _ _ returned
    rw [point] at answered
    cases answered
  once := joined.resendsOnce

/-- What the callers of all clients see is one sequential run of the handlers, in
which each of their requests takes effect at most once over each transport. -/
theorem end_to_end_of_execute
    (reached : execute (World.step config handler address identity) (World.initial objects) trace =
      some final) (numbered : Numbered final) (few : Few final.mesh) :
    ∃ effects, Linearizes (apply handler) objects final.history effects ∧
      final.mesh.objects = objectAfter (apply handler) objects (effects.map Effect.op) ∧
      Transports final effects := by
  have joined := joined_of_execute reached numbered
  obtain ⟨labels, ran⟩ := mesh_of_execute reached
  obtain ⟨effects, linked⟩ := Mesh.linked_of_execute ran few
  refine ⟨effects.map (Effect.rename final.owner),
    linked.linearizes.rename final.owner ?_ ?_ ?_ ?_, ?_, joined.transports linked⟩
  · intro first one second other same
    obtain ⟨effect, effective, rfl⟩ := List.mem_map.mp one
    obtain ⟨later, effective', rfl⟩ := List.mem_map.mp other
    obtain ⟨carriage, carried, own, -⟩ := joined.owned linked effective
    obtain ⟨carriage', carried', own', -⟩ := joined.owned linked effective'
    exact joined.once _ _ _ _ carried carried' (own.trans (same.trans own'.symm))
  · intro effect effective
    obtain ⟨carriage, -, own, carries⟩ := joined.owned linked effective
    exact own ▸ joined.invoked carries
  · intro id reply returned
    obtain ⟨request, carriage, carried, own, heard⟩ := joined.returned id reply returned
    exact ⟨request, by rw [World.owner, carried]; exact own, heard⟩
  · intro first one second other precedes
    obtain ⟨effect, effective, rfl⟩ := List.mem_map.mp one
    obtain ⟨later, effective', rfl⟩ := List.mem_map.mp other
    obtain ⟨carriage, carried, own, -⟩ := joined.owned linked effective
    obtain ⟨carriage', carried', own', -⟩ := joined.owned linked effective'
    exact joined.ordered _ _ precedes _ _ carriage carriage' carried own carried' own'
  · rw [map_op_rename]
    exact linked.objects_eq

end Run

/-- A client sends a request, and its node takes it off the ring. -/
def sending (client : Nat) : List (Label Unit) :=
  ([.call (.request [1] "app/rpc" [] 1000), .caller 0, .caller 0, .caller 0, .caller 0, .writer,
    .writer, .nodeReceive] : List Lane.Label).map (.lane client)

/-- The lane dies, and the operation resolves to `LaneGone`. -/
def dying (client : Nat) : List (Label Unit) :=
  ([.close, .readerFailed, .reader, .reader, .reader, .caller 0] : List Lane.Label).map
    (.lane client)

/-- The instance reads a request, and its reply goes out. -/
def serving (request : Nat) : List (Label Unit) :=
  [.mesh (.deliver request 0), .mesh (.handle ()), .mesh (.resume () .replyOk)]

/-- The lane of the first client dies under a request that takes effect all the
same, and so does the request that it posts then. -/
def resent : List (Label Unit) :=
  sending 0 ++ sending 1 ++ dying 0 ++
    [.post ⟨0, some 0, ((), Mesh.tick)⟩, .mesh (.resume () .openOk), .take 0 7, .ask 0 0 8,
      .ask 1 0 9] ++
    serving 1 ++ serving 2 ++ serving 0 ++
    [.mesh (.route 0 [2]), .respond 0 [2], .refuse 1 0 (.error "timeout")]

theorem end_to_end_of_execute_resent :
    ∃ final : World Unit Nat,
      execute (World.step (fun _ => anyTopic) Mesh.counter (fun _ => some ()) fun _ => "peer")
        (World.initial fun _ => 0) resent = some final ∧
      final.history = [.invoked (.lane 0 0) ((), Mesh.tick), .invoked (.lane 1 0) ((), Mesh.tick),
        .invoked (.http 0) ((), Mesh.tick), .returned (.http 0) [2]] ∧
      ∃ effects, Linearizes (apply Mesh.counter) (fun _ => 0) final.history effects ∧
        final.mesh.objects =
          objectAfter (apply Mesh.counter) (fun _ => 0) (effects.map Effect.op) ∧
        Transports final effects := by
  have reached : execute
      (World.step (fun _ => anyTopic) Mesh.counter (fun _ => some ()) fun _ => "peer")
      (World.initial fun _ => 0) resent = some (_ : World Unit Nat) := rfl
  refine ⟨_, reached, rfl, end_to_end_of_execute reached (fun client => ?_) fun target => ?_⟩
  · have each : (1 : Nat) < UInt64.size ∧ (0 : Nat) < UInt64.size := by decide
    match client with
    | 0 | 1 => exact each.1
    | _ + 2 => exact each.2
  · show 3 ≤ dedupLimit
    decide

end CeRs.Carried
