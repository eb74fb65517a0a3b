import CeRs.Mesh.Requests
import CeRs.Serve.Attended

/-!
# Requests take effect once, and in one order

Whatever the node delivers, redelivers and routes, the requests of all callers
take effect on the handlers as in one sequential run.  A request takes effect
when its handler returns; that happens to it once, because the loop handles a
token once as long as its set of tokens is not emptied.
-/

namespace CeRs.Mesh

open Transition Serve Linear

variable {Index Object : Type*} [DecidableEq Index] {config : Index → Config}
  {handler : Index → Object → Request → Object × List UInt8} {objects : Index → Object}
  {mesh next : World Index Object}

/-- An effect of one of the requests. -/
abbrev Served (Index : Type*) := Effect Nat (Index × Request) (List UInt8)

/-- The invariant of one serve loop. -/
structure Orderly (config : Config) (loop : Serve.State) : Prop where
  deduplicated : Deduplicated config loop
  balanced : Balanced loop
  attended : Attended config loop

theorem orderly_initial (config : Config) : Orderly config Serve.initial :=
  ⟨deduplicated_initial config, rfl, attended_initial config⟩

theorem Orderly.moves {config : Config} {loop after : Serve.State} {input : Input}
    (orderly : Orderly config loop) (moves : Moves config loop input after)
    (decodes : ∀ message, input = .item message → message.replyToken.isSome →
      message.payload.isSome) : Orderly config after :=
  ⟨deduplicated_moves orderly.deduplicated moves, balanced_moves orderly.balanced moves,
    orderly.attended.moves moves decodes⟩

/-- No instance is sent more requests than its loop can keep in mind. -/
def Few (mesh : World Index Object) : Prop :=
  ∀ target, (mesh.asked.filter (·.target = target)).length ≤ dedupLimit

/-- The loops and the effects speak of the requests that were sent. -/
structure Linked (config : Index → Config)
    (handler : Index → Object → Request → Object × List UInt8) (objects : Index → Object)
    (mesh : World Index Object) (effects : List (Served Index)) : Prop where
  linearizes : Linearizes (apply handler) objects mesh.history effects
  objects_eq : mesh.objects = objectAfter (apply handler) objects (effects.map Effect.op)
  orderly : ∀ target, Orderly (config target) (mesh.loops target)
  named : ∀ (first second : Nat) (one other : Asked Index), mesh.asked[first]? = some one →
    mesh.asked[second]? = some other → one.target = other.target → one.token = other.token →
      first = second
  invoked_iff : ∀ id op, .invoked id op ∈ mesh.history ↔
    ∃ asked, mesh.asked[id]? = some asked ∧ op = (asked.target, asked.request)
  effective : ∀ effect ∈ effects, ∀ asked : Asked Index, mesh.asked[effect.id]? = some asked →
    asked.token ∈ postedTokens (mesh.loops asked.target).history
  posted : ∀ target token reply, .posted token reply ∈ (mesh.loops target).history →
    ∃ effect ∈ effects, ∃ asked, mesh.asked[effect.id]? = some asked ∧
      asked.target = target ∧ asked.token = token ∧ effect.reply = reply
  handling : ∀ target token request, (mesh.loops target).point = .handling token request →
    ∃ id : Nat, mesh.asked[id]? = some ⟨target, request, token⟩
  read : ∀ target connection message, .read connection message ∈ (mesh.loops target).history →
    message.replyToken.isSome →
      ∃ asked ∈ mesh.asked, asked.target = target ∧ message = asked.message message.receivedAt

theorem linked_initial : Linked config handler objects (World.initial objects) [] where
  linearizes := linearizes_nil
  objects_eq := rfl
  orderly := fun target => orderly_initial (config target)
  named := by simp [World.initial]
  invoked_iff := by simp [World.initial]
  effective := by simp
  posted := by simp [World.initial, Serve.initial]
  handling := by simp [World.initial, Serve.initial]
  read := by simp [World.initial, Serve.initial]

variable {effects : List (Served Index)}

theorem mem_postedTokens {history : List Serve.Event} {token : UInt64} :
    token ∈ postedTokens history ↔ ∃ reply, .posted token reply ∈ history := by
  simp only [postedTokens, List.mem_filterMap]
  constructor
  · rintro ⟨event, member, found⟩
    cases event <;> simp only [Option.some.injEq, reduceCtorEq] at found
    case posted other reply => exact ⟨reply, found ▸ member⟩
  · rintro ⟨reply, member⟩
    exact ⟨_, member, rfl⟩

/-- The token of an accepted request names one that was sent. -/
theorem Linked.requested (linked : Linked config handler objects mesh effects) {target : Index}
    {token : UInt64} (member : token ∈ requestTokens (config target) (mesh.loops target).history) :
    ∃ asked ∈ mesh.asked, asked.target = target ∧ asked.token = token ∧
      (config target).accept asked.request.topic = true ∧
        ∃ connection receivedAt,
          .read connection (asked.message receivedAt) ∈ (mesh.loops target).history := by
  obtain ⟨event, present, found⟩ := List.mem_filterMap.mp member
  cases event <;> simp only [reduceCtorEq] at found
  case read connection message =>
      split at found
      case isFalse => simp at found
      case isTrue accepted =>
          obtain ⟨asked, sent, here, same⟩ :=
            linked.read target connection message present (by simp [found])
          rw [same] at accepted found present
          exact ⟨asked, sent, here, Option.some.inj found, accepted, connection,
            message.receivedAt, present⟩

theorem Linked.handled_nodup (linked : Linked config handler objects mesh effects)
    (few : Few mesh) (target : Index) :
    (handledTokens (mesh.loops target).history).Nodup := by
  have deduplicated := (linked.orderly target).deduplicated
  refine handledTokens_nodup deduplicated.handled
    (not_cleared_of_few_tokens deduplicated.cleared ?_)
  have included : (requestTokens (config target) (mesh.loops target).history).toFinset ⊆
      ((mesh.asked.filter (·.target = target)).map Asked.token).toFinset := by
    intro token member
    obtain ⟨asked, sent, here, named, -⟩ := linked.requested (List.mem_toFinset.mp member)
    rw [List.mem_toFinset]
    exact List.mem_map.mpr ⟨asked, List.mem_filter.mpr ⟨sent, by simpa using here⟩, named⟩
  calc
    (requestTokens (config target) (mesh.loops target).history).toFinset.card ≤
        ((mesh.asked.filter (·.target = target)).map Asked.token).toFinset.card :=
      Finset.card_le_card included
    _ ≤ ((mesh.asked.filter (·.target = target)).map Asked.token).length :=
      List.toFinset_card_le _
    _ = (mesh.asked.filter (·.target = target)).length := List.length_map _
    _ ≤ dedupLimit := few target

/-- The request whose handler runs has not taken effect. -/
theorem Linked.not_effective (linked : Linked config handler objects mesh effects)
    (few : Few mesh) {id : Nat} {asked : Asked Index} (here : mesh.asked[id]? = some asked)
    (point : (mesh.loops asked.target).point = .handling asked.token asked.request) :
    id ∉ effects.map Effect.id := by
  intro member
  obtain ⟨effect, effective, rfl⟩ := List.mem_map.mp member
  have posted := linked.effective effect effective asked here
  have nodup := linked.handled_nodup few asked.target
  rw [(linked.orderly asked.target).balanced, point] at nodup
  exact (List.nodup_append.mp nodup).2.2 _ posted _ (List.mem_singleton_self _) rfl

theorem Linked.sent (linked : Linked config handler objects mesh effects) (target : Index)
    (request : Request) (token : UInt64)
    (fresh : ∀ asked ∈ mesh.asked, asked.target = target → asked.token ≠ token) :
    Linked config handler objects { mesh with
      asked := mesh.asked ++ [⟨target, request, token⟩]
      history := mesh.history ++ [.invoked mesh.asked.length (target, request)] } effects := by
  have kept : ∀ id asked, mesh.asked[id]? = some asked →
      (mesh.asked ++ [⟨target, request, token⟩])[id]? = some asked := fun id asked =>
    getElem?_of_prefix (List.prefix_append ..)
  have known : ∀ id asked, (mesh.asked ++ [⟨target, request, token⟩])[id]? = some asked →
      mesh.asked[id]? = some asked ∨ id = mesh.asked.length ∧ asked = ⟨target, request, token⟩ :=
    fun id asked => getElem?_concat_cases
  refine ⟨?_, linked.objects_eq, linked.orderly, ?_, ?_, ?_, ?_, ?_, ?_⟩
  · refine linked.linearizes.invoke _ fun other member => ?_
    obtain ⟨asked, here, -⟩ := (linked.invoked_iff _ _).mp member
    simp at here
  · intro first second one other here there sameTarget sameToken
    have unique : ∀ (first second : Nat) (one other : Asked Index),
        mesh.asked[first]? = some one → mesh.asked[second]? = some other →
          one.target = other.target ∧ one.token = other.token → first = second :=
      fun first second one other old old' same =>
        linked.named first second one other old old' same.1 same.2
    refine position_unique_concat unique (fun one member => ⟨?_, ?_⟩) here there
      ⟨sameTarget, sameToken⟩
    · exact fun same => fresh one member same.1 same.2
    · exact fun same => fresh one member same.1.symm same.2.symm
  · intro id op
    rw [List.mem_append, List.mem_singleton, linked.invoked_iff]
    constructor
    · rintro (⟨asked, here, rfl⟩ | new)
      · exact ⟨asked, kept id asked here, rfl⟩
      · obtain ⟨rfl, rfl⟩ := Linear.Event.invoked.inj new
        exact ⟨_, List.getElem?_concat_length, rfl⟩
    · rintro ⟨asked, here, rfl⟩
      rcases known id asked here with old | ⟨rfl, rfl⟩
      · exact .inl ⟨asked, old, rfl⟩
      · exact .inr rfl
  · intro effect effective asked here
    have pending := linked.linearizes.invoked effect effective
    obtain ⟨before, there, -⟩ := (linked.invoked_iff _ _).mp pending
    obtain rfl := Option.some.inj ((kept _ _ there).symm.trans here)
    exact linked.effective effect effective before there
  · intro target token reply member
    obtain ⟨effect, effective, asked, here, rest⟩ := linked.posted target token reply member
    exact ⟨effect, effective, asked, kept _ asked here, rest⟩
  · intro target token request point
    obtain ⟨id, here⟩ := linked.handling target token request point
    exact ⟨id, kept id _ here⟩
  · intro target connection message member carries
    obtain ⟨asked, sent, rest⟩ := linked.read target connection message member carries
    exact ⟨asked, List.mem_append_left _ sent, rest⟩

@[simp] theorem setLoop_loops (mesh : World Index Object) (target other : Index)
    (loop : Serve.State) :
    (mesh.setLoop target loop).loops other = if other = target then loop else mesh.loops other :=
  Function.update_apply ..

@[simp] theorem setLoop_asked (mesh : World Index Object) (target : Index)
    (loop : Serve.State) : (mesh.setLoop target loop).asked = mesh.asked := rfl

/-- A message with a token is that of a request to the instance. -/
def Genuine (mesh : World Index Object) (target : Index) (input : Input) : Prop :=
  ∀ message, input = .item message → message.replyToken.isSome →
    ∃ asked ∈ mesh.asked, asked.target = target ∧ message = asked.message message.receivedAt

omit [DecidableEq Index] in
theorem Genuine.decodes {target : Index} {input : Input} (genuine : Genuine mesh target input) :
    ∀ message, input = .item message → message.replyToken.isSome → message.payload.isSome := by
  intro message same carries
  obtain ⟨asked, -, -, own⟩ := genuine message same carries
  rw [own]
  simp

section Loops

variable {target : Index} {input : Input} {loop : Serve.State}

theorem Linked.orderly_setLoop (linked : Linked config handler objects mesh effects)
    (moves : Moves (config target) (mesh.loops target) input loop)
    (genuine : Genuine mesh target input) (other : Index) :
    Orderly (config other) ((mesh.setLoop target loop).loops other) := by
  rw [setLoop_loops]
  split
  case isTrue same =>
      rw [same]
      exact (linked.orderly target).moves moves genuine.decodes
  case isFalse => exact linked.orderly other

theorem Linked.handling_setLoop (linked : Linked config handler objects mesh effects)
    (moves : Moves (config target) (mesh.loops target) input loop)
    (genuine : Genuine mesh target input) {other : Index} {token : UInt64} {request : Request}
    (point : ((mesh.setLoop target loop).loops other).point = .handling token request) :
    ∃ id : Nat, mesh.asked[id]? = some ⟨other, request, token⟩ := by
  rw [setLoop_loops] at point
  split at point
  case isTrue same =>
      obtain ⟨message, rfl, -, asks, carries, sender, topic⟩ := moves.handling point
      obtain ⟨asked, sent, here, own⟩ := genuine message rfl (by simp [asks])
      rw [own] at asks carries sender topic
      obtain ⟨id, found⟩ := List.getElem?_of_mem sent
      obtain rfl : asked.token = token := Option.some.inj asks
      have payload : asked.request.payload = request.payload := by simpa using carries
      have whole : asked.request = request := by
        cases request with
        | mk requestSender requestTopic requestPayload =>
            obtain rfl : asked.request.sender = requestSender := sender
            obtain rfl : asked.request.topic = requestTopic := topic
            obtain rfl : asked.request.payload = requestPayload := payload
            rfl
      exact ⟨id, by rw [found, same, ← here, ← whole]⟩
  case isFalse => exact linked.handling other token request point

theorem Linked.read_setLoop (linked : Linked config handler objects mesh effects)
    (moves : Moves (config target) (mesh.loops target) input loop)
    (genuine : Genuine mesh target input) {other : Index} {connection : Nat}
    {message : AppMessage}
    (member : .read connection message ∈ ((mesh.setLoop target loop).loops other).history)
    (carries : message.replyToken.isSome) :
    ∃ asked ∈ mesh.asked, asked.target = other ∧ message = asked.message message.receivedAt := by
  rw [setLoop_loops] at member
  split at member
  case isTrue same =>
      obtain ⟨added, grown, appends⟩ := moves.appends
      rw [grown, List.mem_append] at member
      rw [same]
      rcases member with earlier | new
      · exact linked.read target connection message earlier carries
      · exact genuine message (appends.read connection message new) carries
  case isFalse => exact linked.read other connection message member carries

theorem posted_setLoop (moves : Moves (config target) (mesh.loops target) input loop)
    {other : Index} {token : UInt64} (member : token ∈ postedTokens (mesh.loops other).history) :
    token ∈ postedTokens ((mesh.setLoop target loop).loops other).history := by
  rw [setLoop_loops]
  split
  case isTrue same =>
      obtain ⟨added, grown, -⟩ := moves.appends
      rw [grown, postedTokens, List.filterMap_append, List.mem_append]
      exact .inl (same ▸ member)
  case isFalse => exact member

theorem Linked.resumed (linked : Linked config handler objects mesh effects)
    (moves : Moves (config target) (mesh.loops target) input loop)
    (genuine : Genuine mesh target input) (silent : ∀ reply, input ≠ .handlerReturned reply) :
    Linked config handler objects (mesh.setLoop target loop) effects where
  linearizes := linked.linearizes
  objects_eq := linked.objects_eq
  orderly := linked.orderly_setLoop moves genuine
  named := linked.named
  invoked_iff := linked.invoked_iff
  effective := fun effect effective asked here =>
    posted_setLoop moves (linked.effective effect effective asked here)
  posted := by
    intro other token reply member
    rw [setLoop_loops] at member
    split at member
    case isTrue same =>
        obtain ⟨added, grown, appends⟩ := moves.appends
        rw [grown, List.mem_append] at member
        rcases member with earlier | new
        · exact linked.posted other token reply (same ▸ earlier)
        · exact (silent reply (appends.posted token reply new).1).elim
    case isFalse => exact linked.posted other token reply member
  handling := fun _ _ _ point => linked.handling_setLoop moves genuine point
  read := fun _ _ _ member carries => linked.read_setLoop moves genuine member carries

theorem Linked.handled (linked : Linked config handler objects mesh effects) (few : Few mesh)
    {token : UInt64} {request : Request}
    (point : (mesh.loops target).point = .handling token request)
    (moves : Moves (config target) (mesh.loops target)
      (.handlerReturned (apply handler mesh.objects (target, request)).2) loop) :
    ∃ id, Linked config handler objects { mesh.setLoop target loop with
      objects := (apply handler mesh.objects (target, request)).1 }
      (effects ++ [⟨id, (target, request), (apply handler mesh.objects (target, request)).2⟩]) := by
  obtain ⟨id, here⟩ := linked.handling target token request point
  have genuine : Genuine mesh target
      (.handlerReturned (apply handler mesh.objects (target, request)).2) := by
    intro message same
    cases same
  have fresh := linked.not_effective few here point
  have pending := (linked.invoked_iff id (target, request)).mpr ⟨_, here, rfl⟩
  have grown : loop.history = (mesh.loops target).history ++
      [.posted token (apply handler mesh.objects (target, request)).2] := by
    cases moves with
    | replied reply other asked there =>
        obtain ⟨rfl, rfl⟩ := Point.handling.inj (there.symm.trans point)
        rfl
  refine ⟨id, ⟨?_, ?_, linked.orderly_setLoop moves genuine, linked.named, linked.invoked_iff,
    ?_, ?_, fun _ _ _ => linked.handling_setLoop moves genuine,
    fun _ _ _ => linked.read_setLoop moves genuine⟩⟩
  · have after := linked.linearizes.takeEffect pending fresh
    rwa [← linked.objects_eq] at after
  · simp [← linked.objects_eq]
  · intro effect effective asked there
    rcases List.mem_append.mp effective with earlier | last
    · exact posted_setLoop moves (linked.effective effect earlier asked there)
    · obtain rfl := List.mem_singleton.mp last
      obtain rfl := Option.some.inj (here.symm.trans there)
      rw [mem_postedTokens]
      exact ⟨_, by simp [grown]; exact .inr rfl⟩
  · intro other answered reply member
    have place : .posted answered reply ∈ (mesh.loops other).history ∨
        other = target ∧ answered = token ∧
          reply = (apply handler mesh.objects (target, request)).2 := by
      by_cases same : other = target
      · simpa [same, grown] using member
      · simpa [same] using member
    rcases place with earlier | ⟨rfl, rfl, rfl⟩
    · obtain ⟨effect, effective, rest⟩ := linked.posted other answered reply earlier
      exact ⟨effect, List.mem_append_left _ effective, rest⟩
    · exact ⟨_, List.mem_append_right _ (List.mem_singleton_self _), _, here, rfl, rfl, rfl⟩

end Loops

theorem Linked.routed (linked : Linked config handler objects mesh effects) {id : Nat}
    {asked : Asked Index} {reply : List UInt8} (here : mesh.asked[id]? = some asked)
    (posted : .posted asked.token reply ∈ (mesh.loops asked.target).history) :
    Linked config handler objects { mesh with
      settled := id :: mesh.settled
      history := mesh.history ++ [.returned id reply] } effects := by
  obtain ⟨effect, effective, other, there, target, token, rfl⟩ :=
    linked.posted asked.target asked.token reply posted
  obtain rfl := linked.named effect.id id other asked there here target token
  refine ⟨linked.linearizes.answer effective, linked.objects_eq, linked.orderly, linked.named,
    fun id op => ?_, linked.effective, linked.posted, linked.handling, linked.read⟩
  simpa using linked.invoked_iff id op

theorem linked_of_moves (linked : Linked config handler objects mesh effects) (few : Few mesh)
    (moves : MeshMoves config handler mesh next) :
    ∃ effects', Linked config handler objects next effects' := by
  cases moves with
  | sent target request token fresh => exact ⟨effects, linked.sent target request token fresh⟩
  | delivered id asked receivedAt loop here moves =>
      refine ⟨effects, linked.resumed moves ?_ (by simp)⟩
      rintro message ⟨⟩ -
      exact ⟨asked, List.mem_of_getElem? here, rfl, rfl⟩
  | resumed target input loop plain moves =>
      refine ⟨effects, linked.resumed moves ?_ ?_⟩
      · rintro message rfl carries
        simp [show message.replyToken = none from plain] at carries
      · rintro reply rfl
        exact plain
  | handled target token request loop point moves =>
      obtain ⟨id, after⟩ := linked.handled few point moves
      exact ⟨_, after⟩
  | routed id asked reply here waiting posted => exact ⟨effects, linked.routed here posted⟩
  | gaveUp id =>
      exact ⟨effects, ⟨linked.linearizes, linked.objects_eq, linked.orderly, linked.named,
        linked.invoked_iff, linked.effective, linked.posted, linked.handling, linked.read⟩⟩

theorem few_of_moves (moves : MeshMoves config handler mesh next) (few : Few next) :
    Few mesh := by
  cases moves with
  | sent target request token fresh =>
      intro other
      refine le_trans ?_ (few other)
      simp
  | delivered | resumed | handled | routed | gaveUp => exact few

/-- The instance accepts the request and has read it from its stream. -/
def Delivered (config : Index → Config) (mesh : World Index Object) (asked : Asked Index) : Prop :=
  (config asked.target).accept asked.request.topic = true ∧
    ∃ connection receivedAt,
      .read connection (asked.message receivedAt) ∈ (mesh.loops asked.target).history

/-- The requests delivered are those that have taken effect, and those whose
handler runs. -/
theorem Linked.delivered_iff (linked : Linked config handler objects mesh effects) {id : Nat}
    {asked : Asked Index} (here : mesh.asked[id]? = some asked) :
    Delivered config mesh asked ↔ id ∈ effects.map Effect.id ∨
      (mesh.loops asked.target).point = .handling asked.token asked.request := by
  have orderly := linked.orderly asked.target
  have handled : asked.token ∈ handledTokens (mesh.loops asked.target).history ↔
      Delivered config mesh asked := by
    rw [orderly.attended.handled_iff]
    constructor
    · intro member
      obtain ⟨other, sent, target, token, accepted, read⟩ := linked.requested member
      obtain ⟨otherId, there⟩ := List.getElem?_of_mem sent
      obtain rfl := linked.named otherId id other asked there here target token
      obtain rfl := Option.some.inj (there.symm.trans here)
      exact ⟨accepted, read⟩
    · rintro ⟨accepted, connection, receivedAt, read⟩
      exact List.mem_filterMap.mpr ⟨_, read, by simp [Asked.message, accepted]⟩
  rw [← handled, orderly.balanced, List.mem_append]
  constructor
  · rintro (posted | underway)
    · obtain ⟨reply, member⟩ := mem_postedTokens.mp posted
      obtain ⟨effect, effective, other, there, target, token, -⟩ :=
        linked.posted asked.target asked.token reply member
      obtain rfl := linked.named effect.id id other asked there here target token
      exact .inl (List.mem_map_of_mem effective)
    · cases point : (mesh.loops asked.target).point <;>
        simp only [point, Point.underway, List.mem_singleton, List.not_mem_nil] at underway
      case handling token request =>
          obtain ⟨otherId, there⟩ := linked.handling asked.target token request point
          obtain rfl := linked.named otherId id _ asked there here rfl underway.symm
          have own := Option.some.inj (there.symm.trans here)
          exact .inr (congrArg (fun other => Point.handling other.token other.request) own)
  · rintro (effective | point)
    · obtain ⟨effect, member, rfl⟩ := List.mem_map.mp effective
      exact .inl (linked.effective effect member asked here)
    · exact .inr (by simp [point, Point.underway])

variable {trace : List (Label Index)} {final : World Index Object}

theorem linked_of_execute
    (reached : execute (World.step config handler) (World.initial objects) trace = some final)
    (few : Few final) : ∃ effects, Linked config handler objects final effects := by
  refine stateInvariant_of_execute
    (fun mesh => Few mesh → ∃ effects, Linked config handler objects mesh effects)
    (fun _ => ⟨[], linked_initial⟩) ?_ reached few
  intro mesh label next linked stepped few
  have moves := meshMoves_of_step stepped
  have before := few_of_moves moves few
  obtain ⟨effects, linked⟩ := linked before
  exact linked_of_moves linked before moves

/-- What the callers see is one sequential run of the handlers, in which each
request takes effect at most once, and those delivered do. -/
theorem linearizable_of_execute
    (reached : execute (World.step config handler) (World.initial objects) trace = some final)
    (few : Few final) :
    ∃ effects, Linearizes (apply handler) objects final.history effects ∧
      final.objects = objectAfter (apply handler) objects (effects.map Effect.op) ∧
      ∀ (id : Nat) (asked : Asked Index), final.asked[id]? = some asked →
        (Delivered config final asked ↔ id ∈ effects.map Effect.id ∨
          (final.loops asked.target).point = .handling asked.token asked.request) := by
  obtain ⟨effects, linked⟩ := linked_of_execute reached few
  exact ⟨effects, linked.linearizes, linked.objects_eq, fun id asked here =>
    linked.delivered_iff here⟩

/-- A handler that counts its requests. -/
def counter : Unit → Nat → Request → Nat × List UInt8 :=
  fun _ count _ => (count + 1, [UInt8.ofNat count])

def tick : Request := ⟨"peer", "app/rpc", []⟩

/-- The second request is delivered first, and once more after its reply. -/
def overtaking : List (Label Unit) :=
  [.resume () .openOk, .ask () tick 1, .ask () tick 2, .deliver 1 0, .handle (),
    .resume () .replyOk, .deliver 1 0, .deliver 0 0, .handle (), .route 1 [0], .route 0 [1]]

theorem linearizable_of_execute_overtaking :
    ∃ final : World Unit Nat,
      execute (World.step (fun _ => anyTopic) counter) (World.initial fun _ => 0) overtaking =
        some final ∧
      final.history = [.invoked 0 ((), tick), .invoked 1 ((), tick), .returned 1 [0],
        .returned 0 [1]] ∧
      ∃ effects, Linearizes (apply counter) (fun _ => 0) final.history effects ∧
        final.objects = objectAfter (apply counter) (fun _ => 0) (effects.map Effect.op) ∧
        ∀ (id : Nat) (asked : Asked Unit), final.asked[id]? = some asked →
          (Delivered (fun _ => anyTopic) final asked ↔ id ∈ effects.map Effect.id ∨
            (final.loops asked.target).point = .handling asked.token asked.request) := by
  have reached : execute (World.step (fun _ => anyTopic) counter) (World.initial fun _ => 0)
      overtaking = some _ := rfl
  refine ⟨_, reached, rfl, linearizable_of_execute reached fun target => ?_⟩
  show 2 ≤ dedupLimit
  decide

end CeRs.Mesh
