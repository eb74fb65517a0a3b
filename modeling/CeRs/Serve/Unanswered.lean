import CeRs.Serve.Dedup

/-!
# Redelivered requests that were never answered

`answer_one` records a token before it decodes the payload, before the handler
runs and before the reply is posted.  When one of these later steps fails the
token stays recorded, so the redelivery the node makes for want of an answer is
taken for a request already answered.
-/

namespace CeRs.Serve

open Transition

/-- The loop is about to read an accepted, decodable request whose token has
had no reply accepted by the node. -/
def ReadsUnanswered (config : Config) (state : State) (input : Input)
    (token : UInt64) (request : Request) : Prop :=
  state.point = .receiving ∧ .answered token ∉ state.history ∧
    ∃ message, input = .item message ∧ config.accept message.topic = true ∧
      message.replyToken = some token ∧ message.payload = some request.payload ∧
      request.sender = message.sender ∧ request.topic = message.topic

/-- The handler runs on the request, and whatever happens next is its return,
upon which a reply is posted for the token. -/
def Serving (config : Config) (state : State) (token : UInt64) (request : Request) : Prop :=
  state.point = .handling token request ∧
    ∀ input next, step config state input = some next →
      ∃ reply, input = .handlerReturned reply ∧
        next.history = state.history ++ [.posted token reply]

/-- Each unanswered request that is read is served. -/
def ServesUnanswered (config : Config) (state : State) (input : Input) : Prop :=
  ∀ token request, ReadsUnanswered config state input token request →
    ∃ next, step config state input = some next ∧ Serving config next token request

/-- No unanswered request that is read bears a token recorded since the last
clearing. -/
def ReadsUnrecorded (config : Config) (state : State) (input : Input) : Prop :=
  ∀ token request, ReadsUnanswered config state input token request →
    token ∉ recorded state.history

theorem serving_of_handling {config : Config} {state : State} {token : UInt64}
    {request : Request} (handling : state.point = .handling token request) :
    Serving config state token request := by
  refine ⟨handling, fun input next stepped => ?_⟩
  cases moves_of_step stepped with
  | replied reply other asked point =>
      obtain ⟨rfl, rfl⟩ : token = other ∧ request = asked := by
        simpa using handling.symm.trans point
      exact ⟨reply, rfl, rfl⟩
  | stopped point => rcases point with point | point <;> simp [handling] at point
  | opened point | openFailed point | subscribed _ _ point | refused _ _ point | slept point
  | delivered _ _ point | failed point | ended point | accepted _ point | rejected _ point =>
      simp [handling] at point

/-- What a read step does with an accepted and decodable request: the handler
is called exactly when the token is not recorded. -/
theorem step_readsUnanswered {config : Config} {state : State} {input : Input}
    {token : UInt64} {request : Request}
    (reads : ReadsUnanswered config state input token request) :
    ∃ next, step config state input = some next ∧
      (token ∉ state.seen → next.point = .handling token request) ∧
      (token ∈ state.seen → next.point = .receiving) := by
  obtain ⟨receiving, -, message, rfl, accepted, asked, decoded, sender, topic⟩ := reads
  have same : request = ⟨message.sender, message.topic, request.payload⟩ := by
    rw [← sender, ← topic]
  refine ⟨_, by simp only [step, receiving]; rfl, fun fresh => ?_, fun known => ?_⟩
  · rw [same]
    simp [answerOne, accepted, asked, fresh, decoded]
  · simp [answerOne, accepted, asked, known, receiving]

/-- At a state of a run, the unanswered request is served if and only if its
token is not recorded. -/
theorem servesUnanswered_iff {config : Config} {before : List Input} {state : State}
    (run : execute (step config) initial before = some state) (input : Input) :
    ServesUnanswered config state input ↔ ReadsUnrecorded config state input := by
  have seen := (deduplicated_of_execute run).seen
  constructor
  · intro serves token request reads member
    obtain ⟨next, stepped, handling, -⟩ := serves token request reads
    obtain ⟨other, same, -, held⟩ := step_readsUnanswered reads
    obtain rfl : next = other := Option.some.inj (stepped.symm.trans same)
    simp [handling] at held
    exact held (seen ▸ member)
  · intro unrecorded token request reads
    obtain ⟨next, stepped, handling, -⟩ := step_readsUnanswered reads
    have fresh : token ∉ state.seen := seen ▸ unrecorded token request reads
    exact ⟨next, stepped, serving_of_handling (handling fresh)⟩

section Inputs

/-- The token of an accepted request that is read. -/
def Input.asked? (config : Config) : Input → Option UInt64
  | .item message => if config.accept message.topic then message.replyToken else none
  | _ => none

/-- The tokens of the accepted requests that a run reads. -/
def askedTokens (config : Config) (trace : List Input) : List UInt64 :=
  trace.filterMap (Input.asked? config)

/-- The set after one more token has been read. -/
def remembering (seen : Finset UInt64) (token : UInt64) : Finset UInt64 :=
  if dedupLimit < (insert token seen).card then {token} else insert token seen

theorem remember_seen (state : State) (token : UInt64) :
    (state.remember token).seen = remembering state.seen token := by
  unfold State.remember remembering
  split <;> rfl

theorem remembering_of_mem {seen : Finset UInt64} {token : UInt64} (known : token ∈ seen)
    (bounded : seen.card ≤ dedupLimit) : remembering seen token = seen := by
  rw [remembering, Finset.insert_eq_of_mem known, if_neg (Nat.not_lt.mpr bounded)]

theorem seen_of_delivery {config : Config} {state next : State} {message : AppMessage}
    (delivery : Delivery config state message next) (bounded : state.seen.card ≤ dedupLimit) :
    next.seen = (Input.asked? config (.item message)).elim state.seen
      (remembering state.seen) := by
  cases delivery with
  | unwanted foreign =>
      rcases foreign with refused | silent
      · simp [Input.asked?, refused]
      · simp [Input.asked?, silent]
  | duplicate token accepted request known =>
      simp [Input.asked?, accepted, request, remembering_of_mem known bounded]
  | undecodable token accepted request =>
      simp [Input.asked?, accepted, request, remember_seen]
  | called token payload accepted request =>
      simp [Input.asked?, accepted, request, remember_seen]

theorem seen_of_step {config : Config} {state next : State} {input : Input}
    (stepped : step config state input = some next) (bounded : state.seen.card ≤ dedupLimit) :
    next.seen = (input.asked? config).elim state.seen (remembering state.seen) := by
  cases moves_of_step stepped with
  | opened => cases config.subscribe <;> rfl
  | subscribed topic rest => cases rest <;> rfl
  | delivered message next point delivery =>
      have seen := seen_of_delivery delivery bounded
      exact seen
  | openFailed | refused | slept | stopped | failed | ended | replied | accepted | rejected => rfl

/-- The set is made of the tokens that were read, one after the other. -/
theorem recorded_eq_foldl {config : Config} {trace : List Input} {state : State}
    (run : execute (step config) initial trace = some state) :
    recorded state.history = (askedTokens config trace).foldl remembering ∅ := by
  rw [← (deduplicated_of_execute run).seen]
  induction trace using List.reverseRecOn generalizing state with
  | nil =>
      obtain rfl : initial = state := by simpa using run
      rfl
  | append_singleton trace input induction =>
      obtain ⟨middle, before, stepped⟩ := execute_concat_eq_some.mp run
      rw [seen_of_step stepped (deduplicated_of_execute before).bounded, induction before]
      simp only [askedTokens, List.filterMap_append, List.foldl_append]
      cases asked : input.asked? config <;> simp [asked]

/-- Few tokens are all remembered. -/
theorem foldl_remembering {tokens : List UInt64} (few : tokens.toFinset.card ≤ dedupLimit) :
    tokens.foldl remembering ∅ = tokens.toFinset := by
  induction tokens using List.reverseRecOn with
  | nil => rfl
  | append_singleton tokens token induction =>
      have grown : (tokens ++ [token]).toFinset = insert token tokens.toFinset := by
        ext other
        simp
      rw [grown] at few ⊢
      have fewer := (Finset.card_le_card (Finset.subset_insert token _)).trans few
      rw [List.foldl_append, List.foldl_cons, List.foldl_nil, induction fewer, remembering,
        if_neg (Nat.not_lt.mpr few)]

/-- In terms of what is read: while no more tokens have come than the set holds,
an unanswered request is served exactly if no copy of it was read before. -/
theorem readsUnrecorded_iff {config : Config} {trace : List Input} {state : State}
    (run : execute (step config) initial trace = some state)
    (few : (askedTokens config trace).toFinset.card ≤ dedupLimit) (input : Input) :
    ReadsUnrecorded config state input ↔
      ∀ token request, ReadsUnanswered config state input token request →
        token ∉ askedTokens config trace := by
  simp only [ReadsUnrecorded, recorded_eq_foldl run, foldl_remembering few, List.mem_toFinset]

end Inputs

/-- A run serves every unanswered request it reads if and only if none of them
bears a token recorded since the last clearing. -/
theorem unanswered_served_iff (config : Config) (trace : List Input) :
    EveryStep (step config) (ServesUnanswered config) initial trace ↔
      EveryStep (step config) (ReadsUnrecorded config) initial trace :=
  everyStep_congr fun _ _ input run => servesUnanswered_iff run input

/-- A request whose reply failed is redelivered on the next connection. -/
def failedReply : List Input :=
  [.openOk, .item (emptyRequest 5), .handlerReturned [1], .replyErr, .streamEnd, .openOk]

/-- The redelivered request is dropped: its token is still recorded, although
the node has accepted no reply for it. -/
theorem unanswered_request_dropped :
    ¬ ∀ (config : Config) (trace : List Input) (state : State),
      execute (step config) initial trace = some state →
        EveryStep (step config) (ServesUnanswered config) initial trace := by
  intro served
  have every := served anyTopic (failedReply ++ [.item (emptyRequest 5)]) _ rfl
  obtain ⟨next, stepped, handling, -⟩ := every failedReply (.item (emptyRequest 5)) [] _ rfl rfl
    5 ⟨"peer", "app/rpc", []⟩
    ⟨rfl, by decide, emptyRequest 5, rfl, rfl, rfl, rfl, rfl, rfl⟩
  obtain rfl := Option.some.inj stepped
  revert handling
  decide

end CeRs.Serve
