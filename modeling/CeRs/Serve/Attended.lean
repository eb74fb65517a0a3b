import CeRs.Serve.Dedup

/-!
# The requests a loop attends to

A loop whose requests all carry a payload that can be decoded handles exactly
the accepted requests it has read, each of them once between two clearings, and
posts a reply only for the one whose handler has returned.
-/

namespace CeRs.Serve

open Transition

variable {config : Config} {state next : State} {input : Input}

@[simp] theorem subscribeFrom_history (config : Config) (state : State) (rest : List String) :
    (subscribeFrom config state rest).history = state.history := by
  cases rest <;> rfl

@[simp] theorem subscribeFrom_seen (config : Config) (state : State) (rest : List String) :
    (subscribeFrom config state rest).seen = state.seen := by
  cases rest <;> rfl

theorem subscribeFrom_point_ne (config : Config) (state : State) (rest : List String)
    (token : UInt64) (request : Request) :
    (subscribeFrom config state rest).point ≠ .handling token request := by
  cases rest <;> simp [subscribeFrom]

/-- What a step can append to the history. -/
structure Appends (state : State) (input : Input) (added : List Event) : Prop where
  posted : ∀ token reply, .posted token reply ∈ added →
    input = .handlerReturned reply ∧ ∃ request, state.point = .handling token request
  read : ∀ connection message, .read connection message ∈ added → input = .item message

theorem Delivery.appends {message : AppMessage} (delivery : Delivery config state message next) :
    ∃ added, next.history = state.history ++ added ∧
      (∀ token reply, .posted token reply ∉ added) ∧
        ∀ connection other, .read connection other ∉ added := by
  cases delivery with
  | unwanted => exact ⟨[], by simp⟩
  | duplicate => exact ⟨[], by simp⟩
  | undecodable token =>
      refine ⟨state.marks token, remember_history state token, ?_, ?_⟩
      · exact fun other reply member => by simpa using mem_marks member
      · exact fun connection other member => by simpa using mem_marks member
  | called token payload =>
      refine ⟨state.marks token ++
        [.handled state.connection token ⟨message.sender, message.topic, payload⟩],
        by simp, ?_, ?_⟩
      · intro other reply member
        have marked : .posted other reply ∈ state.marks token := by simpa using member
        simpa using mem_marks marked
      · intro connection other member
        have marked : .read connection other ∈ state.marks token := by simpa using member
        simpa using mem_marks marked

theorem Moves.appends (moves : Moves config state input next) :
    ∃ added, next.history = state.history ++ added ∧ Appends state input added := by
  cases moves with
  | opened | openFailed | subscribed | refused | slept | accepted =>
      exact ⟨_, by simp; rfl, by simp, by simp⟩
  | stopped | failed | ended | rejected => exact ⟨[], by simp, by simp, by simp⟩
  | delivered message next point delivery =>
      obtain ⟨added, grown, posted, read⟩ := delivery.appends
      refine ⟨.read state.connection message :: added, by simp [grown], ?_, ?_⟩
      · intro token reply member
        simp [posted] at member
      · intro connection other member
        have new : .read connection other = Event.read state.connection message := by
          simpa [read] using member
        exact congrArg Input.item (Event.read.inj new).2.symm
  | replied reply token request point =>
      refine ⟨[.posted token reply], rfl, ?_, by simp⟩
      intro other answer member
      obtain ⟨rfl, rfl⟩ : other = token ∧ answer = reply := by simpa using member
      exact ⟨rfl, request, point⟩

theorem Moves.handling (moves : Moves config state input next) {token : UInt64}
    {request : Request} (entered : next.point = .handling token request) :
    ∃ message, input = .item message ∧ config.accept message.topic = true ∧
      message.replyToken = some token ∧ message.payload = some request.payload ∧
        message.sender = request.sender ∧ message.topic = request.topic := by
  cases moves with
  | opened | subscribed => exact (subscribeFrom_point_ne _ _ _ _ _ entered).elim
  | openFailed | refused | slept | stopped | failed | ended | replied | accepted | rejected =>
      simp at entered
  | delivered message next point delivery =>
      cases delivery with
      | unwanted => simp [point] at entered
      | duplicate => simp [point] at entered
      | undecodable => simp [point] at entered
      | called other payload accepted asked fresh decoded =>
          obtain ⟨rfl, rfl⟩ : other = token ∧
              (⟨message.sender, message.topic, payload⟩ : Request) = request := by
            simpa using entered
          exact ⟨message, rfl, accepted, asked, decoded, rfl, rfl⟩

@[simp] theorem handledTokens_append (first second : List Event) :
    handledTokens (first ++ second) = handledTokens first ++ handledTokens second :=
  List.filterMap_append

@[simp] theorem requestTokens_append (config : Config) (first second : List Event) :
    requestTokens config (first ++ second) =
      requestTokens config first ++ requestTokens config second :=
  List.filterMap_append

@[simp] theorem handledTokens_marks (state : State) (token : UInt64) :
    handledTokens (state.marks token) = [] := by
  unfold State.marks
  split <;> rfl

@[simp] theorem requestTokens_marks (config : Config) (state : State) (token : UInt64) :
    requestTokens config (state.marks token) = [] := by
  unfold State.marks
  split <;> rfl

/-- The requests handled are the accepted ones that have been read. -/
structure Attended (config : Config) (state : State) : Prop where
  seen : ∀ token ∈ state.seen, token ∈ handledTokens state.history
  handled_iff : ∀ token,
    token ∈ handledTokens state.history ↔ token ∈ requestTokens config state.history

theorem attended_initial (config : Config) : Attended config initial where
  seen := by simp [initial]
  handled_iff := by simp [initial, handledTokens, requestTokens]

theorem Attended.log (attended : Attended config state) {event : Event}
    (seen : next.seen = state.seen) (history : next.history = state.history ++ [event])
    (notHandled : handledTokens [event] = []) (notAsked : requestTokens config [event] = []) :
    Attended config next where
  seen := by simpa [seen, history, notHandled] using attended.seen
  handled_iff := by simpa [history, notHandled, notAsked] using attended.handled_iff

theorem Attended.moveTo (attended : Attended config state) (seen : next.seen = state.seen)
    (history : next.history = state.history) : Attended config next where
  seen := by simpa [seen, history] using attended.seen
  handled_iff := by simpa [history] using attended.handled_iff

theorem mem_remember_seen {token other : UInt64}
    (member : other ∈ (state.remember token).seen) : other = token ∨ other ∈ state.seen := by
  unfold State.remember at member
  split at member
  · exact .inl (by simpa [State.clear, State.record] using member)
  · simpa [State.record] using member

theorem Attended.delivery (attended : Attended config state) {message : AppMessage}
    {connection : Nat} (decodes : message.replyToken.isSome → message.payload.isSome)
    (delivery : Delivery config (state.log (.read connection message)) message next) :
    Attended config next := by
  have unread : requestTokens config [.read connection message] =
      (if config.accept message.topic then message.replyToken else none).toList := by
    cases asked : (if config.accept message.topic then message.replyToken else none) <;>
      simp [requestTokens, asked]
  have silent : handledTokens [.read connection message] = [] := rfl
  cases delivery with
  | unwanted foreign =>
      refine attended.log rfl rfl rfl ?_
      rcases foreign with refused | plain
      · simp [unread, refused]
      · simp [unread, plain]
  | duplicate token accepted asked known =>
      have before := attended.seen token known
      refine ⟨by simpa [silent] using attended.seen, fun other => ?_⟩
      simp only [log_history, handledTokens_append, requestTokens_append, silent, unread, accepted,
        asked, if_true, List.append_nil, Option.toList_some, List.mem_append,
        List.mem_singleton, ← attended.handled_iff]
      constructor
      · exact .inl
      · rintro (same | rfl)
        · exact same
        · exact before
  | undecodable token accepted asked fresh garbled =>
      have decoded := decodes (by simp [asked])
      simp [garbled] at decoded
  | called token payload accepted asked fresh decoded =>
      have handled : handledTokens [.handled (state.log (.read connection message)).connection
          token ⟨message.sender, message.topic, payload⟩] = [token] := rfl
      have silent' : requestTokens config
          [.handled (state.log (.read connection message)).connection token
            ⟨message.sender, message.topic, payload⟩] = [] := rfl
      refine ⟨fun other member => ?_, fun other => ?_⟩
      · simp only [log_history, remember_history, handledTokens_append, silent, handled,
          handledTokens_marks, List.append_nil, List.mem_append, List.mem_singleton]
        rcases mem_remember_seen member with rfl | old
        · exact .inr rfl
        · exact .inl (attended.seen other old)
      · simp only [log_history, remember_history, handledTokens_append, requestTokens_append,
          silent, silent', handled, handledTokens_marks, requestTokens_marks, unread, accepted,
          asked, if_true, List.append_nil, Option.toList_some, List.mem_append,
          List.mem_singleton, attended.handled_iff]

theorem Attended.moves (attended : Attended config state)
    (moves : Moves config state input next)
    (decodes : ∀ message, input = .item message → message.replyToken.isSome →
      message.payload.isSome) : Attended config next := by
  cases moves with
  | opened | subscribed =>
      exact attended.log (by simp) (by simp; rfl) rfl rfl
  | openFailed | refused | slept | replied | accepted =>
      exact attended.log rfl rfl rfl rfl
  | stopped | failed | ended | rejected => exact attended.moveTo rfl rfl
  | delivered message next point delivery =>
      exact attended.delivery (decodes message rfl) delivery

end CeRs.Serve
