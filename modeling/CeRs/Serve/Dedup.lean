import CeRs.Serve.Loop
import Mathlib.Algebra.Group.Nat.Defs
import Mathlib.Data.List.Nodup

/-!
# How far the de-duplication set reaches

The set of recorded tokens is kept across reconnects and emptied when it would
pass its bound.  Between two clearings a token is handled at most once; the
clearing forgets every earlier token, so a request redelivered after it is
handled again.
-/

namespace CeRs.Serve

open Transition

/-- The tokens recorded since the last clearing. -/
def recordedAfter (seen : Finset UInt64) : Event → Finset UInt64
  | .cleared => ∅
  | .recorded token => insert token seen
  | _ => seen

def recorded (history : List Event) : Finset UInt64 :=
  history.foldl recordedAfter ∅

@[simp] theorem recorded_concat (history : List Event) (event : Event) :
    recorded (history ++ [event]) = recordedAfter (recorded history) event := by
  simp [recorded]

/-- The tokens of the handler calls, in order. -/
def handledTokens (history : List Event) : List UInt64 :=
  history.filterMap fun
    | .handled _ token _ => some token
    | _ => none

/-- The tokens of the replies posted, in order. -/
def postedTokens (history : List Event) : List UInt64 :=
  history.filterMap fun
    | .posted token _ => some token
    | _ => none

/-- The tokens of the accepted requests that were read, in order. -/
def requestTokens (config : Config) (history : List Event) : List UInt64 :=
  history.filterMap fun
    | .read _ message => if config.accept message.topic then message.replyToken else none
    | _ => none

/-- Every handler call for the token lies before a clearing. -/
def ForgottenCalls (history : List Event) (token : UInt64) : Prop :=
  ∀ earlier connection request since,
    history = earlier ++ .handled connection token request :: since → .cleared ∈ since

/-- A repeated handler call for a token has a clearing since the earlier one. -/
def HandledAfterClearing (before : List Event) (event : Event) : Prop :=
  ∀ connection token request, event = .handled connection token request →
    ForgottenCalls before token

/-- A clearing happens at an accepted request whose token is one more than the
full set holds. -/
def ClearedWhenFull (config : Config) (before : List Event) (event : Event) : Prop :=
  event = .cleared →
    (recorded before).card = dedupLimit ∧
      (∀ token ∈ recorded before, token ∈ requestTokens config before) ∧
      ∃ token ∈ requestTokens config before, token ∉ recorded before

/-- The invariant of the de-duplication set. -/
structure Deduplicated (config : Config) (state : State) : Prop where
  seen : state.seen = recorded state.history
  bounded : state.seen.card ≤ dedupLimit
  known : ∀ earlier connection token request since,
    state.history = earlier ++ .handled connection token request :: since →
      .cleared ∉ since → token ∈ state.seen
  handled : AtEach HandledAfterClearing state.history
  cleared : AtEach (ClearedWhenFull config) state.history
  requests : ∀ token ∈ state.seen, token ∈ requestTokens config state.history

theorem deduplicated_initial (config : Config) : Deduplicated config initial where
  seen := rfl
  bounded := by simp [initial]
  known := by simp [initial]
  handled := by simp [initial]
  cleared := by simp [initial]
  requests := by simp [initial]

/-- Splitting a history that has just grown, at a handler call. -/
theorem handled_split_concat {history earlier since : List Event} {event : Event}
    {connection : Nat} {token : UInt64} {request : Request}
    (split : history ++ [event] = earlier ++ .handled connection token request :: since) :
    (∃ rest, since = rest ++ [event] ∧
        history = earlier ++ .handled connection token request :: rest) ∨
      (since = [] ∧ event = .handled connection token request) := by
  rcases List.eq_nil_or_concat since with rfl | ⟨rest, final, rfl⟩
  · obtain ⟨-, equal⟩ := List.append_inj' split rfl
    exact .inr ⟨rfl, by simpa using equal⟩
  · have shape : history ++ [event] =
        (earlier ++ .handled connection token request :: rest) ++ [final] := by
      simpa using split
    obtain ⟨sameHistory, sameEvent⟩ := List.append_inj' shape rfl
    exact .inl ⟨rest, by simpa using sameEvent.symm, sameHistory⟩

theorem Deduplicated.log {config : Config} {state next : State} {event : Event}
    (deduplicated : Deduplicated config state)
    (history : next.history = state.history ++ [event])
    (seen : next.seen = state.seen)
    (neutral : ∀ tokens, recordedAfter tokens event = tokens)
    (notCleared : event ≠ .cleared)
    (handled : ∀ connection token request, event = .handled connection token request →
      token ∈ state.seen ∧ ForgottenCalls state.history token) :
    Deduplicated config next where
  seen := by simp [seen, history, neutral, deduplicated.seen]
  bounded := by simpa [seen] using deduplicated.bounded
  known := by
    rw [history, seen]
    intro earlier connection token request since split untouched
    rcases handled_split_concat split with ⟨rest, rfl, old⟩ | ⟨rfl, new⟩
    · exact deduplicated.known earlier connection token request rest old
        (fun member => untouched (by simp [member]))
    · exact (handled connection token request new).1
  handled := by
    rw [history, atEach_concat]
    exact ⟨deduplicated.handled, fun connection token request equal =>
      (handled connection token request equal).2⟩
  cleared := by
    rw [history, atEach_concat]
    exact ⟨deduplicated.cleared, fun equal => (notCleared equal).elim⟩
  requests := by
    rw [history, seen]
    intro token member
    have earlier := deduplicated.requests token member
    simp only [requestTokens, List.filterMap_append, List.mem_append] at earlier ⊢
    exact .inl earlier

theorem Deduplicated.moveTo {config : Config} {state next : State}
    (deduplicated : Deduplicated config state)
    (history : next.history = state.history) (seen : next.seen = state.seen) :
    Deduplicated config next where
  seen := by rw [seen, history]; exact deduplicated.seen
  bounded := by rw [seen]; exact deduplicated.bounded
  known := by rw [seen, history]; exact deduplicated.known
  handled := by rw [history]; exact deduplicated.handled
  cleared := by rw [history]; exact deduplicated.cleared
  requests := by rw [seen, history]; exact deduplicated.requests

theorem Deduplicated.clear {config : Config} {state : State}
    (deduplicated : Deduplicated config state)
    (full : ClearedWhenFull config state.history .cleared) :
    Deduplicated config state.clear where
  seen := by simp [State.clear, recordedAfter]
  bounded := by simp [State.clear]
  known := by
    intro earlier connection token request since split untouched
    rcases handled_split_concat split with ⟨rest, rfl, -⟩ | ⟨rfl, equal⟩
    · exact (untouched (by simp)).elim
    · simp at equal
  handled := by simp [State.clear, deduplicated.handled, HandledAfterClearing]
  cleared := by
    simp only [State.clear, log_history, atEach_concat]
    exact ⟨deduplicated.cleared, full⟩
  requests := by simp [State.clear]

theorem Deduplicated.record {config : Config} {state : State} {token : UInt64}
    (deduplicated : Deduplicated config state)
    (room : (insert token state.seen).card ≤ dedupLimit)
    (asked : token ∈ requestTokens config state.history) :
    Deduplicated config (state.record token) where
  seen := by simp [State.record, recordedAfter, deduplicated.seen]
  bounded := room
  known := by
    intro earlier connection other request since split untouched
    rcases handled_split_concat split with ⟨rest, rfl, old⟩ | ⟨rfl, equal⟩
    · exact Finset.mem_insert_of_mem (deduplicated.known earlier connection other request rest
        old (fun member => untouched (by simp [member])))
    · simp at equal
  handled := by simp [State.record, deduplicated.handled, HandledAfterClearing]
  cleared := by simp [State.record, deduplicated.cleared, ClearedWhenFull]
  requests := by
    intro other member
    have recordedMember : other = token ∨ other ∈ state.seen := by
      simpa [State.record] using member
    have earlier : other ∈ requestTokens config state.history := by
      rcases recordedMember with rfl | old
      · exact asked
      · exact deduplicated.requests other old
    simpa [State.record, requestTokens] using earlier

/-- A token outside the set is not held back by any handler call. -/
theorem Deduplicated.forgotten {config : Config} {state : State} {token : UInt64}
    (deduplicated : Deduplicated config state) (fresh : token ∉ state.seen) :
    ForgottenCalls state.history token := by
  intro earlier connection request since split
  by_contra untouched
  exact fresh (deduplicated.known earlier connection token request since split untouched)

theorem ForgottenCalls.concat {history : List Event} {token : UInt64} {event : Event}
    (forgotten : ForgottenCalls history token)
    (notHandled : ∀ connection request, event ≠ .handled connection token request) :
    ForgottenCalls (history ++ [event]) token := by
  intro earlier connection request since split
  rcases handled_split_concat split with ⟨rest, rfl, old⟩ | ⟨rfl, equal⟩
  · simp [forgotten earlier connection request rest old]
  · exact (notHandled connection request equal).elim

theorem Deduplicated.remember {config : Config} {state : State} {token : UInt64}
    (deduplicated : Deduplicated config state) (fresh : token ∉ state.seen)
    (asked : token ∈ requestTokens config state.history) :
    Deduplicated config (state.remember token) ∧ token ∈ (state.remember token).seen ∧
      ForgottenCalls (state.remember token).history token := by
  have forgotten := deduplicated.forgotten fresh
  unfold State.remember
  split
  case isTrue exceeds =>
    have exact : (recorded state.history).card = dedupLimit := by
      have grown := Finset.card_insert_of_notMem fresh
      have bounded := deduplicated.bounded
      rw [← deduplicated.seen]
      omega
    have cleared := deduplicated.clear fun _ =>
      ⟨exact, deduplicated.seen ▸ deduplicated.requests, token, asked,
        deduplicated.seen ▸ fresh⟩
    refine ⟨cleared.record (by simp [State.clear, dedupLimit]) ?_, by simp [State.record], ?_⟩
    · simpa [State.clear, requestTokens] using asked
    · exact (forgotten.concat (by simp)).concat (by simp)
  case isFalse room =>
    exact ⟨deduplicated.record (by omega) asked, by simp [State.record],
      forgotten.concat (by simp)⟩

theorem Deduplicated.delivery {config : Config} {state next : State} {message : AppMessage}
    (deduplicated : Deduplicated config state) {rest : List Event} {connection : Nat}
    (read : state.history = rest ++ [.read connection message])
    (delivery : Delivery config state message next) :
    Deduplicated config next := by
  have asked : ∀ token, config.accept message.topic = true →
      message.replyToken = some token → token ∈ requestTokens config state.history := by
    intro token accepted request
    simp [requestTokens, read, accepted, request]
  cases delivery with
  | unwanted => exact deduplicated
  | duplicate => exact deduplicated
  | undecodable token accepted request fresh =>
      exact (deduplicated.remember fresh (asked token accepted request)).1
  | called token payload accepted request fresh decoded =>
      obtain ⟨remembered, member, cleared⟩ :=
        deduplicated.remember fresh (asked token accepted request)
      refine remembered.log rfl rfl (fun _ => rfl) (by simp) ?_
      rintro connection' other asked ⟨⟩
      exact ⟨member, cleared⟩

theorem Deduplicated.subscribeFrom {config : Config} {state : State}
    (deduplicated : Deduplicated config state) (rest : List String) :
    Deduplicated config (subscribeFrom config state rest) := by
  cases rest with
  | nil => exact deduplicated.moveTo rfl rfl
  | cons topic rest => exact deduplicated.moveTo rfl rfl

theorem deduplicated_moves {config : Config} {state next : State} {input : Input}
    (deduplicated : Deduplicated config state) (moves : Moves config state input next) :
    Deduplicated config next := by
  cases moves with
  | opened point =>
      refine Deduplicated.subscribeFrom ?_ _
      exact deduplicated.log rfl rfl (fun _ => rfl) (by simp) (by simp)
  | openFailed point =>
      exact deduplicated.log rfl rfl (fun _ => rfl) (by simp) (by simp)
  | subscribed topic rest point =>
      refine Deduplicated.subscribeFrom ?_ _
      exact deduplicated.log rfl rfl (fun _ => rfl) (by simp) (by simp)
  | refused topic rest point =>
      exact deduplicated.log rfl rfl (fun _ => rfl) (by simp) (by simp)
  | slept point =>
      exact deduplicated.log rfl rfl (fun _ => rfl) (by simp) (by simp)
  | stopped point => exact deduplicated.moveTo rfl rfl
  | delivered message next point delivery =>
      have read : Deduplicated config (state.log (.read state.connection message)) :=
        deduplicated.log rfl rfl (fun _ => rfl) (by simp) (by simp)
      exact read.delivery rfl delivery
  | failed point => exact deduplicated.moveTo rfl rfl
  | ended point => exact deduplicated.moveTo rfl rfl
  | replied reply token request point =>
      exact deduplicated.log rfl rfl (fun _ => rfl) (by simp) (by simp)
  | accepted token point =>
      exact deduplicated.log rfl rfl (fun _ => rfl) (by simp) (by simp)
  | rejected token point => exact deduplicated.moveTo rfl rfl

theorem deduplicated_of_execute {config : Config} {trace : List Input} {state : State}
    (run : execute (step config) initial trace = some state) : Deduplicated config state :=
  stateInvariant_of_execute (Deduplicated config) (deduplicated_initial config)
    (fun _ _ _ deduplicated stepped =>
      deduplicated_moves deduplicated (moves_of_step stepped)) run

theorem mem_handledTokens {history : List Event} {token : UInt64} :
    token ∈ handledTokens history ↔
      ∃ earlier connection request since,
        history = earlier ++ .handled connection token request :: since := by
  simp only [handledTokens, List.mem_filterMap]
  constructor
  · rintro ⟨event, member, found⟩
    obtain ⟨earlier, since, rfl⟩ := List.append_of_mem member
    cases event <;> simp only [Option.some.injEq, reduceCtorEq] at found
    case handled connection other request =>
      exact ⟨earlier, connection, request, since, found ▸ rfl⟩
  · rintro ⟨earlier, connection, request, since, rfl⟩
    exact ⟨.handled connection token request, by simp, rfl⟩

/-- Without a clearing no token is handled twice. -/
theorem handledTokens_nodup {history : List Event}
    (handled : AtEach HandledAfterClearing history) (untouched : .cleared ∉ history) :
    (handledTokens history).Nodup := by
  induction history using List.reverseRecOn with
  | nil => simp [handledTokens]
  | append_singleton history event induction =>
      obtain ⟨every, last⟩ := atEach_concat.mp handled
      have before := induction every (fun member => untouched (by simp [member]))
      cases event with
      | handled connection token request =>
          have fresh : token ∉ handledTokens history := by
            intro member
            obtain ⟨earlier, other, asked, since, rfl⟩ := mem_handledTokens.mp member
            have cleared := last connection token request rfl earlier other asked since rfl
            exact untouched (by simp [cleared])
          have grown : handledTokens (history ++ [.handled connection token request]) =
              handledTokens history ++ [token] := by simp [handledTokens]
          rw [grown]
          exact List.Nodup.append before (List.nodup_singleton token) (by simpa using fresh)
      | _ => simpa [handledTokens] using before

/-- Each clearing needs one more distinct request token than the set can hold. -/
theorem not_cleared_of_few_tokens {config : Config} {history : List Event}
    (cleared : AtEach (ClearedWhenFull config) history)
    (few : (requestTokens config history).toFinset.card ≤ dedupLimit) :
    .cleared ∉ history := by
  intro member
  obtain ⟨before, after, rfl⟩ := List.append_of_mem member
  obtain ⟨full, asked, token, new, fresh⟩ := cleared before .cleared after rfl rfl
  have later : ∀ other ∈ requestTokens config before,
      other ∈ requestTokens config (before ++ .cleared :: after) := by
    intro other earlier
    simp only [requestTokens, List.filterMap_append, List.mem_append] at earlier ⊢
    exact .inl earlier
  have included : insert token (recorded before) ⊆
      (requestTokens config (before ++ .cleared :: after)).toFinset := by
    intro other inserted
    rw [List.mem_toFinset]
    rcases Finset.mem_insert.mp inserted with rfl | old
    · exact later other new
    · exact later other (asked other old)
  have size := Finset.card_le_card included
  rw [Finset.card_insert_of_notMem fresh, full] at size
  omega

/-- The token whose handler is running. -/
def Point.underway : Point → List UInt64
  | .handling token _ => [token]
  | _ => []

/-- The tokens handled are those replied to, and the one whose handler runs. -/
def Balanced (state : State) : Prop :=
  handledTokens state.history = postedTokens state.history ++ state.point.underway

theorem Balanced.subscribeFrom {config : Config} {state : State}
    (balanced : handledTokens state.history = postedTokens state.history)
    (rest : List String) : Balanced (subscribeFrom config state rest) := by
  cases rest <;> simpa [Balanced, CeRs.Serve.subscribeFrom, Point.underway] using balanced

theorem balanced_moves {config : Config} {state next : State} {input : Input}
    (balanced : Balanced state) (moves : Moves config state input next) : Balanced next := by
  unfold Balanced at balanced
  cases moves with
  | opened point =>
      apply Balanced.subscribeFrom
      simpa [point, Point.underway, handledTokens, postedTokens] using balanced
  | subscribed topic rest point =>
      apply Balanced.subscribeFrom
      simpa [point, Point.underway, handledTokens, postedTokens] using balanced
  | stopped point =>
      rcases point with point | point <;> simpa [Balanced, point, Point.underway] using balanced
  | delivered message next point delivery =>
      cases delivery with
      | unwanted =>
          simpa [Balanced, point, Point.underway, handledTokens, postedTokens] using balanced
      | duplicate =>
          simpa [Balanced, point, Point.underway, handledTokens, postedTokens] using balanced
      | undecodable token =>
          simp only [State.remember]
          split <;> simpa [Balanced, State.clear, State.record, point, Point.underway,
            handledTokens, postedTokens] using balanced
      | called token =>
          simp only [State.remember]
          split <;> simpa [Balanced, State.clear, State.record, point, Point.underway,
            handledTokens, postedTokens] using balanced
  | openFailed point | refused _ _ point | slept point | failed point | ended point
  | replied _ _ _ point | accepted _ point | rejected _ point =>
      simpa [Balanced, point, Point.underway, handledTokens, postedTokens] using balanced

theorem balanced_of_execute {config : Config} {trace : List Input} {state : State}
    (run : execute (step config) initial trace = some state) : Balanced state :=
  stateInvariant_of_execute Balanced (show Balanced initial from rfl)
    (fun _ _ _ balanced stepped => balanced_moves balanced (moves_of_step stepped)) run

/-- A token is handled again only after a clearing, a clearing needs a full
set, so while no more request tokens have been read than the set can hold
every token is handled at most once; and a reply is posted only for a handler
call. -/
theorem handled_once_between_clearings (config : Config) (trace : List Input) (state : State)
    (run : execute (step config) initial trace = some state) :
    AtEach HandledAfterClearing state.history ∧
      AtEach (ClearedWhenFull config) state.history ∧
      ((requestTokens config state.history).toFinset.card ≤ dedupLimit →
        (handledTokens state.history).Nodup) ∧
      postedTokens state.history <+: handledTokens state.history := by
  have deduplicated := deduplicated_of_execute run
  refine ⟨deduplicated.handled, deduplicated.cleared, fun few => ?_, ?_⟩
  · exact handledTokens_nodup deduplicated.handled
      (not_cleared_of_few_tokens deduplicated.cleared few)
  · rw [balanced_of_execute run]
    exact List.prefix_append _ _

/-- A service of every topic, and a request of one token. -/
def anyTopic : Config := ⟨[], fun _ => true, false⟩

def emptyRequest (token : UInt64) : AppMessage := ⟨"peer", "app/rpc", "", 0, some token⟩

theorem handled_once_between_clearings_redelivered :
    ∃ state, execute (step anyTopic) initial
        [.openOk, .item (emptyRequest 5), .handlerReturned [1], .replyOk,
          .item (emptyRequest 5)] = some state ∧
      handledTokens state.history = [5] ∧
      AtEach HandledAfterClearing state.history ∧
      AtEach (ClearedWhenFull anyTopic) state.history ∧
      ((requestTokens anyTopic state.history).toFinset.card ≤ dedupLimit →
        (handledTokens state.history).Nodup) ∧
      postedTokens state.history <+: handledTokens state.history :=
  ⟨_, rfl, by decide, handled_once_between_clearings anyTopic
    [.openOk, .item (emptyRequest 5), .handlerReturned [1], .replyOk,
      .item (emptyRequest 5)] _ rfl⟩

/-- A request read, handled and replied to. -/
def answerInputs (token : UInt64) : List Input :=
  [.item (emptyRequest token), .handlerReturned [], .replyOk]

theorem execute_answerInputs {state : State} (token : UInt64)
    (receiving : state.point = .receiving) (fresh : token ∉ state.seen) :
    ∃ next, execute (step anyTopic) state (answerInputs token) = some next ∧
      next.point = .receiving ∧
      next.seen = (if dedupLimit < (insert token state.seen).card then {token}
        else insert token state.seen) ∧
      handledTokens next.history = handledTokens state.history ++ [token] := by
  let request : Request := ⟨"peer", "app/rpc", []⟩
  let read := state.log (.read state.connection (emptyRequest token))
  have called : answerOne anyTopic read (emptyRequest token) =
      { (read.remember token).log (.handled state.connection token request) with
        point := .handling token request } := by
    have payload : (emptyRequest token).payload = some [] := rfl
    simp only [answerOne, payload]
    simp [anyTopic, emptyRequest, fresh, request, read]
  have delivered : step anyTopic state (.item (emptyRequest token)) =
      some (answerOne anyTopic read (emptyRequest token)) := by
    simp only [step, receiving]
    rfl
  refine ⟨_, by rw [answerInputs, execute_cons, delivered, called]; rfl, rfl, ?_, ?_⟩
  · simp only [State.remember]
    split <;> simp_all [State.clear, State.record, read]
  · simp only [State.remember]
    split <;> simp [State.clear, State.record, handledTokens, read]

/-- While there is room, fresh requests are all handled and all remembered. -/
theorem execute_fresh_requests (tokens : List UInt64) (state : State)
    (receiving : state.point = .receiving) (distinct : tokens.Nodup)
    (fresh : ∀ token ∈ tokens, token ∉ state.seen)
    (room : state.seen.card + tokens.length ≤ dedupLimit) :
    ∃ next, execute (step anyTopic) state (tokens.flatMap answerInputs) = some next ∧
      next.point = .receiving ∧ next.seen = state.seen ∪ tokens.toFinset ∧
      handledTokens next.history = handledTokens state.history ++ tokens := by
  induction tokens generalizing state with
  | nil => exact ⟨state, rfl, receiving, by simp, by simp⟩
  | cons token tokens induction =>
      have absent := fresh token (by simp)
      obtain ⟨new, distinctRest⟩ := List.nodup_cons.mp distinct
      obtain ⟨middle, first, middlePoint, middleSeen, middleHandled⟩ :=
        execute_answerInputs token receiving absent
      have grown := Finset.card_insert_of_notMem absent
      simp only [List.length_cons] at room
      rw [if_neg (by omega)] at middleSeen
      have freshRest : ∀ other ∈ tokens, other ∉ middle.seen := by
        intro other member
        rw [middleSeen, Finset.mem_insert, not_or]
        exact ⟨fun equal => new (equal ▸ member), fresh other (by simp [member])⟩
      obtain ⟨next, rest, nextPoint, nextSeen, nextHandled⟩ :=
        induction middle middlePoint distinctRest freshRest (by rw [middleSeen]; omega)
      refine ⟨next, ?_, nextPoint, ?_, ?_⟩
      · rw [List.flatMap_cons, execute_append, first]
        exact rest
      · rw [nextSeen, middleSeen, List.toFinset_cons, Finset.insert_union, Finset.union_insert]
      · rw [nextHandled, middleHandled, List.append_assoc]
        rfl

/-- As many tokens as the set holds. -/
def fillingTokens : List UInt64 := (List.range dedupLimit).map UInt64.ofNat

theorem ofNat_injOn {first second : Nat} (firstSmall : first < 2 ^ 64)
    (secondSmall : second < 2 ^ 64) (equal : UInt64.ofNat first = UInt64.ofNat second) :
    first = second := by
  have values := congrArg UInt64.toNat equal
  rwa [UInt64.toNat_ofNat_of_lt' firstSmall, UInt64.toNat_ofNat_of_lt' secondSmall] at values

theorem fillingTokens_length : fillingTokens.length = dedupLimit := by
  rw [fillingTokens, List.length_map, List.length_range]

theorem fillingTokens_nodup : fillingTokens.Nodup := by
  refine List.Nodup.map_on ?_ List.nodup_range
  intro first firstMember second secondMember equal
  simp only [List.mem_range, dedupLimit] at firstMember secondMember
  exact ofNat_injOn (by omega) (by omega) equal

theorem mem_fillingTokens (value : Nat) (small : value < 2 ^ 64) :
    UInt64.ofNat value ∈ fillingTokens ↔ value < dedupLimit := by
  simp only [fillingTokens, List.mem_map, List.mem_range]
  constructor
  · rintro ⟨other, below, equal⟩
    have otherSmall : other < 2 ^ 64 := by
      simp only [dedupLimit] at below
      omega
    exact ofNat_injOn otherSmall small equal ▸ below
  · intro below
    exact ⟨value, below, rfl⟩

/-- The first of 100,001 requests is handled again when it is redelivered
after the set has been emptied. -/
theorem token_handled_twice :
    ¬ ∀ (config : Config) (trace : List Input) (state : State),
      execute (step config) initial trace = some state →
        ∀ token, (handledTokens state.history).count token ≤ 1 := by
  intro once
  have opened : step anyTopic initial .openOk =
      some { initial.log (.opened 1) with connection := 1, point := .receiving } := rfl
  obtain ⟨full, filled, fullPoint, fullSeen, fullHandled⟩ :=
    execute_fresh_requests fillingTokens
      { initial.log (.opened 1) with connection := 1, point := .receiving }
      rfl fillingTokens_nodup (fun _ _ => Finset.notMem_empty _)
      (by rw [fillingTokens_length]; exact (Nat.zero_add _).le)
  have fullSeen : full.seen = fillingTokens.toFinset := by simpa [initial] using fullSeen
  have last : UInt64.ofNat dedupLimit ∉ full.seen := by
    simp [fullSeen, mem_fillingTokens dedupLimit (by decide)]
  have exceeds : dedupLimit < (insert (UInt64.ofNat dedupLimit) full.seen).card := by
    rw [Finset.card_insert_of_notMem last, fullSeen,
      List.toFinset_card_of_nodup fillingTokens_nodup, fillingTokens_length]
    exact Nat.lt_succ_self _
  obtain ⟨emptied, cleared, emptiedPoint, emptiedSeen, emptiedHandled⟩ :=
    execute_answerInputs _ fullPoint last
  rw [if_pos exceeds] at emptiedSeen
  obtain ⟨final, again, -, -, finalHandled⟩ :=
    execute_answerInputs 0 emptiedPoint (by rw [emptiedSeen]; decide)
  have run : execute (step anyTopic) initial
      (.openOk :: (fillingTokens.flatMap answerInputs ++
        (answerInputs (UInt64.ofNat dedupLimit) ++ answerInputs 0))) = some final := by
    rw [execute_cons, opened, Option.bind_some, execute_append, filled, Option.bind_some,
      execute_append, cleared, Option.bind_some, again]
  have first : 0 < fillingTokens.count 0 :=
    List.count_pos_iff.mpr ((mem_fillingTokens 0 (by decide)).mpr (by decide))
  have bound := once anyTopic _ final run 0
  rw [finalHandled, emptiedHandled, fullHandled] at bound
  simp only [List.count_append, List.count_singleton_self] at bound
  omega

end CeRs.Serve
