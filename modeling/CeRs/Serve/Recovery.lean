import CeRs.Serve.Attended
import CeRs.Serve.Restart
import Mathlib.Algebra.BigOperators.Group.List.Basic
import Mathlib.Algebra.GroupWithZero.Nat

/-!
# The serve loop is not deaf for long

Whatever has happened before, once the node stays up and answers, the loop needs
a bounded number of steps and at most one wait until it reads from a stream of
the running process, with every topic subscribed there.  It stays so, and reads
every message that is sent to it, in order.
-/

namespace CeRs.Serving

open Transition Serve

/-- The node stays up and answers; it ends no stream but those of a process that
is gone. -/
def Quiet (world : World) : Label → Prop
  | .loop .openErr | .loop .subscribeErr | .loop .shutdown | .restart => False
  | .loop .streamErr | .loop .streamEnd => world.stream.live = false
  | .loop _ | .push _ => True

instance (world : World) (label : Label) : Decidable (Quiet world label) := by
  unfold Quiet
  split <;> infer_instance

/-- The points behind the subscriptions. -/
def Serves : Point → Prop
  | .receiving | .handling _ _ | .replying _ => True
  | .opening | .subscribing _ _ | .backingOff | .returned => False

/-- The loop serves on a stream of the running process, where every topic is
subscribed. -/
structure Attentive (config : Config) (world : World) : Prop where
  live : world.stream.live = true
  subscribed : ∀ topic ∈ config.subscribe, topic ∈ world.subscriptions
  serves : Serves world.loop.point

/-- The steps from the top of the loop until it receives. -/
def reconnect (config : Config) : Nat := config.subscribe.length + 1

/-- The steps until a stream that has ended is dropped and replaced: each message
on the way can take three. -/
def drain (config : Config) (stream : Stream) : Nat :=
  if stream.live then 0 else 3 * stream.arriving.length + 1 + reconnect config

/-- The steps of the loop until it is attentive. -/
def load (config : Config) (world : World) : Nat :=
  match world.loop.point with
  | .opening => reconnect config
  | .backingOff => reconnect config + 1
  | .subscribing _ rest => rest.length + 1 + drain config world.stream
  | .receiving => drain config world.stream
  | .handling _ _ => drain config world.stream + 2
  | .replying _ => drain config world.stream + 1
  | .returned => 0

def wait? : Event → Option Nat
  | .waited milliseconds => some milliseconds
  | _ => none

def read? : Event → Option AppMessage
  | .read _ message => some message
  | _ => none

/-- The milliseconds that the loop has waited. -/
def waited (loop : State) : Nat := (loop.history.filterMap wait?).sum

/-- The wait that the loop is in. -/
def waiting (loop : State) : Nat :=
  match loop.point with
  | .backingOff => loop.backoffMs
  | _ => 0

/-- The messages that the loop has read. -/
def messagesRead (loop : State) : List AppMessage := loop.history.filterMap read?

def Label.isLoop : Label → Bool
  | .loop _ => true
  | .push _ | .restart => false

def Label.pushed? : Label → Option AppMessage
  | .push message => some message
  | .loop _ | .restart => none

variable {config : Config} {world next : World} {label : Label}

theorem attentive_moves (attentive : Attentive config world) (quiet : Quiet world label)
    (moves : WorldMoves config world label next) : Attentive config next := by
  obtain ⟨live, subscribed, serves⟩ := attentive
  cases moves with
  | restarted => exact quiet.elim
  | pushed message _ => exact ⟨live, subscribed, serves⟩
  | resumed input loop offers moves =>
      cases moves with
      | opened point | openFailed point | slept point | subscribed _ _ point
      | refused _ _ point => simp [Serves, point] at serves
      | stopped point => exact quiet.elim
      | failed point | ended point =>
          have gone : world.stream.live = false := quiet
          simp [gone] at live
      | delivered message loop point delivery =>
          refine ⟨live, subscribed, ?_⟩
          rcases serving_of_delivery (by simpa using point) delivery with after | ⟨_, _, after⟩
          all_goals simp [Serves, after]
      | replied | accepted | rejected => exact ⟨live, subscribed, trivial⟩

theorem subscribeFrom_running (loop : State) (rest : List String) :
    (subscribeFrom config loop rest).point ≠ .returned := by
  cases rest <;> exact Point.noConfusion

theorem running_moves (running : world.loop.point ≠ .returned) (quiet : Quiet world label)
    (moves : WorldMoves config world label next) : next.loop.point ≠ .returned := by
  cases moves with
  | restarted => exact quiet.elim
  | pushed message _ => exact running
  | resumed input loop offers moves =>
      cases moves with
      | opened | subscribed => exact subscribeFrom_running _ _
      | openFailed | refused | stopped => exact quiet.elim
      | slept | failed | ended | replied | accepted | rejected => exact Point.noConfusion
      | delivered message loop point delivery =>
          rcases serving_of_delivery (by simpa using point) delivery with after | ⟨_, _, after⟩
          all_goals simp [after]

theorem drain_live {stream : Stream} (live : stream.live = true) : drain config stream = 0 := by
  simp [drain, live]

theorem drain_ended {stream : Stream} (ended : stream.live = false) :
    drain config stream = 3 * stream.arriving.length + 1 + reconnect config := by
  simp [drain, ended]

/-- Past the subscriptions, the loop is attentive unless its stream has ended. -/
theorem Kept.ended (kept : Kept config world) (lost : ¬ Attentive config world)
    (serves : Serves world.loop.point) : world.stream.live = false := by
  obtain ⟨subscribed, -⟩ := kept
  by_contra live
  rw [Bool.not_eq_false] at live
  refine lost ⟨live, ?_, serves⟩
  unfold Subscribed at subscribed
  unfold Serves at serves
  cases point : world.loop.point with
  | receiving | handling | replying =>
      simp only [point] at subscribed
      exact subscribed live
  | opening | subscribing | backingOff | returned => simp [point] at serves

theorem load_subscribeFrom (loop : State) (subscriptions : Finset String) (stream : Stream)
    (rest : List String) :
    load config ⟨subscribeFrom config loop rest, subscriptions, stream⟩ =
      rest.length + drain config stream := by
  cases rest with
  | nil => simp [load, subscribeFrom]
  | cons topic rest => simp [load, subscribeFrom]

/-- Until the loop is attentive, each step of it lowers the load. -/
theorem load_moves (kept : Kept config world) (lost : ¬ Attentive config world)
    (quiet : Quiet world label) (moves : WorldMoves config world label next) :
    load config next + label.isLoop.toNat ≤ load config world := by
  cases moves with
  | restarted => exact quiet.elim
  | pushed message live =>
      have still : drain config (world.stream.push message) = drain config world.stream := by
        rw [drain_live live, drain_live (by simpa [Stream.push] using live)]
      simp [load, still, Label.isLoop]
  | resumed input loop offers moves =>
      have subscribed := kept.subscribed
      simp only [Label.isLoop, Bool.toNat_true]
      cases moves with
      | opened point =>
          rw [load_subscribeFrom]
          simp [load, point, Stream.after, drain, reconnect]
      | openFailed | refused | stopped => exact quiet.elim
      | subscribed topic rest point =>
          rw [load_subscribeFrom]
          simp only [load, point, Stream.after]
          omega
      | slept point => simp [load, point]
      | failed point | ended point =>
          have gone : world.stream.live = false := quiet
          simp only [load, point, drain_ended gone]
          omega
      | delivered message loop point delivery =>
          have gone := kept.ended lost (by simp [Serves, point])
          obtain ⟨later, arriving⟩ : ∃ later, world.stream.arriving = message :: later :=
            List.head?_eq_some_iff.mp offers
          have drained : drain config (world.stream.after (.item message)) + 3 =
              drain config world.stream := by
            rw [drain_ended gone, drain_ended (by simpa [Stream.after] using gone)]
            simp [Stream.after, arriving]
            omega
          rcases serving_of_delivery (by simpa using point) delivery with after | ⟨_, _, after⟩
          all_goals
            simp only [load, point, after]
            omega
      | replied reply token request point => simp [load, point, Stream.after]
      | accepted token point | rejected token point => simp [load, point, Stream.after]

theorem attentive_of_load (kept : Kept config world) (running : world.loop.point ≠ .returned)
    (zero : load config world = 0) : Attentive config world := by
  by_contra lost
  unfold load at zero
  cases point : world.loop.point with
  | opening | backingOff | subscribing => simp [point, reconnect] at zero
  | returned => exact running point
  | receiving | handling | replying =>
      have ended := kept.ended lost (by simp [Serves, point])
      simp [point, drain_ended ended] at zero

theorem load_le (kept : Kept config world) :
    load config world ≤
      2 * config.subscribe.length + 3 * world.stream.arriving.length + 4 := by
  have bound : drain config world.stream ≤
      3 * world.stream.arriving.length + 2 + config.subscribe.length := by
    unfold drain reconnect
    split <;> omega
  have subscribed := kept.subscribed
  unfold load reconnect
  cases point : world.loop.point with
  | subscribing topic rest =>
      simp only [Subscribed, point] at subscribed
      obtain ⟨confirmed, split, -⟩ := subscribed
      have length : config.subscribe.length = confirmed.length + (rest.length + 1) := by
        simp [split]
      simp only
      omega
  | opening | backingOff | receiving | handling | replying | returned =>
      simp only
      omega

@[simp] theorem waited_marks (loop : State) (token : UInt64) :
    (loop.marks token).filterMap wait? = [] := by
  unfold State.marks
  split <;> rfl

@[simp] theorem read_marks (loop : State) (token : UInt64) :
    (loop.marks token).filterMap read? = [] := by
  unfold State.marks
  split <;> rfl

theorem waiting_subscribeFrom (loop : State) (rest : List String) :
    waiting (subscribeFrom config loop rest) = 0 := by
  cases rest <;> rfl

theorem waited_of_delivery {loop after : State} {message : AppMessage}
    (point : loop.point = .receiving) (delivery : Delivery config loop message after) :
    waited after = waited loop ∧ waiting after = 0 ∧
      messagesRead after = messagesRead loop := by
  cases delivery with
  | unwanted | duplicate => simp [waiting, point]
  | undecodable token => simp [waited, waiting, messagesRead, point]
  | called token payload => simp [waited, waiting, messagesRead, List.filterMap_cons, wait?, read?]

theorem waits_moves (quiet : Quiet world label) (moves : WorldMoves config world label next) :
    waited next.loop + waiting next.loop = waited world.loop + waiting world.loop := by
  cases moves with
  | restarted => exact quiet.elim
  | pushed message live => rfl
  | resumed input loop offers moves =>
      cases moves with
      | opened point =>
          rw [waiting_subscribeFrom]
          simp [waited, waiting, point, List.filterMap_cons, wait?]
      | subscribed topic rest point =>
          rw [waiting_subscribeFrom]
          simp [waited, waiting, point, List.filterMap_cons, wait?]
      | openFailed | refused | stopped => exact quiet.elim
      | slept point => simp [waited, waiting, point, wait?]
      | failed point | ended point | rejected token point => simp [waited, waiting, point]
      | replied reply token request point =>
          simp [waited, waiting, point, List.filterMap_cons, wait?]
      | accepted token point => simp [waited, waiting, point, List.filterMap_cons, wait?]
      | delivered message loop point delivery =>
          obtain ⟨same, none, -⟩ := waited_of_delivery (by simpa using point) delivery
          rw [same, none]
          simp [waited, waiting, point, List.filterMap_cons, wait?]

/-- An attentive loop reads what is on the way, in order. -/
theorem reads_moves (attentive : Attentive config world) (quiet : Quiet world label)
    (moves : WorldMoves config world label next) :
    messagesRead next.loop ++ next.stream.arriving =
      messagesRead world.loop ++ world.stream.arriving ++ label.pushed?.toList := by
  obtain ⟨live, -, serves⟩ := attentive
  cases moves with
  | restarted => exact quiet.elim
  | pushed message _ => simp [Label.pushed?, Stream.push]
  | resumed input loop offers moves =>
      simp only [Label.pushed?, Option.toList_none, List.append_nil]
      cases moves with
      | opened point | openFailed point | slept point | subscribed _ _ point
      | refused _ _ point => simp [Serves, point] at serves
      | stopped point => exact quiet.elim
      | failed point | ended point =>
          have gone : world.stream.live = false := quiet
          simp [gone] at live
      | replied reply token request point => simp [messagesRead, read?, Stream.after]
      | accepted token point | rejected token point =>
          simp [messagesRead, read?, Stream.after]
      | delivered message loop point delivery =>
          obtain ⟨later, arriving⟩ : ∃ later, world.stream.arriving = message :: later :=
            List.head?_eq_some_iff.mp offers
          obtain ⟨-, -, same⟩ := waited_of_delivery (by simpa using point) delivery
          rw [same]
          simp [messagesRead, read?, Stream.after, arriving]

/-- A loop that has not returned can go on, or has nothing to do. -/
theorem awake (kept : Kept config world) (running : world.loop.point ≠ .returned) :
    (∃ input, Quiet world (.loop input) ∧ (step config world (.loop input)).isSome) ∨
      (Attentive config world ∧ world.loop.point = .receiving ∧
        world.stream.arriving = []) := by
  cases point : world.loop.point with
  | returned => exact (running point).elim
  | opening => exact .inl ⟨.openOk, trivial, by simp [step, Offers, Serve.step, point]⟩
  | subscribing topic rest =>
      exact .inl ⟨.subscribeOk, trivial, by simp [step, Offers, Serve.step, point]⟩
  | backingOff => exact .inl ⟨.slept, trivial, by simp [step, Offers, Serve.step, point]⟩
  | handling token request =>
      exact .inl ⟨.handlerReturned [], trivial, by simp [step, Offers, Serve.step, point]⟩
  | replying token =>
      exact .inl ⟨.replyOk, trivial, by simp [step, Offers, Serve.step, point]⟩
  | receiving =>
      cases arriving : world.stream.arriving with
      | cons message later =>
          exact .inl ⟨.item message, trivial, by simp [step, Offers, Serve.step, point, arriving]⟩
      | nil =>
          by_cases attentive : Attentive config world
          · exact .inr ⟨attentive, rfl, rfl⟩
          · have ended := kept.ended attentive (by simp [Serves, point])
            exact .inl ⟨.streamEnd, ended, by simp [step, Offers, Serve.step, point]⟩

/-- A flag that was passed is up behind the subscriptions. -/
def Raised (config : Config) (loop : State) : Prop :=
  config.signalled = true → Serves loop.point → loop.ready = true

theorem raised_subscribeFrom (loop : State) (rest : List String) :
    Raised config (subscribeFrom config loop rest) := by
  cases rest with
  | nil => exact fun signalled _ => by simp [subscribeFrom, signalled]
  | cons topic rest => exact fun _ serves => serves.elim

theorem raised_of_delivery {loop after : State} {message : AppMessage}
    (raised : loop.ready = true) (delivery : Delivery config loop message after) :
    after.ready = true := by
  cases delivery with
  | unwanted | duplicate => exact raised
  | undecodable token | called token => exact (remember_ready loop token).trans raised

theorem raised_moves {loop after : State} {input : Input} (raised : Raised config loop)
    (moves : Moves config loop input after) : Raised config after := by
  intro signalled serves
  cases moves with
  | opened | subscribed => exact raised_subscribeFrom _ _ signalled serves
  | openFailed | refused | slept | stopped | failed | ended => exact serves.elim
  | delivered message _ point delivery =>
      have before := raised signalled (by simp [Serves, point])
      exact raised_of_delivery (by simpa using before) delivery
  | replied reply token request point | accepted token point | rejected token point =>
      exact raised signalled (by simp [Serves, point])

theorem raised_worldMoves (raised : Raised config world.loop)
    (moves : WorldMoves config world label next) : Raised config next.loop := by
  cases moves with
  | resumed input loop offers moves => exact raised_moves raised moves
  | pushed | restarted => exact raised

theorem raised_of_execute {trace : List Label}
    (reached : execute (step config) initial trace = some world) : Raised config world.loop := by
  refine stateInvariant_of_execute (fun world => Raised config world.loop) ?_ ?_ reached
  · exact fun _ serves => serves.elim
  · exact fun _ _ _ raised stepped => raised_worldMoves raised (worldMoves_of_step stepped)

/-- What holds after the node has been up for the labels of `later`. -/
structure Recovers (config : Config) (world : World) (later : List Label) (final : World) :
    Prop where
  attentive : 2 * config.subscribe.length + 3 * world.stream.arriving.length + 4 ≤
    later.countP Label.isLoop → Attentive config final
  stays : Attentive config world → Attentive config final ∧
    messagesRead final.loop ++ final.stream.arriving =
      messagesRead world.loop ++ world.stream.arriving ++ later.filterMap Label.pushed?
  waits : waited final.loop ≤ waited world.loop + 10000
  awake : (∃ input, Quiet final (.loop input) ∧ (step config final (.loop input)).isSome) ∨
    (Attentive config final ∧ final.loop.point = .receiving ∧ final.stream.arriving = [])

theorem attentive_of_everyStep {later : List Label} {final : World} (kept : Kept config world)
    (running : world.loop.point ≠ .returned)
    (continued : execute (step config) world later = some final)
    (quiet : EveryStep (step config) Quiet world later)
    (enough : load config world ≤ later.countP Label.isLoop) : Attentive config final := by
  refine goal_of_everyStep Quiet
    (fun state => Kept config state ∧ state.loop.point ≠ .returned)
    (Attentive config) (load config) Label.isLoop ⟨kept, running⟩ ?_ ?_ ?_ ?_ quiet continued
    enough
  · rintro state label next ⟨kept, running⟩ quiet stepped
    have moves := worldMoves_of_step stepped
    exact ⟨kept_moves kept moves, running_moves running quiet moves⟩
  · intro state label next attentive quiet stepped
    exact attentive_moves attentive quiet (worldMoves_of_step stepped)
  · rintro state label next ⟨kept, -⟩ lost quiet stepped
    exact load_moves kept lost quiet (worldMoves_of_step stepped)
  · exact fun state holds zero => attentive_of_load holds.1 holds.2 zero

/-- From whatever state a run has led to, the loop recovers once the node stays up. -/
theorem recovers_of_execute {trace later : List Label} {final : World}
    (reached : execute (step config) initial trace = some world)
    (running : world.loop.point ≠ .returned)
    (continued : execute (step config) world later = some final)
    (quiet : EveryStep (step config) Quiet world later) :
    Recovers config world later final := by
  have kept := kept_of_execute reached
  have after : (Kept config final ∧ final.loop.point ≠ .returned) ∧
      waited final.loop + waiting final.loop = waited world.loop + waiting world.loop := by
    refine invariant_of_everyStep Quiet (fun _ state =>
      (Kept config state ∧ state.loop.point ≠ .returned) ∧
        waited state.loop + waiting state.loop = waited world.loop + waiting world.loop)
      ⟨⟨kept, running⟩, rfl⟩ ?_ quiet continued
    rintro trace state label next ⟨⟨kept, running⟩, waits⟩ quiet stepped
    have moves := worldMoves_of_step stepped
    exact ⟨⟨kept_moves kept moves, running_moves running quiet moves⟩,
      (waits_moves quiet moves).trans waits⟩
  refine ⟨fun enough => ?_, fun attentive => ?_, ?_, awake after.1.1 after.1.2⟩
  · exact attentive_of_everyStep kept running continued quiet ((load_le kept).trans enough)
  · refine invariant_of_everyStep Quiet (fun trace state => Attentive config state ∧
      messagesRead state.loop ++ state.stream.arriving =
        messagesRead world.loop ++ world.stream.arriving ++ trace.filterMap Label.pushed?)
      ⟨attentive, by simp⟩ ?_ quiet continued
    rintro trace state label next ⟨attentive, reads⟩ quiet stepped
    have moves := worldMoves_of_step stepped
    refine ⟨attentive_moves attentive quiet moves, ?_⟩
    rw [reads_moves attentive quiet moves, reads, List.filterMap_append, ← List.append_assoc]
    cases pushed : label.pushed? <;> simp [pushed]
  · have bound : waiting world.loop ≤ 10000 := by
      unfold waiting
      split
      · exact kept.backoff
      · exact Nat.zero_le _
    omega

/-- The node restarts with a request on the way, which is still answered; the
next one comes on the new stream. -/
def restarted : List Label :=
  [.loop .openOk, .loop .subscribeOk, .push ⟨"peer", "a", "6869", 0, some 7⟩, .restart]

def upAgain : List Label :=
  [.loop (.item ⟨"peer", "a", "6869", 0, some 7⟩), .loop (.handlerReturned [1]),
    .loop .replyErr, .loop .streamEnd, .loop .openOk, .loop .subscribeOk,
    .push ⟨"peer", "a", "6869", 1, some 8⟩,
    .loop (.item ⟨"peer", "a", "6869", 1, some 8⟩), .loop (.handlerReturned [2]),
    .loop .replyOk]

theorem recovers_of_execute_restarted :
    ∃ world final, execute (step ⟨["a"], fun _ => true, false⟩) initial restarted = some world ∧
      world.subscriptions = ∅ ∧
      execute (step ⟨["a"], fun _ => true, false⟩) world upAgain = some final ∧
      Recovers ⟨["a"], fun _ => true, false⟩ world upAgain final :=
  ⟨_, _, rfl, rfl, rfl, recovers_of_execute
    (show execute _ initial restarted = some _ from rfl) (by decide) rfl (by decide)⟩

end CeRs.Serving
