import CeRs.Serve.Loop

/-!
# The serve loop and a node that restarts

The node keeps its subscriptions in the memory of its process and sends the
messages of a stream in order.  A restart forgets the subscriptions and ends
the streams; what has been sent by then may still arrive, and the node may
answer calls again at any later time.  The loop learns of a restart only when
its stream fails or ends.
-/

namespace CeRs.Serving

open Transition Serve

/-- The stream that the loop has open: whether the running process of the node
still sends on it, and what is on the way. -/
structure Stream where
  live : Bool
  arriving : List AppMessage
  deriving DecidableEq, Repr

/-- What is left of a stream that the loop has dropped. -/
def Stream.dropped : Stream := ⟨false, []⟩

structure World where
  loop : State
  subscriptions : Finset String
  stream : Stream

inductive Label
  | loop (input : Input)
  | push (message : AppMessage)
  | restart
  deriving DecidableEq, Repr

def initial : World := ⟨Serve.initial, ∅, .dropped⟩

/-- A message can only be read if it is the next one on the stream. -/
def Offers (stream : Stream) : Input → Prop
  | .item message => stream.arriving.head? = some message
  | _ => True

instance (stream : Stream) : (input : Input) → Decidable (Offers stream input)
  | .item message => inferInstanceAs (Decidable (stream.arriving.head? = some message))
  | .openOk | .openErr | .subscribeOk | .subscribeErr | .slept | .streamErr | .streamEnd
  | .handlerReturned _ | .replyOk | .replyErr | .shutdown => .isTrue trivial

/-- The stream after the loop has gone on with an outcome: the ways back to the
top of the loop, and out of it, drop the stream. -/
def Stream.after (stream : Stream) : Input → Stream
  | .openOk => ⟨true, []⟩
  | .item _ => { stream with arriving := stream.arriving.tail }
  | .openErr | .subscribeErr | .streamErr | .streamEnd | .shutdown => .dropped
  | .subscribeOk | .slept | .handlerReturned _ | .replyOk | .replyErr => stream

/-- A confirmed topic enters the memory of the running process. -/
def confirmedBy (subscriptions : Finset String) (point : Point) : Input → Finset String
  | .subscribeOk =>
      match point with
      | .subscribing topic _ => insert topic subscriptions
      | _ => subscriptions
  | _ => subscriptions

def Stream.push (stream : Stream) (message : AppMessage) : Stream :=
  { stream with arriving := stream.arriving ++ [message] }

def Stream.ended (stream : Stream) : Stream := { stream with live := false }

def step (config : Config) (world : World) : Label → Option World
  | .loop input =>
      if Offers world.stream input then
        (Serve.step config world.loop input).map fun loop =>
          ⟨loop, confirmedBy world.subscriptions world.loop.point input,
            world.stream.after input⟩
      else none
  | .push message =>
      if world.stream.live then some { world with stream := world.stream.push message } else none
  | .restart => some { world with subscriptions := ∅, stream := world.stream.ended }

/-- Everything a step can do. -/
inductive WorldMoves (config : Config) (world : World) : Label → World → Prop
  | resumed (input : Input) (loop : State) (offers : Offers world.stream input)
      (moves : Moves config world.loop input loop) :
      WorldMoves config world (.loop input)
        ⟨loop, confirmedBy world.subscriptions world.loop.point input, world.stream.after input⟩
  | pushed (message : AppMessage) (live : world.stream.live = true) :
      WorldMoves config world (.push message)
        { world with stream := world.stream.push message }
  | restarted :
      WorldMoves config world .restart
        { world with subscriptions := ∅, stream := world.stream.ended }

variable {config : Config} {world next : World} {label : Label}

theorem worldMoves_of_step (stepped : step config world label = some next) :
    WorldMoves config world label next := by
  cases label with
  | loop input =>
      simp only [step] at stepped
      split at stepped
      case isTrue offers =>
          obtain ⟨loop, moved, rfl⟩ := Option.map_eq_some_iff.mp stepped
          exact .resumed input loop offers (moves_of_step moved)
      case isFalse => simp at stepped
  | push message =>
      simp only [step] at stepped
      split at stepped
      case isTrue live =>
          obtain rfl := Option.some.inj stepped
          exact .pushed message live
      case isFalse => simp at stepped
  | restart =>
      obtain rfl := Option.some.inj stepped
      exact .restarted

/-- What the loop knows of the node's process: while the stream it has open is
live, the topics confirmed on it are still subscribed. -/
def Subscribed (config : Config) (world : World) : Prop :=
  match world.loop.point with
  | .subscribing topic rest =>
      ∃ confirmed, config.subscribe = confirmed ++ topic :: rest ∧
        (world.stream.live = true → ∀ other ∈ confirmed, other ∈ world.subscriptions)
  | .receiving | .handling _ _ | .replying _ =>
      world.stream.live = true → ∀ other ∈ config.subscribe, other ∈ world.subscriptions
  | .opening | .backingOff | .returned => world.stream.live = false

structure Kept (config : Config) (world : World) : Prop where
  subscribed : Subscribed config world
  backoff : world.loop.backoffMs ≤ 10000

theorem kept_initial (config : Config) : Kept config initial :=
  ⟨rfl, by decide⟩

theorem Subscribed.subscribeFrom {loop : State} {subscriptions : Finset String}
    {stream : Stream} (confirmed : List String) {rest : List String}
    (split : config.subscribe = confirmed ++ rest)
    (held : stream.live = true → ∀ other ∈ confirmed, other ∈ subscriptions) :
    Subscribed config ⟨subscribeFrom config loop rest, subscriptions, stream⟩ := by
  cases rest with
  | cons topic rest => exact ⟨confirmed, split, held⟩
  | nil =>
      rw [List.append_nil] at split
      rw [← split] at held
      exact held

theorem subscribeFrom_backoff {loop : State} (bound : loop.backoffMs ≤ 10000)
    (rest : List String) : (subscribeFrom config loop rest).backoffMs ≤ 10000 := by
  cases rest with
  | cons => exact bound
  | nil => exact (by decide : 250 ≤ 10000)

theorem backoff_of_delivery {loop after : State} {message : AppMessage}
    (delivery : Delivery config loop message after) : after.backoffMs = loop.backoffMs := by
  cases delivery with
  | unwanted | duplicate => rfl
  | undecodable token | called token => exact remember_backoffMs loop token

theorem serving_of_delivery {loop after : State} {message : AppMessage}
    (point : loop.point = .receiving) (delivery : Delivery config loop message after) :
    after.point = .receiving ∨ ∃ token request, after.point = .handling token request := by
  cases delivery with
  | unwanted | duplicate => exact .inl point
  | undecodable token => exact .inl ((remember_point loop token).trans point)
  | called token payload => exact .inr ⟨token, _, rfl⟩

theorem kept_moves (kept : Kept config world) (moves : WorldMoves config world label next) :
    Kept config next := by
  obtain ⟨subscribed, backoff⟩ := kept
  cases moves with
  | pushed message live => exact ⟨subscribed, backoff⟩
  | restarted =>
      refine ⟨?_, backoff⟩
      unfold Subscribed at subscribed ⊢
      cases point : world.loop.point with
      | subscribing topic rest =>
          obtain ⟨confirmed, split, -⟩ := by simpa only [point] using subscribed
          exact ⟨confirmed, split, fun live => Bool.noConfusion live⟩
      | receiving | handling | replying => exact fun live => Bool.noConfusion live
      | opening | backingOff | returned => rfl
  | resumed input loop offers moves =>
      cases moves with
      | opened point =>
          refine ⟨.subscribeFrom [] rfl (by simp), ?_⟩
          apply subscribeFrom_backoff
          exact backoff
      | openFailed point => exact ⟨rfl, backoff⟩
      | refused topic rest point => exact ⟨rfl, backoff⟩
      | stopped point => exact ⟨rfl, backoff⟩
      | failed point | ended point => exact ⟨rfl, backoff⟩
      | subscribed topic rest point =>
          simp only [Subscribed, point] at subscribed
          obtain ⟨confirmed, split, held⟩ := subscribed
          refine ⟨.subscribeFrom (confirmed ++ [topic]) (by simp [split]) ?_, ?_⟩
          · intro live other member
            simp only [confirmedBy, point]
            rcases List.mem_append.mp member with earlier | new
            · exact Finset.mem_insert_of_mem (held live other earlier)
            · rw [List.mem_singleton.mp new]
              exact Finset.mem_insert_self topic _
          · apply subscribeFrom_backoff
            exact backoff
      | slept point =>
          simp only [Subscribed, point] at subscribed
          exact ⟨subscribed, min_le_right _ _⟩
      | delivered message loop point delivery =>
          simp only [Subscribed, point] at subscribed
          refine ⟨?_, (backoff_of_delivery delivery).le.trans backoff⟩
          rcases serving_of_delivery (by simpa using point) delivery with after | ⟨_, _, after⟩
          all_goals
            simp only [Subscribed, after]
            exact subscribed
      | replied reply token request point =>
          simp only [Subscribed, point] at subscribed
          exact ⟨subscribed, backoff⟩
      | accepted token point | rejected token point =>
          simp only [Subscribed, point] at subscribed
          exact ⟨subscribed, backoff⟩

theorem kept_of_execute {trace : List Label}
    (reached : execute (step config) initial trace = some world) : Kept config world :=
  stateInvariant_of_execute (Kept config) (kept_initial config)
    (fun _ _ _ kept stepped => kept_moves kept (worldMoves_of_step stepped)) reached

end CeRs.Serving
