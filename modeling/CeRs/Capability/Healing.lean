import CeRs.Capability.Stopping
import CeRs.Serve.Recovery

/-!
# A provided capability heals

The register loop knows nothing of a restart of the node, so after one it goes
on to advertise what the node no longer routes.  Once the node stays up, the
serve loop has subscribed again after a bounded number of steps, and from then
on whoever finds the capability can call it.
-/

namespace CeRs.Providing

open Transition Capability
open Serving (Stream Attentive)

/-- The two loops with their node, and the stream that the serve loop has open. -/
structure World where
  loops : Capability.State
  stream : Stream

inductive Label
  | loops (label : Capability.Label)
  | push (message : Serve.AppMessage)
  deriving DecidableEq, Repr

def initial : World := ⟨Capability.initial, .dropped⟩

def Offers (stream : Stream) : Capability.Label → Prop
  | .serve input => Serving.Offers stream input
  | _ => True

instance (stream : Stream) (label : Capability.Label) : Decidable (Offers stream label) := by
  cases label <;> unfold Offers <;> infer_instance

/-- What a step of the loops or of the node does to the stream. -/
def streamAfter (stream : Stream) : Capability.Label → Stream
  | .serve input => stream.after input
  | .restart => stream.ended
  | .poll | .pollSlept | .advertiseOk | .advertiseErr | .heartbeatSlept | .registerStopped
  | .shutdown => stream

def step (name : String) (world : World) : Label → Option World
  | .loops label =>
      if Offers world.stream label then
        (Capability.step name world.loops label).map fun loops =>
          ⟨loops, streamAfter world.stream label⟩
      else none
  | .push message =>
      if world.stream.live then some { world with stream := world.stream.push message } else none

variable {name : String} {world next : World} {label : Label}

theorem loops_of_step {label : Capability.Label}
    (stepped : step name world (.loops label) = some next) :
    Offers world.stream label ∧ Capability.step name world.loops label = some next.loops ∧
      next.stream = streamAfter world.stream label := by
  simp only [step] at stepped
  split at stepped
  case isTrue offers =>
      obtain ⟨loops, moved, rfl⟩ := Option.map_eq_some_iff.mp stepped
      exact ⟨offers, moved, rfl⟩
  case isFalse => simp at stepped

theorem push_of_step {message : Serve.AppMessage}
    (stepped : step name world (.push message) = some next) :
    world.stream.live = true ∧ next = { world with stream := world.stream.push message } := by
  simp only [step] at stepped
  split at stepped
  case isTrue live => exact ⟨live, (Option.some.inj stepped).symm⟩
  case isFalse => simp at stepped

section Views

def Label.loops? : Label → Option Capability.Label
  | .loops label => some label
  | .push _ => none

/-- What the serve loop and its node have to do with a step. -/
def Label.serving? : Label → Option Serving.Label
  | .loops (.serve input) => some (.loop input)
  | .loops .restart => some .restart
  | .loops _ => none
  | .push message => some (.push message)

def World.serving (world : World) : Serving.World :=
  ⟨world.loops.serve, world.loops.subscriptions, world.stream⟩

/-- Without the stream, a run is one of the two loops. -/
theorem loops_simulates (world : World) (label : Label) (next : World)
    (stepped : step name world label = some next) :
    execute (Capability.step name) world.loops label.loops?.toList = some next.loops := by
  cases label with
  | push message =>
      obtain ⟨-, rfl⟩ := push_of_step stepped
      rfl
  | loops label =>
      obtain ⟨-, moved, -⟩ := loops_of_step stepped
      simp [Label.loops?, moved]

theorem confirm_subscriptions (state : Capability.State) (input : Serve.Input) :
    (confirm state input).subscriptions =
      Serving.confirmedBy state.subscriptions state.serve.point input := by
  cases input with
  | subscribeOk =>
      cases point : state.serve.point <;> simp [confirm, Serving.confirmedBy, point]
  | _ => rfl

/-- A step is one of the serve loop and its node, or none of their business. -/
theorem serving_simulates (world : World) (label : Label) (next : World)
    (stepped : step name world label = some next) :
    execute (Serving.step (serveConfig name)) world.serving label.serving?.toList =
      some next.serving := by
  cases label with
  | push message =>
      obtain ⟨live, rfl⟩ := push_of_step stepped
      simp [Label.serving?, Serving.step, World.serving, live]
  | loops label =>
      obtain ⟨offers, moved, stream⟩ := loops_of_step stepped
      cases label with
      | serve input =>
          simp only [Capability.step] at moved
          split at moved
          case isTrue => simp at moved
          case isFalse =>
              obtain ⟨serve, served, loops⟩ := Option.map_eq_some_iff.mp moved
              have offered : Serving.Offers world.stream input := offers
              simp [Label.serving?, Serving.step, World.serving, offered, served, ← loops,
                stream, streamAfter, confirm_subscriptions]
      | restart =>
          have loops := Option.some.inj moved
          simp [Label.serving?, Serving.step, World.serving, ← loops, stream, streamAfter]
      | shutdown =>
          have loops := Option.some.inj moved
          simp [Label.serving?, World.serving, ← loops, stream, streamAfter]
      | poll | pollSlept | advertiseOk | advertiseErr | heartbeatSlept =>
          simp only [Capability.step] at moved
          split at moved <;> simp only [Option.some.injEq, reduceCtorEq] at moved
          simp [Label.serving?, World.serving, ← moved, stream, streamAfter]
      | registerStopped =>
          simp only [Capability.step] at moved
          split at moved <;> try split at moved
          all_goals simp only [Option.some.injEq, reduceCtorEq] at moved
          all_goals simp [Label.serving?, World.serving, ← moved, stream, streamAfter]

end Views

/-- The node stays up and answers, and nobody shuts the loops down. -/
def Quiet (world : World) : Label → Prop
  | .loops (.serve input) => Serving.Quiet world.serving (.loop input)
  | .loops .restart | .loops .shutdown | .loops .advertiseErr => False
  | .loops _ | .push _ => True

instance (world : World) (label : Label) : Decidable (Quiet world label) := by
  unfold Quiet
  split <;> infer_instance

def Label.isServe : Label → Bool
  | .loops (.serve _) => true
  | _ => false

def Label.isRegister : Label → Bool
  | .loops .poll | .loops .pollSlept | .loops .advertiseOk | .loops .advertiseErr
  | .loops .heartbeatSlept | .loops .registerStopped => true
  | _ => false

/-- Neither loop returns before the shutdown. -/
structure Running (loops : Capability.State) : Prop where
  unset : loops.shutdown = false
  serving : loops.serve.point ≠ .returned
  registering : loops.register ≠ .returned

theorem register_returned_of_step {loops next : Capability.State} {label : Capability.Label}
    (shutdown : loops.register = .returned → loops.shutdown = true)
    (stepped : Capability.step name loops label = some next)
    (returned : next.register = .returned) : next.shutdown = true := by
  cases label with
  | serve input =>
      apply shutdown_of_step stepped
      simp only [Capability.step] at stepped
      split at stepped
      case isTrue => simp at stepped
      case isFalse =>
          obtain ⟨serve, -, rfl⟩ := Option.map_eq_some_iff.mp stepped
          exact shutdown ((confirm_register loops input).symm.trans returned)
  | poll =>
      simp only [Capability.step] at stepped
      split at stepped <;> simp only [Option.some.injEq, reduceCtorEq] at stepped
      subst stepped
      cases ready : loops.serve.ready <;> simp [ready] at returned
  | pollSlept | advertiseOk | advertiseErr | heartbeatSlept =>
      simp only [Capability.step] at stepped
      split at stepped <;> simp only [Option.some.injEq, reduceCtorEq] at stepped
      subst stepped
      exact RegisterPoint.noConfusion returned
  | registerStopped =>
      apply shutdown_of_step stepped
      simp only [Capability.step] at stepped
      split at stepped <;> try split at stepped
      all_goals simp only [Option.some.injEq, reduceCtorEq] at stepped
      all_goals assumption
  | restart =>
      obtain rfl := Option.some.inj stepped
      exact shutdown returned
  | shutdown =>
      obtain rfl := Option.some.inj stepped
      rfl

theorem running_of_execute {trace : List Capability.Label} {loops : Capability.State}
    (reached : execute (Capability.step name) Capability.initial trace = some loops)
    (unset : loops.shutdown = false) : Running loops where
  unset := unset
  serving returned := by
    have set := (stopping_of_execute reached).shutdown returned
    simp [unset] at set
  registering returned := by
    have set := stateInvariant_of_execute
      (fun loops => loops.register = .returned → loops.shutdown = true)
      (fun returned => RegisterPoint.noConfusion returned)
      (fun _ _ _ shutdown stepped => register_returned_of_step shutdown stepped) reached returned
    simp [unset] at set

theorem quiet_serving (world : World) (label : Label) (quiet : Quiet world label) :
    ∀ seen ∈ label.serving?, Serving.Quiet world.serving seen := by
  intro seen member
  cases label with
  | push message =>
      obtain rfl := Option.some.inj member
      trivial
  | loops label =>
      cases label with
      | serve input =>
          obtain rfl := Option.some.inj member
          exact quiet
      | restart => exact quiet.elim
      | poll | pollSlept | advertiseOk | advertiseErr | heartbeatSlept | registerStopped
      | shutdown => simp [Label.serving?] at member

theorem attentive_step (attentive : Attentive (serveConfig name) world.serving)
    (quiet : Quiet world label) (stepped : step name world label = some next) :
    Attentive (serveConfig name) next.serving := by
  have moved := serving_simulates world label next stepped
  cases seen : label.serving? with
  | none =>
      have same : world.serving = next.serving := by simpa [seen] using moved
      exact same ▸ attentive
  | some serving =>
      have served : Serving.step (serveConfig name) world.serving serving =
          some next.serving := by simpa [seen] using moved
      exact Serving.attentive_moves attentive (quiet_serving world label quiet serving seen)
        (Serving.worldMoves_of_step served)

/-- The steps of the register loop until the node has accepted an advertise. -/
def registerLoad : RegisterPoint → Nat
  | .pollSleeping => 3
  | .polling | .heartbeat => 2
  | .advertising => 1
  | .returned => 0

/-- A quiet step leaves the loops running, and one of the register loop gets it
closer to an advertise, if the flag is up. -/
theorem register_step (running : Running world.loops) (ready : world.loops.serve.ready = true)
    (quiet : Quiet world label) (stepped : step name world label = some next)
    (other : label ≠ .loops .advertiseOk) :
    registerLoad next.loops.register + label.isRegister.toNat ≤
      registerLoad world.loops.register := by
  cases label with
  | push message =>
      obtain ⟨-, rfl⟩ := push_of_step stepped
      exact le_rfl
  | loops label =>
      obtain ⟨-, moved, -⟩ := loops_of_step stepped
      cases label with
      | serve input =>
          simp only [Capability.step] at moved
          split at moved
          case isTrue => simp at moved
          case isFalse =>
              obtain ⟨serve, -, loops⟩ := Option.map_eq_some_iff.mp moved
              simp [← loops, confirm_register, Label.isRegister]
      | restart | shutdown | advertiseErr => exact quiet.elim
      | advertiseOk => exact (other rfl).elim
      | registerStopped =>
          simp [Capability.step, running.unset] at moved
          split at moved <;> simp at moved
      | poll | pollSlept | heartbeatSlept =>
          simp only [Capability.step] at moved
          split at moved
          case h_1 point =>
              have loops := Option.some.inj moved
              simp [← loops, registerLoad, Label.isRegister, ready, point]
          case h_2 => simp at moved

theorem confirm_shutdown (loops : Capability.State) (input : Serve.Input) :
    (confirm loops input).shutdown = loops.shutdown := by
  cases input with
  | subscribeOk => cases point : loops.serve.point <;> simp [confirm, point]
  | _ => rfl

theorem unset_step (unset : world.loops.shutdown = false) (quiet : Quiet world label)
    (stepped : step name world label = some next) : next.loops.shutdown = false := by
  cases label with
  | push message =>
      obtain ⟨-, rfl⟩ := push_of_step stepped
      exact unset
  | loops label =>
      obtain ⟨-, moved, -⟩ := loops_of_step stepped
      cases label with
      | serve input =>
          simp only [Capability.step] at moved
          split at moved
          case isTrue => simp at moved
          case isFalse =>
              obtain ⟨serve, -, loops⟩ := Option.map_eq_some_iff.mp moved
              simp [← loops, confirm_shutdown, unset]
      | restart | shutdown | advertiseErr => exact quiet.elim
      | registerStopped =>
          simp [Capability.step, unset] at moved
          split at moved <;> simp at moved
      | poll | pollSlept | advertiseOk | heartbeatSlept =>
          simp only [Capability.step] at moved
          split at moved <;> simp only [Option.some.injEq, reduceCtorEq] at moved
          exact moved ▸ unset

theorem register_awake (running : Running world.loops) :
    ∃ label : Label, label.isRegister = true ∧ Quiet world label ∧
      (step name world label).isSome := by
  cases point : world.loops.register with
  | returned => exact (running.registering point).elim
  | polling => exact ⟨.loops .poll, rfl, trivial, by simp [step, Offers, Capability.step, point]⟩
  | pollSleeping =>
      exact ⟨.loops .pollSlept, rfl, trivial, by simp [step, Offers, Capability.step, point]⟩
  | advertising =>
      exact ⟨.loops .advertiseOk, rfl, trivial, by simp [step, Offers, Capability.step, point]⟩
  | heartbeat =>
      exact ⟨.loops .heartbeatSlept, rfl, trivial, by simp [step, Offers, Capability.step, point]⟩

theorem countP_isServe (trace : List Label) :
    (trace.filterMap Label.serving?).countP Serving.Label.isLoop =
      trace.countP Label.isServe := by
  rw [List.countP_filterMap]
  congr 1
  funext label
  cases label with
  | push message => rfl
  | loops label => cases label <;> rfl

theorem attentive_of_recovering {trace first : List Label} {middle : World}
    (reached : execute (step name) initial trace = some world)
    (unset : world.loops.shutdown = false)
    (recovering : execute (step name) world first = some middle)
    (quiet : EveryStep (step name) Quiet world first)
    (enough : 3 * world.stream.arriving.length + 6 ≤ first.countP Label.isServe) :
    Attentive (serveConfig name) middle.serving := by
  have served := execute_filterMap serving_simulates reached
  have kept : Serving.Kept (serveConfig name) world.serving := Serving.kept_of_execute served
  have running := running_of_execute (execute_filterMap loops_simulates reached) unset
  apply Serving.attentive_of_everyStep kept running.serving
    (execute_filterMap serving_simulates recovering)
    (everyStep_filterMap serving_simulates quiet_serving quiet recovering)
  have bound := Serving.load_le kept
  rw [countP_isServe]
  simp only [serveConfig, World.serving, List.length_singleton] at bound ⊢
  omega

/-- Both loops run, and the serve loop is attentive with the flag up. -/
structure Healthy (name : String) (world : World) : Prop where
  running : Running world.loops
  attentive : Attentive (serveConfig name) world.serving
  raised : Serving.Raised (serveConfig name) world.loops.serve

theorem Healthy.ready (healthy : Healthy name world) : world.loops.serve.ready = true :=
  healthy.raised rfl healthy.attentive.serves

theorem raised_step (raised : Serving.Raised (serveConfig name) world.loops.serve)
    (stepped : step name world label = some next) :
    Serving.Raised (serveConfig name) next.loops.serve := by
  have moved := serving_simulates world label next stepped
  cases seen : label.serving? with
  | none =>
      have same : world.serving = next.serving := by simpa [seen] using moved
      have loop : world.loops.serve = next.loops.serve := congrArg Serving.World.loop same
      exact loop ▸ raised
  | some serving =>
      have served : Serving.step (serveConfig name) world.serving serving =
          some next.serving := by simpa [seen] using moved
      exact Serving.raised_worldMoves raised (Serving.worldMoves_of_step served)

theorem healthy_step (healthy : Healthy name world) (quiet : Quiet world label)
    (stepped : step name world label = some next) : Healthy name next := by
  have attentive := attentive_step healthy.attentive quiet stepped
  have unset := unset_step healthy.running.unset quiet stepped
  refine ⟨⟨unset, ?_, ?_⟩, attentive, raised_step healthy.raised stepped⟩
  · intro returned
    have serves : Serving.Serves next.loops.serve.point := attentive.serves
    simp [returned, Serving.Serves] at serves
  · intro returned
    cases label with
    | push message =>
        obtain ⟨-, rfl⟩ := push_of_step stepped
        exact healthy.running.registering returned
    | loops label =>
        obtain ⟨-, moved, -⟩ := loops_of_step stepped
        have set := register_returned_of_step
          (fun before => absurd before healthy.running.registering) moved returned
        simp [unset] at set

/-- What holds while the node stays up, once the serve loop has recovered. -/
structure Heals (name : String) (world : World) (later : List Label) (final : World) : Prop where
  truthful : EveryStep (step name) (fun world label => label = .loops .advertiseOk →
    topic name ∈ world.loops.subscriptions ∧ Attentive (serveConfig name) world.serving)
    world later
  advertised : 3 ≤ later.countP Label.isRegister → .loops .advertiseOk ∈ later
  awake : ∃ label : Label, label.isRegister = true ∧ Quiet final label ∧
    (step name final label).isSome

theorem Healthy.heals {later : List Label} {final : World} (healthy : Healthy name world)
    (continued : execute (step name) world later = some final)
    (quiet : EveryStep (step name) Quiet world later) : Heals name world later final := by
  have progress : Healthy name final ∧ (.loops .advertiseOk ∈ later ∨
      later.countP Label.isRegister + registerLoad final.loops.register ≤ 3) := by
    refine invariant_of_everyStep Quiet (fun trace state => Healthy name state ∧
      (.loops .advertiseOk ∈ trace ∨
        trace.countP Label.isRegister + registerLoad state.loops.register ≤ 3))
      ⟨healthy, .inr ?_⟩ ?_ quiet continued
    · unfold registerLoad
      split <;> simp
    · rintro trace state label next ⟨healthy, progress⟩ quiet stepped
      refine ⟨healthy_step healthy quiet stepped, ?_⟩
      by_cases accepted : label = .loops .advertiseOk
      · simp [accepted]
      · refine progress.imp (fun member => by simp [member]) fun bound => ?_
        have lower := register_step healthy.running healthy.ready quiet stepped accepted
        rw [List.countP_append, List.countP_singleton]
        cases counted : label.isRegister <;> simp [counted] at lower ⊢ <;> omega
  refine ⟨?_, fun enough => ?_, register_awake progress.1.running⟩
  · have every := EveryStep.of_invariant Quiet (Healthy name)
      (fun _ _ _ healthy quiet stepped => healthy_step healthy quiet stepped) healthy quiet
    intro before label after state split reached _
    have attentive := (every before label after state split reached).attentive
    exact ⟨attentive.subscribed (topic name) (by simp [serveConfig]), attentive⟩
  · refine progress.2.resolve_right fun bound => progress.1.running.registering ?_
    have zero : registerLoad final.loops.register = 0 := by omega
    unfold registerLoad at zero
    split at zero
    all_goals simp_all

/-- After any run, once the node has stayed up for a bounded number of steps of
the serve loop, the register loop is at most three steps from an accepted
advertise, and each of them is true. -/
theorem heals_of_execute {trace first second : List Label} {middle final : World}
    (reached : execute (step name) initial trace = some world)
    (unset : world.loops.shutdown = false)
    (recovering : execute (step name) world first = some middle)
    (quiet : EveryStep (step name) Quiet world first)
    (enough : 3 * world.stream.arriving.length + 6 ≤ first.countP Label.isServe)
    (continued : execute (step name) middle second = some final)
    (still : EveryStep (step name) Quiet middle second) : Heals name middle second final := by
  have whole : execute (step name) initial (trace ++ first) = some middle :=
    execute_append_eq_some.mpr ⟨world, reached, recovering⟩
  have unset_middle : middle.loops.shutdown = false :=
    invariant_of_everyStep Quiet (fun _ world => world.loops.shutdown = false) unset
      (fun _ _ _ _ unset quiet stepped => unset_step unset quiet stepped) quiet recovering
  have healthy : Healthy name middle :=
    { running := running_of_execute (execute_filterMap loops_simulates whole) unset_middle
      attentive := attentive_of_recovering reached unset recovering quiet enough
      raised := Serving.raised_of_execute (execute_filterMap serving_simulates whole) }
  exact healthy.heals continued still

/-- The node restarts between two heartbeats, and the second advertise is accepted
before the serve loop has subscribed again. -/
def deafRun : List Label :=
  [.loops (.serve .openOk), .loops (.serve .subscribeOk), .loops .poll, .loops .advertiseOk,
    .loops .restart, .loops .heartbeatSlept, .loops .advertiseOk]

/-- The stream ends, the loop subscribes again and answers a request. -/
def recovery : List Label :=
  [.loops (.serve .streamEnd), .loops (.serve .openOk), .loops (.serve .subscribeOk),
    .push ⟨"peer", "cap/greet", "6869", 1, some 8⟩,
    .loops (.serve (.item ⟨"peer", "cap/greet", "6869", 1, some 8⟩)),
    .loops (.serve (.handlerReturned [1])), .loops (.serve .replyOk)]

def heartbeats : List Label :=
  [.loops .heartbeatSlept, .loops .advertiseOk, .loops .heartbeatSlept]

theorem heals_of_execute_deaf :
    ∃ world middle final, execute (step "greet") initial deafRun = some world ∧
      topic "greet" ∉ world.loops.subscriptions ∧
      execute (step "greet") world recovery = some middle ∧
      execute (step "greet") middle heartbeats = some final ∧
      Heals "greet" middle heartbeats final :=
  ⟨_, _, _, rfl, by decide, rfl, rfl,
    heals_of_execute (show execute _ initial deafRun = some _ from rfl) rfl
      (show execute _ _ recovery = some _ from rfl) (by decide) (by decide) rfl (by decide)⟩

end CeRs.Providing
