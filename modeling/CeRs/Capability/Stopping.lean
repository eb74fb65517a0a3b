import CeRs.Capability.Provide

/-!
# Stopping the two loops

One shutdown is fanned into both loops.  The serve loop returns at its next
wait, while the register loop checks the shutdown only inside its two waits, and
each of them chooses at random when its timer is ready as well.  If the timer
wins after the serve loop has returned, one more advertise is started.
-/

namespace CeRs.Capability

open Transition

/-- What the two loops show of their end. -/
inductive Mark
  | serveReturned
  | advertiseStarted
  deriving DecidableEq, Repr

/-- What a step shows: the serve loop returns, or the register loop calls
`advertise_service`. -/
def marks (name : String) (state : State) (label : Label) : List Mark :=
  match step name state label with
  | none => []
  | some next =>
      (if next.serve.point = .returned ∧ state.serve.point ≠ .returned then [.serveReturned]
        else []) ++
      if next.register = .advertising ∧ state.register ≠ .advertising then [.advertiseStarted]
      else []

/-- What a run shows. -/
def shown (name : String) (trace : List Label) : List Mark :=
  emitted (step name) (marks name) initial trace

/-- No advertise is started after the serve loop has returned. -/
def StopTogether (name : String) (trace : List Label) : Prop :=
  AtEach (fun earlier mark => mark = .advertiseStarted → .serveReturned ∉ earlier)
    (shown name trace)

/-- The register loop goes on by a timer although the serve loop has returned:
the heartbeat's timer wins, or the readiness wait is left with the flag up. -/
def TimerWins (state : State) : Label → Prop
  | .heartbeatSlept => state.serve.point = .returned
  | .poll => state.serve.point = .returned ∧ state.serve.ready = true
  | _ => False

instance (state : State) : DecidablePred (TimerWins state)
  | .heartbeatSlept => inferInstanceAs (Decidable (_ = _))
  | .poll => inferInstanceAs (Decidable (_ ∧ _))
  | .serve _ | .pollSlept | .advertiseOk | .advertiseErr | .registerStopped | .restart
  | .shutdown => isFalse id

theorem returned_of_moves {config : Serve.Config} {state next : Serve.State}
    {input : Serve.Input} (moves : Serve.Moves config state input next) :
    state.point ≠ .returned ∧ (next.point = .returned → input = .shutdown) := by
  have subscribed : ∀ (later : Serve.State) (rest : List String),
      (Serve.subscribeFrom config later rest).point ≠ .returned := by
    intro later rest
    cases rest <;> simp [Serve.subscribeFrom]
  cases moves with
  | opened point | subscribed _ _ point =>
      exact ⟨by simp [point], fun returned => absurd returned (subscribed _ _)⟩
  | stopped point => exact ⟨by rcases point with point | point <;> simp [point], fun _ => rfl⟩
  | delivered message next point delivery =>
      refine ⟨by simp [point], fun returned => ?_⟩
      cases delivery <;> simp [point] at returned
  | openFailed point | refused _ _ point | slept point | failed point | ended point
  | replied _ _ _ point | accepted _ point | rejected _ point => simp [point]

/-- What a step can show, and when. -/
inductive Shows (state next : State) (label : Label) : List Mark → Prop
  | returned (before : state.serve.point ≠ .returned) (after : next.serve.point = .returned)
      (unforced : ¬ TimerWins state label) (shutdown : state.shutdown = true) :
      Shows state next label [.serveReturned]
  | started (serve : next.serve = state.serve)
      (forced : TimerWins state label ↔ state.serve.point = .returned) :
      Shows state next label [.advertiseStarted]
  | nothing (serve : next.serve.point = .returned ↔ state.serve.point = .returned)
      (unforced : ¬ TimerWins state label) : Shows state next label []

theorem confirm_register (state : State) (input : Serve.Input) :
    (confirm state input).register = state.register := by
  unfold confirm
  split
  · split <;> rfl
  · rfl

theorem shows_of_serve {name : String} {state next : State} {input : Serve.Input}
    (stepped : step name state (.serve input) = some next) :
    Shows state next (.serve input) (marks name state (.serve input)) := by
  have shown : marks name state (.serve input) =
      if next.serve.point = .returned ∧ state.serve.point ≠ .returned then [.serveReturned]
      else [] := by
    have same : next.register = state.register := by
      simp only [step] at stepped
      split at stepped
      · simp at stepped
      · obtain ⟨after, -, rfl⟩ := Option.map_eq_some_iff.mp stepped
        exact confirm_register state input
    rw [marks, stepped]
    simp [same]
  simp only [step] at stepped
  split at stepped
  case isTrue => simp at stepped
  case isFalse enabled =>
      obtain ⟨after, served, rfl⟩ := Option.map_eq_some_iff.mp stepped
      obtain ⟨running, byShutdown⟩ := returned_of_moves (Serve.moves_of_step served)
      rw [shown]
      by_cases returned : after.point = .returned
      · rw [if_pos ⟨returned, running⟩]
        have shutdown : state.shutdown = true := by
          by_contra unset
          exact enabled ⟨byShutdown returned, by simpa using unset⟩
        exact .returned running returned id shutdown
      · rw [if_neg fun both => returned both.1]
        exact .nothing ⟨fun now => absurd now returned, fun before => absurd before running⟩ id

/-- A step that leaves the serve loop alone starts an advertise or shows nothing. -/
theorem shows_of_starting {name : String} {state next : State} {label : Label}
    (stepped : step name state label = some next) (serve : next.serve = state.serve)
    (before : state.register ≠ .advertising) (after : next.register = .advertising)
    (forced : TimerWins state label ↔ state.serve.point = .returned) :
    Shows state next label (marks name state label) := by
  have shown : marks name state label = [.advertiseStarted] := by
    simp [marks, stepped, serve, before, after]
  exact shown ▸ .started serve forced

theorem shows_of_quiet {name : String} {state next : State} {label : Label}
    (stepped : step name state label = some next) (serve : next.serve = state.serve)
    (quiet : next.register = .advertising → state.register = .advertising)
    (unforced : ¬ TimerWins state label) :
    Shows state next label (marks name state label) := by
  have shown : marks name state label = [] := by
    simp only [marks, stepped, serve]
    rw [if_neg (by simp), if_neg fun both => both.2 (quiet both.1)]
    rfl
  exact shown ▸ .nothing (by rw [serve]) unforced

theorem shows_of_step {name : String} {state next : State} {label : Label}
    (stepped : step name state label = some next) :
    Shows state next label (marks name state label) := by
  have taken := stepped
  cases label with
  | serve input => exact shows_of_serve stepped
  | poll =>
      simp only [step] at taken
      split at taken <;> simp only [Option.some.injEq, reduceCtorEq] at taken
      subst taken
      by_cases ready : state.serve.ready = true
      · apply shows_of_starting stepped rfl
        · simp [*]
        · simp [ready]
        · simp [TimerWins, ready]
      · apply shows_of_quiet stepped rfl
        · simp [ready]
        · simp [TimerWins, ready]
  | heartbeatSlept =>
      simp only [step] at taken
      split at taken <;> simp only [Option.some.injEq, reduceCtorEq] at taken
      subst taken
      exact shows_of_starting stepped rfl (by simp [*]) rfl Iff.rfl
  | pollSlept | advertiseOk | advertiseErr =>
      simp only [step] at taken
      split at taken <;> simp only [Option.some.injEq, reduceCtorEq] at taken
      subst taken
      exact shows_of_quiet stepped rfl (by simp) id
  | registerStopped =>
      have returned : next = { state with register := .returned } := by
        simp only [step] at taken
        split at taken
        · split at taken <;> simp_all
        · split at taken <;> simp_all
        · simp at taken
      subst returned
      exact shows_of_quiet stepped rfl (by simp) id
  | restart =>
      obtain rfl := Option.some.inj taken
      exact shows_of_quiet stepped rfl id id
  | shutdown =>
      obtain rfl := Option.some.inj taken
      exact shows_of_quiet stepped rfl id id

theorem shutdown_of_step {name : String} {state next : State} {label : Label}
    (stepped : step name state label = some next) (shutdown : state.shutdown = true) :
    next.shutdown = true := by
  cases label with
  | serve input =>
      simp only [step] at stepped
      split at stepped
      · simp at stepped
      · obtain ⟨after, -, rfl⟩ := Option.map_eq_some_iff.mp stepped
        unfold confirm
        split
        · split <;> exact shutdown
        · exact shutdown
  | poll | pollSlept | advertiseOk | advertiseErr | heartbeatSlept =>
      simp only [step] at stepped
      split at stepped <;> simp only [Option.some.injEq, reduceCtorEq] at stepped
      exact stepped ▸ shutdown
  | registerStopped =>
      simp only [step, shutdown, if_true] at stepped
      split at stepped <;> simp only [Option.some.injEq, reduceCtorEq] at stepped
      all_goals exact stepped ▸ rfl
  | restart => exact Option.some.inj stepped ▸ shutdown
  | shutdown => exact Option.some.inj stepped ▸ rfl

/-- What holds after a run. -/
structure Stopping (name : String) (trace : List Label) (state : State) : Prop where
  reached : execute (step name) initial trace = some state
  returned : state.serve.point = .returned ↔ .serveReturned ∈ shown name trace
  shutdown : state.serve.point = .returned → state.shutdown = true
  exact : StopTogether name trace ↔
    EveryStep (step name) (fun state label => ¬ TimerWins state label) initial trace

theorem stopping_initial (name : String) : Stopping name [] initial where
  reached := rfl
  returned := by simp [initial, Serve.initial, shown, emitted]
  shutdown returned := by simp [initial, Serve.initial] at returned
  exact := by simp [StopTogether, shown, emitted]

theorem Stopping.of_step {name : String} {trace : List Label} {state next : State}
    {label : Label} (stopping : Stopping name trace state)
    (stepped : step name state label = some next) : Stopping name (trace ++ [label]) next := by
  have grows : shown name (trace ++ [label]) = shown name trace ++ marks name state label :=
    emitted_concat stopping.reached
  have shows := shows_of_step stepped
  generalize marks name state label = new at grows shows
  refine ⟨execute_concat_eq_some.mpr ⟨state, stopping.reached, stepped⟩, ?_, ?_, ?_⟩
  · rw [grows, List.mem_append]
    cases shows with
    | returned before after => simp [after]
    | started serve => simp [serve, stopping.returned]
    | nothing serve => simp [serve, stopping.returned]
  · intro returned
    apply shutdown_of_step stepped
    cases shows with
    | returned _ _ _ shutdown => exact shutdown
    | started serve => exact stopping.shutdown (serve ▸ returned)
    | nothing serve => exact stopping.shutdown (serve.mp returned)
  · rw [StopTogether, grows, everyStep_concat stopping.reached, ← stopping.exact, StopTogether]
    cases shows with
    | returned before after unforced => simp [unforced]
    | started serve forced => simp [forced, stopping.returned]
    | nothing serve unforced => simp [unforced]

theorem stopping_of_execute {name : String} {trace : List Label} {final : State}
    (reached : execute (step name) initial trace = some final) : Stopping name trace final :=
  invariant_of_execute (Stopping name) (stopping_initial name)
    (fun _ _ _ _ stopping stepped => stopping.of_step stepped) reached

/-- No advertise is started after the serve loop has returned exactly if no
timer wins then; and the shutdown has resolved at that point, so that it is
only the choice of the wait that is open. -/
theorem stop_together_iff {name : String} {trace : List Label} {final : State}
    (reached : execute (step name) initial trace = some final) :
    (StopTogether name trace ↔
      EveryStep (step name) (fun state label => ¬ TimerWins state label) initial trace) ∧
      (final.serve.point = .returned → final.shutdown = true) :=
  ⟨(stopping_of_execute reached).exact, (stopping_of_execute reached).shutdown⟩

/-- The register loop waits for its heartbeat when the shutdown resolves. -/
def stoppingRun : List Label :=
  [.serve .openOk, .serve .subscribeOk, .poll, .advertiseOk, .shutdown, .serve .shutdown]

/-- The shutdown branch of the heartbeat's wait is taken. -/
theorem stop_together_iff_stopped : StopTogether "greet" (stoppingRun ++ [.registerStopped]) := by
  have reached : execute (step "greet") initial (stoppingRun ++ [.registerStopped]) =
      some ((execute (step "greet") initial (stoppingRun ++ [.registerStopped])).get
        (by decide)) := (Option.some_get _).symm
  exact (stop_together_iff reached).1.mpr (by decide)

/-- The heartbeat's timer wins. -/
theorem advertise_started_after_return :
    ¬ ∀ (name : String) (trace : List Label) (final : State),
      execute (step name) initial trace = some final → StopTogether name trace := by
  intro together
  have reached : execute (step "greet") initial (stoppingRun ++ [.heartbeatSlept]) =
      some ((execute (step "greet") initial (stoppingRun ++ [.heartbeatSlept])).get
        (by decide)) := (Option.some_get _).symm
  have late := together "greet" _ _ reached
  have split : shown "greet" (stoppingRun ++ [.heartbeatSlept]) =
      [.advertiseStarted, .serveReturned] ++ .advertiseStarted :: [] := by decide
  exact late _ .advertiseStarted [] split rfl (by decide)

end CeRs.Capability
