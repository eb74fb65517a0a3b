import CeRs.Serve.Loop
import Mathlib.Algebra.Group.Nat.Defs
import Mathlib.Data.List.DropRight

/-!
# The waits between two attempts to connect

A failed connect is followed by a wait of the current backoff, which doubles up
to ten seconds and is reset once a connection is fully subscribed.  A
connection that breaks later goes back to the top of the loop with no wait at
all, so the next attempt follows at once.
-/

namespace CeRs.Serve

open Transition

/-- What a run shows of its connects. -/
inductive Mark
  | attempt
  | connected
  | failed
  | waited (milliseconds : Nat)
  deriving DecidableEq, Repr

/-- The marks of one step; the loop is back at its top after a sleep and after
the end of a stream. -/
def marksOf (config : Config) (state : State) : Input → List Mark
  | .openOk =>
      if (step config state .openOk).map State.point = some .receiving then [.connected] else []
  | .subscribeOk =>
      if (step config state .subscribeOk).map State.point = some .receiving then [.connected]
      else []
  | .openErr | .subscribeErr => [.failed]
  | .slept => [.waited state.backoffMs, .attempt]
  | .streamErr | .streamEnd => [.attempt]
  | .shutdown | .item _ | .handlerReturned _ | .replyOk | .replyErr => []

/-- The marks of a run, which begins with an attempt. -/
def connects (config : Config) (trace : List Input) : List Mark :=
  .attempt :: emitted (step config) (marksOf config) initial trace

/-- The failed connects since the last fully subscribed connection. -/
def failures (marks : List Mark) : Nat :=
  marks.foldl (fun count mark =>
    match mark with
    | .failed => count + 1
    | .connected => 0
    | .attempt | .waited _ => count) 0

/-- The marks since the last attempt. -/
def sinceAttempt (marks : List Mark) : List Mark :=
  marks.rtakeWhile (· ≠ .attempt)

/-- What the `n`-th failed connect in a row waits. -/
def delay (number : Nat) : Nat :=
  min (250 * 2 ^ (number - 1)) 10000

/-- There is a wait between an attempt and the one before it. -/
def Waits (before : List Mark) (mark : Mark) : Prop :=
  mark = .attempt → before = [] ∨
    ∃ milliseconds, .waited milliseconds ∈ sinceAttempt before ∧
      250 ≤ milliseconds ∧ milliseconds ≤ 10000

/-- A wait is the one of the failed connects in a row that led to it. -/
def Doubles (before : List Mark) (mark : Mark) : Prop :=
  ∀ milliseconds, mark = .waited milliseconds →
    0 < failures before ∧ milliseconds = delay (failures before)

structure BackedOff (marks : List Mark) : Prop where
  waits : AtEach Waits marks
  doubles : AtEach Doubles marks

theorem failures_concat (marks : List Mark) (mark : Mark) :
    failures (marks ++ [mark]) =
      match mark with
      | .failed => failures marks + 1
      | .connected => 0
      | .attempt | .waited _ => failures marks := by
  rw [failures, List.foldl_append]
  rfl

theorem sinceAttempt_concat (marks : List Mark) (mark : Mark) :
    sinceAttempt (marks ++ [mark]) =
      if mark = .attempt then [] else sinceAttempt marks ++ [mark] := by
  rw [sinceAttempt, List.rtakeWhile_concat]
  by_cases attempt : mark = .attempt
  · simp [attempt]
  · simp [attempt, sinceAttempt]

theorem delay_bounds (number : Nat) : 250 ≤ delay number ∧ delay number ≤ 10000 := by
  have positive : 0 < 2 ^ (number - 1) := Nat.two_pow_pos _
  simp only [delay]
  omega

theorem delay_succ {number : Nat} (positive : 0 < number) :
    min (delay number * 2) 10000 = delay (number + 1) := by
  obtain ⟨earlier, rfl⟩ := Nat.exists_eq_succ_of_ne_zero positive.ne'
  simp only [delay, Nat.succ_eq_add_one, Nat.add_sub_cancel, Nat.pow_succ]
  omega

/-- What the backoff is, by what the loop is about to do. -/
def Due (marks : List Mark) (state : State) : Prop :=
  match state.point with
  | .backingOff => 0 < failures marks ∧ state.backoffMs = delay (failures marks)
  | .returned => True
  | .opening | .subscribing _ _ | .receiving | .handling _ _ | .replying _ =>
      state.backoffMs = delay (failures marks + 1)

/-- The invariant of the backoff, which holds in every run. -/
structure Timed (marks : List Mark) (state : State) : Prop where
  begun : marks ≠ []
  unwaited : ∀ milliseconds, .waited milliseconds ∉ sinceAttempt marks
  due : Due marks state
  doubles : AtEach Doubles marks

theorem timed_initial (config : Config) : Timed (connects config []) initial where
  begun := List.cons_ne_nil _ _
  unwaited := by
    rw [connects, emitted, ← List.nil_append [Mark.attempt], sinceAttempt_concat]
    simp
  due := rfl
  doubles := by
    rw [connects, emitted, ← List.nil_append [Mark.attempt], atEach_concat]
    exact ⟨atEach_nil _, fun _ equal => Mark.noConfusion equal⟩

namespace Timed

variable {marks : List Mark} {state next : State}

theorem still (timed : Timed marks state) (due : Due marks next) : Timed marks next :=
  ⟨timed.begun, timed.unwaited, due, timed.doubles⟩

theorem concat (timed : Timed marks state) {mark : Mark}
    (notWaited : ∀ milliseconds, mark ≠ .waited milliseconds)
    (due : Due (marks ++ [mark]) next) : Timed (marks ++ [mark]) next where
  begun := by simp
  unwaited := by
    intro milliseconds member
    rw [sinceAttempt_concat] at member
    split at member
    · exact List.not_mem_nil member
    · rcases List.mem_append.mp member with old | new
      · exact timed.unwaited milliseconds old
      · exact notWaited milliseconds (List.mem_singleton.mp new).symm
  due := due
  doubles := atEach_concat.mpr
    ⟨timed.doubles, fun milliseconds equal => (notWaited milliseconds equal).elim⟩

theorem failed (timed : Timed marks state) (backoff : state.backoffMs = delay (failures marks + 1))
    (point : next.point = .backingOff) (same : next.backoffMs = state.backoffMs) :
    Timed (marks ++ [.failed]) next := by
  apply timed.concat (fun _ => Mark.noConfusion)
  simp only [Due, point, failures_concat, same]
  exact ⟨Nat.succ_pos _, backoff⟩

/-- The backoff is reset where the last topic is confirmed. -/
theorem subscribeFrom (timed : Timed marks state)
    (backoff : next.backoffMs = delay (failures marks + 1)) (config : Config)
    (rest : List String) :
    Timed
      (marks ++ if (Serve.subscribeFrom config next rest).point = .receiving then [.connected]
        else [])
      (Serve.subscribeFrom config next rest) := by
  cases rest with
  | nil =>
      apply timed.concat (fun _ => Mark.noConfusion)
      simp only [Due, failures_concat]
      rfl
  | cons topic rest =>
      rw [Serve.subscribeFrom, if_neg (by simp), List.append_nil]
      exact timed.still backoff

theorem slept (timed : Timed marks state) (point : state.point = .backingOff)
    (after : next.point = .opening) (doubled : next.backoffMs = min (state.backoffMs * 2) 10000) :
    Timed (marks ++ [.waited state.backoffMs, .attempt]) next := by
  obtain ⟨positive, backoff⟩ : 0 < failures marks ∧ state.backoffMs = delay (failures marks) := by
    simpa only [Due, point] using timed.due
  rw [List.append_cons]
  refine ⟨by simp, ?_, ?_, ?_⟩
  · rw [sinceAttempt_concat]
    simp
  · simp only [Due, after, failures_concat, doubled]
    rw [backoff, delay_succ positive]
  · refine atEach_concat.mpr ⟨atEach_concat.mpr ⟨timed.doubles, ?_⟩, fun _ => Mark.noConfusion⟩
    rintro milliseconds equal
    rw [← Mark.waited.inj equal]
    exact ⟨positive, backoff⟩

/-- The wait of a failed connect is one that the next attempt asks for. -/
theorem waits_slept (timed : Timed marks state) (point : state.point = .backingOff) :
    AtEach Waits (marks ++ [.waited state.backoffMs, .attempt]) ↔ AtEach Waits marks := by
  obtain ⟨positive, backoff⟩ : 0 < failures marks ∧ state.backoffMs = delay (failures marks) := by
    simpa only [Due, point] using timed.due
  rw [List.append_cons, atEach_concat, atEach_concat]
  have waiting : Waits marks (.waited state.backoffMs) := fun equal => Mark.noConfusion equal
  have attempting : Waits (marks ++ [.waited state.backoffMs]) .attempt := by
    refine fun _ => .inr ⟨state.backoffMs, ?_, backoff ▸ delay_bounds _⟩
    simp [sinceAttempt_concat]
  exact ⟨fun every => every.1.1, fun every => ⟨⟨every, waiting⟩, attempting⟩⟩

/-- An attempt right behind the last one has no wait in between. -/
theorem not_waits_attempt (timed : Timed marks state) : ¬ Waits marks .attempt := by
  intro waits
  rcases waits rfl with empty | ⟨milliseconds, member, -⟩
  · exact timed.begun empty
  · exact timed.unwaited milliseconds member

end Timed

theorem due_of_delivery {config : Config} {state next : State} {message : AppMessage}
    {marks : List Mark} (delivery : Delivery config state message next)
    (point : state.point = .receiving) (due : Due marks state) : Due marks next := by
  cases delivery with
  | unwanted | duplicate => exact due
  | undecodable token => simpa [Due, point] using due
  | called token payload => simpa [Due, point] using due

/-- What one step of the loop does to the invariant. -/
theorem timed_of_moves {config : Config} {marks : List Mark} {state next : State} {input : Input}
    (timed : Timed marks state) (stepped : step config state input = some next) :
    Timed (marks ++ marksOf config state input) next := by
  have due := timed.due
  cases moves_of_step stepped with
  | opened point =>
      simp only [Due, point] at due
      simp only [marksOf, stepped, Option.map_some, Option.some.injEq]
      refine timed.subscribeFrom ?_ config config.subscribe
      exact due
  | openFailed point =>
      simp only [Due, point] at due
      exact timed.failed due rfl rfl
  | subscribed topic rest point =>
      simp only [Due, point] at due
      simp only [marksOf, stepped, Option.map_some, Option.some.injEq]
      refine timed.subscribeFrom ?_ config rest
      exact due
  | refused topic rest point =>
      simp only [Due, point] at due
      exact timed.failed due rfl rfl
  | slept point => exact timed.slept point rfl rfl
  | stopped point =>
      rw [marksOf, List.append_nil]
      exact timed.still trivial
  | delivered message _ point delivery =>
      rw [marksOf, List.append_nil]
      exact timed.still (due_of_delivery delivery point due)
  | failed point | ended point =>
      simp only [Due, point] at due
      refine timed.concat (fun _ => Mark.noConfusion) ?_
      simpa only [Due, failures_concat] using due
  | replied reply token request point | accepted token point | rejected token point =>
      simp only [Due, point] at due
      rw [marksOf, List.append_nil]
      exact timed.still due

/-- Only a step that ends a stream lets an attempt follow the last one at once. -/
theorem waits_of_moves {config : Config} {marks : List Mark} {state next : State} {input : Input}
    (timed : Timed marks state) (stepped : step config state input = some next) :
    AtEach Waits (marks ++ marksOf config state input) ↔
      AtEach Waits marks ∧ input ≠ .streamErr ∧ input ≠ .streamEnd := by
  have noAttempt : ∀ mark, mark ≠ Mark.attempt →
      (AtEach Waits (marks ++ [mark]) ↔ AtEach Waits marks) := by
    intro mark other
    rw [atEach_concat]
    exact and_iff_left fun equal => (other equal).elim
  cases moves_of_step stepped with
  | opened | subscribed =>
      rw [marksOf]
      split
      · simpa using noAttempt .connected Mark.noConfusion
      · simp
  | openFailed | refused => simpa [marksOf] using noAttempt .failed Mark.noConfusion
  | slept point => simpa [marksOf] using timed.waits_slept point
  | failed | ended => simp [marksOf, timed.not_waits_attempt]
  | stopped | delivered | replied | accepted | rejected => simp [marksOf]

theorem connects_concat {config : Config} {trace : List Input} {state : State}
    (reached : execute (step config) initial trace = some state) (input : Input) :
    connects config (trace ++ [input]) = connects config trace ++ marksOf config state input := by
  rw [connects, emitted_concat reached]
  rfl

/-- What an event says of a connect. -/
def Event.mark? : Event → Option Mark
  | .openFailed | .refused _ => some .failed
  | .waited milliseconds => some (.waited milliseconds)
  | _ => none

/-- What a step shows by the point that it comes to. -/
def reaches (state next : State) : List Mark :=
  match state.point, next.point with
  | .opening, .receiving | .subscribing _ _, .receiving => [.connected]
  | _, .opening => [.attempt]
  | _, _ => []

theorem mark?_of_delivery {config : Config} {state next : State} {message : AppMessage}
    (delivery : Delivery config state message next) :
    next.history.filterMap Event.mark? = state.history.filterMap Event.mark? := by
  have quiet : ∀ token, (state.marks token).filterMap Event.mark? = [] := by
    intro token
    refine List.filterMap_eq_nil_iff.mpr fun event member => ?_
    rcases mem_marks member with rfl | rfl <;> rfl
  cases delivery with
  | unwanted | duplicate => rfl
  | undecodable token => simp [quiet]
  | called token payload => simp [quiet, Event.mark?]

/-- The marks of a step can be read off the events that it adds and the point
that it comes to. -/
theorem marksOf_of_step {config : Config} {state next : State} {input : Input}
    (stepped : step config state input = some next) :
    ∃ logged, next.history.filterMap Event.mark? =
        state.history.filterMap Event.mark? ++ logged ∧
      marksOf config state input = logged ++ reaches state next := by
  cases moves_of_step stepped with
  | opened point =>
      refine ⟨[], ?_, ?_⟩
      · cases config.subscribe <;> simp [subscribeFrom, Event.mark?]
      · simp only [marksOf, stepped, reaches, point]
        cases config.subscribe <;> simp [subscribeFrom]
  | openFailed point => exact ⟨[.failed], by simp [Event.mark?], by simp [marksOf, reaches, point]⟩
  | subscribed topic rest point =>
      refine ⟨[], ?_, ?_⟩
      · cases rest <;> simp [subscribeFrom, Event.mark?]
      · simp only [marksOf, stepped, reaches, point]
        cases rest <;> simp [subscribeFrom]
  | refused topic rest point =>
      exact ⟨[.failed], by simp [Event.mark?], by simp [marksOf, reaches, point]⟩
  | slept point =>
      exact ⟨[.waited state.backoffMs], by simp [Event.mark?], by simp [marksOf, reaches, point]⟩
  | stopped point =>
      rcases point with point | point <;>
        exact ⟨[], by simp, by simp [marksOf, reaches, point]⟩
  | delivered message _ point delivery =>
      refine ⟨[], ?_, ?_⟩
      · simp [mark?_of_delivery delivery, Event.mark?]
      · cases delivery <;> simp [marksOf, reaches, point]
  | failed point | ended point => exact ⟨[], by simp, by simp [marksOf, reaches, point]⟩
  | replied reply token request point =>
      exact ⟨[], by simp [Event.mark?], by simp [marksOf, reaches, point]⟩
  | accepted token point => exact ⟨[], by simp [Event.mark?], by simp [marksOf, reaches, point]⟩
  | rejected token point => exact ⟨[], by simp, by simp [marksOf, reaches, point]⟩

theorem timed_of_execute {config : Config} {trace : List Input} {final : State}
    (reached : execute (step config) initial trace = some final) :
    Timed (connects config trace) final := by
  refine (invariant_of_execute (fun trace state =>
    execute (step config) initial trace = some state ∧ Timed (connects config trace) state)
    ⟨rfl, timed_initial config⟩ ?_ reached).2
  rintro trace state input next ⟨reached, timed⟩ stepped
  refine ⟨execute_concat_eq_some.mpr ⟨state, reached, stepped⟩, ?_⟩
  rw [connects_concat reached]
  exact timed_of_moves timed stepped

theorem waits_iff {config : Config} {trace : List Input} {final : State}
    (reached : execute (step config) initial trace = some final) :
    AtEach Waits (connects config trace) ↔ .streamErr ∉ trace ∧ .streamEnd ∉ trace := by
  induction trace using List.reverseRecOn generalizing final with
  | nil =>
      rw [connects, emitted, ← List.nil_append [Mark.attempt], atEach_concat]
      simp [Waits]
  | append_singleton trace input induction =>
      obtain ⟨state, before, stepped⟩ := execute_concat_eq_some.mp reached
      rw [connects_concat before, waits_of_moves (timed_of_execute before) stepped,
        induction before]
      simp only [List.mem_append, List.mem_singleton, not_or]
      tauto

/-- Every reconnect of a run is backed off if and only if no stream of the run
breaks or ends. -/
theorem backedOff_iff (config : Config) (trace : List Input) (final : State)
    (reached : execute (step config) initial trace = some final) :
    BackedOff (connects config trace) ↔ .streamErr ∉ trace ∧ .streamEnd ∉ trace := by
  rw [← waits_iff reached]
  exact ⟨BackedOff.waits, fun waits => ⟨waits, (timed_of_execute reached).doubles⟩⟩

/-- Two failed connects and a third that is subscribed. -/
theorem backedOff_iff_twice :
    BackedOff (connects ⟨["topic"], fun _ => true, false⟩
      [.openErr, .slept, .openOk, .subscribeErr, .slept, .openOk, .subscribeOk]) :=
  (backedOff_iff _ _ _ rfl).mpr (by decide)

/-- A stream that ends is opened again with no wait. -/
theorem reopened_at_once :
    connects ⟨[], fun _ => true, false⟩ [.openOk, .streamEnd, .openOk] =
        [.attempt, .connected, .attempt, .connected] ∧
      ¬ BackedOff (connects ⟨[], fun _ => true, false⟩ [.openOk, .streamEnd, .openOk]) := by
  refine ⟨by decide, fun backedOff => ?_⟩
  rcases backedOff.waits [.attempt, .connected] .attempt [.connected] (by decide) rfl with
    empty | ⟨milliseconds, member, -⟩
  · exact absurd empty (by decide)
  · revert member
    simp [sinceAttempt, List.rtakeWhile]

end CeRs.Serve
