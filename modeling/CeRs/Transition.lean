import Mathlib.Data.List.Infix

/-!
# Executions of labelled transition functions

A component is a function `step : State → Label → Option State`: the label
says which party moves and what its environment answers, and `none` means that
the label is not enabled.  This file collects what every such component needs:
finite executions, the induction rule for invariants, conditions imposed on
every step of an execution, what an execution emits, and properties of a
history that hold at each of its entries.
-/

namespace CeRs.Transition

variable {State Label Entry : Type*}

/-- Perform the labels in order, failing at the first one that is not enabled. -/
def execute (step : State → Label → Option State) :
    State → List Label → Option State
  | state, [] => some state
  | state, label :: rest =>
      (step state label).bind fun next => execute step next rest

variable {step : State → Label → Option State}

@[simp] theorem execute_nil (state : State) :
    execute step state [] = some state := rfl

@[simp] theorem execute_cons (state : State) (label : Label) (rest : List Label) :
    execute step state (label :: rest) =
      (step state label).bind fun next => execute step next rest := rfl

theorem execute_append (state : State) (first second : List Label) :
    execute step state (first ++ second) =
      (execute step state first).bind fun middle => execute step middle second := by
  induction first generalizing state with
  | nil => rfl
  | cons label rest induction =>
      simp only [List.cons_append, execute_cons, Option.bind_assoc]
      congr 1
      funext next
      exact induction next

theorem execute_append_eq_some {state final : State} {first second : List Label} :
    execute step state (first ++ second) = some final ↔
      ∃ middle, execute step state first = some middle ∧
        execute step middle second = some final := by
  rw [execute_append, Option.bind_eq_some_iff]

theorem execute_concat_eq_some {state final : State} {trace : List Label}
    {label : Label} :
    execute step state (trace ++ [label]) = some final ↔
      ∃ middle, execute step state trace = some middle ∧
        step middle label = some final := by
  simp [execute_append_eq_some]

/-- The condition holds at every step of the execution: of the state the step
starts from and of its label. -/
def EveryStep (step : State → Label → Option State)
    (condition : State → Label → Prop) (start : State) (trace : List Label) : Prop :=
  ∀ before label after state, trace = before ++ label :: after →
    execute step start before = some state → condition state label

theorem EveryStep.of_concat {condition : State → Label → Prop} {start : State}
    {trace : List Label} {label : Label}
    (every : EveryStep step condition start (trace ++ [label])) :
    EveryStep step condition start trace := by
  intro before here after state split reached
  exact every before here (after ++ [label]) state (by simp [split]) reached

theorem EveryStep.last {condition : State → Label → Prop} {start state : State}
    {trace : List Label} {label : Label}
    (every : EveryStep step condition start (trace ++ [label]))
    (reached : execute step start trace = some state) :
    condition state label :=
  every trace label [] state rfl reached

@[simp] theorem everyStep_nil {condition : State → Label → Prop} (start : State) :
    EveryStep step condition start [] := by
  intro before label after state split
  simp at split

theorem everyStep_of_forall_mem {property : Label → Prop} {trace : List Label}
    (every : ∀ label ∈ trace, property label) (start : State) :
    EveryStep step (fun _ label => property label) start trace := by
  intro before label after state split reached
  exact every label (by simp [split])

theorem everyStep_cons {condition : State → Label → Prop} {start : State} {label : Label}
    {rest : List Label} :
    EveryStep step condition start (label :: rest) ↔
      condition start label ∧
        ∀ next ∈ step start label, EveryStep step condition next rest := by
  constructor
  · intro every
    refine ⟨every [] label rest start rfl rfl, ?_⟩
    intro next stepped before here after state split reached
    apply every (label :: before) here after state (by rw [split]; rfl)
    rw [execute_cons, Option.mem_def.mp stepped]
    exact reached
  · rintro ⟨first, later⟩ before here after state split reached
    cases before with
    | nil =>
        obtain ⟨rfl, rfl⟩ := List.cons.inj split
        obtain rfl := Option.some.inj reached
        exact first
    | cons other before =>
        obtain ⟨rfl, tail⟩ := List.cons.inj split
        obtain ⟨next, stepped, reached⟩ := Option.bind_eq_some_iff.mp reached
        exact later next stepped before here after state tail reached

/-- A decidable condition can be checked along a given execution. -/
instance decidableEveryStep {condition : State → Label → Prop}
    [∀ state label, Decidable (condition state label)] (start : State) :
    (trace : List Label) → Decidable (EveryStep step condition start trace)
  | [] => isTrue (everyStep_nil start)
  | _ :: rest =>
      have : ∀ next, Decidable (EveryStep step condition next rest) :=
        fun next => decidableEveryStep next rest
      decidable_of_iff _ everyStep_cons.symm

theorem everyStep_congr {first second : State → Label → Prop} {start : State}
    {trace : List Label}
    (agree : ∀ before state label, execute step start before = some state →
      (first state label ↔ second state label)) :
    EveryStep step first start trace ↔ EveryStep step second start trace := by
  constructor
  · intro every before label after state split reached
    exact (agree before state label reached).mp (every before label after state split reached)
  · intro every before label after state split reached
    exact (agree before state label reached).mpr (every before label after state split reached)

/-- The induction rule for executions whose steps all meet a condition: what
holds at the start and survives each such step holds at the end. -/
theorem invariant_of_everyStep (condition : State → Label → Prop)
    (Invariant : List Label → State → Prop) {start : State}
    (initial : Invariant [] start)
    (preserved : ∀ trace state label next, Invariant trace state →
      condition state label → step state label = some next →
        Invariant (trace ++ [label]) next)
    {trace : List Label} {final : State}
    (every : EveryStep step condition start trace)
    (reached : execute step start trace = some final) :
    Invariant trace final := by
  induction trace using List.reverseRecOn generalizing final with
  | nil =>
      obtain rfl : start = final := by simpa using reached
      exact initial
  | append_singleton trace label induction =>
      obtain ⟨middle, before, last⟩ := execute_concat_eq_some.mp reached
      exact preserved trace middle label final (induction every.of_concat before)
        (every.last before) last

/-- The induction rule for all executions. -/
theorem invariant_of_execute (Invariant : List Label → State → Prop) {start : State}
    (initial : Invariant [] start)
    (preserved : ∀ trace state label next, Invariant trace state →
      step state label = some next → Invariant (trace ++ [label]) next)
    {trace : List Label} {final : State}
    (reached : execute step start trace = some final) :
    Invariant trace final :=
  invariant_of_everyStep (fun _ _ => True) Invariant initial
    (fun trace state label next holds _ => preserved trace state label next holds)
    (fun _ _ _ _ _ _ => trivial) reached

theorem stateInvariant_of_execute (Invariant : State → Prop) {start : State}
    (initial : Invariant start)
    (preserved : ∀ state label next, Invariant state →
      step state label = some next → Invariant next)
    {trace : List Label} {final : State}
    (reached : execute step start trace = some final) :
    Invariant final :=
  invariant_of_execute (fun _ state => Invariant state) initial
    (fun _ state label next holds => preserved state label next holds) reached

/-- An execution whose steps all meet a condition is no longer than a measure that
each such step lowers. -/
theorem length_add_measure_le_of_everyStep (condition : State → Label → Prop)
    (Invariant : State → Prop) (measure : State → Nat) {start : State}
    (initial : Invariant start)
    (preserved : ∀ state label next, Invariant state → condition state label →
      step state label = some next → Invariant next)
    (lowered : ∀ state label next, Invariant state → condition state label →
      step state label = some next → measure next < measure state)
    {trace : List Label} {final : State}
    (every : EveryStep step condition start trace)
    (reached : execute step start trace = some final) :
    trace.length + measure final ≤ measure start := by
  refine (invariant_of_everyStep condition
    (fun trace state => Invariant state ∧ trace.length + measure state ≤ measure start)
    ⟨initial, by simp⟩ ?_ every reached).2
  rintro trace state label next ⟨holds, bound⟩ meets stepped
  have lower := lowered state label next holds meets stepped
  refine ⟨preserved state label next holds meets stepped, ?_⟩
  rw [List.length_append, List.length_singleton]
  omega

theorem length_add_measure_le (Invariant : State → Prop) (measure : State → Nat)
    {start : State} (initial : Invariant start)
    (preserved : ∀ state label next, Invariant state →
      step state label = some next → Invariant next)
    (lowered : ∀ state label next, Invariant state →
      step state label = some next → measure next < measure state)
    {trace : List Label} {final : State}
    (reached : execute step start trace = some final) :
    trace.length + measure final ≤ measure start :=
  length_add_measure_le_of_everyStep (fun _ _ => True) Invariant measure initial
    (fun state label next holds _ => preserved state label next holds)
    (fun state label next holds _ => lowered state label next holds)
    (fun _ _ _ _ _ _ => trivial) reached

/-- What survives each step that meets the condition holds at every step. -/
theorem EveryStep.of_invariant (condition : State → Label → Prop) (Invariant : State → Prop)
    (preserved : ∀ state label next, Invariant state → condition state label →
      step state label = some next → Invariant next)
    {start : State} {trace : List Label} (initial : Invariant start)
    (every : EveryStep step condition start trace) :
    EveryStep step (fun state _ => Invariant state) start trace := by
  induction trace generalizing start with
  | nil => exact everyStep_nil start
  | cons label rest induction =>
      obtain ⟨first, later⟩ := everyStep_cons.mp every
      refine everyStep_cons.mpr ⟨initial, fun next stepped => ?_⟩
      exact induction (preserved start label next initial first stepped) (later next stepped)

/-- A goal that no step undoes is reached after enough steps of one kind, if each
of these lowers a measure until then and no other step raises it. -/
theorem goal_of_everyStep (condition : State → Label → Prop) (Invariant Goal : State → Prop)
    (measure : State → Nat) (counts : Label → Bool) {start : State}
    (initial : Invariant start)
    (preserved : ∀ state label next, Invariant state → condition state label →
      step state label = some next → Invariant next)
    (stable : ∀ state label next, Goal state → condition state label →
      step state label = some next → Goal next)
    (lowered : ∀ state label next, Invariant state → ¬ Goal state → condition state label →
      step state label = some next → measure next + (counts label).toNat ≤ measure state)
    (done : ∀ state, Invariant state → measure state = 0 → Goal state)
    {trace : List Label} {final : State}
    (every : EveryStep step condition start trace)
    (reached : execute step start trace = some final)
    (enough : measure start ≤ trace.countP counts) : Goal final := by
  have kept : Invariant final ∧
      (Goal final ∨ trace.countP counts + measure final ≤ measure start) := by
    refine invariant_of_everyStep condition
      (fun trace state => Invariant state ∧
        (Goal state ∨ trace.countP counts + measure state ≤ measure start))
      ⟨initial, .inr (by simp)⟩ ?_ every reached
    rintro trace state label next ⟨holds, progress⟩ meets stepped
    refine ⟨preserved state label next holds meets stepped, ?_⟩
    by_cases already : Goal state
    · exact .inl (stable state label next already meets stepped)
    · have bound := progress.resolve_left already
      have lower := lowered state label next holds already meets stepped
      right
      rw [List.countP_append, List.countP_singleton]
      cases counted : counts label <;> simp [counted] at lower ⊢ <;> omega
  rcases kept.2 with goal | bound
  · exact goal
  · exact done final kept.1 (by omega)

/-- What an execution emits, step by step. -/
def emitted (step : State → Label → Option State) (emits : State → Label → List Entry) :
    State → List Label → List Entry
  | _, [] => []
  | state, label :: rest =>
      emits state label ++
        match step state label with
        | some next => emitted step emits next rest
        | none => []

theorem emitted_append {emits : State → Label → List Entry} {state middle : State}
    {first : List Label} (second : List Label)
    (reached : execute step state first = some middle) :
    emitted step emits state (first ++ second) =
      emitted step emits state first ++ emitted step emits middle second := by
  induction first generalizing state with
  | nil =>
      obtain rfl : state = middle := by simpa using reached
      rfl
  | cons label rest induction =>
      obtain ⟨next, stepped, later⟩ := Option.bind_eq_some_iff.mp reached
      simp only [List.cons_append, emitted, stepped]
      rw [induction later, List.append_assoc]

theorem emitted_concat {emits : State → Label → List Entry} {state middle : State}
    {trace : List Label} {label : Label} (reached : execute step state trace = some middle) :
    emitted step emits state (trace ++ [label]) =
      emitted step emits state trace ++ emits middle label := by
  rw [emitted_append _ reached]
  congr 1
  rw [emitted]
  cases step middle label with
  | none => exact List.append_nil _
  | some next => exact List.append_nil _

theorem everyStep_append {condition : State → Label → Prop} {state middle : State}
    {first : List Label} (second : List Label)
    (reached : execute step state first = some middle) :
    EveryStep step condition state (first ++ second) ↔
      EveryStep step condition state first ∧ EveryStep step condition middle second := by
  induction first generalizing state with
  | nil =>
      obtain rfl : state = middle := by simpa using reached
      simp
  | cons label rest induction =>
      obtain ⟨next, stepped, later⟩ := Option.bind_eq_some_iff.mp reached
      rw [List.cons_append, everyStep_cons, everyStep_cons]
      simp only [stepped, Option.mem_def, Option.some.injEq, forall_eq']
      rw [induction later, and_assoc]

theorem everyStep_concat {condition : State → Label → Prop} {start state : State}
    {trace : List Label} {label : Label} (reached : execute step start trace = some state) :
    EveryStep step condition start (trace ++ [label]) ↔
      EveryStep step condition start trace ∧ condition state label := by
  rw [everyStep_append _ reached, everyStep_cons]
  simp

/-- A part of the state that each step changes by what it emits. -/
theorem foldl_emitted {Part : Type*} {emits : State → Label → List Entry}
    {apply : Part → Entry → Part} (part : State → Part)
    (each : ∀ state label next, step state label = some next →
      part next = (emits state label).foldl apply (part state))
    {state final : State} {trace : List Label} (reached : execute step state trace = some final) :
    part final = (emitted step emits state trace).foldl apply (part state) := by
  induction trace generalizing state with
  | nil =>
      obtain rfl : state = final := by simpa using reached
      rfl
  | cons label rest induction =>
      obtain ⟨next, stepped, later⟩ := Option.bind_eq_some_iff.mp reached
      simp only [emitted, stepped, List.foldl_append]
      rw [induction later, each state label next stepped]

/-- Nothing is emitted exactly if no step emits anything. -/
theorem emitted_eq_nil_iff {emits : State → Label → List Entry} {state final : State}
    {trace : List Label} (reached : execute step state trace = some final) :
    emitted step emits state trace = [] ↔
      EveryStep step (fun state label => emits state label = []) state trace := by
  induction trace generalizing state with
  | nil => simp [emitted]
  | cons label rest induction =>
      obtain ⟨next, stepped, later⟩ := Option.bind_eq_some_iff.mp reached
      rw [everyStep_cons, emitted]
      simp only [stepped, Option.mem_def, Option.some.injEq, forall_eq', List.append_eq_nil_iff]
      rw [induction later]

section View

variable {Seen SeenLabel : Type*} {seenStep : Seen → SeenLabel → Option Seen}
  {view : State → Seen} {label? : Label → Option SeenLabel}

/-- A component that is seen to perform some of the labels, and to do nothing at
the others, is seen to run. -/
theorem execute_filterMap
    (simulates : ∀ state label next, step state label = some next →
      execute seenStep (view state) (label? label).toList = some (view next))
    {start final : State} {trace : List Label}
    (reached : execute step start trace = some final) :
    execute seenStep (view start) (trace.filterMap label?) = some (view final) := by
  refine invariant_of_execute (fun trace state =>
    execute seenStep (view start) (trace.filterMap label?) = some (view state)) rfl ?_ reached
  intro trace state label next before stepped
  have last : [label].filterMap label? = (label? label).toList := by
    cases seen : label? label <;> simp [seen]
  rw [List.filterMap_append, last]
  exact execute_append_eq_some.mpr ⟨view state, before, simulates state label next stepped⟩

theorem everyStep_filterMap {condition : State → Label → Prop}
    {seenCondition : Seen → SeenLabel → Prop}
    (simulates : ∀ state label next, step state label = some next →
      execute seenStep (view state) (label? label).toList = some (view next))
    (meets : ∀ state label, condition state label →
      ∀ seen ∈ label? label, seenCondition (view state) seen)
    {start final : State} {trace : List Label}
    (every : EveryStep step condition start trace)
    (reached : execute step start trace = some final) :
    EveryStep seenStep seenCondition (view start) (trace.filterMap label?) := by
  induction trace generalizing start with
  | nil => exact everyStep_nil _
  | cons label rest induction =>
      obtain ⟨next, stepped, later⟩ := Option.bind_eq_some_iff.mp reached
      obtain ⟨first, others⟩ := everyStep_cons.mp every
      have tail := induction (others next stepped) later
      have moved := simulates start label next stepped
      cases seen : label? label with
      | none =>
          have same : view start = view next := by simpa [seen] using moved
          rw [List.filterMap_cons_none seen, same]
          exact tail
      | some visible =>
          have performed : seenStep (view start) visible = some (view next) := by
            simpa [seen] using moved
          rw [List.filterMap_cons_some seen, everyStep_cons]
          refine ⟨meets start label first visible seen, ?_⟩
          intro other reached
          obtain rfl : view next = other := Option.some.inj (performed.symm.trans reached)
          exact tail

end View

/-- What has been recorded stays at its place. -/
theorem getElem?_of_prefix {history more : List Entry} (grows : history <+: more)
    {position : Nat} {entry : Entry} (here : history[position]? = some entry) :
    more[position]? = some entry := by
  obtain ⟨rest, rfl⟩ := grows
  rw [List.getElem?_append_left (List.getElem?_eq_some_iff.mp here).1]
  exact here

theorem getElem?_concat_cases {history : List Entry} {last entry : Entry} {position : Nat}
    (here : (history ++ [last])[position]? = some entry) :
    history[position]? = some entry ∨ position = history.length ∧ entry = last := by
  rw [List.getElem?_append] at here
  split at here
  case isTrue => exact .inl here
  case isFalse beyond =>
      rw [List.getElem?_singleton] at here
      split at here
      case isTrue same => exact .inr ⟨by omega, (Option.some.inj here).symm⟩
      case isFalse => simp at here

/-- Entries of one kind stand at one position, also behind a new one of which
there was none. -/
theorem position_unique_concat {Same : Entry → Entry → Prop} {history : List Entry} {last : Entry}
    (unique : ∀ (first second : Nat) one other, history[first]? = some one →
      history[second]? = some other → Same one other → first = second)
    (fresh : ∀ one ∈ history, ¬ Same one last ∧ ¬ Same last one) {first second : Nat}
    {one other : Entry} (here : (history ++ [last])[first]? = some one)
    (there : (history ++ [last])[second]? = some other) (same : Same one other) :
    first = second := by
  rcases getElem?_concat_cases here with old | ⟨rfl, rfl⟩
  · rcases getElem?_concat_cases there with old' | ⟨rfl, rfl⟩
    · exact unique first second one other old old' same
    · exact ((fresh one (List.mem_of_getElem? old)).1 same).elim
  · rcases getElem?_concat_cases there with old' | ⟨rfl, rfl⟩
    · exact ((fresh other (List.mem_of_getElem? old')).2 same).elim
    · rfl

/-- A property of the entries of a history, each judged against the entries
recorded before it. -/
def AtEach (property : List Entry → Entry → Prop) (history : List Entry) : Prop :=
  ∀ before entry after, history = before ++ entry :: after → property before entry

@[simp] theorem atEach_nil (property : List Entry → Entry → Prop) :
    AtEach property [] := by
  intro before entry after split
  simp at split

/-- A history grows at its end, so each new entry is judged once. -/
@[simp] theorem atEach_concat {property : List Entry → Entry → Prop}
    {history : List Entry} {entry : Entry} :
    AtEach property (history ++ [entry]) ↔
      AtEach property history ∧ property history entry := by
  constructor
  · intro every
    refine ⟨fun before here after split => ?_, every history entry [] rfl⟩
    exact every before here (after ++ [entry]) (by simp [split])
  · rintro ⟨every, last⟩ before here after split
    rcases List.eq_nil_or_concat after with rfl | ⟨rest, final, rfl⟩
    · obtain ⟨rfl, equal⟩ := List.append_inj' split rfl
      obtain rfl : entry = here := by simpa using equal
      exact last
    · have shape : history ++ [entry] = (before ++ here :: rest) ++ [final] := by
        simpa using split
      obtain ⟨sameHistory, -⟩ := List.append_inj' shape rfl
      exact every before here rest sameHistory

/-- Entries that satisfy the property whatever came before them can be added. -/
theorem AtEach.append {property : List Entry → Entry → Prop} {history extra : List Entry}
    (every : AtEach property history)
    (harmless : ∀ entry ∈ extra, ∀ before, property before entry) :
    AtEach property (history ++ extra) := by
  induction extra using List.reverseRecOn with
  | nil => simpa using every
  | append_singleton extra entry induction =>
      rw [← List.append_assoc, atEach_concat]
      refine ⟨induction fun other member => harmless other (by simp [member]), ?_⟩
      exact harmless entry (by simp) _

end CeRs.Transition
