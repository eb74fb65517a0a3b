import CeRs.Serve.Connection

/-!
# Providing a capability: the serve loop and the register loop

`provide_with` runs two loops against one node.  The serve loop subscribes the
capability's topic and raises the readiness flag; the register loop waits for
the flag and then advertises the capability on every heartbeat.  The flag is
never lowered, while the subscription it stands for lives in the node's memory:
a restart of the node takes the subscription away and leaves the flag up.
-/

namespace CeRs.Capability

open Transition

/-- `topic`, derived from the capability's name. -/
def topic (name : String) : String := "cap/" ++ name

/-- The arguments `provide_with` passes to `serve_where_signal`. -/
def serveConfig (name : String) : Serve.Config where
  subscribe := [topic name]
  accept := fun other => other == topic name
  signalled := true

/-- What the register loop is suspended in: the polls of the readiness flag
and the sleeps between them, then the advertise calls and the heartbeats. -/
inductive RegisterPoint
  | polling
  | pollSleeping
  | advertising
  | heartbeat
  | returned
  deriving DecidableEq, Repr

/-- One thing that happened between the two loops and the node. -/
inductive Event
  | confirmed (topic : String)
  | advertised (service : String)
  | restarted
  deriving DecidableEq, Repr

/-- `subscriptions` is the subscription set in the memory of the node's
current process. -/
structure State where
  serve : Serve.State
  register : RegisterPoint
  subscriptions : Finset String
  shutdown : Bool
  history : List Event

/-- One step of either loop, of the node, or of the caller that shuts both
loops down. -/
inductive Label
  | serve (input : Serve.Input)
  | poll
  | pollSlept
  | advertiseOk
  | advertiseErr
  | heartbeatSlept
  | registerStopped
  | restart
  | shutdown
  deriving DecidableEq, Repr

def initial : State where
  serve := Serve.initial
  register := .polling
  subscriptions := ∅
  shutdown := false
  history := []

/-- What a step of the serve loop does to the node: a confirmed subscription
enters the memory of its current process. -/
def confirm (state : State) : Serve.Input → State
  | .subscribeOk =>
      match state.serve.point with
      | .subscribing topic _ =>
          { state with
            subscriptions := insert topic state.subscriptions
            history := state.history ++ [.confirmed topic] }
      | _ => state
  | _ => state

/-- Both loops see the one shared shutdown. -/
def step (name : String) (state : State) : Label → Option State
  | .serve input =>
      if input = .shutdown ∧ state.shutdown = false then none
      else
        (Serve.step (serveConfig name) state.serve input).map fun next =>
          { confirm state input with serve := next }
  | .poll =>
      match state.register with
      | .polling =>
          some { state with
            register := if state.serve.ready then .advertising else .pollSleeping }
      | _ => none
  | .pollSlept =>
      match state.register with
      | .pollSleeping => some { state with register := .polling }
      | _ => none
  | .advertiseOk =>
      match state.register with
      | .advertising =>
          some { state with
            register := .heartbeat
            history := state.history ++ [.advertised name] }
      | _ => none
  | .advertiseErr =>
      match state.register with
      | .advertising => some { state with register := .heartbeat }
      | _ => none
  | .heartbeatSlept =>
      match state.register with
      | .heartbeat => some { state with register := .advertising }
      | _ => none
  | .registerStopped =>
      match state.register with
      | .pollSleeping | .heartbeat =>
          if state.shutdown then some { state with register := .returned } else none
      | _ => none
  -- The stream the process had open breaks with it; the serve loop learns of
  -- that through `streamErr` or `streamEnd`, once it has read what was buffered.
  | .restart =>
      some { state with subscriptions := ∅, history := state.history ++ [.restarted] }
  | .shutdown => some { state with shutdown := true }

/-- The node has restarted since it last confirmed the topic. -/
def RestartedSince (topic : String) (history : List Event) : Prop :=
  ∃ earlier since, history = earlier ++ .restarted :: since ∧ .confirmed topic ∉ since

/-- What the two loops know of the node. -/
structure Coordinated (name : String) (state : State) : Prop where
  ordered : Serve.Ordered (serveConfig name) state.serve
  confirmed : ∀ other, .confirmed other ∈ state.serve.history →
    .confirmed other ∈ state.history
  register : state.register = .advertising ∨ state.register = .heartbeat →
    state.serve.ready = true
  subscriptions : ∀ other, other ∈ state.subscriptions ↔
    .confirmed other ∈ state.history ∧ ¬ RestartedSince other state.history

theorem restartedSince_concat {topic : String} {history : List Event} {event : Event} :
    RestartedSince topic (history ++ [event]) ↔
      event = .restarted ∨ (RestartedSince topic history ∧ event ≠ .confirmed topic) := by
  constructor
  · rintro ⟨earlier, since, split, unconfirmed⟩
    rcases List.eq_nil_or_concat since with rfl | ⟨rest, last, rfl⟩
    · obtain ⟨-, equal⟩ := List.append_inj' split rfl
      exact .inl (by simpa using equal)
    · have shape : history ++ [event] = (earlier ++ .restarted :: rest) ++ [last] := by
        simpa using split
      obtain ⟨sameHistory, sameEvent⟩ := List.append_inj' shape rfl
      obtain rfl : event = last := by simpa using sameEvent
      refine .inr ⟨⟨earlier, rest, sameHistory, fun member => ?_⟩, fun equal => ?_⟩
      · exact unconfirmed (by simp [member])
      · exact unconfirmed (by simp [equal])
  · rintro (rfl | ⟨⟨earlier, since, rfl, unconfirmed⟩, different⟩)
    · exact ⟨history, [], rfl, by simp⟩
    · exact ⟨earlier, since ++ [event], by simp, by simp [unconfirmed, different.symm]⟩

theorem coordinated_initial (name : String) : Coordinated name initial where
  ordered := Serve.ordered_initial _
  confirmed := by simp [initial, Serve.initial]
  register := by simp [initial]
  subscriptions := by simp [initial]

theorem confirmed_of_established {name : String} {history : List Serve.Event}
    {connection : Nat}
    (established : Serve.Established (serveConfig name) history connection) :
    .confirmed (topic name) ∈ history := by
  obtain ⟨before, after, rfl, -⟩ := established
  simp [serveConfig]

theorem ready_of_moves {config : Serve.Config} {state next : Serve.State}
    {input : Serve.Input} (ready : state.ready = true)
    (moves : Serve.Moves config state input next) : next.ready = true := by
  have subscribed : ∀ (other : Serve.State) (rest : List String), other.ready = true →
      (Serve.subscribeFrom config other rest).ready = true := by
    intro other rest set
    cases rest <;> simp [Serve.subscribeFrom, set]
  cases moves with
  | opened => exact subscribed _ _ ready
  | subscribed => exact subscribed _ _ ready
  | delivered message next point delivery => cases delivery <;> simpa using ready
  | _ => exact ready

theorem confirmed_of_moves {config : Serve.Config} {state next : Serve.State}
    {input : Serve.Input} {other : String}
    (moves : Serve.Moves config state input next)
    (member : .confirmed other ∈ next.history) :
    .confirmed other ∈ state.history ∨
      (input = .subscribeOk ∧ ∃ rest, state.point = .subscribing other rest) := by
  have subscribed : ∀ (later : Serve.State) (rest : List String),
      .confirmed other ∈ (Serve.subscribeFrom config later rest).history →
        .confirmed other ∈ later.history := by
    intro later rest inside
    cases rest <;> exact inside
  cases moves with
  | opened => exact .inl (by simpa using subscribed _ _ member)
  | subscribed topic rest point =>
      have inside := subscribed _ _ member
      simp only [Serve.log_history, List.mem_append, List.mem_singleton,
        Serve.Event.confirmed.injEq] at inside
      rcases inside with old | rfl
      · exact .inl old
      · exact .inr ⟨rfl, rest, point⟩
  | delivered message next point delivery =>
      left
      cases delivery with
      | unwanted => simpa using member
      | duplicate => simpa using member
      | undecodable token =>
          simp only [Serve.remember_history, Serve.log_history, List.mem_append] at member
          rcases member with (old | new) | new
          · exact old
          · simp at new
          · rcases Serve.mem_marks new with equal | equal <;> simp at equal
      | called token =>
          simp only [Serve.remember_history, Serve.log_history, List.mem_append] at member
          rcases member with ((old | new) | new) | new
          · exact old
          · simp at new
          · rcases Serve.mem_marks new with equal | equal <;> simp at equal
          · simp at new
  | stopped | failed | ended | rejected => exact .inl member
  | openFailed | refused | slept | replied | accepted => exact .inl (by simpa using member)

/-- A confirmed subscription is on record in both histories, and the node
holds it. -/
theorem Coordinated.serve {name : String} {state : State} {input : Serve.Input}
    {next : Serve.State} (coordinated : Coordinated name state)
    (moves : Serve.Moves (serveConfig name) state.serve input next) :
    Coordinated name { confirm state input with serve := next } := by
  have ordered := Serve.ordered_moves coordinated.ordered moves
  have ready : state.serve.ready = true → next.ready = true :=
    fun ready => ready_of_moves ready moves
  by_cases subscribed : ∃ other rest,
      input = .subscribeOk ∧ state.serve.point = .subscribing other rest
  · obtain ⟨other, rest, rfl, point⟩ := subscribed
    refine ⟨ordered, ?_, ?_, ?_⟩
    · intro topic member
      simp only [confirm, point, List.mem_append, List.mem_singleton]
      rcases confirmed_of_moves moves member with old | ⟨-, later, same⟩
      · exact .inl (coordinated.confirmed topic old)
      · obtain ⟨rfl, -⟩ : other = topic ∧ rest = later := by simpa using point.symm.trans same
        exact .inr rfl
    · intro point'
      exact ready (coordinated.register (by simpa [confirm, point] using point'))
    · intro topic
      simp only [confirm, point, Finset.mem_insert, coordinated.subscriptions topic,
        List.mem_append, List.mem_singleton, restartedSince_concat, Event.confirmed.injEq]
      by_cases same : topic = other
      · simp [same]
      · simp [same, Ne.symm same]
  · have unchanged : confirm state input = state := by
      unfold confirm
      split
      · split
        · exact (subscribed ⟨_, _, rfl, ‹_›⟩).elim
        · rfl
      · rfl
    rw [unchanged]
    refine ⟨ordered, ?_, fun point => ready (coordinated.register point),
      coordinated.subscriptions⟩
    intro topic member
    rcases confirmed_of_moves moves member with old | ⟨equal, later, same⟩
    · exact coordinated.confirmed topic old
    · exact (subscribed ⟨topic, later, equal, same⟩).elim

theorem Coordinated.moveTo {name : String} {state : State}
    (coordinated : Coordinated name state) (register : RegisterPoint)
    (ready : register = .advertising ∨ register = .heartbeat → state.serve.ready = true) :
    Coordinated name { state with register } :=
  ⟨coordinated.ordered, coordinated.confirmed, ready, coordinated.subscriptions⟩

theorem Coordinated.advertised {name : String} {state : State}
    (coordinated : Coordinated name state) :
    Coordinated name { state with history := state.history ++ [.advertised name] } where
  ordered := coordinated.ordered
  confirmed other member := by simp [coordinated.confirmed other member]
  register := coordinated.register
  subscriptions other := by
    simp [coordinated.subscriptions other, restartedSince_concat]

theorem Coordinated.restart {name : String} {state : State}
    (coordinated : Coordinated name state) :
    Coordinated name
      { state with subscriptions := ∅, history := state.history ++ [.restarted] } where
  ordered := coordinated.ordered
  confirmed other member := by simp [coordinated.confirmed other member]
  register := coordinated.register
  subscriptions other := by simp [restartedSince_concat]

theorem coordinated_step {name : String} {state next : State} {label : Label}
    (coordinated : Coordinated name state) (stepped : step name state label = some next) :
    Coordinated name next := by
  cases label with
  | serve input =>
      simp only [step] at stepped
      split at stepped
      · simp at stepped
      · obtain ⟨after, served, rfl⟩ := Option.map_eq_some_iff.mp stepped
        exact coordinated.serve (Serve.moves_of_step served)
  | poll =>
      simp only [step] at stepped
      split at stepped <;> simp only [Option.some.injEq, reduceCtorEq] at stepped
      subst stepped
      apply coordinated.moveTo _
      cases ready : state.serve.ready <;> simp
  | pollSlept =>
      simp only [step] at stepped
      split at stepped <;> simp only [Option.some.injEq, reduceCtorEq] at stepped
      exact stepped ▸ coordinated.moveTo .polling (by simp)
  | advertiseOk =>
      simp only [step] at stepped
      split at stepped <;> simp only [Option.some.injEq, reduceCtorEq] at stepped
      exact stepped ▸ coordinated.advertised.moveTo .heartbeat
        fun _ => coordinated.register (.inl ‹_›)
  | advertiseErr =>
      simp only [step] at stepped
      split at stepped <;> simp only [Option.some.injEq, reduceCtorEq] at stepped
      exact stepped ▸ coordinated.moveTo .heartbeat fun _ => coordinated.register (.inl ‹_›)
  | heartbeatSlept =>
      simp only [step] at stepped
      split at stepped <;> simp only [Option.some.injEq, reduceCtorEq] at stepped
      exact stepped ▸ coordinated.moveTo .advertising fun _ => coordinated.register (.inr ‹_›)
  | registerStopped =>
      have returned : next = { state with register := .returned } := by
        simp only [step] at stepped
        split at stepped
        · split at stepped <;> simp_all
        · split at stepped <;> simp_all
        · simp at stepped
      exact returned ▸ coordinated.moveTo .returned (by simp)
  | restart =>
      obtain rfl := Option.some.inj stepped
      exact coordinated.restart
  | shutdown =>
      obtain rfl := Option.some.inj stepped
      exact ⟨coordinated.ordered, coordinated.confirmed, coordinated.register,
        coordinated.subscriptions⟩

theorem coordinated_of_execute {name : String} {trace : List Label} {state : State}
    (run : execute (step name) initial trace = some state) : Coordinated name state :=
  stateInvariant_of_execute (Coordinated name) (coordinated_initial name)
    (fun _ _ _ coordinated stepped => coordinated_step coordinated stepped) run

/-- What an accepted advertise says about the node: the serve loop has been
through the whole sequence on some connection, the node has confirmed the
topic, and its current process holds the subscription exactly if it has not
restarted since. -/
def AdvertisesConfirmed (name : String) (state : State) (label : Label) : Prop :=
  label = .advertiseOk → state.register = .advertising →
    (∃ connection,
        Serve.Established (serveConfig name) state.serve.history connection) ∧
      .confirmed (topic name) ∈ state.history ∧
      (topic name ∈ state.subscriptions ↔ ¬ RestartedSince (topic name) state.history)

/-- Every advertise the node accepts follows a confirmed subscription, which
the node still holds unless it has restarted since it confirmed it. -/
theorem advertise_follows_confirmation (name : String) (trace : List Label) :
    EveryStep (step name) (AdvertisesConfirmed name) initial trace := by
  intro before label after state split reached _ advertising
  have coordinated := coordinated_of_execute reached
  obtain ⟨connection, established⟩ :=
    coordinated.ordered.ready (coordinated.register (.inl advertising))
  have recorded := coordinated.confirmed _ (confirmed_of_established established)
  refine ⟨⟨connection, established⟩, recorded, ?_⟩
  simpa [recorded] using coordinated.subscriptions (topic name)

/-- The node restarts between two heartbeats and accepts the second advertise
before the serve loop has subscribed again. -/
theorem advertised_without_subscription :
    ¬ ∀ (name : String) (trace : List Label) (state : State),
      execute (step name) initial trace = some state →
        EveryStep (step name) (fun state label =>
          label = .advertiseOk → state.register = .advertising →
            topic name ∈ state.subscriptions) initial trace := by
  intro subscribed
  have every := subscribed "greet"
    ([.serve .openOk, .serve .subscribeOk, .poll, .advertiseOk, .restart, .heartbeatSlept] ++
      [.advertiseOk]) _ rfl
  have member := every _ .advertiseOk [] _ rfl rfl rfl rfl
  revert member
  decide

end CeRs.Capability
