import CeRs.Adapt.Chain

/-!
# The links of a chain

In every run, neighbours in a chain agree on what has passed between them and on
whether their endpoint is closed.
-/

namespace CeRs.AdapterChain

open Transition Network
open ServeFlow

variable {count : Nat} {Session : Fin count → Type}
  {handlers : ∀ place, FlowHandler Frame (Session place)}
  {sessions : ∀ place, Session place} {spawned : Fin count → Bool}
  {trace : List (Label count)} {chain next : Chain Session} {label : Label count}

section Adjacent

variable {Below Above : Type} {handler : FlowHandler Frame Below}
  {other : FlowHandler Frame Above} {below : Flow Frame Frame Below}
  {above : Flow Frame Frame Above} {first second : Option (ServeFlow.Label Frame Frame)}

theorem closesUp_of_ofApp {seen : ServeFlow.Label Frame Frame} (app : ofApp seen = true) :
    closesUp below seen = false := by
  cases seen <;> simp_all [ofApp, closesUp]

theorem closesDown_of_ofUpstream {seen : ServeFlow.Label Frame Frame}
    (upstream : ofUpstream seen = true) : closesDown above seen = false := by
  cases seen <;> simp_all [ofUpstream, closesDown]

theorem emission_of_ofApp (app : ∀ label ∈ first, ofApp label = true) :
    emission (events handler) below first = [] := by
  refine emission_eq_nil fun label member => ?_
  have peer := app label member
  cases label <;> simp_all [ofApp, events]

theorem emission_of_ofUpstream (upstream : ∀ label ∈ first, ofUpstream label = true) :
    emission (events handler) below first = [] := by
  refine emission_eq_nil fun label member => ?_
  have peer := upstream label member
  cases label <;> simp_all [ofUpstream, events]

theorem fromApp?_of_ofUpstream (upstream : ∀ label ∈ first, ofUpstream label = true) :
    first.toList.filterMap ServeFlow.Label.fromApp? = [] := by
  refine List.filterMap_eq_nil_iff.mpr fun label member => ?_
  have peer := upstream label (Option.mem_toList.mp member)
  cases label <;> simp_all [ofUpstream, ServeFlow.Label.fromApp?]

theorem fromUpstream?_of_ofApp (app : ∀ label ∈ first, ofApp label = true) :
    first.toList.filterMap ServeFlow.Label.fromUpstream? = [] := by
  refine List.filterMap_eq_nil_iff.mpr fun label member => ?_
  have peer := app label (Option.mem_toList.mp member)
  cases label <;> simp_all [ofApp, ServeFlow.Label.fromUpstream?]

theorem fromApp?_label (thread : Thread) :
    [thread.label].filterMap ServeFlow.Label.fromApp? = [] := by
  cases thread <;> rfl

theorem fromUpstream?_label (thread : Thread) :
    [thread.label].filterMap ServeFlow.Label.fromUpstream? = [] := by
  cases thread <;> rfl

/-- Both neighbours close their endpoint, or neither does. -/
theorem Adjacent.closes (adjacent : Adjacent below above first second) :
    first.any (closesUp below) = second.any (closesDown above) := by
  cases adjacent with
  | below thread => exact closesUp_label above thread
  | above thread => exact (closesDown_label below thread).symm
  | outside _ _ app upstream =>
      have left : first.any (closesUp below) = false := by
        rw [Option.any_eq_false]
        exact fun label member => by simpa using closesUp_of_ofApp (app label member)
      have right : second.any (closesDown above) = false := by
        rw [Option.any_eq_false]
        exact fun label member => by
          simpa using closesDown_of_ofUpstream (upstream label member)
      rw [left, right]

theorem Adjacent.forwards (adjacent : Adjacent below above first second) :
    (emission (events handler) below first).filterMap Event.forwarded? =
      second.toList.filterMap ServeFlow.Label.fromApp? := by
  cases adjacent with
  | below thread => exact forwarded_label handler thread
  | above thread =>
      rw [emission_of_ofUpstream (ofUpstream_downward above thread)]
      exact (fromApp?_label thread).symm
  | outside _ _ app upstream =>
      rw [emission_of_ofApp app, fromApp?_of_ofUpstream upstream]
      rfl

theorem Adjacent.relays (adjacent : Adjacent below above first second) :
    (emission (events other) above second).filterMap Event.relayed? =
      first.toList.filterMap ServeFlow.Label.fromUpstream? := by
  cases adjacent with
  | above thread => exact relayed_label other thread
  | below thread =>
      rw [emission_of_ofApp (ofApp_upward below thread)]
      exact (fromUpstream?_label thread).symm
  | outside _ _ app upstream =>
      rw [emission_of_ofUpstream upstream, fromUpstream?_of_ofApp app]
      rfl

end Adjacent

theorem fromApp?_view (chain : Chain Session) (label : Label count) {place : Fin count}
    (first : place.val = 0) :
    (view chain label place).toList.filterMap ServeFlow.Label.fromApp? =
      [label].filterMap Label.app? := by
  have inside := place.isLt
  cases label with
  | appSend frame | appClose =>
      simp [view, first, List.filterMap_cons, ServeFlow.Label.fromApp?, Label.app?]
  | nodeSend frame | nodeClose =>
      refine fromApp?_of_ofUpstream ?_
      simp only [view]
      split <;> simp [ofUpstream]
  | thread acting thread =>
      simp only [view]
      split
      case isTrue => exact fromApp?_label thread
      case isFalse =>
          rw [if_neg (by omega)]
          refine fromApp?_of_ofUpstream ?_
          split
          case isTrue => exact ofUpstream_downward _ _
          case isFalse => simp

theorem fromUpstream?_view (chain : Chain Session) (label : Label count) {place : Fin count}
    (last : place.val + 1 = count) :
    (view chain label place).toList.filterMap ServeFlow.Label.fromUpstream? =
      [label].filterMap Label.node? := by
  cases label with
  | nodeSend frame | nodeClose =>
      simp [view, last, List.filterMap_cons, ServeFlow.Label.fromUpstream?, Label.node?]
  | appSend frame | appClose =>
      refine fromUpstream?_of_ofApp ?_
      simp only [view]
      split <;> simp [ofApp]
  | thread acting thread =>
      have inside := acting.isLt
      simp only [view]
      split
      case isTrue => exact fromUpstream?_label thread
      case isFalse =>
          refine fromUpstream?_of_ofApp ?_
          split
          case isTrue => exact ofApp_upward _ _
          case isFalse =>
              rw [if_neg (by omega)]
              simp

/-- What holds of neighbours, and at the ends of the chain, after a run. -/
structure Linked (handlers : ∀ place, FlowHandler Frame (Session place))
    (sessions : ∀ place, Session place) (spawned : Fin count → Bool)
    (trace : List (Label count)) (chain : Chain Session) : Prop where
  reached : execute (step handlers) (initial sessions spawned) trace = some chain
  shared : ∀ below above : Fin count, above.val = below.val + 1 →
    (chain below).upClosed = (chain above).downClosed
  upward : ∀ below above : Fin count, above.val = below.val + 1 →
    (traceAt handlers above sessions spawned trace).filterMap ServeFlow.Label.fromApp? =
      (seenAt handlers below sessions spawned trace).filterMap Event.forwarded?
  downward : ∀ below above : Fin count, above.val = below.val + 1 →
    (traceAt handlers below sessions spawned trace).filterMap ServeFlow.Label.fromUpstream? =
      (seenAt handlers above sessions spawned trace).filterMap Event.relayed?
  app : ∀ first : Fin count, first.val = 0 →
    (traceAt handlers first sessions spawned trace).filterMap ServeFlow.Label.fromApp? =
      trace.filterMap Label.app?
  node : ∀ last : Fin count, last.val + 1 = count →
    (traceAt handlers last sessions spawned trace).filterMap ServeFlow.Label.fromUpstream? =
      trace.filterMap Label.node?

theorem linked_initial (handlers : ∀ place, FlowHandler Frame (Session place))
    (sessions : ∀ place, Session place) (spawned : Fin count → Bool) :
    Linked handlers sessions spawned [] (initial sessions spawned) where
  reached := rfl
  shared _ _ _ := rfl
  upward _ _ _ := rfl
  downward _ _ _ := rfl
  app _ _ := rfl
  node _ _ := rfl

theorem seenAt_concat (place : Fin count)
    (reached : execute (step handlers) (initial sessions spawned) trace = some chain) :
    seenAt handlers place sessions spawned (trace ++ [label]) =
      seenAt handlers place sessions spawned trace ++
        emission (events (handlers place)) (chain place) (view chain label place) :=
  emitted_viewed_concat place reached

theorem traceAt_concat (place : Fin count)
    (reached : execute (step handlers) (initial sessions spawned) trace = some chain) :
    traceAt handlers place sessions spawned (trace ++ [label]) =
      traceAt handlers place sessions spawned trace ++ (view chain label place).toList :=
  viewed_concat place reached

theorem Linked.of_step (linked : Linked handlers sessions spawned trace chain)
    (stepped : step handlers chain label = some next) :
    Linked handlers sessions spawned (trace ++ [label]) next := by
  have reached := linked.reached
  have performed := netStep_eq_some_iff.mp stepped
  constructor
  case reached => exact execute_concat_eq_some.mpr ⟨chain, reached, stepped⟩
  case shared =>
      intro below above after
      rw [upClosed_of_perform (performed below), downClosed_of_perform (performed above),
        linked.shared below above after, (adjacent_view chain label after).closes]
  case upward =>
      intro below above after
      rw [traceAt_concat above reached, seenAt_concat below reached, List.filterMap_append,
        List.filterMap_append, linked.upward below above after,
        (adjacent_view chain label after).forwards]
  case downward =>
      intro below above after
      rw [traceAt_concat below reached, seenAt_concat above reached, List.filterMap_append,
        List.filterMap_append, linked.downward below above after,
        (adjacent_view chain label after).relays]
  case app =>
      intro first zero
      rw [traceAt_concat first reached, List.filterMap_append, List.filterMap_append,
        linked.app first zero, fromApp?_view chain label zero]
  case node =>
      intro last final
      rw [traceAt_concat last reached, List.filterMap_append, List.filterMap_append,
        linked.node last final, fromUpstream?_view chain label final]

theorem linked_of_execute
    (reached : execute (step handlers) (initial sessions spawned) trace = some chain) :
    Linked handlers sessions spawned trace chain :=
  invariant_of_execute (Linked handlers sessions spawned)
    (linked_initial handlers sessions spawned)
    (fun _ _ _ _ linked stepped => linked.of_step stepped) reached

theorem accounted_at (place : Fin count)
    (reached : execute (step handlers) (initial sessions spawned) trace = some chain) :
    Accounted (handlers place) (sessions place) (spawned place)
      (traceAt handlers place sessions spawned trace) (chain place) :=
  accounted_of_execute (execute_viewed place reached)

end CeRs.AdapterChain
