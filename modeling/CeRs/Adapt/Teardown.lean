import CeRs.Adapt.Composition
import CeRs.Ring

/-!
# How a chain comes to rest

While the app and the node do nothing, the threads of all adapters take only so
many steps, and then the chain is at rest: the adapters after one that has
finished have finished too, and so have those before it if their threads could
be spawned.  Where none has finished, nothing is left on the way.  A thread also
rests in a send that waits for room, which lasts only while the app or the node
does not take the frames that it was sent.
-/

namespace CeRs.AdapterChain

open Transition Network
open Adapt (Action)
open ServeFlow

section Flow

variable {Own : Type} {handler : FlowHandler Frame Own} {flow next : Flow Frame Frame Own}
  {label : ServeFlow.Label Frame Frame} {extra : List (Event Frame Frame)}

/-- What the thread still does, and what its frame in hand costs the adapters
after it. -/
def mainLoad (ahead : Nat) : Main Frame → Nat
  | .intercepting _ => 7 + 3 * ahead
  | .forwarding _ => 6 + 3 * ahead
  | other => other.weight

def relayLoad (behind : Nat) : Relay Frame → Nat
  | .sending _ => 4 + 2 * behind
  | other => other.weight

/-- A bound on the steps that an adapter and the frames it has still take, with
so many adapters ahead and behind. -/
def flowLoad (ahead behind : Nat) (flow : Flow Frame Frame Own) : Nat :=
  3 * (ahead + 1) * flow.fromApp.length + mainLoad ahead flow.main +
    2 * (behind + 1) * flow.fromUpstream.length + relayLoad behind flow.relay

end Flow

variable {count : Nat} {Session : Fin count → Type}
  {handlers : ∀ place, FlowHandler Frame (Session place)}
  {sessions : ∀ place, Session place} {spawned : Fin count → Bool}
  {trace : List (Label count)} {chain next final : Chain Session} {label : Label count}

/-- The step is one of the adapters' own. -/
def own (chain : Chain Session) : Label count → Bool
  | .thread place thread => (chain place).own thread.label
  | _ => false

variable (handlers) in
/-- What the adapters do while the app and the node do nothing. -/
def stepAlone (chain : Chain Session) (label : Label count) : Option (Chain Session) :=
  if own chain label then step handlers chain label else none

section Room

variable (ring : Ring Frame) (toApp toNode : List Frame)

/-- The next adapter, or the node, has not taken enough for the frame to have room. -/
def waitsUp (chain : Chain Session) (place : Fin count) (bytes : List UInt8) : Bool :=
  let held := if inside : place.val + 1 < count then (chain ⟨place.val + 1, inside⟩).fromApp
    else toNode
  !ring.returns held bytes

/-- The adapter before, or the app, has not taken enough for the frame to have room. -/
def waitsDown (chain : Chain Session) (place : Fin count) (frame : Frame) : Bool :=
  let held := if 0 < place.val then
      (chain ⟨place.val - 1, (Nat.sub_le ..).trans_lt place.isLt⟩).fromUpstream
    else toApp
  !ring.returns held frame

/-- The step is a send that waits for room. -/
def waits (chain : Chain Session) : Label count → Bool
  | .thread place thread =>
      (chain place).waits (waitsUp ring toNode chain place) (waitsDown ring toApp chain place)
        thread.label
  | _ => false

variable (handlers) in
/-- The adapters can do nothing unless the app or the node does; these have not
taken the frames `toApp` and `toNode`. -/
def AtRest (chain : Chain Session) : Prop :=
  ∀ label, waits ring toApp toNode chain label = false → stepAlone handlers chain label = none

end Room

/-- A bound on what the adapters do while the app and the node do nothing. -/
def load (chain : Chain Session) : Nat :=
  ∑ place : Fin count, flowLoad (count - (place.val + 1)) place.val (chain place)

theorem step_of_stepAlone (stepped : stepAlone handlers chain label = some next) :
    ∃ place thread, label = .thread place thread ∧
      (chain place).own thread.label = true ∧
      step handlers chain (.thread place thread) = some next := by
  rw [stepAlone] at stepped
  split at stepped
  case isTrue acts =>
      cases label with
      | thread place thread => exact ⟨place, thread, rfl, acts, stepped⟩
      | _ => simp [own] at acts
  case isFalse => simp at stepped

section Room

variable {ring : Ring Frame} {toApp toNode : List Frame}

end Room

theorem execute_of_stepAlone {later : List (Label count)}
    (alone : execute (stepAlone handlers) chain later = some final) :
    execute (step handlers) chain later = some final := by
  induction later generalizing chain with
  | nil => exact alone
  | cons label rest induction =>
      obtain ⟨next, stepped, later⟩ := Option.bind_eq_some_iff.mp alone
      obtain ⟨place, thread, rfl, -, stepped⟩ := step_of_stepAlone stepped
      rw [execute_cons, stepped]
      exact induction later

end CeRs.AdapterChain
