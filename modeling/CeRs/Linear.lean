import CeRs.Transition
import Mathlib.Data.List.Nodup

/-!
# Linearizable histories

Clients invoke operations and get replies; in between, an operation takes
effect on a sequential object at most once.  A list of effects linearizes a
history if each effect replies as the object does in that order, every reply a
client got is that of an effect, and an operation that was invoked after
another one had returned takes effect after it.  Three rules extend the
history or the effects, and the linearization survives translating operations
and replies.
-/

namespace CeRs.Linear

open Transition

variable {Id Op Reply Object : Type*}

/-- What the clients see. -/
inductive Event (Id Op Reply : Type*)
  | invoked (id : Id) (op : Op)
  | returned (id : Id) (reply : Reply)
  deriving DecidableEq, Repr

/-- An operation that has taken effect, and the reply it got. -/
structure Effect (Id Op Reply : Type*) where
  id : Id
  op : Op
  reply : Reply
  deriving DecidableEq, Repr

/-- The first operation had returned when the second one was invoked. -/
def Precedes (history : List (Event Id Op Reply)) (first second : Id) : Prop :=
  ∃ before reply after op, history = before ++ .returned first reply :: after ∧
    .invoked second op ∈ after

theorem not_precedes_nil (first second : Id) :
    ¬ Precedes ([] : List (Event Id Op Reply)) first second := by
  rintro ⟨before, reply, after, op, split, -⟩
  simp at split

/-- Precedence comes about by invoking the second operation. -/
theorem precedes_concat {history : List (Event Id Op Reply)} {event : Event Id Op Reply}
    {first second : Id} (precedes : Precedes (history ++ [event]) first second) :
    Precedes history first second ∨
      ∃ op reply, event = .invoked second op ∧ .returned first reply ∈ history := by
  obtain ⟨before, reply, after, op, split, member⟩ := precedes
  rcases List.eq_nil_or_concat after with rfl | ⟨rest, final, rfl⟩
  · simp at member
  · have shape : history ++ [event] = (before ++ .returned first reply :: rest) ++ [final] := by
      simpa using split
    obtain ⟨rfl, same⟩ := List.append_inj' shape rfl
    obtain rfl : event = final := by simpa using same
    have place : .invoked second op ∈ rest ∨ .invoked second op = event := by
      simpa using member
    rcases place with earlier | last
    · exact .inl ⟨before, reply, rest, op, rfl, earlier⟩
    · exact .inr ⟨op, reply, last.symm, by simp⟩

theorem precedes_append {history news : List (Event Id Op Reply)} {first second : Id}
    (precedes : Precedes (history ++ news) first second) :
    Precedes history first second ∨ ∃ op, .invoked second op ∈ news := by
  induction news using List.reverseRecOn with
  | nil => exact .inl (by simpa using precedes)
  | append_singleton news event induction =>
      rw [← List.append_assoc] at precedes
      rcases precedes_concat precedes with before | ⟨op, reply, rfl, -⟩
      · rcases induction before with earlier | ⟨op, member⟩
        · exact .inl earlier
        · exact .inr ⟨op, List.mem_append_left _ member⟩
      · exact .inr ⟨op, by simp⟩

theorem Precedes.returned {history : List (Event Id Op Reply)} {first second : Id}
    (precedes : Precedes history first second) :
    ∃ reply, .returned first reply ∈ history := by
  obtain ⟨before, reply, after, op, rfl, -⟩ := precedes
  exact ⟨reply, by simp⟩

theorem Precedes.extend {history more : List (Event Id Op Reply)} {first second : Id}
    (precedes : Precedes history first second) (grows : history <+: more) :
    Precedes more first second := by
  obtain ⟨before, reply, after, op, rfl, member⟩ := precedes
  obtain ⟨rest, rfl⟩ := grows
  exact ⟨before, reply, after ++ rest, op, by simp, List.mem_append_left _ member⟩

theorem precedes_of_returned {history : List (Event Id Op Reply)} {first second : Id}
    {reply : Reply} (returned : .returned first reply ∈ history) (op : Op) :
    Precedes (history ++ [.invoked second op]) first second := by
  obtain ⟨before, after, rfl⟩ := List.append_of_mem returned
  exact ⟨before, reply, after ++ [.invoked second op], op, by simp, by simp⟩

section Object

variable (apply : Object → Op → Object × Reply) (start : Object)

/-- The object after the operations, one after the other. -/
def objectAfter (ops : List Op) : Object :=
  ops.foldl (fun object op => (apply object op).1) start

@[simp] theorem objectAfter_nil : objectAfter apply start [] = start := rfl

@[simp] theorem objectAfter_concat (ops : List Op) (op : Op) :
    objectAfter apply start (ops ++ [op]) = (apply (objectAfter apply start ops) op).1 := by
  simp [objectAfter]

/-- The reply is the object's own, after the effects before it. -/
def Lawful (before : List (Effect Id Op Reply)) (effect : Effect Id Op Reply) : Prop :=
  effect.reply = (apply (objectAfter apply start (before.map Effect.op)) effect.op).2

/-- The effects are one sequential run that explains what the clients saw. -/
structure Linearizes (history : List (Event Id Op Reply)) (effects : List (Effect Id Op Reply)) :
    Prop where
  lawful : AtEach (Lawful apply start) effects
  once : (effects.map Effect.id).Nodup
  invoked : ∀ effect ∈ effects, .invoked effect.id effect.op ∈ history
  returned : ∀ id reply, .returned id reply ∈ history →
    ∃ effect ∈ effects, effect.id = id ∧ effect.reply = reply
  ordered : ∀ first second, Precedes history first second →
    second ∈ effects.map Effect.id → [first, second].Sublist (effects.map Effect.id)

variable {apply start}

theorem linearizes_nil : Linearizes apply start ([] : List (Event Id Op Reply)) [] where
  lawful := atEach_nil _
  once := List.nodup_nil
  invoked := by simp
  returned := by simp
  ordered := fun first second precedes => (not_precedes_nil first second precedes).elim

theorem Linearizes.invoke {history : List (Event Id Op Reply)}
    {effects : List (Effect Id Op Reply)} (linearizes : Linearizes apply start history effects)
    {id : Id} (op : Op) (fresh : ∀ other, .invoked id other ∉ history) :
    Linearizes apply start (history ++ [.invoked id op]) effects where
  lawful := linearizes.lawful
  once := linearizes.once
  invoked := fun effect member => List.mem_append_left _ (linearizes.invoked effect member)
  returned := fun other reply member => linearizes.returned other reply (by simpa using member)
  ordered := by
    intro first second precedes member
    rcases precedes_concat precedes with before | ⟨other, reply, new, -⟩
    · exact linearizes.ordered first second before member
    · obtain ⟨rfl, rfl⟩ := Event.invoked.inj new
      obtain ⟨effect, effective, rfl⟩ := List.mem_map.mp member
      exact (fresh effect.op (linearizes.invoked effect effective)).elim

theorem Linearizes.takeEffect {history : List (Event Id Op Reply)}
    {effects : List (Effect Id Op Reply)} (linearizes : Linearizes apply start history effects)
    {id : Id} {op : Op} (pending : .invoked id op ∈ history)
    (fresh : id ∉ effects.map Effect.id) :
    Linearizes apply start history
      (effects ++ [⟨id, op, (apply (objectAfter apply start (effects.map Effect.op)) op).2⟩]) where
  lawful := by
    rw [atEach_concat]
    exact ⟨linearizes.lawful, rfl⟩
  once := by
    rw [List.map_append]
    exact List.Nodup.append linearizes.once (List.nodup_singleton id) (by simpa using fresh)
  invoked := by
    intro effect member
    rcases List.mem_append.mp member with earlier | last
    · exact linearizes.invoked effect earlier
    · obtain rfl := List.mem_singleton.mp last
      exact pending
  returned := by
    intro other reply member
    obtain ⟨effect, effective, answer⟩ := linearizes.returned other reply member
    exact ⟨effect, List.mem_append_left _ effective, answer⟩
  ordered := by
    intro first second precedes member
    rw [List.map_append, List.map_singleton] at member ⊢
    rcases List.mem_append.mp member with earlier | last
    · exact (linearizes.ordered first second precedes earlier).trans
        (List.sublist_append_left _ _)
    · obtain rfl := List.mem_singleton.mp last
      obtain ⟨reply, answered⟩ := precedes.returned
      obtain ⟨effect, effective, rfl, -⟩ := linearizes.returned first reply answered
      have before : [effect.id].Sublist (effects.map Effect.id) :=
        List.singleton_sublist.mpr (List.mem_map_of_mem effective)
      exact before.append (List.Sublist.refl _)

theorem Linearizes.answer {history : List (Event Id Op Reply)}
    {effects : List (Effect Id Op Reply)} (linearizes : Linearizes apply start history effects)
    {effect : Effect Id Op Reply} (effective : effect ∈ effects) :
    Linearizes apply start (history ++ [.returned effect.id effect.reply]) effects where
  lawful := linearizes.lawful
  once := linearizes.once
  invoked := fun other member => List.mem_append_left _ (linearizes.invoked other member)
  returned := by
    intro id reply member
    rcases List.mem_append.mp member with earlier | last
    · exact linearizes.returned id reply earlier
    · obtain ⟨rfl, rfl⟩ := Event.returned.inj (List.mem_singleton.mp last)
      exact ⟨effect, effective, rfl, rfl⟩
  ordered := by
    intro first second precedes member
    rcases precedes_concat precedes with before | ⟨op, reply, new, -⟩
    · exact linearizes.ordered first second before member
    · simp at new

end Object

section Translation

variable {Op' Reply' : Type*} {apply : Object → Op → Object × Reply} {start : Object}

/-- The event, in terms of other operations and replies. -/
def Event.translate (onOp : Op → Op') (onReply : Reply → Reply') :
    Event Id Op Reply → Event Id Op' Reply'
  | .invoked id op => .invoked id (onOp op)
  | .returned id reply => .returned id (onReply reply)

def Effect.translate (onOp : Op → Op') (onReply : Reply → Reply')
    (effect : Effect Id Op Reply) : Effect Id Op' Reply' :=
  ⟨effect.id, onOp effect.op, onReply effect.reply⟩

variable {onOp : Op → Op'} {onReply : Reply → Reply'}

@[simp] theorem map_id_translate (effects : List (Effect Id Op Reply)) :
    (effects.map (Effect.translate onOp onReply)).map Effect.id = effects.map Effect.id := by
  simp [Effect.translate]

@[simp] theorem map_op_translate (effects : List (Effect Id Op Reply)) :
    (effects.map (Effect.translate onOp onReply)).map Effect.op =
      (effects.map Effect.op).map onOp := by
  simp [Effect.translate]

theorem translate_eq_returned {event : Event Id Op Reply} {id : Id} {reply : Reply'} :
    event.translate onOp onReply = .returned id reply ↔
      ∃ original, event = .returned id original ∧ onReply original = reply := by
  cases event <;> simp [Event.translate, and_assoc]

theorem translate_eq_invoked {event : Event Id Op Reply} {id : Id} {op : Op'} :
    event.translate onOp onReply = .invoked id op ↔
      ∃ original, event = .invoked id original ∧ onOp original = op := by
  cases event <;> simp [Event.translate, and_assoc]

theorem Precedes.of_translate {history : List (Event Id Op Reply)} {first second : Id}
    (precedes : Precedes (history.map (Event.translate onOp onReply)) first second) :
    Precedes history first second := by
  obtain ⟨before, reply, after, op, split, member⟩ := precedes
  obtain ⟨earlier, later, rfl, -, front⟩ := List.map_eq_append_iff.mp split
  obtain ⟨event, rest, rfl, here, back⟩ := List.map_eq_cons_iff.mp front
  obtain ⟨original, rfl, -⟩ := translate_eq_returned.mp here
  rw [← back] at member
  obtain ⟨other, otherMember, translated⟩ := List.mem_map.mp member
  obtain ⟨invocation, rfl, -⟩ := translate_eq_invoked.mp translated
  exact ⟨earlier, original, rest, invocation, rfl, otherMember⟩

variable {apply' : Object → Op' → Object × Reply'}

theorem objectAfter_translate
    (commutes : ∀ object op, apply' object (onOp op) =
      ((apply object op).1, onReply (apply object op).2)) (ops : List Op) :
    objectAfter apply' start (ops.map onOp) = objectAfter apply start ops := by
  induction ops using List.reverseRecOn with
  | nil => rfl
  | append_singleton ops op induction =>
      rw [List.map_append, List.map_singleton, objectAfter_concat, objectAfter_concat,
        induction, commutes]

/-- What linearizes a history, linearizes its translation to an object that does
the translated operation with the translated reply. -/
theorem Linearizes.translate {history : List (Event Id Op Reply)}
    {effects : List (Effect Id Op Reply)} (linearizes : Linearizes apply start history effects)
    (commutes : ∀ object op, apply' object (onOp op) =
      ((apply object op).1, onReply (apply object op).2)) :
    Linearizes apply' start (history.map (Event.translate onOp onReply))
      (effects.map (Effect.translate onOp onReply)) where
  lawful := by
    intro before effect after split
    obtain ⟨earlier, later, rfl, rfl, front⟩ := List.map_eq_append_iff.mp split
    obtain ⟨original, rest, rfl, rfl, -⟩ := List.map_eq_cons_iff.mp front
    have reply := linearizes.lawful earlier original rest rfl
    rw [Lawful] at reply ⊢
    rw [map_op_translate, objectAfter_translate commutes]
    simp [Effect.translate, commutes, reply]
  once := by
    rw [map_id_translate]
    exact linearizes.once
  invoked := by
    intro effect member
    obtain ⟨original, effective, rfl⟩ := List.mem_map.mp member
    exact List.mem_map.mpr ⟨_, linearizes.invoked original effective, rfl⟩
  returned := by
    intro id reply member
    obtain ⟨event, seen, translated⟩ := List.mem_map.mp member
    obtain ⟨original, rfl, rfl⟩ := translate_eq_returned.mp translated
    obtain ⟨effect, effective, rfl, rfl⟩ := linearizes.returned id original seen
    exact ⟨_, List.mem_map_of_mem effective, rfl, rfl⟩
  ordered := by
    intro first second precedes member
    rw [map_id_translate] at member ⊢
    exact linearizes.ordered first second precedes.of_translate member

end Translation

section Renaming

variable {Id' : Type*} {apply : Object → Op → Object × Reply} {start : Object}

def Effect.rename (name : Id → Id') (effect : Effect Id Op Reply) : Effect Id' Op Reply :=
  ⟨name effect.id, effect.op, effect.reply⟩

@[simp] theorem map_id_rename (name : Id → Id') (effects : List (Effect Id Op Reply)) :
    (effects.map (Effect.rename name)).map Effect.id = (effects.map Effect.id).map name := by
  simp [Effect.rename]

@[simp] theorem map_op_rename (name : Id → Id') (effects : List (Effect Id Op Reply)) :
    (effects.map (Effect.rename name)).map Effect.op = effects.map Effect.op := by
  simp [Effect.rename]

/-- What linearizes a history, linearizes one of a component around it, in which
the operations have other names, are invoked earlier and return later. -/
theorem Linearizes.rename {history : List (Event Id Op Reply)}
    {outer : List (Event Id' Op Reply)} {effects : List (Effect Id Op Reply)}
    (linearizes : Linearizes apply start history effects) (name : Id → Id')
    (injective : ∀ first ∈ effects.map Effect.id, ∀ second ∈ effects.map Effect.id,
      name first = name second → first = second)
    (invoked : ∀ effect ∈ effects, .invoked (name effect.id) effect.op ∈ outer)
    (returned : ∀ id reply, .returned id reply ∈ outer →
      ∃ original, name original = id ∧ .returned original reply ∈ history)
    (ordered : ∀ first ∈ effects.map Effect.id, ∀ second ∈ effects.map Effect.id,
      Precedes outer (name first) (name second) → Precedes history first second) :
    Linearizes apply start outer (effects.map (Effect.rename name)) where
  lawful := by
    intro before effect after split
    obtain ⟨earlier, later, rfl, rfl, front⟩ := List.map_eq_append_iff.mp split
    obtain ⟨original, rest, rfl, rfl, -⟩ := List.map_eq_cons_iff.mp front
    have reply := linearizes.lawful earlier original rest rfl
    rw [Lawful] at reply ⊢
    rw [map_op_rename]
    exact reply
  once := by
    rw [map_id_rename]
    exact linearizes.once.map_on fun first member second other =>
      injective first member second other
  invoked := by
    intro effect member
    obtain ⟨original, effective, rfl⟩ := List.mem_map.mp member
    exact invoked original effective
  returned := by
    intro id reply member
    obtain ⟨original, rfl, heard⟩ := returned id reply member
    obtain ⟨effect, effective, rfl, rfl⟩ := linearizes.returned original reply heard
    exact ⟨_, List.mem_map_of_mem effective, rfl, rfl⟩
  ordered := by
    intro first second precedes member
    rw [map_id_rename] at member ⊢
    obtain ⟨later, second, rfl⟩ := List.mem_map.mp member
    obtain ⟨reply, seen⟩ := precedes.returned
    obtain ⟨earlier, rfl, heard⟩ := returned first reply seen
    obtain ⟨effect, effective, rfl, -⟩ := linearizes.returned earlier reply heard
    have before := ordered effect.id (List.mem_map_of_mem effective) later second precedes
    exact (linearizes.ordered effect.id later before second).map name

end Renaming

end CeRs.Linear
