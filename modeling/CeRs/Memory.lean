import Mathlib.Algebra.Group.Nat.Defs
import Mathlib.Data.List.Basic

/-!
# Vectors that grow

A vector asks the allocator for more bytes when it has to hold more than its
capacity.  The allocator may refuse any request, and refuses every one that is
larger than an allocation can be; a refused request ends the program.
-/

namespace CeRs.Memory

/-- The largest number of bytes a slice or a vector can hold. -/
def isizeMax : Nat := 2 ^ 63 - 1

/-- What a vector of the capacity `held` gets when it has to hold `wanted`
bytes: its new capacity, or nothing.  A vector only grows, so it makes no request
twice, and each can be answered at will. -/
structure Allocator where
  grow : (held wanted : Nat) → Option Nat
  sufficient : ∀ {held wanted capacity}, grow held wanted = some capacity → wanted ≤ capacity
  bounded : ∀ {held wanted capacity}, grow held wanted = some capacity → capacity ≤ isizeMax

namespace Allocator

/-- An allocator that refuses what is larger than the memory. -/
def upTo (memory : Nat) (spanned : memory ≤ isizeMax) : Allocator where
  grow _ wanted := if wanted ≤ memory then some wanted else none
  sufficient granted := by
    obtain ⟨-, same⟩ := Option.ite_none_right_eq_some.mp granted
    exact Nat.le_of_eq (Option.some.inj same)
  bounded granted := by
    obtain ⟨small, same⟩ := Option.ite_none_right_eq_some.mp granted
    exact Option.some.inj same ▸ Nat.le_trans small spanned

/-- An allocator that refuses only what is too large for a vector. -/
def ample : Allocator :=
  upTo isizeMax (Nat.le_refl _)

variable (allocator : Allocator)

/-- The capacity with which so many bytes can be held. -/
def reserve (held wanted : Nat) : Option Nat :=
  if wanted ≤ held then some held else allocator.grow held wanted

/-- `Vec::with_capacity` returns. -/
def Grants (bytes : Nat) : Prop :=
  (allocator.reserve 0 bytes).isSome = true

instance (bytes : Nat) : Decidable (allocator.Grants bytes) :=
  inferInstanceAs (Decidable (_ = true))

variable {Element : Type}

/-- A vector of this capacity and length can be extended by all the parts. -/
def takes : (held length : Nat) → List (List Element) → Bool
  | _, _, [] => true
  | held, length, part :: rest =>
      match allocator.reserve held (length + part.length) with
      | none => false
      | some capacity => takes capacity (length + part.length) rest

/-- A vector can be made with a capacity and then extended by all the parts. -/
def collects (bytes : Nat) (parts : List (List Element)) : Bool :=
  match allocator.reserve 0 bytes with
  | none => false
  | some capacity => allocator.takes capacity 0 parts

variable {allocator}

theorem reserve_of_le {held wanted : Nat} (fits : wanted ≤ held) :
    allocator.reserve held wanted = some held :=
  if_pos fits

theorem le_of_reserve {held wanted capacity : Nat}
    (reserved : allocator.reserve held wanted = some capacity) : wanted ≤ capacity := by
  rw [reserve] at reserved
  split at reserved
  case isTrue fits => exact Option.some.inj reserved ▸ fits
  case isFalse => exact allocator.sufficient reserved

theorem le_isizeMax_of_grants {bytes : Nat} (granted : allocator.Grants bytes) :
    bytes ≤ isizeMax := by
  obtain ⟨capacity, reserved⟩ := Option.isSome_iff_exists.mp granted
  rw [reserve] at reserved
  split at reserved
  case isTrue none => exact Nat.le_trans none (Nat.zero_le _)
  case isFalse => exact Nat.le_trans (allocator.sufficient reserved) (allocator.bounded reserved)

theorem grants_ample {bytes : Nat} : ample.Grants bytes ↔ bytes ≤ isizeMax := by
  refine ⟨le_isizeMax_of_grants, fun small => ?_⟩
  rw [Grants, reserve]
  split
  · rfl
  · simp [ample, upTo, small]

theorem takes_of_le {held length : Nat} {parts : List (List Element)}
    (fits : length + parts.flatten.length ≤ held) : allocator.takes held length parts = true := by
  induction parts generalizing length with
  | nil => rfl
  | cons part rest induction =>
      rw [List.flatten_cons, List.length_append] at fits
      rw [takes, reserve_of_le (by omega)]
      exact induction (by omega)

theorem collects_iff_of_length {bytes : Nat} {parts : List (List Element)}
    (whole : parts.flatten.length = bytes) :
    allocator.collects bytes parts = true ↔ allocator.Grants bytes := by
  rw [collects, Grants]
  cases reserved : allocator.reserve 0 bytes with
  | none => simp
  | some capacity =>
      have fits := le_of_reserve reserved
      simpa using takes_of_le (by omega)

end Allocator

end CeRs.Memory
