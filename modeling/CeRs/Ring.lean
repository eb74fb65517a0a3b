import Mathlib.Data.List.Basic

/-!
# Rings of bounded size

A send waits while the ring has no room for the frame.  In a step relation a send
that waits is a step that is not taken yet, so only what is at rest depends on
the room: a thread in front of such a send rests too.
-/

namespace CeRs

/-- Whether a send of a frame returns, while the receiver has not taken these
frames.  On an empty ring every send does, though it may fail. -/
structure Ring (Frame : Type*) where
  returns : (held : List Frame) → Frame → Bool
  empty : ∀ frame, returns [] frame = true

namespace Ring

variable {Frame : Type*}

/-- A ring with so many slots, one for each frame. -/
def slots (count : Nat) (positive : 0 < count) : Ring Frame where
  returns held _ := held.length < count
  empty _ := by simpa using positive

/-- Only frames that the receiver has not taken keep a sender waiting. -/
theorem ne_nil_of_waits {ring : Ring Frame} {held : List Frame} {frame : Frame}
    (waits : ring.returns held frame = false) : held ≠ [] := by
  rintro rfl
  rw [ring.empty] at waits
  cases waits

end Ring

end CeRs
