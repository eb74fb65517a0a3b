import CeRs.Adapt.ServeFlow
import Mathlib.Logic.Function.Basic

/-!
# One handler after another

What a handler lets through of a sequence of requests, and the handler that asks
several in turn: each gets what the one before it forwards, and the first denial
counts.  It lets through what they let through one after the other.
-/

namespace CeRs.ServeFlow

open Adapt (Action)

section Single

variable {Request Session : Type} (handler : FlowHandler Request Session)

/-- What the handler forwards of some requests, up to its first denial. -/
def FlowHandler.forwards : Session → List Request → List (List UInt8)
  | _, [] => []
  | session, request :: rest =>
      match handler.intercept session request with
      | (.forward bytes, next) => bytes :: FlowHandler.forwards next rest
      | (.deny _, _) => []

variable {session next : Session} {request : Request} {rest : List Request}

theorem FlowHandler.forwards_cons_of_forward {bytes : List UInt8}
    (action : handler.intercept session request = (.forward bytes, next)) :
    handler.forwards session (request :: rest) = bytes :: handler.forwards next rest := by
  simp [forwards, action]

theorem FlowHandler.forwards_cons_of_deny {reason : String}
    (action : handler.intercept session request = (.deny reason, next)) :
    handler.forwards session (request :: rest) = [] := by
  simp [forwards, action]

variable {handler}

theorem FlowHandler.forwards_append {served : List Request} {forwarded : List (List UInt8)}
    (actions : handler.actions session served = forwarded.map Action.forward)
    (rest : List Request) :
    handler.forwards session (served ++ rest) =
      forwarded ++ handler.forwards (handler.after session served) rest := by
  induction served generalizing session forwarded with
  | nil =>
      obtain rfl : forwarded = [] := by simpa [FlowHandler.actions] using actions
      rfl
  | cons request others induction =>
      cases forwarded with
      | nil => simp [FlowHandler.actions] at actions
      | cons bytes later =>
          simp only [FlowHandler.actions, List.map_cons, List.cons.injEq] at actions
          obtain ⟨first, others⟩ := actions
          rw [List.cons_append, forwards_cons_of_forward handler (Prod.ext first rfl),
            induction others]
          rfl

theorem FlowHandler.forwards_isPrefix {first second : List Request} (shorter : first <+: second)
    (session : Session) :
    handler.forwards session first <+: handler.forwards session second := by
  obtain ⟨more, rfl⟩ := shorter
  induction first generalizing session with
  | nil => exact List.nil_prefix
  | cons request rest induction =>
      cases action : handler.intercept session request with
      | mk act next =>
          cases act with
          | forward bytes =>
              rw [List.cons_append, forwards_cons_of_forward handler action,
                forwards_cons_of_forward handler action]
              exact List.prefix_cons_inj bytes |>.mpr (induction next)
          | deny reason =>
              rw [forwards_cons_of_deny handler action]
              exact List.nil_prefix

end Single

variable {count : Nat} {Session : Fin count → Type}
  (handlers : ∀ place, FlowHandler (List UInt8) (Session place))

/-- Ask the first `upTo` handlers in turn. -/
def interceptAll : (upTo : Nat) → upTo ≤ count → (∀ place, Session place) → List UInt8 →
    Action × (∀ place, Session place)
  | 0, _, sessions, request => (.forward request, sessions)
  | upTo + 1, inside, sessions, request =>
      match interceptAll upTo (Nat.le_of_succ_le inside) sessions request with
      | (.forward bytes, sessions) =>
          let place : Fin count := ⟨upTo, inside⟩
          let (action, session) := (handlers place).intercept (sessions place) bytes
          (action, Function.update sessions place session)
      | (.deny reason, sessions) => (.deny reason, sessions)

/-- The handler that asks the first `upTo` handlers in turn. -/
def inTurn (upTo : Nat) (inside : upTo ≤ count) :
    FlowHandler (List UInt8) (∀ place, Session place) where
  intercept := interceptAll handlers upTo inside
  onClose sessions := fun place =>
    if place.val < upTo then (handlers place).onClose (sessions place) else sessions place

/-- The sessions agree at the first `upTo` places. -/
def AgreeBelow (upTo : Nat) (first second : ∀ place, Session place) : Prop :=
  ∀ place, place.val < upTo → first place = second place

variable {handlers} {upTo : Nat} {sessions other : ∀ place, Session place}

variable (handlers sessions) in
theorem interceptAll_untouched (inside : upTo ≤ count) (request : List UInt8) (place : Fin count)
    (beyond : upTo ≤ place.val) :
    (interceptAll handlers upTo inside sessions request).2 place = sessions place := by
  induction upTo with
  | zero => rfl
  | succ upTo induction =>
      have before := induction (Nat.le_of_succ_le inside) (by omega)
      rw [interceptAll]
      split
      case h_1 bytes middle asked =>
          rw [asked] at before
          have apart : place ≠ ⟨upTo, inside⟩ := by grind
          simpa [Function.update_of_ne apart] using before
      case h_2 reason middle asked => rwa [asked] at before

theorem kept_of_asked (inside : upTo ≤ count) {request : List UInt8} {action : Action}
    {middle : ∀ place, Session place}
    (asked : interceptAll handlers upTo inside sessions request = (action, middle))
    (place : Fin count) (beyond : upTo ≤ place.val) : middle place = sessions place := by
  have kept := interceptAll_untouched handlers sessions inside request place beyond
  rwa [asked] at kept

/-- The next handler is asked what the others forward. -/
theorem interceptAll_of_forward (inside : upTo + 1 ≤ count) {request bytes : List UInt8}
    {middle : ∀ place, Session place}
    (asked : interceptAll handlers upTo (Nat.le_of_succ_le inside) sessions request =
      (.forward bytes, middle)) :
    interceptAll handlers (upTo + 1) inside sessions request =
      (((handlers ⟨upTo, inside⟩).intercept (sessions ⟨upTo, inside⟩) bytes).1,
        Function.update middle ⟨upTo, inside⟩
          ((handlers ⟨upTo, inside⟩).intercept (sessions ⟨upTo, inside⟩) bytes).2) := by
  have kept := kept_of_asked (Nat.le_of_succ_le inside) asked ⟨upTo, inside⟩ (Nat.le_refl _)
  simp only [interceptAll, asked]
  rw [← kept]

/-- After a denial no further handler is asked. -/
theorem interceptAll_of_deny (inside : upTo + 1 ≤ count) {request : List UInt8}
    {reason : String} {middle : ∀ place, Session place}
    (asked : interceptAll handlers upTo (Nat.le_of_succ_le inside) sessions request =
      (.deny reason, middle)) :
    interceptAll handlers (upTo + 1) inside sessions request = (.deny reason, middle) := by
  simp only [interceptAll, asked]

variable (handlers) in
/-- The answer and what becomes of the asked sessions depend on these alone. -/
theorem interceptAll_congr (inside : upTo ≤ count) (request : List UInt8)
    (agree : AgreeBelow upTo sessions other) :
    (interceptAll handlers upTo inside sessions request).1 =
        (interceptAll handlers upTo inside other request).1 ∧
      AgreeBelow upTo (interceptAll handlers upTo inside sessions request).2
        (interceptAll handlers upTo inside other request).2 := by
  induction upTo with
  | zero => exact ⟨rfl, fun place less => absurd less (Nat.not_lt_zero _)⟩
  | succ upTo induction =>
      obtain ⟨same, after⟩ := induction (Nat.le_of_succ_le inside)
        fun place less => agree place (by omega)
      have here : sessions ⟨upTo, inside⟩ = other ⟨upTo, inside⟩ :=
        agree _ (Nat.lt_succ_self upTo)
      cases first : interceptAll handlers upTo (Nat.le_of_succ_le inside) sessions request with
      | mk action next =>
          cases second : interceptAll handlers upTo (Nat.le_of_succ_le inside) other request with
          | mk action' next' =>
              rw [first, second] at same after
              obtain rfl : action = action' := same
              cases action with
              | forward bytes =>
                  rw [interceptAll_of_forward inside first, interceptAll_of_forward inside second,
                    here]
                  refine ⟨rfl, fun place less => ?_⟩
                  rcases eq_or_ne place ⟨upTo, inside⟩ with rfl | apart
                  · simp
                  · simpa [Function.update_of_ne apart] using after place (by grind)
              | deny reason =>
                  rw [interceptAll_of_deny inside first, interceptAll_of_deny inside second]
                  refine ⟨rfl, fun place less => ?_⟩
                  rcases Nat.lt_or_eq_of_le (Nat.le_of_lt_succ less) with earlier | last
                  · exact after place earlier
                  · obtain rfl : place = ⟨upTo, inside⟩ := Fin.ext last
                    have left := kept_of_asked (Nat.le_of_succ_le inside) first ⟨upTo, inside⟩
                      (Nat.le_refl _)
                    have right := kept_of_asked (Nat.le_of_succ_le inside) second ⟨upTo, inside⟩
                      (Nat.le_refl _)
                    exact left.trans (here.trans right.symm)

theorem forwards_inTurn_congr (inside : upTo ≤ count) (requests : List (List UInt8))
    (agree : AgreeBelow upTo sessions other) :
    (inTurn handlers upTo inside).forwards sessions requests =
      (inTurn handlers upTo inside).forwards other requests := by
  induction requests generalizing sessions other with
  | nil => rfl
  | cons request rest induction =>
      obtain ⟨same, after⟩ := interceptAll_congr handlers inside request agree
      cases first : interceptAll handlers upTo inside sessions request with
      | mk action next =>
          cases second : interceptAll handlers upTo inside other request with
          | mk action' next' =>
              rw [first, second] at same after
              obtain rfl : action = action' := same
              cases action with
              | forward bytes =>
                  rw [FlowHandler.forwards_cons_of_forward (inTurn handlers _ _) first,
                    FlowHandler.forwards_cons_of_forward (inTurn handlers _ _) second,
                    induction after]
              | deny reason =>
                  rw [FlowHandler.forwards_cons_of_deny (inTurn handlers _ _) first,
                    FlowHandler.forwards_cons_of_deny (inTurn handlers _ _) second]

/-- One more handler asked in turn is that handler on what the others let through. -/
theorem forwards_inTurn_succ (inside : upTo + 1 ≤ count) (requests : List (List UInt8)) :
    (inTurn handlers (upTo + 1) inside).forwards sessions requests =
      (handlers ⟨upTo, inside⟩).forwards (sessions ⟨upTo, inside⟩)
        ((inTurn handlers upTo (Nat.le_of_succ_le inside)).forwards sessions requests) := by
  induction requests generalizing sessions with
  | nil => rfl
  | cons request rest induction =>
      have below := Nat.le_of_succ_le inside
      cases asked : interceptAll handlers upTo below sessions request with
      | mk action middle =>
          cases action with
          | deny reason =>
              rw [FlowHandler.forwards_cons_of_deny (inTurn handlers (upTo + 1) inside)
                  (interceptAll_of_deny inside asked),
                FlowHandler.forwards_cons_of_deny (inTurn handlers upTo below) asked]
              rfl
          | forward bytes =>
              have whole := interceptAll_of_forward inside asked
              rw [FlowHandler.forwards_cons_of_forward (inTurn handlers upTo below) asked]
              cases last : (handlers ⟨upTo, inside⟩).intercept (sessions ⟨upTo, inside⟩) bytes with
              | mk answer session =>
                  rw [last] at whole
                  cases answer with
                  | deny reason =>
                      rw [FlowHandler.forwards_cons_of_deny (inTurn handlers (upTo + 1) inside)
                          whole,
                        FlowHandler.forwards_cons_of_deny _ last]
                  | forward more =>
                      -- The last handler's new session is not read by the others.
                      have apart : AgreeBelow upTo
                          (Function.update middle ⟨upTo, inside⟩ session) middle := by
                        intro place less
                        exact Function.update_of_ne (by grind) _ _
                      rw [FlowHandler.forwards_cons_of_forward (inTurn handlers (upTo + 1) inside)
                          whole,
                        FlowHandler.forwards_cons_of_forward _ last, induction,
                        Function.update_self, forwards_inTurn_congr below rest apart]

@[simp] theorem forwards_inTurn_zero (requests : List (List UInt8)) :
    (inTurn handlers 0 (Nat.zero_le _)).forwards sessions requests = requests := by
  induction requests generalizing sessions with
  | nil => rfl
  | cons request rest induction =>
      rw [FlowHandler.forwards_cons_of_forward (inTurn handlers 0 (Nat.zero_le _)) rfl, induction]

end CeRs.ServeFlow
