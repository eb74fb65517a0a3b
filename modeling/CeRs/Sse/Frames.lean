import CeRs.Sse.Decoder
import Mathlib.Data.List.TakeDrop

/-!
# The events of a sequence of lines

A frame is a run of nonblank lines up to a blank one.  It is dispatched if it
has data, with the last event type it names and the last identifier named so
far; lines after the last blank one are not dispatched.
-/

namespace CeRs.Sse

/-- What a nonblank line contributes to its frame. -/
inductive Field (Value : Type)
  | data (value : Value)
  | event (value : Value)
  | id (value : Value)
  | ignored
  deriving DecidableEq, Repr

section Fields

variable {Element : Type}

def stripSpaceBy (char : Element → Char) : List Element → List Element
  | [] => []
  | first :: value => if char first = ' ' then value else first :: value

/-- The field of a line whose elements carry its characters. -/
def fieldBy (char : Element → Char) (line : List Element) : Field (List Element) :=
  if line.head?.map char = some ':' then .ignored
  else
    let name := (line.takeWhile fun element => char element ≠ ':').map char
    let value := stripSpaceBy char (line.dropWhile fun element => char element ≠ ':').tail
    if name = "data".toList then .data value
    else if name = "event".toList then .event value
    else if name = "id".toList then
      if Char.ofNat 0 ∈ value.map char then .ignored else .id value
    else .ignored

def Field.data? {Value : Type} : Field Value → Option Value
  | .data value => some value
  | _ => none

def Field.event? {Value : Type} : Field Value → Option Value
  | .event value => some value
  | _ => none

def Field.id? {Value : Type} : Field Value → Option Value
  | .id value => some value
  | _ => none

/-- The frames that a sequence of lines completes. -/
def framesOf : List (List Element) → List (List (List Element))
  | [] => []
  | line :: rest =>
      if line = [] then [] :: framesOf rest
      else
        match framesOf rest with
        | [] => []
        | frame :: later => (line :: frame) :: later

end Fields

def fieldOf (line : Text) : Field Text :=
  fieldBy (fun character => character) line

/-- The data lines of a frame. -/
def dataOf (frame : List Text) : List Text :=
  frame.filterMap fun line => (fieldOf line).data?

/-- The event type the frame names, if any. -/
def eventOf (frame : List Text) : Option Text :=
  (frame.filterMap fun line => (fieldOf line).event?).getLast?

/-- The last identifier after the frame. -/
def idOf (id : Option Text) (frame : List Text) : Option Text :=
  (frame.filterMap fun line => (fieldOf line).id?).getLast?.or id

/-- The type the frame is dispatched under. -/
def typeOf (frame : List Text) : Text :=
  (eventOf frame).getD "message".toList

/-- What the frame dispatches. -/
def frameEvent (id : Option Text) (frame : List Text) : List SseEvent :=
  if dataOf frame = [] then []
  else [⟨typeOf frame, List.intercalate ['\n'] (dataOf frame), idOf id frame⟩]

def framesEvents (id : Option Text) : List (List Text) → List SseEvent
  | [] => []
  | frame :: rest => frameEvent id frame ++ framesEvents (idOf id frame) rest

theorem dataOf_append (first second : List Text) :
    dataOf (first ++ second) = dataOf first ++ dataOf second :=
  List.filterMap_append ..

theorem idOf_append (id : Option Text) (first second : List Text) :
    idOf id (first ++ second) = idOf (idOf id first) second := by
  simp [idOf, List.filterMap_append, List.getLast?_append, Option.or_assoc]

@[simp] theorem dataOf_nil : dataOf [] = [] := rfl

theorem framesEvents_append (id : Option Text) (first second : List (List Text)) :
    framesEvents id (first ++ second) =
      framesEvents id first ++ framesEvents (idOf id first.flatten) second := by
  induction first generalizing id with
  | nil => rfl
  | cons frame rest induction =>
      simp only [List.cons_append, framesEvents, induction, List.append_assoc, List.flatten_cons,
        idOf_append]

/-- The decoder after the lines of an unfinished frame. -/
def within (buffer : Text) (id : Option Text) (frame : List Text) : SseDecoder :=
  ⟨buffer, dataOf frame, eventOf frame, idOf id frame, !(dataOf frame).isEmpty⟩

theorem splitOnce_getD (line : Text) :
    (splitOnce line).getD (line, []) =
      (line.takeWhile (· ≠ ':'), (line.dropWhile (· ≠ ':')).tail) := by
  unfold splitOnce
  rw [List.span_eq_takeWhile_dropWhile]
  cases rest : line.dropWhile (· ≠ ':') with
  | nil =>
      have whole := List.takeWhile_append_dropWhile (p := (· ≠ ':')) (l := line)
      rw [rest, List.append_nil] at whole
      exact Prod.ext whole.symm rfl
  | cons colon value => rfl

theorem stripSpaceBy_self (value : Text) :
    stripSpaceBy (fun character => character) value = stripSpace value := by
  cases value with
  | nil => rfl
  | cons first value =>
      by_cases space : first = ' '
      · simp [stripSpaceBy, stripSpace, space]
      · rw [stripSpaceBy, if_neg space, stripSpace]
        rintro rest equal
        exact space (List.cons.inj equal).1

theorem feedLine_of_ne_nil (decoder : SseDecoder) {line : Text} (nonblank : line ≠ []) :
    feedLine decoder line =
      (none,
        match fieldOf line with
        | .data value =>
            { decoder with dataLines := decoder.dataLines ++ [value], sawData := true }
        | .event value => { decoder with eventType := some value }
        | .id value => { decoder with lastEventId := some value }
        | .ignored => decoder) := by
  simp only [feedLine, fieldOf, fieldBy, if_neg nonblank, splitOnce_getD, stripSpaceBy_self,
    List.map_id']
  have head : line.head?.map (fun character => character) = line.head? := Option.map_id'
  rw [head]
  by_cases comment : line.head? = some ':'
  · rw [if_pos comment, if_pos comment]
  rw [if_neg comment, if_neg comment]
  by_cases data : line.takeWhile (· ≠ ':') = "data".toList
  · rw [if_pos data, if_pos data]
  rw [if_neg data, if_neg data]
  by_cases event : line.takeWhile (· ≠ ':') = "event".toList
  · rw [if_pos event, if_pos event]
  rw [if_neg event, if_neg event]
  by_cases id : line.takeWhile (· ≠ ':') = "id".toList
  · rw [if_pos id, if_pos id]
    split <;> rfl
  · rw [if_neg id, if_neg id]

theorem feedLine_within (buffer : Text) (id : Option Text) (frame : List Text) {line : Text}
    (nonblank : line ≠ []) :
    feedLine (within buffer id frame) line = (none, within buffer id (frame ++ [line])) := by
  rw [feedLine_of_ne_nil _ nonblank]
  cases field : fieldOf line <;>
    simp [within, dataOf, eventOf, idOf, Field.data?, Field.event?, Field.id?, field]

theorem flush_within (buffer : Text) (id : Option Text) (frame : List Text) :
    (flush (within buffer id frame)).1.toList = frameEvent id frame ∧
      (flush (within buffer id frame)).2 = within buffer (idOf id frame) [] := by
  cases data : dataOf frame <;>
    simp [flush, within, frameEvent, typeOf, data, eventOf, idOf]

/-- Feeding lines dispatches the frames they complete. -/
theorem feedEach_within (buffer : Text) (id : Option Text) (frame lines : List Text) :
    (feedEach (within buffer id frame) lines).1 =
      match framesOf lines with
      | [] => []
      | first :: later =>
          frameEvent id (frame ++ first) ++ framesEvents (idOf id (frame ++ first)) later := by
  induction lines generalizing id frame with
  | nil => rfl
  | cons line rest induction =>
      by_cases blank : line = []
      · obtain ⟨dispatched, cleared⟩ := flush_within buffer id frame
        rw [feedEach, framesOf, if_pos blank, blank, feedLine_nil]
        simp only [dispatched, cleared, induction, List.append_nil, List.nil_append]
        cases framesOf rest <;> rfl
      · rw [feedEach, framesOf, if_neg blank, feedLine_within buffer id frame blank]
        simp only [Option.toList_none, List.nil_append, induction]
        cases framesOf rest with
        | nil => rfl
        | cons first later => simp

theorem feedEach_new (lines : List Text) :
    (feedEach .new lines).1 = framesEvents none (framesOf lines) := by
  have start : SseDecoder.new = within [] none [] := rfl
  rw [start, feedEach_within]
  cases framesOf lines <;> rfl

end CeRs.Sse
