import CeRs.Chunks
import CeRs.Sse.Frames

/-!
# Text and chunk boundaries

Each chunk is decoded on its own, so a character that a boundary cuts becomes
replacement characters.  Such characters are not ASCII: they change neither the
lines of a stream nor the fields of a line, only the values.  The events are
those of the text that was sent exactly if no value that is dispatched has a
character that is cut.
-/

namespace CeRs.Sse

open Chunks

/-- A character, and the first cut inside it. -/
abbrev CutChar := Char × Option Nat

/-- The lines of a text with line feeds only, after the line read so far. -/
def cutLines (line : List CutChar) : List CutChar → List (List CutChar)
  | [] => []
  | character :: rest =>
      if character.1 = '\n' then line :: cutLines [] rest
      else cutLines (line ++ [character]) rest

/-- The frames that a text completes when its bytes arrive in these chunks. -/
def cutFramesOf (text : Text) (chunks : List (List UInt8)) : List (List (List CutChar)) :=
  framesOf (cutLines [] (cuts text (starts chunks)))

def Field.map {Value Other : Type} (change : Value → Other) : Field Value → Field Other
  | .data value => .data (change value)
  | .event value => .event (change value)
  | .id value => .id (change value)
  | .ignored => .ignored

/-- The field of a line whose characters may be cut. -/
def cutField (line : List CutChar) : Field (List CutChar) :=
  fieldBy Prod.fst line

def cutData (frame : List (List CutChar)) : List (List CutChar) :=
  frame.filterMap fun line => (cutField line).data?

def cutEvent (frame : List (List CutChar)) : Option (List CutChar) :=
  (frame.filterMap fun line => (cutField line).event?).getLast?

def cutId (id : Option (List CutChar)) (frame : List (List CutChar)) : Option (List CutChar) :=
  (frame.filterMap fun line => (cutField line).id?).getLast?.or id

/-- No character of the value is cut. -/
def Whole (value : List CutChar) : Prop :=
  ∀ character ∈ value, character.2 = none

instance decidableWhole (value : List CutChar) : Decidable (Whole value) :=
  inferInstanceAs (Decidable (∀ character ∈ value, character.2 = none))

/-- If the frame is dispatched, no value it is dispatched with has a character
that is cut. -/
def WholeFrame (id : Option (List CutChar)) (frame : List (List CutChar)) : Prop :=
  cutData frame ≠ [] →
    (∀ value ∈ cutData frame, Whole value) ∧ (∀ value ∈ cutEvent frame, Whole value) ∧
      ∀ value ∈ cutId id frame, Whole value

instance decidableWholeFrame (id : Option (List CutChar)) (frame : List (List CutChar)) :
    Decidable (WholeFrame id frame) :=
  inferInstanceAs (Decidable (cutData frame ≠ [] →
    (∀ value ∈ cutData frame, Whole value) ∧ (∀ value ∈ cutEvent frame, Whole value) ∧
      ∀ value ∈ cutId id frame, Whole value))

/-- All frames are whole, each with the identifier that was last before it. -/
def AllWhole (id : Option (List CutChar)) : List (List (List CutChar)) → Prop
  | [] => True
  | frame :: rest => WholeFrame id frame ∧ AllWhole (cutId id frame) rest

instance decidableAllWhole (id : Option (List CutChar)) (frames : List (List (List CutChar))) :
    Decidable (AllWhole id frames) :=
  match frames with
  | [] => inferInstanceAs (Decidable True)
  | frame :: rest =>
      have := decidableAllWhole (cutId id frame) rest
      inferInstanceAs (Decidable (WholeFrame id frame ∧ AllWhole (cutId id frame) rest))

section Rendering

variable {render : CutChar → Text}

/-- How the characters may be rendered: ASCII as it is, any other character by
characters that are not ASCII. -/
structure Faithful (render : CutChar → Text) (character : CutChar) : Prop where
  nonempty : render character ≠ []
  ascii : character.1.toNat < 0x80 → render character = [character.1]
  other : 0x80 ≤ character.1.toNat → ∀ rendered ∈ render character, 0x80 ≤ rendered.toNat

/-- The rendering of a character contains an ASCII character exactly if it is
that character. -/
theorem Faithful.mem_iff {character : CutChar} (faithful : Faithful render character)
    {wanted : Char} (ascii : wanted.toNat < 0x80) :
    wanted ∈ render character ↔ wanted = character.1 := by
  by_cases small : character.1.toNat < 0x80
  · rw [faithful.ascii small, List.mem_singleton]
  · constructor
    · intro member
      have large := faithful.other (by omega) wanted member
      omega
    · rintro rfl
      exact absurd ascii small

theorem Faithful.head {character : CutChar} (faithful : Faithful render character) {wanted : Char}
    (ascii : wanted.toNat < 0x80) (rest : Text) :
    (render character ++ rest).head? = some wanted ↔ character.1 = wanted := by
  by_cases small : character.1.toNat < 0x80
  · simp [faithful.ascii small]
  · obtain ⟨first, later, rendered⟩ := List.exists_cons_of_ne_nil faithful.nonempty
    have large := faithful.other (by omega) first (by simp [rendered])
    rw [rendered]
    constructor
    · intro equal
      obtain rfl : first = wanted := by simpa using equal
      omega
    · rintro rfl
      omega

/-- Up to an ASCII character, and after it. -/
theorem span_flatMap {wanted : Char} (ascii : wanted.toNat < 0x80) {line : List CutChar}
    (faithful : ∀ character ∈ line, Faithful render character) :
    (line.flatMap render).takeWhile (· ≠ wanted) =
        (line.takeWhile fun character => character.1 ≠ wanted).flatMap render ∧
      ((line.flatMap render).dropWhile (· ≠ wanted)).tail =
        (line.dropWhile fun character => character.1 ≠ wanted).tail.flatMap render := by
  induction line with
  | nil => exact ⟨rfl, rfl⟩
  | cons character rest induction =>
      have own := faithful character (by simp)
      obtain ⟨before, after⟩ := induction fun other member =>
        faithful other (List.mem_cons_of_mem _ member)
      by_cases found : character.1 = wanted
      · have rendered : render character = [wanted] := by
          rw [own.ascii (by rw [found]; exact ascii), found]
        simp [rendered, found]
      · have others : ∀ rendered ∈ render character, decide (rendered ≠ wanted) = true := by
          intro rendered member
          rw [decide_eq_true_iff]
          rintro rfl
          exact found ((own.mem_iff ascii).mp member).symm
        rw [List.flatMap_cons, List.takeWhile_append_of_pos others,
          List.dropWhile_append_of_pos others, before, after,
          List.takeWhile_cons_of_pos (by simpa using found),
          List.dropWhile_cons_of_pos (by simpa using found), List.flatMap_cons]
        exact ⟨rfl, rfl⟩

theorem head?_flatMap {wanted : Char} (ascii : wanted.toNat < 0x80) {line : List CutChar}
    (faithful : ∀ character ∈ line, Faithful render character) :
    (line.flatMap render).head? = some wanted ↔ line.head?.map Prod.fst = some wanted := by
  cases line with
  | nil => simp
  | cons character rest =>
      rw [List.flatMap_cons, (faithful character (by simp)).head ascii]
      simp

/-- A rendered text is an ASCII text exactly if its characters are. -/
theorem flatMap_eq_iff (name : Text) (ascii : ∀ character ∈ name, character.toNat < 0x80)
    {line : List CutChar} (faithful : ∀ character ∈ line, Faithful render character) :
    line.flatMap render = name ↔ line.map Prod.fst = name := by
  induction line generalizing name with
  | nil => simp [eq_comm]
  | cons character rest induction =>
      have own := faithful character (by simp)
      cases name with
      | nil => simp [own.nonempty]
      | cons first name =>
          have small := ascii first (by simp)
          have later := induction name
            (fun other member => ascii other (List.mem_cons_of_mem _ member))
            fun other member => faithful other (List.mem_cons_of_mem _ member)
          rw [List.map_cons, List.cons_eq_cons, ← later]
          constructor
          · intro equal
            have head := (own.head small (rest.flatMap render)).mp
              (by simp [← List.flatMap_cons, equal])
            rw [List.flatMap_cons, own.ascii (head ▸ small)] at equal
            exact List.cons.inj equal
          · rintro ⟨rfl, equal⟩
            rw [List.flatMap_cons, own.ascii small, equal]
            rfl

theorem mem_flatMap_iff (wanted : Char) (ascii : wanted.toNat < 0x80) {line : List CutChar}
    (faithful : ∀ character ∈ line, Faithful render character) :
    wanted ∈ line.flatMap render ↔ wanted ∈ line.map Prod.fst := by
  rw [List.mem_flatMap, List.mem_map]
  apply exists_congr
  intro character
  apply and_congr_right
  intro member
  rw [(faithful character member).mem_iff ascii, eq_comm]

theorem stripSpaceBy_flatMap {line : List CutChar}
    (faithful : ∀ character ∈ line, Faithful render character) :
    stripSpaceBy (fun character => character) (line.flatMap render) =
      (stripSpaceBy Prod.fst line).flatMap render := by
  cases line with
  | nil => rfl
  | cons character rest =>
      have own := faithful character (by simp)
      by_cases space : character.1 = ' '
      · rw [List.flatMap_cons, own.ascii (by rw [space]; decide), space]
        simp [stripSpaceBy, space]
      · obtain ⟨first, later, rendered⟩ := List.exists_cons_of_ne_nil own.nonempty
        have kept : first ≠ ' ' := by
          rintro rfl
          exact space ((own.mem_iff (by decide)).mp (by simp [rendered])).symm
        rw [List.flatMap_cons, rendered, List.cons_append, stripSpaceBy, if_neg kept, stripSpaceBy,
          if_neg space, List.flatMap_cons, rendered]
        rfl

theorem mem_of_mem_stripSpaceBy {line : List CutChar} {character : CutChar}
    (member : character ∈ stripSpaceBy Prod.fst line) : character ∈ line := by
  cases line with
  | nil => exact member
  | cons first value =>
      rw [stripSpaceBy] at member
      split at member
      · exact List.mem_cons_of_mem _ member
      · exact member

/-- A line has the same field however its characters are rendered. -/
theorem fieldOf_flatMap {line : List CutChar}
    (faithful : ∀ character ∈ line, Faithful render character) :
    fieldOf (line.flatMap render) = (cutField line).map (List.flatMap render) := by
  have colon : (':' : Char).toNat < 0x80 := by decide
  obtain ⟨before, after⟩ := span_flatMap colon faithful
  have inName : ∀ character ∈ line.takeWhile fun character => character.1 ≠ ':',
      Faithful render character :=
    fun character member => faithful character ((List.takeWhile_prefix _).subset member)
  have inValue : ∀ character ∈ (line.dropWhile fun character => character.1 ≠ ':').tail,
      Faithful render character :=
    fun character member => faithful character
      ((List.dropWhile_suffix _).subset (List.mem_of_mem_tail member))
  have head : (line.flatMap render).head?.map (fun character => character) = some ':' ↔
      line.head?.map Prod.fst = some ':' := by
    rw [Option.map_id', head?_flatMap colon faithful]
  have isData := flatMap_eq_iff "data".toList (by simp) inName
  have isEvent := flatMap_eq_iff "event".toList (by simp) inName
  have isId := flatMap_eq_iff "id".toList (by simp) inName
  have nul := mem_flatMap_iff (Char.ofNat 0) (by decide)
    fun character member => inValue character (mem_of_mem_stripSpaceBy member)
  simp only [fieldOf, cutField, fieldBy, List.map_id', before, after, stripSpaceBy_flatMap inValue,
    head, isData, isEvent, isId, nul]
  split
  · rfl
  · split
    · rfl
    · split
      · rfl
      · split
        · split <;> rfl
        · rfl

theorem Field.data?_map {Value Other : Type} (change : Value → Other) (field : Field Value) :
    (field.map change).data? = field.data?.map change := by
  cases field <;> rfl

theorem Field.event?_map {Value Other : Type} (change : Value → Other) (field : Field Value) :
    (field.map change).event? = field.event?.map change := by
  cases field <;> rfl

theorem Field.id?_map {Value Other : Type} (change : Value → Other) (field : Field Value) :
    (field.map change).id? = field.id?.map change := by
  cases field <;> rfl

theorem filterMap_render {frame : List (List CutChar)}
    (faithful : ∀ line ∈ frame, ∀ character ∈ line, Faithful render character)
    {kind : Field Text → Option Text} {cutKind : Field (List CutChar) → Option (List CutChar)}
    (same : ∀ field, kind (field.map (List.flatMap render)) =
      (cutKind field).map (List.flatMap render)) :
    (frame.map (List.flatMap render)).filterMap (fun line => kind (fieldOf line)) =
      (frame.filterMap fun line => cutKind (cutField line)).map (List.flatMap render) := by
  rw [List.filterMap_map, List.map_filterMap]
  apply List.filterMap_congr
  intro line member
  rw [Function.comp_apply, fieldOf_flatMap (faithful line member), same]

theorem dataOf_render {frame : List (List CutChar)}
    (faithful : ∀ line ∈ frame, ∀ character ∈ line, Faithful render character) :
    dataOf (frame.map (List.flatMap render)) = (cutData frame).map (List.flatMap render) :=
  filterMap_render faithful (Field.data?_map _)

theorem eventOf_render {frame : List (List CutChar)}
    (faithful : ∀ line ∈ frame, ∀ character ∈ line, Faithful render character) :
    eventOf (frame.map (List.flatMap render)) = (cutEvent frame).map (List.flatMap render) := by
  rw [eventOf, filterMap_render faithful (Field.event?_map _), List.getLast?_map]
  rfl

theorem idOf_render (id : Option (List CutChar)) {frame : List (List CutChar)}
    (faithful : ∀ line ∈ frame, ∀ character ∈ line, Faithful render character) :
    idOf (id.map (List.flatMap render)) (frame.map (List.flatMap render)) =
      (cutId id frame).map (List.flatMap render) := by
  rw [idOf, filterMap_render faithful (Field.id?_map _), List.getLast?_map, ← Option.map_or]
  rfl

theorem framesOf_render {lines : List (List CutChar)}
    (faithful : ∀ line ∈ lines, ∀ character ∈ line, Faithful render character) :
    framesOf (lines.map (List.flatMap render)) =
      (framesOf lines).map (List.map (List.flatMap render)) := by
  induction lines with
  | nil => rfl
  | cons line rest induction =>
      have blank : line.flatMap render = [] ↔ line = [] := by
        rw [flatMap_eq_iff [] (by simp) (faithful line (by simp)), List.map_eq_nil_iff]
      rw [List.map_cons, framesOf, framesOf,
        induction fun other member => faithful other (List.mem_cons_of_mem _ member)]
      simp only [blank]
      split
      · rfl
      · cases framesOf rest <;> rfl

theorem linesOf_render (line : List CutChar) {text : List CutChar} (noCr : '\r' ∉ text.map Prod.fst)
    (faithful : ∀ character ∈ text, Faithful render character) :
    (linesOf (line.flatMap render) (text.flatMap render)).1 =
      (cutLines line text).map (List.flatMap render) := by
  induction text generalizing line with
  | nil => rfl
  | cons character rest induction =>
      have own := faithful character (by simp)
      rw [List.map_cons, List.mem_cons, not_or] at noCr
      have later := fun line => induction line noCr.2
        fun other member => faithful other (List.mem_cons_of_mem _ member)
      by_cases lf : character.1 = '\n'
      · rw [List.flatMap_cons, own.ascii (by rw [lf]; decide), lf, cutLines, if_pos lf,
          List.map_cons, ← later []]
        rfl
      · have isPlain : Plain (render character) := by
          intro rendered member
          constructor
          · rintro rfl
            exact lf ((own.mem_iff (by decide)).mp member).symm
          · rintro rfl
            exact noCr.1 ((own.mem_iff (by decide)).mp member)
        rw [List.flatMap_cons, linesOf_append_plain _ isPlain, cutLines, if_neg lf,
          ← later (line ++ [character]), List.flatMap_append, List.flatMap_singleton]

end Rendering

theorem mem_of_mem_cutLines {line text found : List CutChar} (member : found ∈ cutLines line text) :
    ∀ character ∈ found, character ∈ line ++ text := by
  induction text generalizing line with
  | nil => simp [cutLines] at member
  | cons first rest induction =>
      intro character inside
      rw [cutLines] at member
      split at member
      · rcases List.mem_cons.mp member with rfl | member
        · exact List.mem_append_left _ inside
        · exact List.mem_append_right _ (List.mem_cons_of_mem _ (induction member character inside))
      · simpa using induction member character inside

theorem mem_of_mem_framesOf {Element : Type} {lines frame : List (List Element)}
    (member : frame ∈ framesOf lines) : ∀ line ∈ frame, line ∈ lines := by
  induction lines generalizing frame with
  | nil => simp [framesOf] at member
  | cons first rest induction =>
      intro line inside
      rw [framesOf] at member
      split at member
      · rcases List.mem_cons.mp member with rfl | member
        · simp at inside
        · exact List.mem_cons_of_mem _ (induction member line inside)
      · split at member
        · simp at member
        next found later frames =>
          rcases List.mem_cons.mp member with rfl | member
          · rcases List.mem_cons.mp inside with rfl | inside
            · exact List.mem_cons_self
            · exact List.mem_cons_of_mem _ (induction (by simp [frames]) line inside)
          · exact List.mem_cons_of_mem _ (induction (by simp [frames, member]) line inside)

/-- The character itself. -/
def plain (character : CutChar) : Text :=
  [character.1]

theorem faithful_plain (character : CutChar) : Faithful plain character where
  nonempty := List.cons_ne_nil _ _
  ascii _ := rfl
  other large rendered member := by
    obtain rfl := List.mem_singleton.mp member
    exact large

theorem flatMap_plain (text : List CutChar) : text.flatMap plain = text.map Prod.fst :=
  List.map_eq_flatMap.symm

theorem faithful_damage {character : CutChar} (inside : Inside character) :
    Faithful damage character where
  nonempty := List.ne_nil_of_length_pos (length_damage inside).1
  ascii small := damage_ascii inside small
  other large rendered member := by
    obtain ⟨character, cut⟩ := character
    cases cut with
    | none =>
        obtain rfl := List.mem_singleton.mp member
        exact large
    | some cut =>
        rw [List.eq_of_mem_replicate member]
        decide

theorem faithful_damage_lines {frame : List (List CutChar)}
    (inside : ∀ line ∈ frame, ∀ character ∈ line, Inside character) :
    ∀ line ∈ frame, ∀ character ∈ line, Faithful damage character :=
  fun line member character inLine => faithful_damage (inside line member character inLine)

theorem faithful_plain_lines (frame : List (List CutChar)) :
    ∀ line ∈ frame, ∀ character ∈ line, Faithful plain character :=
  fun _ _ character _ => faithful_plain character

theorem length_flatMap_damage {value : List CutChar}
    (inside : ∀ character ∈ value, Inside character) :
    value.length ≤ (value.flatMap damage).length ∧
      ((value.flatMap damage).length = value.length ↔ Whole value) := by
  induction value with
  | nil => simp [Whole]
  | cons character rest induction =>
      obtain ⟨longer, same⟩ := length_damage (inside character (by simp))
      obtain ⟨longer', same'⟩ := induction fun other member =>
        inside other (List.mem_cons_of_mem _ member)
      have whole : Whole (character :: rest) ↔ character.2 = none ∧ Whole rest :=
        List.forall_mem_cons
      rw [whole, ← same, ← same', List.flatMap_cons, List.length_append, List.length_cons]
      omega

/-- A value is kept exactly if no character of it is cut. -/
theorem plain_eq_damage_iff {value : List CutChar}
    (inside : ∀ character ∈ value, Inside character) :
    value.flatMap damage = value.flatMap plain ↔ Whole value := by
  constructor
  · intro same
    rw [← (length_flatMap_damage inside).2, same, flatMap_plain, List.length_map]
  · intro whole
    apply List.flatMap_congr
    intro character member
    obtain ⟨character, cut⟩ := character
    obtain rfl : cut = none := whole _ member
    rfl

theorem option_eq_iff {value : Option (List CutChar)}
    (inside : ∀ known ∈ value, ∀ character ∈ known, Inside character) :
    value.map (List.flatMap damage) = value.map (List.flatMap plain) ↔
      ∀ known ∈ value, Whole known := by
  cases value with
  | none => simp
  | some known => simp [← plain_eq_damage_iff (inside known rfl)]

theorem type_eq_iff {value : Option (List CutChar)}
    (inside : ∀ known ∈ value, ∀ character ∈ known, Inside character) (default : Text) :
    (value.map (List.flatMap damage)).getD default = (value.map (List.flatMap plain)).getD default ↔
      ∀ known ∈ value, Whole known := by
  cases value with
  | none => simp
  | some known => simp [← plain_eq_damage_iff (inside known rfl)]

theorem flatMap_intercalate (render : CutChar → Text) (separator : CutChar)
    (values : List (List CutChar)) :
    (List.intercalate [separator] values).flatMap render =
      List.intercalate (render separator) (values.map (List.flatMap render)) := by
  induction values with
  | nil => rfl
  | cons value rest induction =>
      cases rest with
      | nil => simp
      | cons next rest =>
          simp only [List.map_cons] at induction
          rw [List.intercalate_cons_cons, List.flatMap_append, List.flatMap_append, induction,
            List.flatMap_singleton, List.map_cons, List.map_cons, List.intercalate_cons_cons]

theorem forall_mem_intercalate {Element : Type} (property : Element → Prop) {separator : Element}
    (holds : property separator) (values : List (List Element)) :
    (∀ element ∈ List.intercalate [separator] values, property element) ↔
      ∀ value ∈ values, ∀ element ∈ value, property element := by
  induction values with
  | nil => simp
  | cons value rest induction =>
      cases rest with
      | nil => simp
      | cons next rest =>
          rw [List.intercalate_cons_cons, List.forall_mem_append, List.forall_mem_append,
            List.forall_mem_singleton, induction, List.forall_mem_cons (a := value)]
          exact and_congr_left fun _ => and_iff_left holds

theorem data_eq_iff {values : List (List CutChar)}
    (inside : ∀ value ∈ values, ∀ character ∈ value, Inside character) :
    List.intercalate ['\n'] (values.map (List.flatMap damage)) =
        List.intercalate ['\n'] (values.map (List.flatMap plain)) ↔
      ∀ value ∈ values, Whole value := by
  have joined : ∀ character ∈ List.intercalate [('\n', none)] values, Inside character :=
    (forall_mem_intercalate Inside (by simp [Inside]) values).mpr inside
  have damaged := flatMap_intercalate damage ('\n', none) values
  have kept := flatMap_intercalate plain ('\n', none) values
  have same := plain_eq_damage_iff joined
  rw [damaged, kept] at same
  exact same.trans
    (forall_mem_intercalate (fun character : CutChar => character.2 = none) rfl values)

def Field.value? {Value : Type} : Field Value → Option Value
  | .data value | .event value | .id value => some value
  | .ignored => none

theorem mem_of_mem_cutField {line value : List CutChar}
    (found : (cutField line).value? = some value) : ∀ character ∈ value, character ∈ line := by
  intro character member
  have raw : value =
      stripSpaceBy Prod.fst (line.dropWhile fun character => character.1 ≠ ':').tail := by
    simp only [cutField, fieldBy] at found
    split at found
    · simp [Field.value?] at found
    · split at found
      · exact (Option.some.inj found).symm
      · split at found
        · exact (Option.some.inj found).symm
        · split at found
          · split at found
            · simp [Field.value?] at found
            · exact (Option.some.inj found).symm
          · simp [Field.value?] at found
  rw [raw] at member
  exact (List.dropWhile_suffix _).subset (List.mem_of_mem_tail (mem_of_mem_stripSpaceBy member))

/-- The cuts in the values of a frame lie inside the characters. -/
theorem inside_filterMap {frame : List (List CutChar)}
    (inside : ∀ line ∈ frame, ∀ character ∈ line, Inside character)
    {kind : Field (List CutChar) → Option (List CutChar)}
    (known : ∀ field value, kind field = some value → field.value? = some value) :
    ∀ value ∈ frame.filterMap (fun line => kind (cutField line)), ∀ character ∈ value,
      Inside character := by
  intro value member character inValue
  obtain ⟨line, inFrame, found⟩ := List.mem_filterMap.mp member
  exact inside line inFrame character (mem_of_mem_cutField (known _ _ found) character inValue)

theorem value?_of_data? {Value : Type} (field : Field Value) (value : Value)
    (found : field.data? = some value) : field.value? = some value := by
  cases field <;> simp_all [Field.data?, Field.value?]

theorem value?_of_event? {Value : Type} (field : Field Value) (value : Value)
    (found : field.event? = some value) : field.value? = some value := by
  cases field <;> simp_all [Field.event?, Field.value?]

theorem value?_of_id? {Value : Type} (field : Field Value) (value : Value)
    (found : field.id? = some value) : field.value? = some value := by
  cases field <;> simp_all [Field.id?, Field.value?]

theorem inside_cutId {id : Option (List CutChar)} {frame : List (List CutChar)}
    (insideId : ∀ value ∈ id, ∀ character ∈ value, Inside character)
    (inside : ∀ line ∈ frame, ∀ character ∈ line, Inside character) :
    ∀ value ∈ cutId id frame, ∀ character ∈ value, Inside character := by
  intro value member
  rcases Option.or_eq_some_iff.mp member with found | ⟨-, found⟩
  · exact inside_filterMap inside value?_of_id? value (List.mem_of_getLast? found)
  · exact insideId value found

/-- A frame dispatches the text that was sent exactly if its values are whole. -/
theorem frameEvent_eq_iff {id : Option (List CutChar)} {frame : List (List CutChar)}
    (insideId : ∀ value ∈ id, ∀ character ∈ value, Inside character)
    (inside : ∀ line ∈ frame, ∀ character ∈ line, Inside character) :
    frameEvent (id.map (List.flatMap damage)) (frame.map (List.flatMap damage)) =
        frameEvent (id.map (List.flatMap plain)) (frame.map (List.flatMap plain)) ↔
      WholeFrame id frame := by
  have damaged := faithful_damage_lines inside
  have kept := faithful_plain_lines frame
  have data := data_eq_iff
    (show ∀ value ∈ cutData frame, _ from inside_filterMap inside value?_of_data?)
  have type := type_eq_iff
    (show ∀ value ∈ cutEvent frame, _ from fun value found =>
      inside_filterMap inside value?_of_event? value (List.mem_of_getLast? found))
    "message".toList
  have last := option_eq_iff (inside_cutId insideId inside)
  simp only [frameEvent, typeOf, dataOf_render damaged, dataOf_render kept, eventOf_render damaged,
    eventOf_render kept, idOf_render id damaged, idOf_render id kept, List.map_eq_nil_iff,
    WholeFrame]
  by_cases empty : cutData frame = []
  · simp [empty]
  · simp only [if_neg empty, List.cons.injEq, and_true, SseEvent.mk.injEq, type, data, last]
    constructor
    · rintro ⟨typeWhole, dataWhole, idWhole⟩ -
      exact ⟨dataWhole, typeWhole, idWhole⟩
    · intro whole
      obtain ⟨dataWhole, typeWhole, idWhole⟩ := whole empty
      exact ⟨typeWhole, dataWhole, idWhole⟩

/-- Frames dispatch the text that was sent exactly if all values are whole. -/
theorem framesEvents_render_iff (id : Option (List CutChar)) {frames : List (List (List CutChar))}
    (insideId : ∀ value ∈ id, ∀ character ∈ value, Inside character)
    (inside : ∀ frame ∈ frames, ∀ line ∈ frame, ∀ character ∈ line, Inside character) :
    framesEvents (id.map (List.flatMap damage)) (frames.map (List.map (List.flatMap damage))) =
        framesEvents (id.map (List.flatMap plain)) (frames.map (List.map (List.flatMap plain))) ↔
      AllWhole id frames := by
  induction frames generalizing id with
  | nil => simp [framesEvents, AllWhole]
  | cons frame rest induction =>
      have own := inside frame (by simp)
      have damaged := faithful_damage_lines own
      have kept := faithful_plain_lines frame
      have first := frameEvent_eq_iff insideId own
      have later := induction (cutId id frame) (inside_cutId insideId own)
        fun other member => inside other (List.mem_cons_of_mem _ member)
      have count :
          (frameEvent (id.map (List.flatMap damage)) (frame.map (List.flatMap damage))).length =
          (frameEvent (id.map (List.flatMap plain)) (frame.map (List.flatMap plain))).length := by
        simp only [frameEvent, dataOf_render damaged, dataOf_render kept, List.map_eq_nil_iff]
        split <;> rfl
      simp only [List.map_cons, framesEvents, idOf_render id damaged, idOf_render id kept, AllWhole,
        ← first, ← later]
      constructor
      · exact fun equal => List.append_inj equal count
      · rintro ⟨same, sameLater⟩
        rw [same, sameLater]

theorem framesOf_linesOf_render {render : CutChar → Text} {text : List CutChar}
    (noCr : '\r' ∉ text.map Prod.fst) (faithful : ∀ character ∈ text, Faithful render character) :
    framesOf (linesOf [] (text.flatMap render)).1 =
      (framesOf (cutLines [] text)).map (List.map (List.flatMap render)) := by
  have lines := linesOf_render [] noCr faithful
  rw [List.flatMap_nil] at lines
  rw [lines, framesOf_render]
  intro line member character inLine
  exact faithful character (by simpa using mem_of_mem_cutLines member character inLine)

/-- The cuts of a completed frame lie inside its characters. -/
theorem inside_cutFramesOf {text : Text} {chunks : List (List UInt8)} {frame : List (List CutChar)}
    (member : frame ∈ cutFramesOf text chunks) :
    ∀ line ∈ frame, ∀ character ∈ line, Inside character := by
  intro line inFrame character inLine
  have inText : character ∈ cuts text (starts chunks) := by
    simpa using mem_of_mem_cutLines (mem_of_mem_framesOf member line inFrame) character inLine
  exact inside_of_mem_cuts inText

theorem framesOf_plain {text : Text} (noCr : '\r' ∉ text) (chunks : List (List UInt8)) :
    framesOf (linesOf [] text).1 =
      (cutFramesOf text chunks).map (List.map (List.flatMap plain)) := by
  have noCutCr : '\r' ∉ (cuts text (starts chunks)).map Prod.fst := by rwa [map_fst_cuts]
  have rendered := framesOf_linesOf_render noCutCr fun character _ => faithful_plain character
  rwa [flatMap_plain, map_fst_cuts] at rendered

/-- The events of the chunks are those of the frames as they arrive. -/
theorem pushAll_cutFramesOf {text : Text} {chunks : List (List UInt8)} (noCr : '\r' ∉ text)
    (encoded : chunks.flatten = Utf8.encode text) :
    (pushAll .new chunks).1 =
      framesEvents none ((cutFramesOf text chunks).map (List.map (List.flatMap damage))) := by
  have damaged : ∀ character ∈ cuts text (starts chunks), Faithful damage character :=
    fun _ member => faithful_damage (inside_of_mem_cuts member)
  have noCutCr : '\r' ∉ (cuts text (starts chunks)).map Prod.fst := by rwa [map_fst_cuts]
  have decoded : (chunks.map Utf8.fromUtf8Lossy).flatten =
      (cuts text (starts chunks)).flatMap damage := decodeEach_encode text encoded
  have eachNoCr : '\r' ∉ (chunks.map Utf8.fromUtf8Lossy).flatten := by
    rwa [decoded, mem_flatMap_iff '\r' (by decide) damaged]
  rw [pushAll_new, linesOfChunks_noCr [] eachNoCr, decoded, feedEach_new,
    framesOf_linesOf_render noCutCr damaged]
  rfl

/-- The events of one push are those of the text, and pushing the chunks one by
one gives the same exactly if all values that are dispatched are whole. -/
theorem push_chunks_iff {text : Text} {chunks : List (List UInt8)} (noCr : '\r' ∉ text)
    (encoded : chunks.flatten = Utf8.encode text) :
    (push .new chunks.flatten).1 = framesEvents none (framesOf (linesOf [] text).1) ∧
      ((pushAll .new chunks).1 = (push .new chunks.flatten).1 ↔
        AllWhole none (cutFramesOf text chunks)) := by
  have whole : (push .new chunks.flatten).1 = framesEvents none (framesOf (linesOf [] text).1) := by
    rw [push_new, encoded, Utf8.fromUtf8Lossy_encode, feedEach_new]
  refine ⟨whole, ?_⟩
  rw [whole, pushAll_cutFramesOf noCr encoded, framesOf_plain noCr chunks]
  exact framesEvents_render_iff none (by simp) fun _ member => inside_cutFramesOf member

/-- A comment with `é`, cut inside it, and a frame with `data: x`. -/
def cutComment : List (List UInt8) :=
  [[58, 32, 195], [169, 10, 100, 97, 116, 97, 58, 32, 120, 10, 10]]

/-- The cut is in no value that is dispatched. -/
theorem push_chunks_iff_cutComment :
    (pushAll .new cutComment).1 = (push .new cutComment.flatten).1 :=
  have text : cutComment.flatten = Utf8.encode ": é\ndata: x\n\n".toList := by decide
  (push_chunks_iff (by decide) text).2.mpr (by decide)

/-- A frame with `data: é`, cut inside the character. -/
def cutCharacter : List (List UInt8) :=
  [[100, 97, 116, 97, 58, 32, 195], [169, 10, 10]]

/-- The character arrives as two replacement characters. -/
theorem replaced_at_cut :
    ¬ ∀ (text : Text) (chunks : List (List UInt8)), '\r' ∉ text →
      chunks.flatten = Utf8.encode text →
      (pushAll .new chunks).1 = (push .new chunks.flatten).1 := by
  intro claimed
  have same := claimed "data: é\n\n".toList cutCharacter (by decide) (by decide)
  rw [pushAll_new, push_new] at same
  exact absurd same (by decide)

end CeRs.Sse
