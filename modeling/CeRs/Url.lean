import CeRs.Percent
import Mathlib.Data.Bool.AllAny
import Mathlib.Data.List.DropRight

/-!
# Paths of URLs

What a URL parser makes of the path of a web address: it drops some characters,
ends the path at a question mark or a hash sign, cuts it into segments, escapes
what a segment may not hold, and resolves the dot segments.  A grammar says
which characters and which segments these are.
-/

namespace CeRs.Url

open Percent

/-- What parsers are free to choose. -/
structure Grammar where
  /-- These end a segment. -/
  separates : Char → Bool
  /-- These are dropped wherever they stand. -/
  skipped : Char → Bool
  /-- These are dropped at the end. -/
  trimmed : Char → Bool
  escaped : Char → Bool
  singleDot : List Char → Bool
  doubleDot : List Char → Bool

/-- The characters that stand for themselves everywhere in an address. -/
def unreserved (character : Char) : Bool :=
  character.isAlphanum || character == '-' || character == '_' || character == '.' ||
    character == '~'

theorem isAlphanum_iff {character : Char} : character.isAlphanum = true ↔
    48 ≤ character.toNat ∧ character.toNat ≤ 57 ∨ 65 ≤ character.toNat ∧ character.toNat ≤ 90 ∨
      97 ≤ character.toNat ∧ character.toNat ≤ 122 := by
  change ((decide (65 ≤ character.val ∧ character.val ≤ 90) ||
    (decide (97 ≤ character.val) && decide (character.val ≤ 122))) ||
      (decide (48 ≤ character.val) && decide (character.val ≤ 57))) = true ↔ _
  simp only [Bool.or_eq_true, Bool.and_eq_true, decide_eq_true_eq, UInt32.le_iff_toNat_le]
  simp
  omega

theorem unreserved_iff {character : Char} : unreserved character = true ↔
    character.isAlphanum = true ∨ character ∈ ['-', '_', '.', '~'] := by
  simp [unreserved, or_assoc]

theorem unreserved_of_digit {character : Char}
    (digit : (Hex.digitValue character).isSome = true) : unreserved character = true := by
  refine unreserved_iff.mpr (.inl (isAlphanum_iff.mpr ?_))
  by_contra outside
  have ranges : ¬ (48 ≤ character.toNat ∧ character.toNat ≤ 57) ∧
      ¬ (97 ≤ character.toNat ∧ character.toNat ≤ 102) ∧
        ¬ (65 ≤ character.toNat ∧ character.toNat ≤ 70) := by
    omega
  simp [Hex.digitValue, ranges] at digit

structure Grammar.Keeps (grammar : Grammar) (character : Char) : Prop where
  separates : grammar.separates character = false
  skipped : grammar.skipped character = false
  trimmed : grammar.trimmed character = false
  escaped : grammar.escaped character = false

/-- A slash ends a segment, unreserved characters and percent signs stand for
themselves, and the dot segments are those that read as one or two dots. -/
structure Grammar.Lawful (grammar : Grammar) : Prop where
  slash : grammar.separates '/' = true
  slashSkipped : grammar.skipped '/' = false
  slashTrimmed : grammar.trimmed '/' = false
  unreserved : ∀ character, unreserved character = true → grammar.Keeps character
  percent : grammar.Keeps '%'
  dot : grammar.singleDot ['.'] = true
  dots : grammar.doubleDot ['.', '.'] = true
  singleDot : ∀ segment, grammar.singleDot segment = true → decode segment = [46]
  doubleDot : ∀ segment, grammar.doubleDot segment = true → decode segment = [46, 46]

/-- The path of an address, its query and its fragment. -/
structure Target where
  path : List (List Char)
  query : Option (List Char)
  fragment : Option (List Char)
  deriving DecidableEq, Repr

/-- What is before the first of these characters, and what is after it. -/
def cut (mark : Char) (text : List Char) : List Char × Option (List Char) :=
  (text.takeWhile (· ≠ mark), if mark ∈ text then some (text.dropWhile (· ≠ mark)).tail else none)

variable (grammar : Grammar)

def clean (text : List Char) : List Char :=
  (text.rdropWhile grammar.trimmed).filter fun character => !grammar.skipped character

/-- Put the segments after a path; a dot segment at the end leaves an empty
one. -/
def resolve : List (List Char) → List (List Char) → List (List Char)
  | path, [] => path
  | path, [last] =>
      if grammar.doubleDot last then path.dropLast ++ [[]]
      else if grammar.singleDot last then path ++ [[]]
      else path ++ [last]
  | path, segment :: rest =>
      if grammar.doubleDot segment then resolve path.dropLast rest
      else if grammar.singleDot segment then resolve path rest
      else resolve (path ++ [segment]) rest

/-- The segments of a path. -/
def segments (text : List Char) : List (List Char) :=
  (text.splitOnP grammar.separates).map (escape grammar.escaped)

/-- The end of an address that begins with these segments. -/
def parseAfter (path : List (List Char)) (cleaned : List Char) : Target :=
  let (beforeHash, fragment) := cut '#' cleaned
  let (body, query) := cut '?' beforeHash
  ⟨resolve grammar path (segments grammar body), query, fragment⟩

theorem parseAfter_eq (path : List (List Char)) (cleaned : List Char) :
    parseAfter grammar path cleaned =
      ⟨resolve grammar path (segments grammar (cut '?' (cut '#' cleaned).1).1),
        (cut '?' (cut '#' cleaned).1).2, (cut '#' cleaned).2⟩ := rfl

/-- Parse what follows the authority; it begins with a slash. -/
def parseCleaned (cleaned : List Char) : Target :=
  let (beforeHash, fragment) := cut '#' cleaned
  let (body, query) := cut '?' beforeHash
  ⟨resolve grammar [] (segments grammar body).tail, query, fragment⟩

def parse (text : List Char) : Target :=
  parseCleaned grammar (clean grammar text)

/-- A segment that stays as it is. -/
structure Plain (segment : List Char) : Prop where
  keeps : ∀ character ∈ segment, grammar.Keeps character ∧ character ≠ '?' ∧ character ≠ '#'
  notSingle : grammar.singleDot segment = false
  notDouble : grammar.doubleDot segment = false

/-- A path that stays as it is. -/
structure PlainPath where
  segments : List (List Char)
  plain : ∀ segment ∈ segments, Plain grammar segment

variable {grammar}

/-- A slash before each segment. -/
def textOf (segments : List (List Char)) : List Char :=
  segments.flatMap fun segment => '/' :: segment

def PlainPath.text (path : PlainPath grammar) : List Char :=
  textOf path.segments

/-- The path with one more segment. -/
def PlainPath.concat (path : PlainPath grammar) (segment : List Char)
    (plain : Plain grammar segment) : PlainPath grammar where
  segments := path.segments ++ [segment]
  plain other member := by
    rcases List.mem_append.mp member with member | member
    · exact path.plain other member
    · exact List.mem_singleton.mp member ▸ plain

section Parsing

theorem rdropWhile_append_cons {drops : Char → Bool} {mark : Char} (kept : drops mark = false)
    (front back : List Char) :
    (front ++ mark :: back).rdropWhile drops = front ++ mark :: back.rdropWhile drops := by
  induction back using List.reverseRecOn with
  | nil => exact List.rdropWhile_concat_neg _ _ _ (by simp [kept])
  | append_singleton back last induction =>
      have grouped : front ++ mark :: (back ++ [last]) = (front ++ mark :: back) ++ [last] := by
        simp
      rw [grouped]
      by_cases dropped : drops last = true
      · rw [List.rdropWhile_concat_pos _ _ _ dropped, List.rdropWhile_concat_pos _ _ _ dropped,
          induction]
      · rw [List.rdropWhile_concat_neg _ _ _ dropped, List.rdropWhile_concat_neg _ _ _ dropped,
          grouped]

theorem cut_append {mark : Char} {front : List Char} (absent : mark ∉ front) (back : List Char) :
    cut mark (front ++ back) = (front ++ (cut mark back).1, (cut mark back).2) := by
  have other : ∀ character ∈ front, decide (character ≠ mark) = true := fun character member =>
    decide_eq_true fun same => absent (same ▸ member)
  simp only [cut, List.takeWhile_append_of_pos other, List.dropWhile_append_of_pos other,
    List.mem_append, absent, false_or]

theorem splitOnP_append {separates : Char → Bool} {front : List Char}
    (whole : ∀ character ∈ front, separates character = false) (back : List Char) :
    (front ++ back).splitOnP separates = (back.splitOnP separates).modifyHead (front ++ ·) := by
  induction front with
  | nil => cases separated : back.splitOnP separates <;> simp [separated]
  | cons first rest induction =>
      rw [List.cons_append, List.splitOnP_cons_eq_if_modifyHead,
        whole first (List.mem_cons_self ..),
        induction fun character member => whole character (List.mem_cons_of_mem _ member)]
      simp [List.modifyHead_modifyHead, Function.comp_def]

variable {lawful : grammar.Lawful} {path : PlainPath grammar}

theorem splitOnP_textOf (lawful : grammar.Lawful) {segs : List (List Char)}
    (plain : ∀ segment ∈ segs, Plain grammar segment) (body : List Char) :
    (textOf segs ++ '/' :: body).splitOnP grammar.separates =
      [] :: (segs ++ body.splitOnP grammar.separates) := by
  induction segs with
  | nil => exact (List.splitOnP_cons_eq_if_modifyHead _ _).trans (if_pos lawful.slash)
  | cons segment rest induction =>
      have whole : ∀ character ∈ segment, grammar.separates character = false :=
        fun character member =>
          ((plain segment (List.mem_cons_self ..)).keeps character member).1.separates
      have later := induction fun other member => plain other (List.mem_cons_of_mem _ member)
      have grouped : textOf (segment :: rest) ++ '/' :: body =
          '/' :: (segment ++ (textOf rest ++ '/' :: body)) := by
        simp [textOf]
      rw [grouped, List.splitOnP_cons_eq_if_modifyHead, if_pos lawful.slash,
        splitOnP_append whole, later]
      simp

theorem resolve_append {path segs parts : List (List Char)}
    (plain : ∀ segment ∈ segs, Plain grammar segment) (more : parts ≠ []) :
    resolve grammar path (segs ++ parts) = resolve grammar (path ++ segs) parts := by
  induction segs generalizing path with
  | nil => simp
  | cons segment rest induction =>
      have first := plain segment (List.mem_cons_self ..)
      obtain ⟨next, later, equal⟩ := List.exists_cons_of_ne_nil
        (List.append_ne_nil_of_right_ne_nil rest more)
      rw [List.cons_append, equal, resolve, ← equal, first.notDouble, first.notSingle]
      · rw [if_neg Bool.false_ne_true, if_neg Bool.false_ne_true,
          induction fun other member => plain other (List.mem_cons_of_mem _ member)]
        simp
      · simp

theorem mem_text {character : Char} (member : character ∈ path.text) :
    character = '/' ∨ grammar.Keeps character ∧ character ≠ '?' ∧ character ≠ '#' := by
  obtain ⟨segment, listed, inside⟩ := List.mem_flatMap.mp member
  rcases List.mem_cons.mp inside with same | inside
  · exact .inl same
  · exact .inr ((path.plain segment listed).keeps character inside)

/-- What stands before a character that stays is not at the end. -/
theorem clean_append_cons {mark : Char} (unskipped : grammar.skipped mark = false)
    (untrimmed : grammar.trimmed mark = false) (front back : List Char) :
    clean grammar (front ++ mark :: back) =
      (front.filter fun character => !grammar.skipped character) ++ mark :: clean grammar back := by
  rw [clean, rdropWhile_append_cons untrimmed, List.filter_append,
    List.filter_cons_of_pos (by simp [unskipped])]
  rfl

theorem clean_append {front : List Char} (stays : ∀ character ∈ front,
      grammar.skipped character = false ∧ grammar.trimmed character = false) (back : List Char) :
    clean grammar (front ++ back) = front ++ clean grammar back := by
  induction front with
  | nil => rfl
  | cons first rest induction =>
      obtain ⟨unskipped, untrimmed⟩ := stays first (List.mem_cons_self ..)
      have behind := clean_append_cons unskipped untrimmed [] (rest ++ back)
      rw [induction fun character member => stays character (List.mem_cons_of_mem _ member)]
        at behind
      exact behind

theorem clean_text (lawful : grammar.Lawful) (path : PlainPath grammar) (rest : List Char) :
    clean grammar (path.text ++ '/' :: rest) = path.text ++ '/' :: clean grammar rest := by
  have kept : (path.text.filter fun character => !grammar.skipped character) = path.text := by
    refine List.filter_eq_self.mpr fun character member => ?_
    rcases mem_text member with rfl | ⟨keeps, -⟩
    · simp [lawful.slashSkipped]
    · simp [keeps.skipped]
  rw [clean_append_cons lawful.slashSkipped lawful.slashTrimmed, kept]

theorem segments_text (lawful : grammar.Lawful) (path : PlainPath grammar) (body : List Char) :
    segments grammar (path.text ++ '/' :: body) =
      [] :: (path.segments ++ segments grammar body) := by
  have unescaped : path.segments.map (escape grammar.escaped) = path.segments := by
    refine (List.map_congr_left fun segment member => ?_).trans (List.map_id _)
    exact escape_eq_self fun character inside =>
      ((path.plain segment member).keeps character inside).1.escaped
  rw [segments, PlainPath.text, splitOnP_textOf lawful path.plain, List.map_cons, List.map_append,
    unescaped]
  rfl

theorem segments_ne_nil (body : List Char) : segments grammar body ≠ [] := by
  rw [segments, Ne, List.map_eq_nil_iff]
  exact List.splitOnP_ne_nil _ _

theorem parse_text (lawful : grammar.Lawful) (path : PlainPath grammar) (rest : List Char) :
    parse grammar (path.text ++ '/' :: rest) =
      parseAfter grammar path.segments (clean grammar rest) := by
  have noMark : ∀ mark, mark = '?' ∨ mark = '#' → mark ∉ path.text ++ ['/'] := by
    rintro mark isMark member
    rcases List.mem_append.mp member with member | member
    · rcases mem_text member with rfl | ⟨-, noQuery, noHash⟩
      · simp at isMark
      · exact isMark.elim noQuery noHash
    · obtain rfl := List.mem_singleton.mp member
      simp at isMark
  rw [parse, parseCleaned, clean_text lawful, List.append_cons,
    cut_append (noMark '#' (.inr rfl))]
  simp only [cut_append (noMark '?' (.inl rfl))]
  simp only [← List.append_cons, segments_text lawful, List.tail_cons, parseAfter]
  rw [resolve_append path.plain (segments_ne_nil _), List.nil_append]

/-- The last segment of a path is the last one of the address, or empty if that
is a dot segment. -/
theorem getLast?_resolve (path parts : List (List Char)) {last : List Char} :
    (resolve grammar path (parts ++ [last])).getLast? =
      some (if grammar.doubleDot last || grammar.singleDot last then [] else last) := by
  induction parts generalizing path with
  | nil =>
      rw [List.nil_append, resolve]
      cases grammar.doubleDot last <;> cases grammar.singleDot last <;> simp
  | cons segment rest induction =>
      obtain ⟨next, later, equal⟩ := List.exists_cons_of_ne_nil
        (List.append_ne_nil_of_right_ne_nil rest (List.cons_ne_nil last []))
      rw [List.cons_append, equal, resolve, ← equal]
      · split
        · exact induction _
        · split
          · exact induction _
          · exact induction _
      · simp

end Parsing

section OneSegment

variable (grammar) in
/-- The text, put after a path, is one segment of it. -/
structure OneSegment (text : List Char) : Prop where
  whole : ∀ character ∈ text, grammar.separates character = false ∧
    grammar.skipped character = false ∧ character ≠ '?' ∧ character ≠ '#'
  untrimmed : ∀ last ∈ text.getLast?, grammar.trimmed last = false
  notSingle : grammar.singleDot (escape grammar.escaped text) = false
  notDouble : grammar.doubleDot (escape grammar.escaped text) = false

theorem Plain.oneSegment {segment : List Char} (plain : Plain grammar segment) :
    OneSegment grammar segment := by
  have unescaped : escape grammar.escaped segment = segment :=
    escape_eq_self fun character member => (plain.keeps character member).1.escaped
  refine ⟨?_, ?_, ?_, ?_⟩
  · intro character member
    obtain ⟨kept, noMarks⟩ := plain.keeps character member
    exact ⟨kept.separates, kept.skipped, noMarks⟩
  · exact fun last member => (plain.keeps last (List.mem_of_getLast? member)).1.trimmed
  · rw [unescaped, plain.notSingle]
  · rw [unescaped, plain.notDouble]

variable {path : PlainPath grammar} {text : List Char}

theorem clean_eq_self_iff :
    clean grammar text = text ↔ (∀ character ∈ text, grammar.skipped character = false) ∧
      ∀ last ∈ text.getLast?, grammar.trimmed last = false := by
  have untrimmed : text.rdropWhile grammar.trimmed = text ↔
      ∀ last ∈ text.getLast?, grammar.trimmed last = false := by
    rw [List.rdropWhile_eq_self_iff]
    cases text using List.reverseRecOn with
    | nil => simp
    | append_singleton front last => simp
  rw [← untrimmed]
  constructor
  · intro same
    have shorter : text.length ≤ (text.rdropWhile grammar.trimmed).length := by
      conv_lhs => rw [← same]
      exact List.length_filter_le _ _
    have whole := (List.rdropWhile_prefix grammar.trimmed text).eq_of_length_le shorter
    rw [clean, whole] at same
    exact ⟨fun character member => by simpa using List.filter_eq_self.mp same character member,
      whole⟩
  · rintro ⟨unskipped, whole⟩
    rw [clean, whole]
    exact List.filter_eq_self.mpr fun character member => by simp [unskipped character member]

theorem clean_sublist (text : List Char) : (clean grammar text).Sublist text :=
  List.filter_sublist.trans (List.rdropWhile_prefix grammar.trimmed text).sublist

theorem keepsTriples (lawful : grammar.Lawful) : KeepsTriples grammar.escaped where
  percent := lawful.percent.escaped
  digits character digit := (lawful.unreserved character (unreserved_of_digit digit)).escaped

theorem not_mem_of_cut {mark : Char} (uncut : (cut mark text).2 = none) : mark ∉ text := by
  intro member
  simp [cut, member] at uncut

theorem cut_of_not_mem {mark : Char} (absent : mark ∉ text) : cut mark text = (text, none) := by
  have all := cut_append absent []
  simpa [cut] using all

/-- Nothing is dropped or cut off, and there is one segment to resolve. -/
theorem parse_of_whole (lawful : grammar.Lawful) (path : PlainPath grammar)
    (whole : ∀ character ∈ text, grammar.separates character = false ∧
      grammar.skipped character = false ∧ character ≠ '?' ∧ character ≠ '#')
    (untrimmed : ∀ last ∈ text.getLast?, grammar.trimmed last = false) :
    parse grammar (path.text ++ '/' :: text) =
      ⟨resolve grammar path.segments [escape grammar.escaped text], none, none⟩ := by
  have cleaned : clean grammar text = text :=
    clean_eq_self_iff.mpr ⟨fun character member => (whole character member).2.1, untrimmed⟩
  have noHash : '#' ∉ text := fun member => (whole '#' member).2.2.2 rfl
  have noQuery : '?' ∉ text := fun member => (whole '?' member).2.2.1 rfl
  rw [parse_text lawful, cleaned, parseAfter, cut_of_not_mem noHash]
  simp only [cut_of_not_mem noQuery]
  rw [segments, List.splitOnP_eq_singleton fun character member => (whole character member).1,
    List.map_singleton]

theorem parse_of_oneSegment (lawful : grammar.Lawful) (path : PlainPath grammar)
    (one : OneSegment grammar text) :
    parse grammar (path.text ++ '/' :: text) =
      ⟨path.segments ++ [escape grammar.escaped text], none, none⟩ := by
  rw [parse_of_whole lawful path one.whole one.untrimmed, resolve, one.notSingle, one.notDouble]
  rfl

/-- Different segments after a path make different paths. -/
theorem decode_eq_of_resolve (lawful : grammar.Lawful) {path : List (List Char)}
    {first second : List Char} (below : path ≠ []) (nonempty : first ≠ []) (nonempty' : second ≠ [])
    (same : resolve grammar path [first] = resolve grammar path [second]) :
    decode first = decode second := by
  have positive : 0 < path.length := List.length_pos_of_ne_nil below
  have size := congrArg List.length same
  rw [resolve, resolve] at same size
  cases double : grammar.doubleDot first <;> cases double' : grammar.doubleDot second
  · cases single : grammar.singleDot first <;> cases single' : grammar.singleDot second
    · simp_all
    · simp_all
    · simp_all
    · rw [lawful.singleDot first single, lawful.singleDot second single']
  · cases single : grammar.singleDot first <;> simp [double, double', single] at size <;> omega
  · cases single' : grammar.singleDot second <;> simp [double, double', single'] at size <;> omega
  · rw [lawful.doubleDot first double, lawful.doubleDot second double']

theorem sublist_of_mem_splitOnP {separates : Char → Bool} {part : List Char}
    (member : part ∈ text.splitOnP separates) :
    part.Sublist text ∧ ∀ character ∈ part, separates character = false := by
  induction text generalizing part with
  | nil =>
      obtain rfl := List.mem_singleton.mp (List.splitOnP_nil ▸ member)
      simp
  | cons first rest induction =>
      rw [List.splitOnP_cons_eq_if_modifyHead] at member
      split at member
      case isTrue ends =>
          rcases List.mem_cons.mp member with rfl | member
          · simp
          · exact ⟨(induction member).1.cons first, (induction member).2⟩
      case isFalse inside =>
          obtain ⟨head, tail, equal⟩ :=
            List.exists_cons_of_ne_nil (List.splitOnP_ne_nil separates rest)
          rw [equal] at member induction
          rcases List.mem_cons.mp member with rfl | member
          · obtain ⟨sublist, whole⟩ := induction (List.mem_cons_self ..)
            exact ⟨sublist.cons_cons first, List.forall_mem_cons.mpr ⟨by simpa using inside, whole⟩⟩
          · obtain ⟨sublist, whole⟩ := induction (List.mem_cons_of_mem _ member)
            exact ⟨sublist.cons first, whole⟩

/-- If a text put after a path becomes one segment of it that decodes to the
text, nothing of the text was dropped, cut off, split or resolved. -/
theorem oneSegment_of_parse (lawful : grammar.Lawful) {segment : List Char}
    (parsed : parse grammar (path.text ++ '/' :: text) = ⟨path.segments ++ [segment], none, none⟩)
    (decoded : decode segment = Utf8.encode text) :
    OneSegment grammar text ∧ hasTriple text = false := by
  rw [parse_text lawful, parseAfter_eq] at parsed
  obtain ⟨resolved, noQuery, noHash⟩ := Target.mk.inj parsed
  have noHash := not_mem_of_cut noHash
  rw [cut_of_not_mem noHash] at resolved noQuery
  have noQuery := not_mem_of_cut noQuery
  rw [cut_of_not_mem noQuery] at resolved
  obtain ⟨front, last, split⟩ := (List.eq_nil_or_concat _).resolve_left
    (List.splitOnP_ne_nil grammar.separates (clean grammar text))
  obtain ⟨sublist, whole⟩ := sublist_of_mem_splitOnP (show last ∈ _ by rw [split]; simp)
  have inside : (clean grammar text).Sublist text := clean_sublist text
  have final := congrArg List.getLast? resolved
  rw [segments, split, List.concat_eq_append, List.map_append, List.map_singleton,
    getLast?_resolve, List.getLast?_concat] at final
  have notDot : (grammar.doubleDot (escape grammar.escaped last) ||
      grammar.singleDot (escape grammar.escaped last)) = false := by
    refine Bool.eq_false_iff.mpr fun dot => ?_
    rw [dot, if_pos rfl] at final
    obtain rfl := Option.some.inj final
    obtain rfl : [] = text := eq_of_length_encode_le (List.nil_sublist text)
      (decoded ▸ Nat.zero_le _)
    obtain rfl := List.sublist_nil.mp (sublist.trans inside)
    rcases Bool.or_eq_true_iff.mp dot with dots | dot
    · cases lawful.doubleDot _ dots
    · cases lawful.singleDot _ dot
  rw [notDot, if_neg Bool.false_ne_true] at final
  obtain rfl := Option.some.inj final
  rw [decode_escape (keepsTriples lawful)] at decoded
  have same : last = text :=
    eq_of_length_encode_le (sublist.trans inside) (decoded ▸ length_decode_le last)
  subst same
  have cleaned : clean grammar last = last := inside.antisymm sublist
  rw [cleaned] at noHash noQuery
  obtain ⟨unskipped, untrimmed⟩ := clean_eq_self_iff.mp cleaned
  obtain ⟨notDouble, notSingle⟩ := Bool.or_eq_false_iff.mp notDot
  refine ⟨⟨fun character member => ⟨whole character member, unskipped character member, ?_, ?_⟩,
    untrimmed, notSingle, notDouble⟩, decode_eq_encode_iff.mp decoded⟩
  · exact fun same => noQuery (same ▸ member)
  · exact fun same => noHash (same ▸ member)

theorem parse_one_iff (lawful : grammar.Lawful) (path : PlainPath grammar) (text : List Char) :
    (∃ segment, parse grammar (path.text ++ '/' :: text) =
        ⟨path.segments ++ [segment], none, none⟩ ∧ decode segment = Utf8.encode text) ↔
      OneSegment grammar text ∧ hasTriple text = false := by
  constructor
  · rintro ⟨segment, parsed, decoded⟩
    exact oneSegment_of_parse lawful parsed decoded
  · rintro ⟨one, plain⟩
    refine ⟨_, parse_of_oneSegment lawful path one, ?_⟩
    rw [decode_escape (keepsTriples lawful), decode_eq_encode_iff.mpr plain]

end OneSegment

section Standard

/-- The ways to write a dot. -/
def dotTexts : List (List Char) :=
  [['.'], ['%', '2', 'e'], ['%', '2', 'E']]

/-- The grammar of the URL standard, for web addresses: a backslash separates
like a slash, and tabs and line ends are dropped. -/
def standard : Grammar where
  separates character := [47, 92].contains character.toNat
  skipped character := [9, 10, 13].contains character.toNat
  trimmed character := character.toNat ≤ 32
  escaped character := character.toNat ≤ 32 || 126 < character.toNat ||
    [34, 35, 60, 62, 63, 96, 123, 125].contains character.toNat
  singleDot segment := dotTexts.contains segment
  doubleDot segment := dotTexts.any fun first => dotTexts.any fun second =>
    segment == first ++ second

theorem toNat_of_unreserved {character : Char} (kept : unreserved character = true) :
    48 ≤ character.toNat ∧ character.toNat ≤ 57 ∨ 65 ≤ character.toNat ∧ character.toNat ≤ 90 ∨
      97 ≤ character.toNat ∧ character.toNat ≤ 122 ∨
        character.toNat ∈ [45, 46, 95, 126] := by
  rcases unreserved_iff.mp kept with alphanumeric | mark
  · have ranges := isAlphanum_iff.mp alphanumeric
    omega
  · have code : ∀ mark ∈ ['-', '_', '.', '~'], mark.toNat ∈ [45, 46, 95, 126] := by
      simp
    exact .inr (.inr (.inr (code character mark)))

theorem standard_lawful : standard.Lawful where
  slash := by decide
  slashSkipped := by decide
  slashTrimmed := by decide
  unreserved character kept := by
    have code := toNat_of_unreserved kept
    simp only [List.mem_cons, List.not_mem_nil, or_false] at code
    refine ⟨?_, ?_, ?_, ?_⟩ <;> simp [standard] <;> omega
  percent := ⟨by decide, by decide, by decide, by decide⟩
  dot := by decide
  dots := by decide
  singleDot segment dot := by
    have each : ∀ text ∈ dotTexts, decode text = [46] := by decide
    exact each segment (List.contains_iff_mem.mp dot)
  doubleDot segment dots := by
    have each : ∀ first ∈ dotTexts, ∀ second ∈ dotTexts, decode (first ++ second) = [46, 46] := by
      decide
    obtain ⟨first, member, dots⟩ := List.any_eq_true.mp dots
    obtain ⟨second, member', equal⟩ := List.any_eq_true.mp dots
    exact eq_of_beq equal ▸ each first member second member'

end Standard

end CeRs.Url
