import CeRs.Url

/-!
# Hosts of addresses

An address is a scheme, two slashes, an authority and a tail.  The authority
ends where the path, the query or the fragment begins; it is a host with an
optional userinfo before it and an optional port behind it.  The characters that
separate the segments of the path also end the authority, and the characters
that a parser drops are dropped first.
-/

namespace CeRs.Authority

/-- What parsers are free to choose. -/
structure Grammar extends Url.Grammar where
  /-- There is no address with this host and port. -/
  refused : List Char → Bool

/-- These end the authority. -/
def ends (grammar : Grammar) (character : Char) : Bool :=
  grammar.separates character || character == '?' || character == '#'

structure Grammar.Stays (grammar : Grammar) (character : Char) : Prop where
  skipped : grammar.skipped character = false
  trimmed : grammar.trimmed character = false

/-- The characters that end or divide an authority are not dropped, and what is
dropped at the end of an address is no part of a host or a port. -/
structure Grammar.Lawful (grammar : Grammar) : Prop extends grammar.toGrammar.Lawful where
  stays : ∀ character, ends grammar character = true → grammar.Stays character
  marks : ∀ character ∈ ['+', ':', '@', '[', ']'],
    grammar.separates character = false ∧ grammar.Stays character
  refused : ∀ hostPort, (∃ character ∈ hostPort, grammar.trimmed character = true) →
    grammar.refused hostPort = true

def isScheme : List Char → Bool
  | [] => false
  | first :: rest =>
      first.isAlpha && rest.all fun character =>
        character.isAlphanum || character == '+' || character == '-' || character == '.'

/-- What is behind the scheme and the two slashes. -/
def afterScheme (address : List Char) : Option (List Char) :=
  match address.dropWhile (· ≠ ':') with
  | ':' :: '/' :: '/' :: rest =>
      if isScheme (address.takeWhile (· ≠ ':')) then some rest else none
  | _ => none

/-- The host and the port of an authority. -/
def hostPort (authority : List Char) : List Char :=
  authority.rtakeWhile (· ≠ '@')

/-- A literal in brackets, or what is before the port. -/
def hostPart (hostPort : List Char) : List Char :=
  if hostPort.head? = some '[' then
    hostPort.takeWhile (· ≠ ']') ++ (hostPort.dropWhile (· ≠ ']')).take 1
  else hostPort.takeWhile (· ≠ ':')

/-- Behind a host comes a port or nothing. -/
def HostEnds (behind : List Char) : Prop :=
  ∀ character ∈ behind.head?, character = ':'

/-- What a request to an address is for. -/
structure Parsed where
  host : List Char
  target : Url.Target
  deriving DecidableEq, Repr

variable (grammar : Grammar)

def authority (rest : List Char) : List Char :=
  rest.takeWhile fun character => !ends grammar character

/-- What is behind the authority. -/
def tail (rest : List Char) : List Char :=
  rest.dropWhile fun character => !ends grammar character

def clean (address : List Char) : List Char :=
  Url.clean grammar.toGrammar (address.dropWhile grammar.trimmed)

/-- A path that is left out is a slash. -/
def rooted (tail : List Char) : List Char :=
  if (tail.head?.map grammar.separates).getD false then tail else '/' :: tail

def parseAfter (rest : List Char) : Option Parsed :=
  let hostPort := hostPort (authority grammar rest)
  if grammar.refused hostPort then none
  else
    let target := rooted grammar (tail grammar rest)
    some ⟨hostPart hostPort, Url.parseCleaned grammar.toGrammar target⟩

def parse (address : List Char) : Option Parsed :=
  (afterScheme (clean grammar address)).bind (parseAfter grammar)

/-- The host of an address. -/
def hostOf (address : List Char) : Option (List Char) :=
  (parse grammar address).map Parsed.host

/-- A name or address, or a literal in brackets. -/
inductive IsHost : List Char → Prop
  | name (host : List Char) (delimiters : ∀ character ∈ host,
      ends grammar character = false ∧ character ∉ ['@', ':', '[']) : IsHost host
  | literal (inside : List Char) (delimiters : ∀ character ∈ inside,
      ends grammar character = false ∧ character ∉ ['@', ']']) : IsHost ('[' :: inside ++ [']'])

/-- An address by its components. -/
structure Address where
  scheme : List Char
  userinfo : Option (List Char)
  host : List Char
  port : Option (List Char)
  /-- The path, the query and the fragment. -/
  tail : List Char
  scheme_valid : isScheme scheme = true
  userinfo_valid : ∀ info ∈ userinfo, ∀ character ∈ info,
    ends grammar character = false ∧ character ≠ '@' ∧ grammar.Stays character
  host_valid : IsHost grammar host
  host_stays : ∀ character ∈ host, grammar.Stays character
  port_valid : ∀ digits ∈ port, ∀ character ∈ digits, character.isDigit = true
  tail_valid : ∀ character ∈ tail.head?, ends grammar character = true
  accepted : grammar.refused (host ++ (port.map (':' :: ·)).getD []) = false

variable {grammar}

def Address.userinfoText (address : Address grammar) : List Char :=
  (address.userinfo.map (· ++ ['@'])).getD []

def Address.portText (address : Address grammar) : List Char :=
  (address.port.map (':' :: ·)).getD []

def Address.text (address : Address grammar) : List Char :=
  address.scheme ++ (':' :: '/' :: '/' ::
    (address.userinfoText ++ (address.host ++ address.portText) ++ address.tail))

theorem takeWhile_append_of_head {Element : Type} {keeps : Element → Bool}
    {front : List Element} (kept : ∀ element ∈ front, keeps element = true)
    (back : List Element) (stops : ∀ element ∈ back.head?, keeps element = false) :
    (front ++ back).takeWhile keeps = front ∧ (front ++ back).dropWhile keeps = back := by
  rw [List.takeWhile_append_of_pos kept, List.dropWhile_append_of_pos kept]
  cases back with
  | nil => simp
  | cons element back =>
      have stop : ¬ keeps element = true := by simp [stops element rfl]
      rw [List.takeWhile_cons_of_neg stop, List.dropWhile_cons_of_neg stop]
      exact ⟨List.append_nil front, rfl⟩

theorem ne_colon_of_isScheme {scheme : List Char} (valid : isScheme scheme = true) :
    ∀ character ∈ scheme, character ≠ ':' := by
  rintro character member rfl
  cases scheme with
  | nil => cases member
  | cons first rest =>
      rw [isScheme, Bool.and_eq_true, List.all_eq_true] at valid
      rcases List.mem_cons.mp member with rfl | later
      · exact absurd valid.1 (by decide)
      · exact absurd (valid.2 ':' later) (by decide)

theorem afterScheme_append {scheme : List Char} (valid : isScheme scheme = true)
    (rest : List Char) : afterScheme (scheme ++ (':' :: '/' :: '/' :: rest)) = some rest := by
  have kept : ∀ character ∈ scheme, decide (character ≠ ':') = true := by
    simpa using ne_colon_of_isScheme valid
  have split := takeWhile_append_of_head kept (':' :: '/' :: '/' :: rest) (by simp)
  rw [afterScheme, split.1, split.2]
  exact if_pos valid

theorem clean_append {first : Char} {rest : List Char}
    (stays : ∀ character ∈ first :: rest, grammar.Stays character) (back : List Char) :
    clean grammar (first :: rest ++ back) =
      first :: rest ++ Url.clean grammar.toGrammar back := by
  have untrimmed := (stays first (List.mem_cons_self ..)).trimmed
  rw [clean, List.cons_append, List.dropWhile_cons_of_neg (by simp [untrimmed]),
    ← List.cons_append, Url.clean_append]
  exact fun character member => ⟨(stays character member).skipped, (stays character member).trimmed⟩

section Lawful

variable (lawful : grammar.Lawful) {character : Char}
include lawful

theorem ends_of_trimmed (trimmed : grammar.trimmed character = true) :
    ends grammar character = false := by
  refine Bool.eq_false_iff.mpr fun ended => ?_
  have kept := (lawful.stays character ended).trimmed
  rw [trimmed] at kept
  cases kept

theorem ne_of_trimmed (trimmed : grammar.trimmed character = true) {mark : Char}
    (known : mark ∈ ['+', ':', '@', '[', ']']) : character ≠ mark := by
  rintro rfl
  have kept := (lawful.marks character known).2.trimmed
  rw [trimmed] at kept
  cases kept

theorem ends_slash : ends grammar '/' = true := by
  simp [ends, lawful.slash]

theorem ends_of_mark (known : character ∈ ['+', ':', '@', '[', ']']) :
    ends grammar character = false := by
  have notMarks : character ≠ '?' ∧ character ≠ '#' := by
    constructor
    all_goals
      rintro rfl
      exact absurd known (by decide)
  simp [ends, (lawful.marks character known).1, notMarks]

theorem ends_of_unreserved (kept : Url.unreserved character = true) :
    ends grammar character = false := by
  have notMarks : character ≠ '?' ∧ character ≠ '#' := by
    constructor
    all_goals
      rintro rfl
      exact absurd kept (by decide)
  simp [ends, (lawful.unreserved character kept).separates, notMarks]

theorem stays_of_unreserved (kept : Url.unreserved character = true) : grammar.Stays character :=
  ⟨(lawful.unreserved character kept).skipped, (lawful.unreserved character kept).trimmed⟩

theorem stays_of_isScheme {scheme : List Char} (valid : isScheme scheme = true) :
    ∀ character ∈ scheme, grammar.Stays character := by
  have kept : ∀ character, character.isAlphanum = true ∨ character = '+' ∨ character = '-' ∨
      character = '.' → grammar.Stays character := by
    rintro character (alphanumeric | rfl | rfl | rfl)
    · exact stays_of_unreserved lawful (by simp [Url.unreserved, alphanumeric])
    · exact (lawful.marks '+' (by decide)).2
    · exact stays_of_unreserved lawful (by decide)
    · exact stays_of_unreserved lawful (by decide)
  intro character member
  cases scheme with
  | nil => cases member
  | cons first rest =>
      rw [isScheme, Bool.and_eq_true, List.all_eq_true] at valid
      rcases List.mem_cons.mp member with rfl | later
      · exact kept _ (.inl (by simp [Char.isAlphanum, valid.1]))
      · exact kept _ (by simpa [or_assoc] using valid.2 character later)

theorem authority_append_slash (front path : List Char) :
    authority grammar (front ++ '/' :: path) = authority grammar front := by
  induction front with
  | nil => simp [authority, ends_slash lawful]
  | cons character front induction =>
      simp only [authority, List.cons_append, List.takeWhile_cons] at induction ⊢
      rw [induction]

end Lawful

theorem authority_append {front : List Char}
    (delimiters : ∀ character ∈ front, ends grammar character = false) (rest : List Char) :
    authority grammar (front ++ rest) = front ++ authority grammar rest :=
  List.takeWhile_append_of_pos fun character member => by simp [delimiters character member]

theorem hostPort_of_notMem {authority : List Char} (noUserinfo : '@' ∉ authority) :
    hostPort authority = authority := by
  rw [hostPort, List.rtakeWhile_eq_self_iff]
  intro character member
  simpa using ne_of_mem_of_not_mem member noUserinfo

/-- Only what is behind the last at sign counts. -/
theorem hostPort_append (front : List Char) {back : List Char} (userinfo : '@' ∈ back) :
    hostPort (front ++ back) = hostPort back := by
  have stops : (back.reverse.takeWhile (· ≠ '@')).length ≠ back.reverse.length := by
    intro long
    have whole := (List.takeWhile_prefix (· ≠ '@')).eq_of_length long
    have all := List.takeWhile_eq_self_iff.mp whole '@' (List.mem_reverse.mpr userinfo)
    simp at all
  rw [hostPort, hostPort, List.rtakeWhile, List.rtakeWhile, List.reverse_append,
    List.takeWhile_append, if_neg stops]

/-- Without an at sign, all of the end counts. -/
theorem hostPort_append_of_notMem (front : List Char) {back : List Char}
    (noUserinfo : '@' ∉ back) : hostPort (front ++ back) = hostPort front ++ back := by
  have kept : ∀ character ∈ back.reverse, decide (character ≠ '@') = true := by
    intro character member
    simpa using ne_of_mem_of_not_mem (List.mem_reverse.mp member) noUserinfo
  rw [hostPort, hostPort, List.rtakeWhile, List.rtakeWhile, List.reverse_append,
    List.takeWhile_append_of_pos kept, List.reverse_append, List.reverse_reverse]

theorem hostPort_userinfo (info : List Char) {back : List Char} (noUserinfo : '@' ∉ back) :
    hostPort (info ++ '@' :: back) = back := by
  have last : hostPort (info ++ ['@']) = [] := by simp [hostPort, List.rtakeWhile]
  have behind := hostPort_append_of_notMem (info ++ ['@']) noUserinfo
  rw [last] at behind
  simpa using behind

/-- What a parser drops at the end of an address would, inside of it, be part of
the host and the port. -/
theorem hostPort_authority_append (lawful : grammar.Lawful) (front : List Char)
    {trimmed : List Char} (dropped : ∀ character ∈ trimmed, grammar.trimmed character = true) :
    ∃ behind, (∀ character ∈ behind, grammar.trimmed character = true) ∧
      hostPort (authority grammar (front ++ trimmed)) =
        hostPort (authority grammar front) ++ behind := by
  have whole : authority grammar (front ++ trimmed) =
      authority grammar front ++ if authority grammar front = front then trimmed else [] := by
    split
    case isTrue unended =>
        have inside : ∀ character ∈ front ++ trimmed, ends grammar character = false := by
          intro character member
          rcases List.mem_append.mp member with member | member
          · rw [← unended] at member
            simpa using List.mem_takeWhile_imp member
          · exact ends_of_trimmed lawful (dropped character member)
        have all := authority_append inside []
        rw [List.append_nil] at all
        rw [all, unended]
        exact List.append_nil _
    case isFalse ended =>
        have shorter : (authority grammar front).length ≠ front.length :=
          fun long => ended ((List.takeWhile_prefix _).eq_of_length long)
        rw [List.append_nil]
        exact List.takeWhile_append.trans (if_neg shorter)
  rw [whole]
  refine ⟨_, ?_, hostPort_append_of_notMem _ ?_⟩
  · intro character member
    split at member
    · exact dropped character member
    · cases member
  · intro member
    split at member
    · exact ne_of_trimmed lawful (dropped _ member) (by decide) rfl
    · cases member

theorem hostPart_name {hostPort : List Char} (name : hostPort.head? ≠ some '[') :
    hostPart hostPort = hostPort.takeWhile (· ≠ ':') :=
  if_neg name

theorem head?_hostPart {hostPort : List Char} (literal : hostPort.head? = some '[') :
    (hostPart hostPort).head? = some '[' := by
  obtain ⟨rest, rfl⟩ := List.head?_eq_some_iff.mp literal
  rw [hostPart, if_pos literal]
  rfl

/-- The host is a given name exactly if the name stands at the front. -/
theorem hostPart_eq_iff {host hostPort : List Char} (noPort : ':' ∉ host)
    (name : host.head? ≠ some '[') :
    hostPart hostPort = host ↔ ∃ behind, hostPort = host ++ behind ∧ HostEnds behind := by
  constructor
  · rintro rfl
    have notLiteral : hostPort.head? ≠ some '[' := fun literal => name (head?_hostPart literal)
    rw [hostPart_name notLiteral]
    refine ⟨hostPort.dropWhile (· ≠ ':'), List.takeWhile_append_dropWhile.symm, ?_⟩
    intro character head
    have stopped := List.head?_dropWhile_not (· ≠ ':') hostPort
    rw [head] at stopped
    simpa using stopped
  · rintro ⟨behind, rfl, colon⟩
    have notLiteral : (host ++ behind).head? ≠ some '[' := by
      cases host with
      | nil => exact fun literal => absurd (colon '[' literal) (by decide)
      | cons => exact name
    rw [hostPart_name notLiteral]
    refine (takeWhile_append_of_head ?_ _ ?_).1
    · intro character member
      simpa using ne_of_mem_of_not_mem member noPort
    · intro character head
      simp [colon character head]

theorem IsHost.delimiters (lawful : grammar.Lawful) {host : List Char}
    (valid : IsHost grammar host) :
    ∀ character ∈ host, ends grammar character = false ∧ character ≠ '@' := by
  intro character member
  cases valid with
  | name _ delimiters =>
      obtain ⟨inside, others⟩ := delimiters character member
      exact ⟨inside, fun sign => others (by simp [sign])⟩
  | literal inside delimiters =>
      rcases List.mem_append.mp member with member | close
      · rcases List.mem_cons.mp member with rfl | member
        · exact ⟨ends_of_mark lawful (by decide), by decide⟩
        · obtain ⟨inside, others⟩ := delimiters character member
          exact ⟨inside, fun sign => others (by simp [sign])⟩
      · obtain rfl := List.mem_singleton.mp close
        exact ⟨ends_of_mark lawful (by decide), by decide⟩

theorem IsHost.hostPart_append {host behind : List Char} (valid : IsHost grammar host)
    (port : HostEnds behind) : hostPart (host ++ behind) = host := by
  cases valid with
  | name _ delimiters =>
      have noPort : ':' ∉ host := fun member => (delimiters ':' member).2 (by decide)
      have name : host.head? ≠ some '[' := fun literal =>
        (delimiters '[' (List.mem_of_mem_head? literal)).2 (by decide)
      exact (hostPart_eq_iff noPort name).mpr ⟨behind, rfl, port⟩
  | literal inside delimiters =>
      have kept : ∀ character ∈ '[' :: inside, decide (character ≠ ']') = true := by
        intro character member
        rcases List.mem_cons.mp member with rfl | member
        · decide
        · have others := (delimiters character member).2
          simpa using fun close => others (by simp [close])
      have split := takeWhile_append_of_head kept (']' :: behind) (by simp)
      have literal : ('[' :: inside ++ [']'] ++ behind).head? = some '[' := rfl
      rw [hostPart, if_pos literal, List.append_assoc, List.singleton_append, split.1, split.2]
      rfl

namespace Address

variable (lawful : grammar.Lawful) (address : Address grammar)

theorem head?_portText : HostEnds address.portText := by
  rw [portText]
  cases address.port with
  | none => simp [HostEnds]
  | some digits => simp [HostEnds]

include lawful

theorem userinfoText_inside : ∀ character ∈ address.userinfoText,
    ends grammar character = false ∧ grammar.Stays character := by
  rw [userinfoText]
  cases info : address.userinfo with
  | none => simp
  | some text =>
      intro character member
      rcases List.mem_append.mp member with member | sign
      · obtain ⟨inside, -, stays⟩ := address.userinfo_valid text info character member
        exact ⟨inside, stays⟩
      · obtain rfl := List.mem_singleton.mp sign
        exact ⟨ends_of_mark lawful (by decide), (lawful.marks '@' (by decide)).2⟩

theorem hostPort_inside : ∀ character ∈ address.host ++ address.portText,
    ends grammar character = false ∧ character ≠ '@' ∧ grammar.Stays character := by
  intro character member
  rcases List.mem_append.mp member with member | member
  · obtain ⟨inside, noSign⟩ := address.host_valid.delimiters lawful character member
    exact ⟨inside, noSign, address.host_stays character member⟩
  rw [portText] at member
  cases port : address.port with
  | none => simp [port] at member
  | some digits =>
      rw [port] at member
      rcases List.mem_cons.mp member with rfl | member
      · exact ⟨ends_of_mark lawful (by decide), by decide, (lawful.marks ':' (by decide)).2⟩
      · have digit := address.port_valid digits port character member
        have kept : Url.unreserved character = true := by
          simp [Url.unreserved, Char.isAlphanum, digit]
        refine ⟨ends_of_unreserved lawful kept, ?_, stays_of_unreserved lawful kept⟩
        rintro rfl
        cases digit

theorem hostPort_text : hostPort (address.userinfoText ++ (address.host ++ address.portText)) =
    address.host ++ address.portText := by
  have noUserinfo : '@' ∉ address.host ++ address.portText :=
    fun member => (address.hostPort_inside lawful '@' member).2.1 rfl
  rw [userinfoText]
  cases address.userinfo with
  | none => exact hostPort_of_notMem noUserinfo
  | some info =>
      have behind := hostPort_userinfo info noUserinfo
      simpa using behind

theorem clean_text : clean grammar address.text =
    address.scheme ++ (':' :: '/' :: '/' :: (address.userinfoText ++
      (address.host ++ address.portText) ++ Url.clean grammar.toGrammar address.tail)) := by
  have stays : ∀ character ∈ address.scheme ++ (':' :: '/' :: '/' ::
      (address.userinfoText ++ (address.host ++ address.portText))),
        grammar.Stays character := by
    have slash : grammar.Stays '/' := lawful.stays '/' (ends_slash lawful)
    intro character member
    rcases List.mem_append.mp member with member | member
    · exact stays_of_isScheme lawful address.scheme_valid character member
    · simp only [List.mem_cons, List.mem_append] at member
      rcases member with rfl | rfl | rfl | member | member
      · exact (lawful.marks ':' (by decide)).2
      · exact slash
      · exact slash
      · exact (address.userinfoText_inside lawful character member).2
      · exact (address.hostPort_inside lawful character (List.mem_append.mpr member)).2.2
  cases scheme : address.scheme with
  | nil => exact absurd address.scheme_valid (by simp [scheme, isScheme])
  | cons first rest =>
      rw [scheme] at stays
      have cleaned := clean_append stays address.tail
      simpa [text, scheme] using cleaned

theorem authority_text : ∀ character ∈ (Url.clean grammar.toGrammar address.tail).head?,
    ends grammar character = true := by
  cases tail : address.tail with
  | nil => simp [Url.clean]
  | cons first rest =>
      have ended : ends grammar first = true := address.tail_valid first (by simp [tail])
      obtain ⟨unskipped, untrimmed⟩ := lawful.stays first ended
      have cleaned := Url.clean_append_cons unskipped untrimmed [] rest
      rw [List.nil_append, List.filter_nil, List.nil_append] at cleaned
      rw [cleaned]
      simpa using ended

end Address

/-- An address is parsed into the host it was built from and its tail. -/
theorem parse_text (lawful : grammar.Lawful) (address : Address grammar) :
    parse grammar address.text = some ⟨address.host, Url.parseCleaned grammar.toGrammar
      (rooted grammar (Url.clean grammar.toGrammar address.tail))⟩ := by
  have inside : ∀ character ∈ address.userinfoText ++ (address.host ++ address.portText),
      (!ends grammar character) = true := by
    intro character member
    rcases List.mem_append.mp member with member | member
    · simp [(address.userinfoText_inside lawful character member).1]
    · simp [(address.hostPort_inside lawful character member).1]
  have split := takeWhile_append_of_head inside (Url.clean grammar.toGrammar address.tail)
    fun character head => by simp [address.authority_text lawful character head]
  have accepted : grammar.refused (address.host ++ address.portText) = false := address.accepted
  rw [parse, address.clean_text lawful, afterScheme_append address.scheme_valid, Option.bind_some,
    parseAfter, authority, tail, split.1, split.2, address.hostPort_text lawful, accepted,
    address.host_valid.hostPart_append address.head?_portText]
  rfl

/-- The host that is read off the text of an address is its host. -/
theorem hostOf_text (lawful : grammar.Lawful) (address : Address grammar) :
    hostOf grammar address.text = some address.host := by
  rw [hostOf, parse_text lawful]
  rfl

/-- Behind the authority, a path is parsed as it is by itself. -/
theorem parse_path (lawful : grammar.Lawful) (address : Address grammar) {path : List Char}
    (tail : address.tail = '/' :: path) : parse grammar address.text =
      some ⟨address.host, Url.parse grammar.toGrammar ('/' :: path)⟩ := by
  have cleaned := Url.clean_append_cons lawful.slashSkipped lawful.slashTrimmed [] path
  rw [List.nil_append, List.filter_nil, List.nil_append] at cleaned
  rw [parse_text lawful, tail, Url.parse, cleaned]
  simp [rooted, lawful.slash]

section Standard

/-- What may follow a host. -/
def isPort : List Char → Bool
  | [] => true
  | first :: digits =>
      first == ':' && digits.all Char.isDigit &&
        digits.foldl (fun value digit => 10 * value + (digit.toNat - 48)) 0 ≤ 65535

/-- No host holds these. -/
def forbidden (character : Char) : Bool :=
  character.toNat ≤ 32 || [60, 62, 94, 124, 127].contains character.toNat

/-- The grammar of the URL standard, for web addresses.  What is refused are
characters that no host may hold, hosts without a name, and what is no port. -/
def standard : Grammar where
  toGrammar := Url.standard
  refused hostPort :=
    let host := hostPart hostPort
    host.isEmpty || host.any forbidden || !isPort (hostPort.drop host.length)

theorem hostPart_append_drop (hostPort : List Char) :
    hostPart hostPort ++ hostPort.drop (hostPart hostPort).length = hostPort := by
  have isPrefix : hostPart hostPort <+: hostPort := by
    rw [hostPart]
    split
    · have whole := List.takeWhile_append_dropWhile (p := (· ≠ ']')) (l := hostPort)
      conv_rhs => rw [← whole]
      exact List.prefix_append_right_inj _ |>.mpr (List.take_prefix ..)
    · exact List.takeWhile_prefix _
  exact (List.prefix_iff_eq_append.mp isPrefix)

theorem standard_lawful : standard.Lawful where
  toLawful := Url.standard_lawful
  stays character ended := by
    have marks : character ∈ ['/', '\\', '?', '#'] := by
      have code : character.toNat = 47 ∨ character.toNat = 92 → character = '/' ∨
          character = '\\' := by
        rintro (code | code)
        · exact .inl (Char.toNat_inj.mp code)
        · exact .inr (Char.toNat_inj.mp code)
      simp [ends, standard, Url.standard] at ended
      simp
      tauto
    have each : ∀ character ∈ ['/', '\\', '?', '#'],
        standard.skipped character = false ∧ standard.trimmed character = false :=
      List.all_iff_forall_prop.mp (by decide)
    exact ⟨(each character marks).1, (each character marks).2⟩
  marks character known := by
    have each : ∀ character ∈ ['+', ':', '@', '[', ']'], standard.separates character = false ∧
        standard.skipped character = false ∧ standard.trimmed character = false :=
      List.all_iff_forall_prop.mp (by decide)
    obtain ⟨inside, unskipped, untrimmed⟩ := each character known
    exact ⟨inside, unskipped, untrimmed⟩
  refused hostPort := by
    rintro ⟨character, member, trimmed⟩
    have small : character.toNat ≤ 32 := by simpa [standard, Url.standard] using trimmed
    rw [← hostPart_append_drop hostPort] at member
    rcases List.mem_append.mp member with member | member
    · have held : (hostPart hostPort).any forbidden = true :=
        List.any_eq_true.mpr ⟨character, member, by simp [forbidden, small]⟩
      simp only [standard, held, Bool.or_true, Bool.true_or]
    · have noPort : isPort (hostPort.drop (hostPart hostPort).length) = false := by
        cases port : hostPort.drop (hostPart hostPort).length with
        | nil => simp [port] at member
        | cons first digits =>
            refine Bool.eq_false_iff.mpr fun valid => ?_
            simp only [isPort, Bool.and_eq_true, List.all_eq_true, beq_iff_eq] at valid
            rw [port] at member
            rcases List.mem_cons.mp member with rfl | member
            · rw [valid.1.1] at small
              exact absurd small (by decide)
            · have digit := valid.1.2 character member
              simp only [Char.isDigit, Bool.and_eq_true, decide_eq_true_eq,
                UInt32.le_iff_toNat_le] at digit
              have large : 48 ≤ character.toNat := digit.1
              omega
      simp [standard, noPort]

/-- A backslash ends the authority. -/
example : hostOf standard "http://localhost.example.com\\@localhost".toList =
    some "localhost.example.com".toList := by
  decide

example : hostOf standard "http://localhost:1@[::1]:8844/path".toList = some "[::1]".toList := by
  decide

end Standard

end CeRs.Authority
