import CeRs.Authority

/-!
# The paths of requests

Ids are put into the path of a request as they are, while service names are
percent-encoded.  A request reaches the route it is meant for if the parsed path
is the base path, the route, and one segment that decodes to the id or name.
-/

namespace CeRs.Paths

open Percent Url

section Requests

/-- The path of what has this id, on one of the routes. -/
def idPath (route id : String) : String := s!"/{route}/{id}"

/-- `get_blob`. -/
def getBlob (hash : String) : String := idPath "blobs" hash

/-- `resolve_name`. -/
def resolveName (name : String) : String := idPath "names" name

/-- `kill`. -/
def kill (jobId : String) : String := idPath "jobs" jobId

/-- The bytes that `encode_path_segment` keeps. -/
def passes (byte : UInt8) : Bool :=
  (65 ≤ byte && byte ≤ 90) || (97 ≤ byte && byte ≤ 122) || (48 ≤ byte && byte ≤ 57) ||
    byte == 45 || byte == 95 || byte == 46 || byte == 126

def encodePathSegment (text : String) : String :=
  String.ofList ((Utf8.encode text.toList).flatMap fun byte =>
    if passes byte then [Char.ofNat byte.toNat] else encodeByte byte)

def findService (service : String) : String :=
  let encoded := encodePathSegment service
  s!"/discovery/find/{encoded}"

/-- `tag_service`, with `TAG_PREFIX`. -/
def tagService (tag : String) : String := s!"tag:{tag}"

def findTag (tag : String) : String := findService (tagService tag)

/-- `CeClient::url`: what of a request's address follows the authority. -/
def url {grammar : Grammar} (base : PlainPath grammar) (path : String) : List Char :=
  base.text ++ path.toList

end Requests

variable {grammar : Grammar}

/-- The request goes to the base path, this route, and one segment that decodes
to the id. -/
def Contained (base : PlainPath grammar) (route : List String) (id path : String) : Prop :=
  ∃ segment, parse grammar (url base path) =
      ⟨base.segments ++ route.map String.toList ++ [segment], none, none⟩ ∧
    decode segment = Utf8.encode id.toList

theorem keeps_of_unreserved (lawful : grammar.Lawful) {character : Char}
    (kept : unreserved character = true) :
    grammar.Keeps character ∧ character ≠ '?' ∧ character ≠ '#' := by
  refine ⟨lawful.unreserved character kept, ?_, ?_⟩
  · rintro rfl
    exact absurd kept (by decide)
  · rintro rfl
    exact absurd kept (by decide)

theorem plain_of_unreserved (lawful : grammar.Lawful) {segment : List Char}
    (kept : ∀ character ∈ segment, unreserved character = true)
    (noDot : decode segment ≠ [46]) (noDots : decode segment ≠ [46, 46]) :
    Plain grammar segment where
  keeps character member := keeps_of_unreserved lawful (kept character member)
  notSingle := Bool.eq_false_iff.mpr fun dot => noDot (lawful.singleDot segment dot)
  notDouble := Bool.eq_false_iff.mpr fun dots => noDots (lawful.doubleDot segment dots)

/-- The routes of ids and names. -/
def routes : List String := ["blobs", "names", "jobs", "discovery", "find"]

theorem plain_route (lawful : grammar.Lawful) {route : String} (member : route ∈ routes) :
    Plain grammar route.toList := by
  have kept : ∀ route ∈ routes, (route.toList.all fun character => unreserved character) = true ∧
      decode route.toList ≠ [46] ∧ decode route.toList ≠ [46, 46] := by
    decide
  obtain ⟨all, noDot, noDots⟩ := kept route member
  exact plain_of_unreserved lawful (List.all_eq_true.mp all) noDot noDots

theorem toList_idPath (route id : String) :
    (idPath route id).toList = '/' :: (route.toList ++ '/' :: id.toList) := by
  change ((("/" ++ route) ++ "/") ++ id).toList = _
  simp only [String.toList_append, List.append_assoc]
  rfl

/-- An id reaches its route as one segment that decodes to it exactly if it is
one segment as it is, and has no triple. -/
theorem contained_idPath_iff (lawful : grammar.Lawful) (base : PlainPath grammar) {route : String}
    (member : route ∈ routes) (id : String) :
    Contained base [route] id (idPath route id) ↔
      OneSegment grammar id.toList ∧ hasTriple id.toList = false := by
  have address : url base (idPath route id) =
      (base.concat route.toList (plain_route lawful member)).text ++ '/' :: id.toList := by
    simp [url, toList_idPath, PlainPath.text, PlainPath.concat, textOf]
  rw [Contained, address]
  exact parse_one_iff lawful _ id.toList

/-- Blob hashes, claimed names and job ids stay inside their route exactly if
they are one segment as they are, and have no triple. -/
theorem ids_contained_iff (lawful : grammar.Lawful) (base : PlainPath grammar) (id : String) :
    (Contained base ["blobs"] id (getBlob id) ↔
        OneSegment grammar id.toList ∧ hasTriple id.toList = false) ∧
      (Contained base ["names"] id (resolveName id) ↔
        OneSegment grammar id.toList ∧ hasTriple id.toList = false) ∧
      (Contained base ["jobs"] id (kill id) ↔
        OneSegment grammar id.toList ∧ hasTriple id.toList = false) :=
  ⟨contained_idPath_iff lawful base (by decide) id, contained_idPath_iff lawful base (by decide) id,
    contained_idPath_iff lawful base (by decide) id⟩

theorem parse_address {grammar : Authority.Grammar} (lawful : grammar.Lawful)
    (address : Authority.Address grammar) (base : PlainPath grammar.toGrammar) {path : String}
    {rest : List Char} (slash : path.toList = '/' :: rest) (tail : address.tail = url base path) :
    Authority.parse grammar address.text =
      some ⟨address.host, parse grammar.toGrammar (url base path)⟩ := by
  have begins : ∃ rest, url base path = '/' :: rest := by
    rw [url, slash, PlainPath.text, textOf]
    cases base.segments with
    | nil => exact ⟨rest, rfl⟩
    | cons segment others => exact ⟨_, rfl⟩
  obtain ⟨rest, begins⟩ := begins
  rw [begins] at tail ⊢
  exact Authority.parse_path lawful address tail

/-- A node at the root of its authority. -/
def root : PlainPath standard := ⟨[], by simp⟩

theorem plain_of_all {segment : List Char}
    (kept : (segment.all fun character => unreserved character) = true)
    (noDot : decode segment ≠ [46]) (noDots : decode segment ≠ [46, 46]) :
    Plain standard segment :=
  plain_of_unreserved standard_lawful (List.all_eq_true.mp kept) noDot noDots

/-- A node below a path of its authority. -/
def proxied : PlainPath standard where
  segments := ["ce".toList, "node".toList]
  plain := by
    simp only [List.forall_mem_cons]
    exact ⟨plain_of_all (by decide) (by decide) (by decide),
      plain_of_all (by decide) (by decide) (by decide), by simp⟩

theorem ids_contained_iff_hash : Contained root ["blobs"] "8f43" (getBlob "8f43") ∧
    Contained proxied ["jobs"] "8f43" (kill "8f43") := by
  have plain : Plain standard "8f43".toList :=
    plain_of_all (by decide) (by decide) (by decide)
  have one : OneSegment standard "8f43".toList ∧ hasTriple "8f43".toList = false :=
    ⟨plain.oneSegment, by decide⟩
  exact ⟨(ids_contained_iff standard_lawful root "8f43").1.mpr one,
    (ids_contained_iff standard_lawful proxied "8f43").2.2.mpr one⟩

/-- A chunk id that leads to another route. -/
theorem blob_request_elsewhere :
    parse standard (url root (getBlob "../status")) = ⟨["status".toList], none, none⟩ ∧
      ¬ Contained root ["blobs"] "../status" (getBlob "../status") := by
  have parsed : parse standard (url root (getBlob "../status")) =
      ⟨["status".toList], none, none⟩ := by
    decide +kernel
  refine ⟨parsed, ?_⟩
  rintro ⟨segment, contained, -⟩
  rw [parsed] at contained
  have size := congrArg List.length (Target.mk.inj contained).1
  simp at size

section Services

theorem encode_injective {first second : List Char}
    (same : Utf8.encode first = Utf8.encode second) : first = second := by
  rw [← Utf8.fromUtf8Lossy_encode first, same, Utf8.fromUtf8Lossy_encode]

theorem unreserved_of_passes {byte : UInt8} (kept : passes byte = true) :
    unreserved (Char.ofNat byte.toNat) = true ∧
      String.utf8EncodeChar (Char.ofNat byte.toNat) = [byte] := by
  have each : ∀ code : Fin 256, passes (UInt8.ofNat code) = true →
      unreserved (Char.ofNat code) = true ∧
        String.utf8EncodeChar (Char.ofNat code) = [UInt8.ofNat code] := by
    decide +kernel
  have found := each ⟨byte.toNat, byte.toNat_lt⟩
  rw [UInt8.ofNat_toNat] at found
  exact found kept

theorem toList_encodePathSegment (text : String) :
    (encodePathSegment text).toList = (Utf8.encode text.toList).flatMap fun byte =>
      if passes byte then [Char.ofNat byte.toNat] else encodeByte byte :=
  String.toList_ofList

theorem decode_encodePathSegment (text : String) :
    decode (encodePathSegment text).toList = Utf8.encode text.toList := by
  rw [toList_encodePathSegment]
  refine decode_flatMap_kept (fun byte kept => ?_) _
  obtain ⟨unreserved, encoded⟩ := unreserved_of_passes kept
  refine ⟨fun same => ?_, encoded⟩
  rw [same] at unreserved
  cases unreserved

theorem unreserved_digit {value : Nat} (small : value < 16) : unreserved (digit value) = true := by
  have each : ∀ value : Fin 16, unreserved (digit value) = true := by decide
  exact each ⟨value, small⟩

theorem keeps_encodePathSegment (lawful : grammar.Lawful) (text : String) {character : Char}
    (member : character ∈ (encodePathSegment text).toList) :
    grammar.Keeps character ∧ character ≠ '?' ∧ character ≠ '#' := by
  rw [toList_encodePathSegment] at member
  obtain ⟨byte, -, member⟩ := List.mem_flatMap.mp member
  have kinds : character = '%' ∨ unreserved character = true := by
    have bound := byte.toNat_lt
    cases kept : passes byte with
    | true =>
        rw [kept, if_pos rfl, List.mem_singleton] at member
        exact .inr (member ▸ (unreserved_of_passes kept).1)
    | false =>
        rw [kept, if_neg Bool.false_ne_true, encodeByte] at member
        rcases List.mem_cons.mp member with same | member
        · exact .inl same
        rcases List.mem_cons.mp member with rfl | member
        · exact .inr (unreserved_digit (by omega))
        obtain rfl := List.mem_singleton.mp member
        exact .inr (unreserved_digit (by omega))
  rcases kinds with rfl | kept
  · exact ⟨lawful.percent, by decide, by decide⟩
  · exact keeps_of_unreserved lawful kept

theorem toList_findService (service : String) :
    (findService service).toList = '/' :: ("discovery".toList ++ '/' :: ("find".toList ++
      '/' :: (encodePathSegment service).toList)) := by
  change ("/discovery/find/" ++ encodePathSegment service).toList = _
  rw [String.toList_append]
  rfl

/-- The route of service names. -/
def findRoute (lawful : grammar.Lawful) (base : PlainPath grammar) : PlainPath grammar :=
  (base.concat "discovery".toList (plain_route lawful (by decide))).concat "find".toList
    (plain_route lawful (by decide))

theorem segments_findRoute (lawful : grammar.Lawful) (base : PlainPath grammar) :
    (findRoute lawful base).segments =
      base.segments ++ ["discovery", "find"].map String.toList := by
  simp [findRoute, PlainPath.concat]

theorem parse_findService (lawful : grammar.Lawful) (base : PlainPath grammar)
    (service : String) :
    parse grammar (url base (findService service)) =
      ⟨resolve grammar (base.segments ++ ["discovery", "find"].map String.toList)
        [(encodePathSegment service).toList], none, none⟩ := by
  have address : url base (findService service) =
      (findRoute lawful base).text ++ '/' :: (encodePathSegment service).toList := by
    simp [url, toList_findService, PlainPath.text, findRoute, PlainPath.concat, textOf]
  have keeps : ∀ character ∈ (encodePathSegment service).toList,
      grammar.Keeps character ∧ character ≠ '?' ∧ character ≠ '#' :=
    fun _ member => keeps_encodePathSegment lawful service member
  rw [address, parse_of_whole lawful, segments_findRoute, escape_eq_self]
  · exact fun character member => (keeps character member).1.escaped
  · intro character member
    obtain ⟨kept, noMarks⟩ := keeps character member
    exact ⟨kept.separates, kept.skipped, noMarks⟩
  · exact fun last member => (keeps last (List.mem_of_getLast? member)).1.trimmed

theorem eq_of_decode {service : String} {text : List Char}
    (decoded : decode (encodePathSegment service).toList = Utf8.encode text) :
    service.toList = text :=
  encode_injective ((decode_encodePathSegment service).symm.trans decoded)

/-- A service name is one segment of the path unless it is a dot segment. -/
theorem contained_findService_iff (lawful : grammar.Lawful) (base : PlainPath grammar)
    (service : String) :
    Contained base ["discovery", "find"] service (findService service) ↔
      service ≠ "." ∧ service ≠ ".." := by
  rw [Contained, parse_findService lawful, resolve]
  constructor
  · rintro ⟨segment, parsed, decoded⟩
    have path := (Target.mk.inj parsed).1
    refine ⟨?_, ?_⟩
    · rintro rfl
      have encoded : (encodePathSegment ".").toList = ['.'] := by decide
      have single : grammar.doubleDot ['.'] = false :=
        Bool.eq_false_iff.mpr fun double => by cases lawful.doubleDot _ double
      rw [encoded, single, lawful.dot, if_neg Bool.false_ne_true, if_pos rfl] at path
      obtain rfl := List.singleton_inj.mp (List.append_cancel_left path)
      cases decoded
    · rintro rfl
      have encoded : (encodePathSegment "..").toList = ['.', '.'] := by decide
      rw [encoded, lawful.dots, if_pos rfl] at path
      have size := congrArg List.length path
      simp at size
  · rintro ⟨notDot, notDots⟩
    have single : grammar.singleDot (encodePathSegment service).toList = false := by
      refine Bool.eq_false_iff.mpr fun dot => notDot (String.toList_inj.mp ?_)
      exact eq_of_decode (lawful.singleDot _ dot)
    have double : grammar.doubleDot (encodePathSegment service).toList = false := by
      refine Bool.eq_false_iff.mpr fun dots => notDots (String.toList_inj.mp ?_)
      exact eq_of_decode (lawful.doubleDot _ dots)
    rw [single, double]
    exact ⟨_, rfl, decode_encodePathSegment service⟩

theorem encodePathSegment_ne_nil {text : String} (nonempty : text ≠ "") :
    (encodePathSegment text).toList ≠ [] := by
  intro empty
  have decoded := decode_encodePathSegment text
  rw [empty] at decoded
  exact nonempty (String.toList_inj.mp (encode_injective decoded.symm))

/-- Distinct names are looked up under distinct paths. -/
theorem findService_injective (lawful : grammar.Lawful) (base : PlainPath grammar)
    {first second : String} (nonempty : first ≠ "") (nonempty' : second ≠ "")
    (same : parse grammar (url base (findService first)) =
      parse grammar (url base (findService second))) : first = second := by
  rw [parse_findService lawful, parse_findService lawful] at same
  have decoded := decode_eq_of_resolve lawful (by simp) (encodePathSegment_ne_nil nonempty)
    (encodePathSegment_ne_nil nonempty') (Target.mk.inj same).1
  rw [decode_encodePathSegment, decode_encodePathSegment] at decoded
  exact String.toList_inj.mp (encode_injective decoded)

theorem tagService_ne (tag : String) :
    tagService tag ≠ "" ∧ tagService tag ≠ "." ∧ tagService tag ≠ ".." := by
  have starts : (tagService tag).toList = 't' :: 'a' :: 'g' :: ':' :: tag.toList := by
    change ("tag:" ++ tag).toList = _
    rw [String.toList_append]
    rfl
  refine ⟨?_, ?_, ?_⟩
  all_goals
    intro same
    rw [same] at starts
    simp at starts

theorem tagService_injective {first second : String}
    (same : tagService first = tagService second) : first = second := by
  have texts := congrArg String.toList same
  change ("tag:" ++ first).toList = ("tag:" ++ second).toList at texts
  rw [String.toList_append, String.toList_append] at texts
  exact String.toList_inj.mp (List.append_cancel_left texts)

/-- A service name is looked up as one segment of the path unless it is a dot
segment, and a tag always is; distinct ones are looked up under distinct
paths. -/
theorem names_contained_iff (lawful : grammar.Lawful) (base : PlainPath grammar) :
    (∀ service, Contained base ["discovery", "find"] service (findService service) ↔
        service ≠ "." ∧ service ≠ "..") ∧
      (∀ first second, first ≠ "" → second ≠ "" → first ≠ second →
        parse grammar (url base (findService first)) ≠
          parse grammar (url base (findService second))) ∧
      (∀ tag, Contained base ["discovery", "find"] (tagService tag) (findTag tag)) ∧
      ∀ first second, first ≠ second →
        parse grammar (url base (findTag first)) ≠ parse grammar (url base (findTag second)) := by
  refine ⟨contained_findService_iff lawful base, ?_, ?_, ?_⟩
  · intro first second nonempty nonempty' differ same
    exact differ (findService_injective lawful base nonempty nonempty' same)
  · exact fun tag => (contained_findService_iff lawful base _).mpr (tagService_ne tag).2
  · intro first second differ same
    exact differ (tagService_injective
      (findService_injective lawful base (tagService_ne first).1 (tagService_ne second).1 same))

theorem names_contained_iff_role :
    Contained root ["discovery", "find"] "ce-hetzner/control"
        (findService "ce-hetzner/control") ∧
      parse standard (url root (findService "ce-hetzner/control")) ≠
        parse standard (url root (findService "ce-hetzner")) ∧
      parse standard (url root (findTag "gpu")) ≠ parse standard (url root (findTag "arm")) := by
  obtain ⟨contained, distinct, -, tagged⟩ := names_contained_iff standard_lawful root
  refine ⟨(contained _).mpr (by decide), ?_, ?_⟩
  · exact distinct _ _ (by decide) (by decide) (by decide)
  · exact tagged _ _ (by decide)

/-- A name that is resolved away. -/
theorem dots_looked_up_elsewhere :
    parse standard (url root (findService "..")) = ⟨["discovery".toList, []], none, none⟩ ∧
      ¬ Contained root ["discovery", "find"] ".." (findService "..") := by
  have parsed : parse standard (url root (findService "..")) =
      ⟨["discovery".toList, []], none, none⟩ := by
    decide +kernel
  refine ⟨parsed, ?_⟩
  rintro ⟨segment, contained, -⟩
  rw [parsed] at contained
  have size := congrArg List.length (Target.mk.inj contained).1
  simp at size

end Services

end CeRs.Paths
