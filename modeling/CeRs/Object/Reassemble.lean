import CeRs.Object.Store

/-!
# Reassembling an object from its manifest

`reassemble` asks a fetcher for one chunk after the other and checks each
against its address.  The fetcher is any stateful function: it may answer the
same address differently each time.
-/

namespace CeRs.Object

open Memory (Allocator)

variable (allocator : Allocator) (sha256 : List UInt8 → List UInt8)
variable {World : Type} (fetch : World → String → Except String (List UInt8) × World)

/-- The loop of `reassemble`, over the addresses that are left; `out` has a
capacity. -/
def reassembleLoop : World → (capacity : Nat) → List UInt8 → List String → Outcome (List UInt8)
  | _, _, out, [] => .ok out
  | world, capacity, out, chunkCid :: rest =>
      match fetch world chunkCid with
      | (.error message, _) => .err message
      | (.ok bytes, next) =>
          let got := cid sha256 bytes
          if got ≠ chunkCid then
            .err s!"chunk verification failed: expected {chunkCid}, got {got}"
          else
            match allocator.reserve capacity (out.length + bytes.length) with
            | none => .panic
            | some capacity => reassembleLoop next capacity (out ++ bytes) rest

def reassemble (world : World) (manifest : Manifest) : Outcome (List UInt8) :=
  if manifest.isV1 then
    let total := manifest.totalSize
    -- `Vec::with_capacity`
    match allocator.reserve 0 total.toNat with
    | none => .panic
    | some capacity =>
        match reassembleLoop allocator sha256 fetch world capacity [] manifest.chunks with
        | .ok out =>
            let size := out.length
            if size ≠ total.toNat then
              .err s!"reassembled size {size} != manifest total_size {total}"
            else .ok out
        | .err message => .err message
        | .panic => .panic
  else
    let kind := manifest.kind
    .err s!"unsupported manifest kind: {kind}"

/-- What the fetcher answers when it is asked for these addresses in order. -/
def answers : World → List String → List (Except String (List UInt8))
  | _, [] => []
  | world, chunkCid :: rest =>
      (fetch world chunkCid).1 :: answers (fetch world chunkCid).2 rest

variable {allocator sha256 fetch}

variable (sha256 fetch) in
/-- Asked for the addresses in order, the fetcher answers with these chunks,
and each has its address. -/
def Supplies (world : World) (cids : List String) (chunks : List (List UInt8)) : Prop :=
  answers fetch world cids = chunks.map Except.ok ∧ chunks.map (cid sha256) = cids

theorem supplies_nil {world : World} {chunks : List (List UInt8)} :
    Supplies sha256 fetch world [] chunks ↔ chunks = [] := by
  constructor
  · rintro ⟨-, none⟩
    exact List.map_eq_nil_iff.mp none
  · rintro rfl
    exact ⟨rfl, rfl⟩

theorem supplies_cons {world : World} {chunkCid : String} {rest : List String}
    {chunks : List (List UInt8)} :
    Supplies sha256 fetch world (chunkCid :: rest) chunks ↔
      ∃ bytes others, chunks = bytes :: others ∧ (fetch world chunkCid).1 = .ok bytes ∧
        cid sha256 bytes = chunkCid ∧
          Supplies sha256 fetch (fetch world chunkCid).2 rest others := by
  constructor
  · rintro ⟨served, addresses⟩
    cases chunks with
    | nil => simp at addresses
    | cons bytes others =>
        obtain ⟨first, served⟩ := List.cons.inj served
        obtain ⟨address, addresses⟩ := List.cons.inj addresses
        exact ⟨bytes, others, rfl, first, address, served, addresses⟩
  · rintro ⟨bytes, others, rfl, first, address, served, addresses⟩
    refine ⟨?_, ?_⟩
    · rw [answers, first, served, List.map_cons]
    · rw [List.map_cons, address, addresses]

theorem reassembleLoop_cons_eq_ok {world : World} {capacity : Nat} {out result : List UInt8}
    {chunkCid : String} {rest : List String} :
    reassembleLoop allocator sha256 fetch world capacity out (chunkCid :: rest) = .ok result ↔
      ∃ bytes, (fetch world chunkCid).1 = .ok bytes ∧ cid sha256 bytes = chunkCid ∧
        ∃ grown, allocator.reserve capacity (out.length + bytes.length) = some grown ∧
        reassembleLoop allocator sha256 fetch (fetch world chunkCid).2 grown (out ++ bytes) rest =
          .ok result := by
  rw [reassembleLoop]
  split
  case h_1 message next asked => simp [asked]
  case h_2 bytes next asked =>
      by_cases address : cid sha256 bytes = chunkCid
      · cases reserved : allocator.reserve capacity (out.length + bytes.length) with
        | none => simp [asked, address, reserved]
        | some grown => simp [asked, address, reserved]
      · simp [asked, address]

/-- The loop succeeds exactly if the fetcher supplies the chunks and the vector
takes them. -/
theorem reassembleLoop_eq_ok {world : World} {capacity : Nat} {out result : List UInt8}
    {cids : List String} :
    reassembleLoop allocator sha256 fetch world capacity out cids = .ok result ↔
      ∃ chunks, Supplies sha256 fetch world cids chunks ∧ result = out ++ chunks.flatten ∧
        allocator.takes capacity out.length chunks = true := by
  induction cids generalizing world capacity out with
  | nil =>
      constructor
      · intro equal
        obtain rfl := Outcome.ok.inj equal
        exact ⟨[], supplies_nil.mpr rfl, by simp, rfl⟩
      · rintro ⟨chunks, supplied, rfl, -⟩
        obtain rfl := supplies_nil.mp supplied
        simp [reassembleLoop]
  | cons chunkCid rest induction =>
      rw [reassembleLoop_cons_eq_ok]
      constructor
      · rintro ⟨bytes, first, address, grown, reserved, later⟩
        obtain ⟨others, supplied, rfl, taken⟩ := induction.mp later
        refine ⟨bytes :: others, ?_, by simp, ?_⟩
        · exact supplies_cons.mpr ⟨bytes, others, rfl, first, address, supplied⟩
        · rw [List.length_append] at taken
          rw [Allocator.takes, reserved]
          exact taken
      · rintro ⟨chunks, supplied, rfl, taken⟩
        obtain ⟨bytes, others, rfl, first, address, supplied⟩ := supplies_cons.mp supplied
        rw [Allocator.takes] at taken
        cases reserved : allocator.reserve capacity (out.length + bytes.length) with
        | none => simp [reserved] at taken
        | some grown =>
            rw [reserved] at taken
            refine ⟨bytes, first, address, grown, reserved,
              induction.mpr ⟨others, supplied, by simp, ?_⟩⟩
            rw [List.length_append]
            exact taken

/-- An object is reassembled exactly if the fetcher supplies the listed chunks,
they are of the recorded size, and there is memory for it. -/
theorem reassemble_eq_ok {world : World} {manifest : Manifest} {out : List UInt8} :
    reassemble allocator sha256 fetch world manifest = .ok out ↔
      manifest.isV1 = true ∧ ∃ chunks, Supplies sha256 fetch world manifest.chunks chunks ∧
        out = chunks.flatten ∧ out.length = manifest.totalSize.toNat ∧
        allocator.Grants out.length := by
  constructor
  · intro reassembled
    simp only [reassemble] at reassembled
    split at reassembled
    case isFalse => cases reassembled
    case isTrue isV1 =>
        split at reassembled
        case h_1 => cases reassembled
        case h_2 capacity reserved =>
            split at reassembled
            case h_1 whole looped =>
                split at reassembled
                case isTrue => cases reassembled
                case isFalse same =>
                    obtain rfl := Outcome.ok.inj reassembled
                    obtain ⟨chunks, supplied, equal, -⟩ := reassembleLoop_eq_ok.mp looped
                    have size := not_not.mp same
                    refine ⟨isV1, chunks, supplied, equal, size, ?_⟩
                    rw [size, Allocator.Grants, reserved]
                    rfl
            case h_2 => cases reassembled
            case h_3 => cases reassembled
  · rintro ⟨isV1, chunks, supplied, rfl, size, granted⟩
    obtain ⟨capacity, reserved⟩ := Option.isSome_iff_exists.mp granted
    have fits := Allocator.le_of_reserve reserved
    have taken : allocator.takes capacity 0 chunks = true := Allocator.takes_of_le (by omega)
    have looped : reassembleLoop allocator sha256 fetch world capacity [] manifest.chunks =
        .ok chunks.flatten :=
      reassembleLoop_eq_ok.mpr ⟨chunks, supplied, rfl, taken⟩
    rw [size] at reserved
    simp [reassemble, isV1, reserved, looped, size]

/-- A fetcher that does not serve the listed chunks is found out, in the absence
of collisions. -/
theorem reassembleLoop_eq_err {World' : Type}
    {fetch' : World' → String → Except String (List UInt8) × World'} {world : World}
    {world' : World'} {out : List UInt8} {cids : List String} {chunks : List (List UInt8)}
    (supplied : Supplies sha256 fetch world cids chunks)
    {capacity : Nat} (fits : out.length + chunks.flatten.length ≤ capacity)
    (free : CollisionFree sha256
      {bytes | .ok bytes ∈ answers fetch world cids ∨ .ok bytes ∈ answers fetch' world' cids})
    (differ : answers fetch' world' cids ≠ answers fetch world cids) :
    ∃ message, reassembleLoop allocator sha256 fetch' world' capacity out cids = .err message := by
  induction cids generalizing world world' out chunks with
  | nil => exact absurd rfl differ
  | cons chunkCid rest induction =>
      obtain ⟨bytes, others, rfl, first, address, rest'⟩ := supplies_cons.mp supplied
      rw [reassembleLoop]
      split
      case h_1 message next asked => exact ⟨message, rfl⟩
      case h_2 received next asked =>
          by_cases genuine : cid sha256 received = chunkCid
          case neg => simp [genuine]
          case pos =>
              obtain rfl : received = bytes :=
                free (by simp [answers, asked]) (by simp [answers, first])
                  (genuine.trans address.symm)
              simp only [List.flatten_cons, List.length_append] at fits
              have room : out.length + received.length ≤ capacity := by omega
              have later : ∃ message,
                  reassembleLoop allocator sha256 fetch' next capacity (out ++ received) rest =
                    .err message :=
                induction rest' (by rw [List.length_append]; omega)
                (free.mono fun other member => by
                  simpa [answers, asked] using member.imp .inr .inr)
                (fun same => differ (by simp [answers, asked, first, same]))
              simpa [genuine, Allocator.reserve_of_le room] using later

theorem reassemble_eq_err {World' : Type}
    {fetch' : World' → String → Except String (List UInt8) × World'} {world : World}
    {world' : World'} {manifest : Manifest} {out : List UInt8}
    (reassembled : reassemble allocator sha256 fetch world manifest = .ok out)
    (free : CollisionFree sha256 {bytes | .ok bytes ∈ answers fetch world manifest.chunks ∨
      .ok bytes ∈ answers fetch' world' manifest.chunks})
    (differ : answers fetch' world' manifest.chunks ≠ answers fetch world manifest.chunks) :
    ∃ message, reassemble allocator sha256 fetch' world' manifest = .err message := by
  obtain ⟨isV1, chunks, supplied, rfl, size, granted⟩ := reassemble_eq_ok.mp reassembled
  obtain ⟨capacity, reserved⟩ := Option.isSome_iff_exists.mp granted
  obtain ⟨message, looped⟩ :
      ∃ message, reassembleLoop allocator sha256 fetch' world' capacity [] manifest.chunks =
        .err message :=
    reassembleLoop_eq_err supplied (by simpa using Allocator.le_of_reserve reserved) free differ
  rw [size] at reserved
  exact ⟨message, by simp [reassemble, isV1, reserved, looped]⟩

/-- Whatever the fetcher does, a result is the concatenation of bytes with the
listed addresses, of the recorded size.  In the absence of collisions no other
fetcher gives another result, and one that answers any address otherwise makes
the reassembly fail. -/
theorem reassemble_sound {world : World} {manifest : Manifest} {out : List UInt8}
    (reassembled : reassemble allocator sha256 fetch world manifest = .ok out) :
    manifest.kind = "ce-object-v1" ∧
      (∃ chunks : List (List UInt8), answers fetch world manifest.chunks = chunks.map Except.ok ∧
        chunks.map (cid sha256) = manifest.chunks ∧ out = chunks.flatten ∧
        out.length = manifest.totalSize.toNat) ∧
      ∀ (World' : Type) (fetch' : World' → String → Except String (List UInt8) × World')
        (world' : World'),
        CollisionFree sha256 {bytes | .ok bytes ∈ answers fetch world manifest.chunks ∨
          .ok bytes ∈ answers fetch' world' manifest.chunks} →
        (∀ out', reassemble allocator sha256 fetch' world' manifest = .ok out' → out' = out) ∧
          (answers fetch' world' manifest.chunks ≠ answers fetch world manifest.chunks →
            ∃ message, reassemble allocator sha256 fetch' world' manifest = .err message) := by
  obtain ⟨isV1, chunks, ⟨served, addresses⟩, equal, size, -⟩ := reassemble_eq_ok.mp reassembled
  refine ⟨beq_iff_eq.mp isV1, ⟨chunks, served, addresses, equal, size⟩, ?_⟩
  intro World' fetch' world' free
  refine ⟨fun out' reassembled' => ?_, reassemble_eq_err reassembled free⟩
  by_cases same : answers fetch' world' manifest.chunks = answers fetch world manifest.chunks
  · obtain ⟨-, chunks', ⟨served', -⟩, rfl, -⟩ := reassemble_eq_ok.mp reassembled'
    rw [served, served', List.map_inj_right fun _ _ => Except.ok.inj] at same
    rw [equal, same]
  · obtain ⟨message, failed⟩ := reassemble_eq_err reassembled free same
    rw [failed] at reassembled'
    cases reassembled'

/-- A fetcher that serves the object `hi`, and one that drops its chunk. -/
def servesGreeting (world : Unit) (_ : String) : Except String (List UInt8) × Unit :=
  (.ok [104, 105], world)

def dropsGreeting (world : Unit) (_ : String) : Except String (List UInt8) × Unit :=
  (.error "blob not found", world)

theorem reassemble_sound_greeting :
    reassemble .ample greetingSha256 servesGreeting () greetingManifest = .ok [104, 105] ∧
      ∃ message, reassemble .ample greetingSha256 dropsGreeting () greetingManifest =
        .err message := by
  have reassembled : reassemble .ample greetingSha256 servesGreeting () greetingManifest =
      .ok [104, 105] :=
    reassemble_eq_ok.mpr
      ⟨by decide, [[104, 105]], ⟨rfl, by decide⟩, rfl, rfl, by decide⟩
  obtain ⟨-, -, others⟩ := reassemble_sound reassembled
  have free : CollisionFree greetingSha256
      {bytes | .ok bytes ∈ answers servesGreeting () greetingManifest.chunks ∨
        .ok bytes ∈ answers dropsGreeting () greetingManifest.chunks} := by
    intro first member second member' _
    have first : first = [104, 105] := by
      simpa [answers, greetingManifest, servesGreeting, dropsGreeting] using member
    have second : second = [104, 105] := by
      simpa [answers, greetingManifest, servesGreeting, dropsGreeting] using member'
    rw [first, second]
  refine ⟨reassembled, (others Unit dropsGreeting () free).2 ?_⟩
  simp [answers, greetingManifest, servesGreeting, dropsGreeting]

end CeRs.Object
