import CeRs.Tags.Discovery

/-!
# The records of the nodes

What the table holds of a node, in every run: the tags that a call of `refresh`
has come past have a record since it began, and all tags have one when it
returns `Ok`.  If the clock does not outrun these calls, a node that has once
refreshed keeps a record for each of its tags, whatever other calls fail.
-/

namespace CeRs.Tags

open Transition
open Paths (tagService tagService_injective)

variable {Node : Type*} {lifetime : Nat} {carries : Node → List String} {world next : World Node}
  {label : Label Node}

/-- The node has advertised the tag, with a record made at that time or later. -/
def Recorded (world : World Node) (node : Node) (tag : String) (since : Nat) : Prop :=
  ∃ advert ∈ world.adverts, advert.node = node ∧ advert.service = tagService tag ∧
    since ≤ advert.time

theorem mem_providers {node : Node} {service : String} :
    node ∈ world.providers lifetime service ↔ ∃ advert ∈ world.adverts,
      advert.node = node ∧ advert.service = service ∧ world.clock ≤ advert.time + lifetime := by
  simp only [World.providers, List.mem_map, List.mem_filter, decide_eq_true_eq]
  constructor
  · rintro ⟨advert, ⟨member, named, alive⟩, own⟩
    exact ⟨advert, member, own, named, alive⟩
  · rintro ⟨advert, member, own, named, alive⟩
    exact ⟨advert, ⟨member, named, alive⟩, own⟩

theorem not_bare_tagService (tag : String) : ¬ Bare (tagService tag) :=
  not_not.mpr ⟨tag.toList, (String.toList_append ..).symm⟩

/-- The records and the rounds, in every run. -/
structure Kept (carries : Node → List String) (world : World Node) : Prop where
  carried : ∀ advert ∈ world.adverts, ∀ tag, advert.service = tagService tag →
    tag ∈ carries advert.node
  round : ∀ node started remaining,
    (world.advertisers node).round = some ⟨started, remaining⟩ → started ≤ world.clock ∧
      ∃ done, carries node = done ++ remaining ∧ ∀ tag ∈ done, Recorded world node tag started
  completed : ∀ node started, (world.advertisers node).completed = some started →
    started ≤ world.clock ∧ (∀ tag ∈ carries node, Recorded world node tag started) ∧
      ∀ round, (world.advertisers node).round = some round → started ≤ round.started

theorem kept_initial : Kept carries (World.initial : World Node) where
  carried := by simp [World.initial]
  round := by simp [World.initial]
  completed := by simp [World.initial]

theorem Recorded.mono {node : Node} {tag : String} {since : Nat}
    (recorded : Recorded world node tag since) (more : world.adverts ⊆ next.adverts) :
    Recorded next node tag since := by
  obtain ⟨advert, member, rest⟩ := recorded
  exact ⟨advert, more member, rest⟩

theorem adverts_record (recorded : Bool) (node : Node) (service : String) :
    (world.record recorded node service).adverts = world.adverts ∨
      (world.record recorded node service).adverts =
        world.adverts ++ [⟨node, service, world.clock⟩] := by
  cases recorded with
  | false => exact .inl rfl
  | true => exact .inr rfl

@[simp] theorem clock_record (recorded : Bool) (node : Node) (service : String) :
    (world.record recorded node service).clock = world.clock := by
  cases recorded <;> rfl

@[simp] theorem advertisers_record (recorded : Bool) (node : Node) (service : String) :
    (world.record recorded node service).advertisers = world.advertisers := by
  cases recorded <;> rfl

@[simp] theorem searches_record (recorded : Bool) (node : Node) (service : String) :
    (world.record recorded node service).searches = world.searches := by
  cases recorded <;> rfl

theorem subset_record (recorded : Bool) (node : Node) (service : String) :
    world.adverts ⊆ (world.record recorded node service).adverts := by
  cases recorded with
  | false => exact List.Subset.refl _
  | true => exact List.subset_append_left ..

theorem Kept.record (kept : Kept carries world) (recorded : Bool) {node : Node} {service : String}
    (own : ∀ tag, service = tagService tag → tag ∈ carries node) :
    Kept carries (world.record recorded node service) := by
  have known : ∀ advert ∈ (world.record recorded node service).adverts,
      advert ∈ world.adverts ∨ advert = ⟨node, service, world.clock⟩ := by
    intro advert member
    rcases adverts_record recorded node service with same | grown
    · exact .inl (same ▸ member)
    · simpa [grown] using member
  refine ⟨?_, ?_, ?_⟩
  · intro advert member
    rcases known advert member with earlier | rfl
    · exact kept.carried advert earlier
    · exact own
  · intro other started remaining round
    rw [advertisers_record] at round
    obtain ⟨past, done, split, recorded'⟩ := kept.round other started remaining round
    exact ⟨by rwa [clock_record], done, split, fun tag member =>
      (recorded' tag member).mono (subset_record recorded node service)⟩
  · intro other started completed
    rw [advertisers_record] at completed ⊢
    obtain ⟨past, all, later⟩ := kept.completed other started completed
    exact ⟨by rwa [clock_record], fun tag member =>
      (all tag member).mono (subset_record recorded node service), later⟩

theorem Kept.own (kept : Kept carries world) {node : Node} {started : Nat} {tag : String}
    {rest : List String} (underway : (world.advertisers node).round = some ⟨started, tag :: rest⟩)
    (other : String) (same : tagService tag = tagService other) : other ∈ carries node := by
  obtain ⟨-, done, split, -⟩ := kept.round node started (tag :: rest) underway
  rw [← tagService_injective same, split]
  exact List.mem_append_right _ List.mem_cons_self

variable [DecidableEq Node]

theorem Kept.proceed (kept : Kept carries world) {node : Node} {started : Nat}
    {done remaining : List String} (past : started ≤ world.clock)
    (split : carries node = done ++ remaining)
    (recorded : ∀ tag ∈ done, Recorded world node tag started)
    (later : ∀ before, (world.advertisers node).completed = some before → before ≤ started) :
    Kept carries (world.setAdvertiser node
      ((world.advertisers node).proceed started remaining)) := by
  refine ⟨kept.carried, ?_, ?_⟩
  · intro other begun left round
    by_cases same : other = node
    · subst same
      cases remaining with
      | nil => simp [World.setAdvertiser, Advertiser.proceed] at round
      | cons tag rest =>
          obtain ⟨rfl, rfl⟩ : started = begun ∧ tag :: rest = left := by
            simpa [World.setAdvertiser, Advertiser.proceed] using round
          exact ⟨past, done, split, recorded⟩
    · exact kept.round other begun left (by simpa [World.setAdvertiser, same] using round)
  · intro other begun completed
    by_cases same : other = node
    · subst same
      cases remaining with
      | nil =>
          obtain rfl : started = begun := by
            simpa [World.setAdvertiser, Advertiser.proceed] using completed
          refine ⟨past, fun tag member => recorded tag ?_, fun round going => ?_⟩
          · simpa [split] using member
          · simp [World.setAdvertiser, Advertiser.proceed] at going
      | cons tag rest =>
          have before : (world.advertisers other).completed = some begun := by
            simpa [World.setAdvertiser, Advertiser.proceed] using completed
          obtain ⟨old, all, -⟩ := kept.completed other begun before
          refine ⟨old, all, fun round now => ?_⟩
          obtain rfl : ⟨started, tag :: rest⟩ = round := by
            simpa [World.setAdvertiser, Advertiser.proceed] using now
          exact later begun before
    · have before : (world.advertisers other).completed = some begun := by
        simpa [World.setAdvertiser, same] using completed
      obtain ⟨old, all, newer⟩ := kept.completed other begun before
      exact ⟨old, all, fun round now => newer round (by
        simpa [World.setAdvertiser, same] using now)⟩

theorem Kept.giveUp (kept : Kept carries world) (node : Node) :
    Kept carries (world.setAdvertiser node { world.advertisers node with round := none }) := by
  refine ⟨kept.carried, ?_, ?_⟩
  · intro other begun left round
    by_cases same : other = node
    · simp [World.setAdvertiser, same] at round
    · exact kept.round other begun left (by simpa [World.setAdvertiser, same] using round)
  · intro other begun completed
    have before : (world.advertisers other).completed = some begun := by
      by_cases same : other = node
      · simpa [World.setAdvertiser, same] using completed
      · simpa [World.setAdvertiser, same] using completed
    obtain ⟨old, all, newer⟩ := kept.completed other begun before
    refine ⟨old, all, fun round now => ?_⟩
    by_cases same : other = node
    · simp [World.setAdvertiser, same] at now
    · exact newer round (by simpa [World.setAdvertiser, same] using now)

theorem Kept.moves (kept : Kept carries world)
    (moves : WorldMoves lifetime carries world label next) : Kept carries next := by
  cases moves with
  | ticked =>
      refine ⟨kept.carried, fun node started remaining round => ?_,
        fun node started completed => ?_⟩
      · obtain ⟨past, rest⟩ := kept.round node started remaining round
        exact ⟨Nat.le_succ_of_le past, rest⟩
      · obtain ⟨past, rest⟩ := kept.completed node started completed
        exact ⟨Nat.le_succ_of_le past, rest⟩
  | registered node service recorded bare =>
      refine kept.record recorded fun tag same => ?_
      rw [same] at bare
      exact (not_bare_tagService tag bare).elim
  | began node idle =>
      exact kept.proceed le_rfl (List.nil_append _).symm (by simp) fun before completed =>
        (kept.completed node before completed).1
  | advertised node started tag rest underway =>
      obtain ⟨past, done, split, before⟩ := kept.round node started (tag :: rest) underway
      have after := kept.record true (kept.own underway)
      have moved : carries node = (done ++ [tag]) ++ rest := by simp [split]
      refine after.proceed past moved ?_ ?_
      · intro other member
        rcases List.mem_append.mp member with earlier | last
        · exact (before other earlier).mono (subset_record true node (tagService tag))
        · obtain rfl := List.mem_singleton.mp last
          exact ⟨_, List.mem_append_right _ (List.mem_singleton_self _), rfl, rfl, past⟩
      · intro earlier completed
        exact (kept.completed node earlier completed).2.2 _ underway
  | gaveUp node recorded started tag rest underway =>
      have after := (kept.record recorded (kept.own underway)).giveUp node
      rwa [advertisers_record] at after
  | sought | answered | failed => exact ⟨kept.carried, kept.round, kept.completed⟩

/-- The time from which on the node has kept its tags, or is about to. -/
def Advertiser.since (advertiser : Advertiser) : Option Nat :=
  advertiser.completed <|> advertiser.round.map Round.started

/-- The clock does not pass the lifetime of a record made at that time, so the
next call of `refresh` that returns `Ok` comes in time. -/
def Timely (lifetime : Nat) (node : Node) (world : World Node) (label : Label Node) : Prop :=
  label = .tick → ∀ started ∈ (world.advertisers node).since, world.clock < started + lifetime

instance (node : Node) (world : World Node) (label : Label Node) :
    Decidable (Timely lifetime node world label) :=
  inferInstanceAs (Decidable (_ → ∀ started ∈ _, _))

def InTime (lifetime : Nat) (node : Node) (world : World Node) : Prop :=
  ∀ started ∈ (world.advertisers node).since, world.clock ≤ started + lifetime

theorem since_completed {advertiser : Advertiser} {started : Nat}
    (completed : advertiser.completed = some started) : started ∈ advertiser.since := by
  simp [Advertiser.since, completed]

theorem InTime.proceed {node : Node} (inTime : InTime lifetime node world) (other : Node)
    {started : Nat} (bound : other = node → world.clock ≤ started + lifetime)
    (remaining : List String) :
    InTime lifetime node (world.setAdvertiser other
      ((world.advertisers other).proceed started remaining)) := by
  intro begun since
  by_cases same : node = other
  · subst same
    cases remaining with
    | nil =>
        obtain rfl : started = begun := by
          simpa [World.setAdvertiser, Advertiser.proceed, Advertiser.since] using since
        exact bound rfl
    | cons tag rest =>
        cases completed : (world.advertisers node).completed with
        | some before =>
            obtain rfl : before = begun := by
              simpa [World.setAdvertiser, Advertiser.proceed, Advertiser.since, completed]
                using since
            exact inTime before (since_completed completed)
        | none =>
            obtain rfl : started = begun := by
              simpa [World.setAdvertiser, Advertiser.proceed, Advertiser.since, completed]
                using since
            exact bound rfl
  · exact inTime begun (by simpa [World.setAdvertiser, same] using since)

theorem InTime.giveUp {node : Node} (inTime : InTime lifetime node world) (other : Node) :
    InTime lifetime node (world.setAdvertiser other
      { world.advertisers other with round := none }) := by
  intro begun since
  by_cases same : node = other
  · have completed : (world.advertisers node).completed = some begun := by
      simpa [World.setAdvertiser, Advertiser.since, same] using since
    exact inTime begun (since_completed completed)
  · exact inTime begun (by simpa [World.setAdvertiser, same] using since)

omit [DecidableEq Node] in
theorem InTime.record {node : Node} (inTime : InTime lifetime node world) (recorded : Bool)
    (other : Node) (service : String) :
    InTime lifetime node (world.record recorded other service) := by
  intro started since
  rw [advertisers_record] at since
  rw [clock_record]
  exact inTime started since

theorem InTime.moves {node : Node} (inTime : InTime lifetime node world)
    (kept : Kept carries world) (timely : Timely lifetime node world label)
    (moves : WorldMoves lifetime carries world label next) : InTime lifetime node next := by
  cases moves with
  | ticked => exact fun started since => timely rfl started since
  | registered other service recorded => exact inTime.record recorded other service
  | began other idle => exact inTime.proceed other (fun _ => Nat.le_add_right _ _) _
  | advertised other started tag rest underway =>
      refine (inTime.record true other (tagService tag)).proceed other ?_ rest
      rintro rfl
      rw [clock_record]
      cases completed : (world.advertisers other).completed with
      | some before =>
          have bound := inTime before (since_completed completed)
          have later := (kept.completed other before completed).2.2 _ underway
          exact le_trans bound (Nat.add_le_add_right later lifetime)
      | none => exact inTime started (by simp [Advertiser.since, completed, underway])
  | gaveUp other recorded started tag rest underway =>
      have after := (inTime.record recorded other (tagService tag)).giveUp other
      rwa [advertisers_record] at after
  | sought | answered | failed => exact inTime

omit [DecidableEq Node] in
/-- A node that has refreshed in time has a record for each of its tags. -/
theorem mem_providers_of_inTime {node : Node} (inTime : InTime lifetime node world)
    (kept : Kept carries world) (ready : (world.advertisers node).completed.isSome) {tag : String}
    (member : tag ∈ carries node) : node ∈ world.providers lifetime (tagService tag) := by
  obtain ⟨started, completed⟩ := Option.isSome_iff_exists.mp ready
  obtain ⟨-, all, -⟩ := kept.completed node started completed
  obtain ⟨advert, present, own, named, later⟩ := all tag member
  have bound := inTime started (since_completed completed)
  exact mem_providers.mpr ⟨advert, present, own, named,
    le_trans bound (Nat.add_le_add_right later lifetime)⟩

theorem completed_of_moves {node : Node} (ready : (world.advertisers node).completed.isSome)
    (moves : WorldMoves lifetime carries world label next) :
    (next.advertisers node).completed.isSome := by
  have proceeds : ∀ other started remaining,
      let advertiser := (world.advertisers other).proceed started remaining
      ((world.setAdvertiser other advertiser).advertisers node).completed.isSome := by
    intro other started remaining
    by_cases same : node = other
    · subst same
      cases remaining <;> simp [World.setAdvertiser, Advertiser.proceed, ready]
    · simpa [World.setAdvertiser, same] using ready
  cases moves with
  | ticked | sought | answered | failed => exact ready
  | registered => rwa [advertisers_record]
  | began => exact proceeds ..
  | advertised => exact proceeds ..
  | gaveUp other recorded =>
      by_cases same : node = other
      · simpa [World.setAdvertiser, same] using same ▸ ready
      · simpa [World.setAdvertiser, same] using ready

end CeRs.Tags
