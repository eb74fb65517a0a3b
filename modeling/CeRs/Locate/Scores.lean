import CeRs.Locate.Spread
import Mathlib.Algebra.Field.Rat
import Mathlib.Algebra.Order.Field.Basic
import Mathlib.Algebra.Order.Ring.Rat
import Mathlib.Tactic.Linarith
import Mathlib.Tactic.Positivity

/-!
# The score of an instance

A live node is rated by its capacity and its recency, and a jitter drawn from
its id and the beacon is added with a small weight, to break ties.  The scores
are taken as exact rationals.
-/

namespace CeRs.Locate

open Capability (LocateOpts)

section Formula

/-- A value between zero and one for each node and beacon. -/
structure Jitter where
  value : (id beaconHash : String) → ℚ
  nonneg : ∀ id beaconHash, 0 ≤ value id beaconHash
  le_one : ∀ id beaconHash, value id beaconHash ≤ 1

/-- `u64::from_be_bytes`, for any number of bytes. -/
def bigEndian (bytes : List UInt8) : Nat :=
  bytes.foldl (fun value byte => 256 * value + byte.toNat) 0

theorem bigEndian_concat (bytes : List UInt8) (byte : UInt8) :
    bigEndian (bytes ++ [byte]) = 256 * bigEndian bytes + byte.toNat := by
  rw [bigEndian, List.foldl_append]
  rfl

theorem bigEndian_lt (bytes : List UInt8) : bigEndian bytes < 256 ^ bytes.length := by
  induction bytes using List.reverseRecOn with
  | nil => exact Nat.one_pos
  | append_singleton bytes byte induction =>
      have small := byte.toNat_lt
      rw [bigEndian_concat, List.length_append, List.length_singleton, Nat.pow_succ]
      omega

theorem bigEndian_take_le (digest : List UInt8) : bigEndian (digest.take 8) ≤ 2 ^ 64 - 1 := by
  have bound := bigEndian_lt (digest.take 8)
  have few : 256 ^ (digest.take 8).length ≤ 256 ^ 8 :=
    Nat.pow_le_pow_right (by decide) (by simp)
  omega

/-- `beacon_jitter`, with the hash function as a parameter. -/
def beaconJitter (sha256 : List UInt8 → List UInt8) : Jitter where
  value id beaconHash :=
    bigEndian ((sha256 (Utf8.encode id.toList ++ Utf8.encode ['|'] ++
      Utf8.encode beaconHash.toList)).take 8) / ((2 ^ 64 - 1 : Nat) : ℚ)
  nonneg id beaconHash := by positivity
  le_one id beaconHash := by
    rw [div_le_one (by norm_num)]
    exact_mod_cast bigEndian_take_le _

/-- The free cores and the memory, each up to a ceiling. -/
def capacity (freeCores memMb : UInt32) : ℚ :=
  min (freeCores.toNat / 16 : ℚ) 1 * (1 / 2) + min (memMb.toNat / 32768 : ℚ) 1 * (1 / 2)

/-- One for a node just seen, and zero at the end of the staleness window. -/
def recency (age maxStaleSecs : UInt64) : ℚ :=
  1 - age.toNat / (max maxStaleSecs 1).toNat

/-- The scores of `locate`. -/
def rated (jitter : Jitter) : Scoring ℚ where
  own := 1
  rate freeCores memMb age maxStaleSecs id beaconHash :=
    6 / 10 * capacity freeCores memMb + 4 / 10 * recency age maxStaleSecs +
      1 / 1000 * jitter.value id beaconHash

end Formula

section Ranking

/-- No occurrence of the second id is before one of the first. -/
def Precedes (ids : List String) (first second : String) : Prop :=
  ids.Pairwise fun earlier later => ¬ (earlier = second ∧ later = first)

variable {Score : Type} {scoring : Scoring Score} {answers : Answers} {opts : LocateOpts}
  {ids : List String} {atlas : List AtlasEntry} {first second : String}
  {entry entry' : AtlasEntry}

theorem score_of_mem_eligible (live : LiveBy answers opts atlas first entry)
    {inst : Instance Score} (member : inst ∈ eligible scoring answers opts ids atlas)
    (node : inst.nodeId = first) : inst.score = scoreBy answers opts scoring first entry := by
  have found := (mem_eligible.mp member).2
  rw [node, candidate_live live] at found
  rw [← Option.some.inj found]
  rfl

variable (scoring) in
theorem exists_position (listed : first ∈ ids) (live : LiveBy answers opts atlas first entry) :
    ∃ position, ((eligible scoring answers opts ids atlas).get position).nodeId = first := by
  have found : candidate scoring answers opts atlas first = some _ := candidate_live live
  have member : instanceBy answers opts scoring first entry ∈
      eligible scoring answers opts ids atlas := mem_eligible.mpr ⟨listed, found⟩
  obtain ⟨position, equal⟩ := List.mem_iff_get.mp member
  exact ⟨position, by rw [equal]; rfl⟩

variable (scoring) in
/-- The order in which live nodes are listed. -/
theorem precedes_eligible_iff (live : LiveBy answers opts atlas first entry)
    (live' : LiveBy answers opts atlas second entry') :
    Precedes ((eligible scoring answers opts ids atlas).map Instance.nodeId) first second ↔
      Precedes ids first second := by
  rw [Precedes, Precedes, List.pairwise_map, eligible, List.pairwise_filterMap]
  constructor
  · intro ordered
    refine ordered.imp ?_
    rintro earlier later related ⟨rfl, rfl⟩
    exact related _ (candidate_live live') _ (candidate_live live) ⟨rfl, rfl⟩
  · intro ordered
    refine ordered.imp fun related inst found inst' found' same => related ?_
    rwa [nodeId_of_candidate found, nodeId_of_candidate found'] at same

theorem precedes_ranked_iff [LinearOrder Score] (listed : first ∈ ids) (listed' : second ∈ ids)
    (live : LiveBy answers opts atlas first entry)
    (live' : LiveBy answers opts atlas second entry') :
    Precedes ((ranked (eligible scoring answers opts ids atlas)).map Instance.nodeId)
        first second ↔
      scoreBy answers opts scoring second entry' < scoreBy answers opts scoring first entry ∨
        scoreBy answers opts scoring second entry' = scoreBy answers opts scoring first entry ∧
          Precedes ids first second := by
  have score : ∀ position, ((eligible scoring answers opts ids atlas).get position).nodeId = first →
      Grouping.rankAt Instance.score _ position = scoreBy answers opts scoring first entry :=
    fun position => score_of_mem_eligible live (List.get_mem _ position)
  have score' : ∀ position,
      ((eligible scoring answers opts ids atlas).get position).nodeId = second →
      Grouping.rankAt Instance.score _ position = scoreBy answers opts scoring second entry' :=
    fun position => score_of_mem_eligible live' (List.get_mem _ position)
  rw [Precedes, List.pairwise_map, ranked, Grouping.pairwise_mergeSort_iff,
    ← precedes_eligible_iff scoring live live', Precedes, List.pairwise_map,
    List.pairwise_iff_get]
  constructor
  · intro related
    rcases lt_trichotomy (scoreBy answers opts scoring second entry')
      (scoreBy answers opts scoring first entry) with lower | equal | higher
    · exact .inl lower
    · refine .inr ⟨equal, fun position position' less same => ?_⟩
      refine related position position' (.inr ⟨?_, less⟩) same
      rw [score' _ same.1, score _ same.2, equal]
    · obtain ⟨position, node⟩ := exists_position scoring listed live
      obtain ⟨position', node'⟩ := exists_position scoring listed' live'
      refine absurd ⟨node', node⟩ (related position' position (.inl ?_))
      rwa [score _ node, score' _ node']
  · rintro ordered position position' ahead ⟨node, node'⟩
    rw [Grouping.Ahead, score' _ node, score _ node'] at ahead
    rcases ordered with lower | ⟨equal, ordered⟩
    · rcases ahead with higher | ⟨equal, -⟩
      · exact lt_asymm lower higher
      · exact ne_of_lt lower equal
    · rcases ahead with higher | ⟨-, less⟩
      · exact ne_of_gt higher equal
      · exact ordered position position' less ⟨node, node'⟩

end Ranking

section Base

variable (answers : Answers) (opts : LocateOpts)

/-- The score without the jitter. -/
def baseBy (entry : AtlasEntry) : ℚ :=
  6 / 10 * capacity (freeCoresOf entry) entry.memMb +
    4 / 10 * recency (ageOf answers entry) opts.maxStaleSecs

/-- The nodes of the ranked list. -/
def rankedIds (jitter : Jitter) : List String :=
  (ranked (live (rated jitter) answers opts)).map Instance.nodeId

/-- The highest jitter for one node, and the lowest for all others. -/
def favouring (node : String) : Jitter where
  value id _ := if id = node then 1 else 0
  nonneg id _ := by split <;> norm_num
  le_one id _ := by split <;> norm_num

variable {answers opts}

theorem scoreBy_rated (jitter : Jitter) (id : String) (entry : AtlasEntry) :
    scoreBy answers opts (rated jitter) id entry =
      baseBy answers opts entry + 1 / 1000 * jitter.value id (answers.beaconHash.getD "") :=
  rfl

/-- A live node with a higher capacity and recency is ranked before another
whatever the jitter of the two, if and only if it is higher by more than the
weight of the jitter, or by just this weight and listed first. -/
theorem ranked_by_base_iff {ids : List String} {atlas : List AtlasEntry} {first second : String}
    {entry entry' : AtlasEntry} (providers : answers.providers = .ok ids)
    (entries : answers.atlas = .ok atlas) (listed : first ∈ ids) (listed' : second ∈ ids)
    (live : LiveBy answers opts atlas first entry)
    (live' : LiveBy answers opts atlas second entry')
    (higher : baseBy answers opts entry' < baseBy answers opts entry) :
    (∀ jitter, Precedes (rankedIds answers opts jitter) first second) ↔
      baseBy answers opts entry' + 1 / 1000 < baseBy answers opts entry ∨
        baseBy answers opts entry' + 1 / 1000 = baseBy answers opts entry ∧
          Precedes ids first second := by
  have different : first ≠ second := by
    rintro rfl
    rw [live.unique live'] at higher
    exact lt_irrefl _ higher
  have byScore : ∀ jitter, Precedes (rankedIds answers opts jitter) first second ↔ _ :=
    fun jitter => by
      rw [rankedIds, live_eq providers entries, precedes_ranked_iff listed listed' live live',
        scoreBy_rated, scoreBy_rated]
  simp only [byScore]
  constructor
  · intro ordered
    simpa [favouring, different] using ordered (favouring second)
  · intro apart jitter
    have low := jitter.nonneg first (answers.beaconHash.getD "")
    have high := jitter.le_one second (answers.beaconHash.getD "")
    rcases apart with more | ⟨equal, ordered⟩
    · exact .inl (by linarith)
    · have least : baseBy answers opts entry' +
          1 / 1000 * jitter.value second (answers.beaconHash.getD "") ≤
          baseBy answers opts entry +
            1 / 1000 * jitter.value first (answers.beaconHash.getD "") := by linarith
      exact (lt_or_eq_of_le least).imp_right fun same => ⟨same, ordered⟩

end Base

/-- Two idle nodes that were just seen. -/
def twoNodes (entry entry' : AtlasEntry) : Answers :=
  ⟨.ok [entry.nodeId, entry'.nodeId], .ok [entry, entry'], none, none, 100⟩

def oneOf : LocateOpts := ⟨1, [], 120, true⟩

def larger : AtlasEntry := ⟨"a", 8, 4096, 0, 100, []⟩

/-- One mebibyte of memory less. -/
def smaller : AtlasEntry := ⟨"b", 8, 4095, 0, 100, []⟩

/-- Half the cores. -/
def halved : AtlasEntry := ⟨"b", 4, 4096, 0, 100, []⟩

/-- The jitter overturns a difference in memory. -/
theorem memory_overturned :
    baseBy (twoNodes larger smaller) oneOf smaller < baseBy (twoNodes larger smaller) oneOf larger ∧
      ∃ jitter, ¬ Precedes (rankedIds (twoNodes larger smaller) oneOf jitter) "a" "b" := by
  have live : LiveBy (twoNodes larger smaller) oneOf [larger, smaller] "a" larger :=
    ⟨by decide, by decide, by decide, by decide⟩
  have live' : LiveBy (twoNodes larger smaller) oneOf [larger, smaller] "b" smaller :=
    ⟨by decide, by decide, by decide, by decide⟩
  refine ⟨by decide +kernel, favouring "b", ?_⟩
  rw [rankedIds, live_eq rfl rfl, precedes_ranked_iff (by decide) (by decide) live live']
  rintro (lower | ⟨equal, -⟩)
  · exact absurd lower (by decide +kernel)
  · exact absurd equal (by decide +kernel)

/-- It does not overturn a difference of four cores. -/
theorem ranked_by_base_iff_cores :
    Precedes (rankedIds (twoNodes larger halved) oneOf (favouring "b")) "a" "b" := by
  have live : LiveBy (twoNodes larger halved) oneOf [larger, halved] "a" larger :=
    ⟨by decide, by decide, by decide, by decide⟩
  have live' : LiveBy (twoNodes larger halved) oneOf [larger, halved] "b" halved :=
    ⟨by decide, by decide, by decide, by decide⟩
  have exactly := ranked_by_base_iff rfl rfl (by decide) (by decide) live live' (by decide +kernel)
  exact exactly.mpr (.inl (by decide +kernel)) (favouring "b")

end CeRs.Locate
