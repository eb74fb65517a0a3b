import CeRs.Capability.Call
import CeRs.Grouping
import CeRs.Object.Store
import CeRs.RoundRobin
import Mathlib.Data.String.Basic
import Mathlib.Order.WithBot

/-!
# Locating the instances of a service

`locate` looks up the nodes that advertise a service, keeps the live ones, sorts
them by score, and takes the best or spreads the choice over fault domains.
The scores are elements of a linear order; how one is computed is a parameter.
-/

namespace CeRs.Locate

open Capability (LocateOpts)
open Memory (Allocator)
open Object (Outcome)

structure Instance (Score : Type) where
  nodeId : String
  score : Score
  cores : UInt32
  memMb : UInt32
  tags : List String
  lastSeenSecs : UInt64
  faultDomain : Option String

/-- `size_of::<Instance>()`: a string or a vector is three words of eight bytes,
and so is an optional string. -/
def instanceSize : Nat := 24 + 8 + 4 + 4 + 24 + 8 + 24

structure AtlasEntry where
  nodeId : String
  cpuCores : UInt32
  memMb : UInt32
  runningJobs : UInt32
  lastSeenSecs : UInt64
  tags : List String
  deriving DecidableEq, Repr

def AtlasEntry.hasTag (entry : AtlasEntry) (tag : String) : Bool :=
  entry.tags.any fun own => own == tag

/-- `starts_with`. -/
def startsWith (text start : String) : Bool :=
  start.toList.isPrefixOf text.toList

/-- `fault_domain`: the first tag of the first kind that the node has. -/
def faultDomain (tags : List String) : Option String :=
  ["region:", "zone:", "asn:"].findSome? fun start => tags.find? fun tag => startsWith tag start

section Spreading

variable {Score : Type}

/-- The bucket of an instance; one without a domain has a bucket of its own. -/
def domainKey (inst : Instance Score) (position : Nat) : String :=
  inst.faultDomain.getD s!"~{position}"

/-- The score of the first instance, below all scores for `f64::MIN`. -/
def best (bucket : List (Instance Score)) : WithBot Score :=
  bucket.head?.map Instance.score

/-- The instances with their buckets. -/
def keyed (scored : List (Instance Score)) : List (String × Instance Score) :=
  scored.zipIdx.map fun (inst, position) => (domainKey inst position, inst)

variable [LinearOrder Score] (allocator : Allocator)

def spread (scored : List (Instance Score)) (want : Nat) : Outcome (List (Instance Score)) :=
  let groups := Grouping.collect (keyed scored)
  let buckets := (groups.toList.map Prod.snd).mergeSort fun first second => best second ≤ best first
  -- `Vec::with_capacity`; no more than `want` instances are pushed
  if allocator.Grants (want * instanceSize) then .ok (RoundRobin.takeRounds want buckets 0 [])
  else .panic

/-- The instances by descending score; the sort is stable. -/
def ranked (instances : List (Instance Score)) : List (Instance Score) :=
  instances.mergeSort fun first second => second.score ≤ first.score

/-- The end of `locate`: sort the live instances and choose among them. -/
def choose (instances : List (Instance Score)) (opts : LocateOpts) :
    Outcome (List (Instance Score)) :=
  let scored := ranked instances
  let want := max opts.want 1
  if want = 1 ∨ opts.spreadDomains = false then .ok (scored.take want)
  else spread allocator scored want

end Spreading

/-- How instances are scored: the local one, and another from its free cores and
its memory, its age and the staleness window, its id and the beacon. -/
structure Scoring (Score : Type) where
  own : Score
  rate : (freeCores memMb : UInt32) → (age maxStaleSecs : UInt64) →
    (id beaconHash : String) → Score

/-- What the node answers to the requests of `locate`, and the time. -/
structure Answers where
  providers : Except String (List String)
  atlas : Except String (List AtlasEntry)
  beaconHash : Option String
  localId : Option String
  now : UInt64

section Locating

variable {Score : Type} (allocator : Allocator) (scoring : Scoring Score) (answers : Answers)
  (opts : LocateOpts)

/-- The instance at a node, if it is live and has the required tags. -/
def candidate (atlas : List AtlasEntry) (id : String) : Option (Instance Score) :=
  if some id = answers.localId then
    if opts.requireTags ≠ [] then none
    else some ⟨id, scoring.own, 0, 0, [], answers.now, none⟩
  else
    -- of several entries for a node, the map keeps the last
    match atlas.reverse.find? fun entry => entry.nodeId == id with
    | none => none
    | some entry =>
        let age := UInt64.ofNat (answers.now.toNat - entry.lastSeenSecs.toNat)
        if opts.maxStaleSecs < age then none
        else if opts.requireTags.all entry.hasTag = false then none
        else
          let freeCores := UInt32.ofNat (entry.cpuCores.toNat - entry.runningJobs.toNat)
          some {
            nodeId := id
            score := scoring.rate freeCores entry.memMb age opts.maxStaleSecs id
              (answers.beaconHash.getD "")
            cores := entry.cpuCores
            memMb := entry.memMb
            tags := entry.tags
            lastSeenSecs := entry.lastSeenSecs
            faultDomain := faultDomain entry.tags }

/-- The live instances, in the order in which the service's nodes are listed. -/
def eligible (ids : List String) (atlas : List AtlasEntry) : List (Instance Score) :=
  ids.filterMap (candidate scoring answers opts atlas)

/-- The live instances, if the node tells about them. -/
def live : List (Instance Score) :=
  match answers.providers, answers.atlas with
  | .ok ids, .ok atlas => eligible scoring answers opts ids atlas
  | _, _ => []

def locate [LinearOrder Score] : Outcome (List (Instance Score)) :=
  match answers.providers with
  | .error message => .err message
  | .ok [] => .ok []
  | .ok ids =>
      match answers.atlas with
      | .error message => .err message
      | .ok atlas => choose allocator (eligible scoring answers opts ids atlas) opts

end Locating

end CeRs.Locate
