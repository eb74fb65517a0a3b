import CeRs.Paths
import CeRs.Transition

/-!
# Tags in the discovery table

Nodes advertise their tags with `TagAdvertiser::refresh`, one tag after the
other up to the first failure, and other services with `register`; seekers look
the tags up one after the other in `find_tags_all` and `find_tags_any`.  The
table keeps a record for `lifetime` ticks and answers with the nodes that have
one, in any order.  `adverts`, `completed` and `answers` remember what happened:
the table forgets a record when it expires, and the source keeps none of them.
-/

namespace CeRs.Tags

open Transition
open Paths (tagService)

variable {Node : Type*}

/-- A provider record, made at a time. -/
structure Advert (Node : Type*) where
  node : Node
  service : String
  time : Nat
  deriving DecidableEq, Repr

/-- A call of `refresh` that has not returned: the time it began, and the tags
it has still to advertise. -/
structure Round where
  started : Nat
  remaining : List String
  deriving DecidableEq, Repr

/-- `completed` is the time at which the last call of `refresh` began that
returned `Ok`. -/
structure Advertiser where
  round : Option Round
  completed : Option Nat
  deriving DecidableEq, Repr

/-- `find_tags_all` or `find_tags_any`. -/
inductive Mode
  | all
  | any
  deriving DecidableEq, Repr

/-- A search: the tags it has still to look up, the nodes it has so far, and the
answers it has got. -/
structure Search (Node : Type*) where
  mode : Mode
  tags : List String
  remaining : List String
  found : Option (List Node)
  failed : Bool
  answers : List (String × List Node)
  deriving DecidableEq, Repr

structure World (Node : Type*) where
  clock : Nat
  adverts : List (Advert Node)
  advertisers : Node → Advertiser
  searches : List (Search Node)

/-- An advertisement is `recorded` if it reaches the table and `accepted` if the
client hears so. -/
inductive Label (Node : Type*)
  | tick
  | register (node : Node) (service : String) (recorded : Bool)
  | refresh (node : Node)
  | advertise (node : Node) (recorded accepted : Bool)
  | search (mode : Mode) (tags : List String)
  | find (search : Nat) (answer : Option (List Node))
  deriving DecidableEq, Repr

/-- The service is not that of a tag. -/
def Bare (service : String) : Prop :=
  ¬ "tag:".toList <+: service.toList

instance (service : String) : Decidable (Bare service) :=
  inferInstanceAs (Decidable (¬ _))

def World.initial : World Node :=
  ⟨0, [], fun _ => ⟨none, none⟩, []⟩

/-- The loop of `refresh`, with the tags that are left. -/
def Advertiser.proceed (advertiser : Advertiser) (started : Nat) : List String → Advertiser
  | [] => { advertiser with round := none, completed := some started }
  | tag :: rest => { advertiser with round := some ⟨started, tag :: rest⟩ }

def Search.begin (mode : Mode) (tags : List String) : Search Node :=
  ⟨mode, tags, tags, none, false, []⟩

variable [DecidableEq Node]

/-- The body of the loop of `find_tags_any`. -/
def pushNew (out : List Node) (node : Node) : List Node :=
  if node ∈ out then out else out ++ [node]

/-- What the two searches do with the providers of the next tag. -/
def absorb : Mode → Option (List Node) → List Node → List Node
  | .all, none, providers => providers
  | .all, some found, providers => found.filter (· ∈ providers)
  | .any, found, providers => providers.foldl pushNew (found.getD [])

/-- What the search returns if it returns `Ok`. -/
def Search.result (search : Search Node) : List Node :=
  search.found.getD []

def Search.absorb (search : Search Node) (tag : String) (rest : List String)
    (providers : List Node) : Search Node :=
  { search with
    remaining := rest
    found := some (Tags.absorb search.mode search.found providers)
    answers := search.answers ++ [(tag, providers)] }

def World.record (world : World Node) (recorded : Bool) (node : Node) (service : String) :
    World Node :=
  if recorded then { world with adverts := world.adverts ++ [⟨node, service, world.clock⟩] }
  else world

def World.setAdvertiser (world : World Node) (node : Node) (advertiser : Advertiser) :
    World Node :=
  { world with advertisers := Function.update world.advertisers node advertiser }

def World.setSearch (world : World Node) (id : Nat) (search : Search Node) : World Node :=
  { world with searches := world.searches.set id search }

variable (lifetime : Nat) (carries : Node → List String)

/-- The nodes that have a record for the service. -/
def World.providers (world : World Node) (service : String) : List Node :=
  (world.adverts.filter fun advert =>
    advert.service = service ∧ world.clock ≤ advert.time + lifetime).map Advert.node

def World.step (world : World Node) : Label Node → Option (World Node)
  | .tick => some { world with clock := world.clock + 1 }
  | .register node service recorded =>
      if Bare service then some (world.record recorded node service) else none
  | .refresh node =>
      match (world.advertisers node).round with
      | none =>
          some (world.setAdvertiser node
            ((world.advertisers node).proceed world.clock (carries node)))
      | some _ => none
  | .advertise node recorded accepted =>
      match (world.advertisers node).round with
      | some ⟨started, tag :: rest⟩ =>
          if accepted = true then
            if recorded = true then
              some ((world.record true node (tagService tag)).setAdvertiser node
                ((world.advertisers node).proceed started rest))
            else none
          else
            some ((world.record recorded node (tagService tag)).setAdvertiser node
              { world.advertisers node with round := none })
      | _ => none
  | .search mode tags => some { world with searches := world.searches ++ [.begin mode tags] }
  | .find id answer =>
      match world.searches[id]? with
      | some search =>
          match search.failed, search.remaining, answer with
          | false, tag :: rest, some providers =>
              let known := world.providers lifetime (tagService tag)
              if (∀ node ∈ providers, node ∈ known) ∧ ∀ node ∈ known, node ∈ providers then
                some (world.setSearch id (search.absorb tag rest providers))
              else none
          | false, _ :: _, none => some (world.setSearch id { search with failed := true })
          | _, _, _ => none
      | none => none

/-- Everything a step can do. -/
inductive WorldMoves (world : World Node) : Label Node → World Node → Prop
  | ticked : WorldMoves world .tick { world with clock := world.clock + 1 }
  | registered (node : Node) (service : String) (recorded : Bool) (bare : Bare service) :
      WorldMoves world (.register node service recorded) (world.record recorded node service)
  | began (node : Node) (idle : (world.advertisers node).round = none) :
      WorldMoves world (.refresh node) (world.setAdvertiser node
        ((world.advertisers node).proceed world.clock (carries node)))
  | advertised (node : Node) (started : Nat) (tag : String) (rest : List String)
      (underway : (world.advertisers node).round = some ⟨started, tag :: rest⟩) :
      WorldMoves world (.advertise node true true)
        ((world.record true node (tagService tag)).setAdvertiser node
          ((world.advertisers node).proceed started rest))
  | gaveUp (node : Node) (recorded : Bool) (started : Nat) (tag : String) (rest : List String)
      (underway : (world.advertisers node).round = some ⟨started, tag :: rest⟩) :
      WorldMoves world (.advertise node recorded false)
        ((world.record recorded node (tagService tag)).setAdvertiser node
          { world.advertisers node with round := none })
  | sought (mode : Mode) (tags : List String) :
      WorldMoves world (.search mode tags)
        { world with searches := world.searches ++ [.begin mode tags] }
  | answered (id : Nat) (search : Search Node) (here : world.searches[id]? = some search)
      (tag : String) (rest : List String) (remaining : search.remaining = tag :: rest)
      (providers : List Node)
      (listed : ∀ node, node ∈ providers ↔ node ∈ world.providers lifetime (tagService tag)) :
      WorldMoves world (.find id (some providers))
        (world.setSearch id (search.absorb tag rest providers))
  | failed (id : Nat) (search : Search Node) (here : world.searches[id]? = some search) :
      WorldMoves world (.find id none) (world.setSearch id { search with failed := true })

variable {lifetime carries} {world next : World Node} {label : Label Node}

theorem worldMoves_of_step (stepped : world.step lifetime carries label = some next) :
    WorldMoves lifetime carries world label next := by
  cases label with
  | tick =>
      obtain rfl := Option.some.inj stepped
      exact .ticked
  | register node service recorded =>
      simp only [World.step] at stepped
      split at stepped
      case isTrue bare =>
          obtain rfl := Option.some.inj stepped
          exact .registered node service recorded bare
      case isFalse => simp at stepped
  | refresh node =>
      simp only [World.step] at stepped
      split at stepped
      case h_1 idle =>
          obtain rfl := Option.some.inj stepped
          exact .began node idle
      case h_2 => simp at stepped
  | advertise node recorded accepted =>
      simp only [World.step] at stepped
      split at stepped
      case h_2 => simp at stepped
      case h_1 started tag rest underway =>
          split at stepped
          case isTrue yes =>
              split at stepped
              case isTrue reached =>
                  obtain rfl := Option.some.inj stepped
                  subst yes reached
                  exact .advertised node started tag rest underway
              case isFalse => simp at stepped
          case isFalse no =>
              obtain rfl := Option.some.inj stepped
              obtain rfl : accepted = false := Bool.eq_false_iff.mpr no
              exact .gaveUp node recorded started tag rest underway
  | search mode tags =>
      obtain rfl := Option.some.inj stepped
      exact .sought mode tags
  | find id answer =>
      simp only [World.step] at stepped
      split at stepped
      case h_2 => simp at stepped
      case h_1 search here =>
          split at stepped
          case h_1 tag rest providers searching remaining =>
              split at stepped
              case isTrue listed =>
                  obtain rfl := Option.some.inj stepped
                  exact .answered id search here tag rest remaining providers fun node =>
                    ⟨listed.1 node, listed.2 node⟩
              case isFalse => simp at stepped
          case h_2 =>
              obtain rfl := Option.some.inj stepped
              exact .failed id search here
          case h_3 => simp at stepped

end CeRs.Tags
