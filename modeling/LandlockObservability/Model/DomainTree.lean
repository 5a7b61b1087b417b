import LandlockObservability.ForStd.Grouping
import LandlockObservability.Model.Observation

/-!
# The domain tree

Models `ObservationModel::domain_tree` in `lltop/src/tui/model.rs`: the retained domains in
tree order, each with the last-child bits of its ancestors and itself.

The parents are observed facts, so that they may form a cycle or name a domain that is not
retained.  The function walks the children with a stack and a set of visited domains, first
from the domains without a known parent and then from those that are left over.

IDs are sorted with `sort_unstable_by_key`.  They are different, so that the sort has one
result, which is also that of a stable sort.
-/

namespace Landlock

namespace ObservationModel

/-- The stack of `append`, top first, and the entries of its output. -/
abbrev TreeEntry := DomainId × List Bool

/-- `sort_unstable_by_key(|id| id.get())`. -/
def sortIds (ids : List DomainId) : List DomainId :=
  Grouping.sortBy (compareOn LandlockId.value) ids

/-- The map `domains`: the retained domains by their ID. -/
def domainsById (stateOrder : IterOrder DomainId DomainState) (state : State) :
    HashMap DomainId DomainState :=
  (stateOrder.toList state.domains).foldl
    (fun domains entry => domains.insert entry.2.id entry.2) ∅

/-- The parent of a domain, if it is retained as well. -/
def knownParent (domains : HashMap DomainId DomainState) (domain : DomainState) :
    Option DomainId :=
  match domain.parent with
  | none | some .root => none
  -- A parent that is not retained makes the domain a root
  | some (.domain id) => if id ∈ domains then some id else none

/-- The map `children`: the IDs of the domains with one parent, sorted. -/
def children (order : IterOrder DomainId DomainState) (domains : HashMap DomainId DomainState) :
    HashMap (Option DomainId) (List DomainId) :=
  (Grouping.collect (fun entry => knownParent domains entry.2) (fun entry => entry.2.id)
    (order.toList domains)).mapValues sortIds

/-- `visited` and `output`. -/
structure DomainWalk where
  visited : Finset DomainId
  output : List TreeEntry
  deriving DecidableEq

/-- The inner loop of `append`: the descendants are pushed in reverse, so that the first one
    is on top. -/
def pushDescendants (trail : List Bool) (descendants : List DomainId)
    (pending : List TreeEntry) : List TreeEntry :=
  -- `saturating_sub`
  let last := descendants.length - 1
  descendants.zipIdx.reverse.foldl
    (fun pending (child, index) => (child, trail ++ [index == last]) :: pending) pending

/-- The domains with descendants that are not visited. -/
def unvisited (children : HashMap (Option DomainId) (List DomainId))
    (visited : Finset DomainId) : Finset (Option DomainId) :=
  children.keys \ visited.image some

/-- Visiting makes nothing unvisited. -/
private theorem card_unvisited_le (children : HashMap (Option DomainId) (List DomainId))
    (visited : Finset DomainId) (id : DomainId) :
    (unvisited children (insert id visited)).card ≤ (unvisited children visited).card := by
  refine Finset.card_le_card (Finset.sdiff_subset_sdiff (Finset.Subset.refl _) ?_)
  exact Finset.image_subset_image (Finset.subset_insert id visited)

/-- Visiting a domain with children leaves one less. -/
private theorem card_unvisited_lt (children : HashMap (Option DomainId) (List DomainId))
    {visited : Finset DomainId} {id : DomainId} {descendants : List DomainId}
    (hid : id ∉ visited) (hlookup : children.lookup (some id) = some descendants) :
    (unvisited children (insert id visited)).card < (unvisited children visited).card := by
  refine Finset.card_lt_card ?_
  rw [unvisited, unvisited, Finset.image_insert, Finset.sdiff_insert]
  refine Finset.erase_ssubset ?_
  rw [Finset.mem_sdiff, Finmap.mem_keys]
  exact ⟨Finmap.mem_of_lookup_eq_some hlookup, by simpa using hid⟩

/-- The loop of `append`. -/
def appendLoop (children : HashMap (Option DomainId) (List DomainId)) :
    List TreeEntry → DomainWalk → DomainWalk
  | [], walk => walk
  | (id, trail) :: pending, walk =>
    -- On a cycle the walk comes back to where it was
    if id ∈ walk.visited then
      appendLoop children pending walk
    else
      let walk' := ⟨insert id walk.visited, walk.output ++ [(id, trail)]⟩
      match _hlookup : children.lookup (some id) with
      | some descendants =>
        appendLoop children (pushDescendants trail descendants pending) walk'
      | none => appendLoop children pending walk'
termination_by pending walk =>
  -- A domain with descendants is visited only once; everything else shortens the stack
  ((unvisited children walk.visited).card, pending.length)
decreasing_by
  · exact Prod.Lex.right _ (Nat.lt_succ_self _)
  · exact Prod.Lex.left _ _ (card_unvisited_lt children ‹id ∉ walk.visited› _hlookup)
  · rcases Nat.lt_or_eq_of_le (card_unvisited_le children walk.visited id) with hlt | heq
    · exact Prod.Lex.left _ _ hlt
    · show Prod.Lex _ _ ((unvisited children (insert id walk.visited)).card, _) _
      rw [heq]
      exact Prod.Lex.right _ (Nat.lt_succ_self _)

/-- `append`. -/
def append (id : DomainId) (trail : List Bool)
    (children : HashMap (Option DomainId) (List DomainId)) (walk : DomainWalk) : DomainWalk :=
  appendLoop children [(id, trail)] walk

/-- The first loop of `domain_tree`, over the domains without a known parent. -/
def appendRoots (children : HashMap (Option DomainId) (List DomainId)) (walk : DomainWalk) :
    DomainWalk :=
  let roots := (children.lookup none).getD []
  let lastRoot := roots.length - 1
  roots.zipIdx.foldl (fun walk (root, index) => append root [index == lastRoot] children walk)
    walk

/-- The second loop of `domain_tree`, over all domains. -/
def appendRemaining (children : HashMap (Option DomainId) (List DomainId))
    (remaining : List DomainId) (walk : DomainWalk) : DomainWalk :=
  remaining.foldl
    -- What no root leads to is on a cycle, or below one
    (fun walk id => if id ∈ walk.visited then walk else append id [true] children walk) walk

/-- `ObservationModel::domain_tree`.  The map of the state and the map that is built from it
    may be traversed in different orders. -/
def domainTree (stateOrder order : IterOrder DomainId DomainState) (model : ObservationModel) :
    List TreeEntry :=
  let domains := domainsById stateOrder model.state
  let children := children order domains
  let walk := appendRoots children ⟨∅, []⟩
  let remaining := sortIds ((order.toList domains).map Prod.fst)
  (appendRemaining children remaining walk).output

end ObservationModel

end Landlock
