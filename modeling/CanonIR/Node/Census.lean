import CanonIR.Handle
import CanonIR.Node.Category

/-! The census of a program: it numbers the nodes and counts them by category, and it
counts how often a canonical node was found or had to be made. Shared constants are
not counted. -/

namespace CanonIR

structure Census where
  /-- The number of the next node. -/
  next : Nat := Table.firstFree .node
  counts : Vector Nat 256 := .replicate 256 0
  hits : Vector Nat 6 := .replicate 6 0
  misses : Vector Nat 6 := .replicate 6 0

namespace Census

/-- Gives a new node of `category` its number. -/
def enroll (category : Category) (census : Census) : Checked (NodeId × Census) :=
  if census.next + 1 < positionLimit then
    let code := category.code
    .ok (⟨census.next⟩,
      { census with
        next := census.next + 1
        counts := census.counts.set code (census.counts[code] + 1) })
  else .error .nodeIdsExhausted

/-- Counts a request for a canonical node, which is `fresh` if the node had to be made. -/
def countRequest (group : Group) (fresh : Bool) (census : Census) : Census :=
  let index := group.index
  if fresh then { census with misses := census.misses.set index (census.misses[index] + 1) }
  else { census with hits := census.hits.set index (census.hits[index] + 1) }

def count (census : Census) (category : Category) : Nat := census.counts[category.code]

def groupCount (census : Census) (group : Group) : Nat :=
  let members := Category.all.filter (·.group = group)
  members.foldl (fun total category => total + census.count category) 0

/-- All nodes made so far. -/
def total (census : Census) : Nat := census.next - Table.firstFree .node

def hitsOf (census : Census) (group : Group) : Nat := census.hits[group.index]

def missesOf (census : Census) (group : Group) : Nat := census.misses[group.index]

def totalHits (census : Census) : Nat :=
  Group.all.foldl (fun total group => total + census.hitsOf group) 0

def totalMisses (census : Census) : Nat :=
  Group.all.foldl (fun total group => total + census.missesOf group) 0

end Census

end CanonIR
