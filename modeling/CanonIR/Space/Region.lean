import CanonIR.Node.Reference
import CanonIR.Slab

/-! Regions nest: each has a parent except the global one. What introduces a region is
recorded once. -/

namespace CanonIR

structure Region where
  parent : Option RegionId
  owner : Option RegionOwner := none
  scope : ScopeId
  /-- The number of regions around it. -/
  depth : Nat
  directives : Array DirectiveId := #[]

def Region.isGlobal (region : Region) : Bool := region.parent.isNone

/-- The regions from `cursor` outward, innermost first. -/
def outward (regions : Slab .region Region) : Nat → Option RegionId → Checked (List RegionId)
  | _, none => .ok []
  | 0, some _ => .error .endlessWalk
  | fuel + 1, some id => do
    return id :: (← outward regions fuel (← regions.get id).parent)

/-- The regions around `id`, innermost first. -/
def ancestors (regions : Slab .region Region) (id : RegionId) : Checked (List RegionId) := do
  outward regions regions.size (← regions.get id).parent

end CanonIR
