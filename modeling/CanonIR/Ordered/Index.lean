import CanonIR.Ordered.Insertion
import CanonIR.Ordered.Traversal

/-! An index from structural keys to the one value made for each. -/

namespace CanonIR

structure IndexEntry (κ ν : Type) where
  key : κ
  value : ν

structure Index (κ ν : Type) where
  tree : Tree (IndexEntry κ ν) := {}

namespace Index

variable {κ ν σ : Type} [Ord κ]

/-- Where `key` lies relative to an entry. -/
def ask (key : κ) (entry : IndexEntry κ ν) (state : σ) : Ordering × σ :=
  (compare key entry.key, state)

/-- The value made for `key`. -/
def get? (index : Index κ ν) (key : κ) : Checked (Option ν) := do
  match ← index.tree.find? (ask key) () with
  | (some slot, _) => return some (← index.tree.get slot).value
  | (none, _) => return none

/-- The value made for `key`, by `make` if it is asked for the first time. The flag
tells whether `make` ran. -/
def getOrMake (index : Index κ ν) (key : κ) (make : σ → Checked (ν × σ)) (state : σ) :
    Checked ((ν × Bool) × Index κ ν × σ) := do
  let build (state : σ) : Checked (IndexEntry κ ν × σ) := do
    let (value, state) ← make state
    return (⟨key, value⟩, state)
  let ((slot, fresh), tree, state) ← index.tree.insert (ask key) build state
  return (((← tree.get slot).value, fresh), ⟨tree⟩, state)

/-- Keys and values, in the order of the keys. -/
def entries (index : Index κ ν) : Checked (List (IndexEntry κ ν)) := index.tree.values

def size (index : Index κ ν) : Nat := index.tree.size

def isEmpty (index : Index κ ν) : Bool := index.tree.isEmpty

end Index

end CanonIR
