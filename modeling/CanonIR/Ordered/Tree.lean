import CanonIR.Slab

/-! A red-black tree whose nodes lie in a slab and name each other by slot. It only
grows, so a slot stays good for as long as the tree lives. -/

namespace CanonIR

inductive Color where
  | red
  | black
  deriving DecidableEq

inductive Side where
  | left
  | right
  deriving DecidableEq

def Side.opposite : Side → Side
  | .left => .right
  | .right => .left

structure TreeNode (α : Type) where
  value : α
  color : Color
  parent : Option Slot
  left : Option Slot
  right : Option Slot

namespace TreeNode

variable {α : Type}

def child (node : TreeNode α) : Side → Option Slot
  | .left => node.left
  | .right => node.right

def setChild (node : TreeNode α) (side : Side) (child : Option Slot) : TreeNode α :=
  match side with
  | .left => { node with left := child }
  | .right => { node with right := child }

/-- The side on which `slot` hangs, if it is one of the two children. -/
def sideOf (node : TreeNode α) (slot : Slot) : Side :=
  if node.left = some slot then .left else .right

end TreeNode

structure Tree (α : Type) where
  nodes : Slab .slot (TreeNode α) := {}
  root : Option Slot := none

namespace Tree

variable {α : Type}

def size (tree : Tree α) : Nat := tree.nodes.size

def isEmpty (tree : Tree α) : Bool := tree.nodes.items.isEmpty

def node (tree : Tree α) (slot : Slot) : Checked (TreeNode α) := tree.nodes.get slot

/-- The value at `slot`. -/
def get (tree : Tree α) (slot : Slot) : Checked α := do
  return (← tree.node slot).value

def modify : Tree α → Slot → (TreeNode α → TreeNode α) → Checked (Tree α)
  | ⟨nodes, root⟩, slot, change => return ⟨← nodes.modify slot change, root⟩

def setColor (tree : Tree α) (slot : Slot) (color : Color) : Checked (Tree α) :=
  tree.modify slot ({ · with color })

def setParent (tree : Tree α) (slot : Slot) (parent : Option Slot) : Checked (Tree α) :=
  tree.modify slot ({ · with parent })

def setChild (tree : Tree α) (slot : Slot) (side : Side) (child : Option Slot) : Checked (Tree α) :=
  tree.modify slot (·.setChild side child)

end Tree

end CanonIR
