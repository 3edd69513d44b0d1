import CanonIR.Ordered.Tree

/-! Reading a whole tree: its values in order, its height, and a check of the
red-black rules. -/

namespace CanonIR

/-- A rule that a tree breaks, and where. -/
inductive TreeViolation where
  | redRoot
  | redRed (slot : Slot)
  | blackHeight (slot : Slot) (left right : Nat)
  | brokenParent (slot : Slot)
  deriving DecidableEq

def TreeViolation.label : TreeViolation → String
  | .redRoot => "RedRoot"
  | .redRed _ => "RedRed"
  | .blackHeight .. => "BlackHeight"
  | .brokenParent _ => "BrokenParent"

def TreeViolation.message : TreeViolation → String
  | .redRoot => "root node is red"
  | .redRed slot => s!"red node {slot.describe} has a red child"
  | .blackHeight slot left right =>
    s!"black heights differ below {slot.describe}: left {left}, right {right}"
  | .brokenParent slot => s!"parent link of {slot.describe} does not point back to it"

namespace Tree

variable {α : Type}

/-- The nodes on the way down from `cursor` along left links, lowest first, on top of
`pending`. -/
def leftSpine (tree : Tree α) : Nat → Option Slot → List Slot → Checked (List Slot)
  | _, none, pending => .ok pending
  | 0, some _, _ => .error .endlessWalk
  | fuel + 1, some slot, pending => do
    tree.leftSpine fuel (← tree.node slot).left (slot :: pending)

/-- Takes the next value in order; `pending` holds the nodes whose value and right
subtree are still to come, lowest first. -/
def nextValue (tree : Tree α) : List Slot → Checked (Option (α × List Slot))
  | [] => .ok none
  | slot :: pending => do
    let node ← tree.node slot
    return some (node.value, ← tree.leftSpine tree.size node.right pending)

def valuesFrom (tree : Tree α) : Nat → List Slot → Checked (List α)
  | 0, [] => .ok []
  | 0, _ :: _ => .error .endlessWalk
  | fuel + 1, pending => do
    match ← tree.nextValue pending with
    | none => return []
    | some (value, pending) => return value :: (← tree.valuesFrom fuel pending)

/-- All values in order. -/
def values (tree : Tree α) : Checked (List α) := do
  tree.valuesFrom tree.size (← tree.leftSpine tree.size tree.root [])

def heightBelow (tree : Tree α) : Nat → Option Slot → Checked Nat
  | _, none => .ok 0
  | 0, some _ => .error .endlessWalk
  | fuel + 1, some slot => do
    let node ← tree.node slot
    let left ← tree.heightBelow fuel node.left
    let right ← tree.heightBelow fuel node.right
    return 1 + (if left < right then right else left)

/-- The number of nodes on the longest way down. -/
def height (tree : Tree α) : Checked Nat := tree.heightBelow tree.size tree.root

/-- A check either counts black nodes or names the first broken rule it meets. -/
abbrev Inspection := ExceptT TreeViolation Checked

/-- The black height below one link of `slot`; an absent child counts nothing. -/
def inspectLink (tree : Tree α) (inspectBelow : Slot → Inspection Nat) (slot : Slot)
    (node : TreeNode α) : Option Slot → Inspection Nat
  | none => return 0
  | some child => do
    let below ← tree.node child
    if below.parent ≠ some slot then throw (.brokenParent child)
    if node.color = .red ∧ below.color = .red then throw (.redRed slot)
    inspectBelow child

/-- The black height at `slot`, where the left link and all below it are inspected
before the right one. -/
def inspect (tree : Tree α) : Nat → Slot → Inspection Nat
  | 0, _ => ExceptT.lift (.error .endlessWalk)
  | fuel + 1, slot => do
    let node ← tree.node slot
    let left ← tree.inspectLink (tree.inspect fuel) slot node node.left
    let right ← tree.inspectLink (tree.inspect fuel) slot node node.right
    if left ≠ right then throw (.blackHeight slot left right)
    return left + (if node.color = .black then 1 else 0)

/-- The black height of a tree that keeps the red-black rules. -/
def check (tree : Tree α) : Inspection Nat := do
  match tree.root with
  | none => return 0
  | some root =>
    let node ← tree.node root
    if node.color = .red then throw .redRoot
    if node.parent.isSome then throw (.brokenParent root)
    tree.inspect tree.size root

end Tree

end CanonIR
