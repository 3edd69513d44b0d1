import CanonIR.Ordered.Tree

/-! Search and insertion. The order is asked of the caller, one question per visited
node. The answers may depend on a state and need not make sense: a bad one puts an
entry in the wrong place and does no other harm. -/

namespace CanonIR

/-- Where a search ends. -/
inductive Landing where
  | hit (slot : Slot)
  /-- No node is left to ask; a new one would hang at `place`, or be the root. -/
  | gap (place : Option (Slot × Side))

/-- What a rotation did. -/
inductive Turn where
  | turned
  /-- The pivot had no child to lift. -/
  | idle
  deriving DecidableEq

/-- One round of the repair after an insertion. -/
inductive Repair where
  /-- The node is the root or hangs under a black one. -/
  | settled
  /-- The node hangs under a red root. -/
  | rootless
  /-- Parent and uncle became black; the grandparent is to be looked at next. -/
  | recolored (grand : Slot)
  /-- The inner rotation left the node without a parent. -/
  | detached
  /-- The parent took the grandparent's place, after an inner rotation if there is one;
  `slot` is the node that now hangs lowest. -/
  | rotated (inner : Option Turn) (outer : Turn) (slot : Slot)

namespace Tree

variable {α σ : Type}

/-- Walks down from `cursor`, to the left where the answer is "before" and to the right
where it is "after"; `place` is the link that led to `cursor`. -/
def descend (tree : Tree α) (ask : α → σ → Ordering × σ) :
    Nat → Option (Slot × Side) → Option Slot → σ → Checked (Landing × σ)
  | _, place, none, state => .ok (.gap place, state)
  | 0, _, some _, _ => .error .endlessWalk
  | fuel + 1, _, some slot, state => do
    let node ← tree.node slot
    match ask node.value state with
    | (.lt, state) => tree.descend ask fuel (some (slot, .left)) node.left state
    | (.gt, state) => tree.descend ask fuel (some (slot, .right)) node.right state
    | (.eq, state) => return (.hit slot, state)

def locate (tree : Tree α) (ask : α → σ → Ordering × σ) (state : σ) : Checked (Landing × σ) :=
  tree.descend ask tree.size none tree.root state

/-- The slot at which the answer is "equal". -/
def find? (tree : Tree α) (ask : α → σ → Ordering × σ) (state : σ) :
    Checked (Option Slot × σ) := do
  match ← tree.locate ask state with
  | (.hit slot, state) => return (some slot, state)
  | (.gap _, state) => return (none, state)

/-- Lifts the child of `pivot` on the side opposite to `side` into the place of
`pivot`, which becomes its child on `side`. -/
def rotate (tree : Tree α) (pivot : Slot) (side : Side) : Checked (Turn × Tree α) := do
  let pivotNode ← tree.node pivot
  match pivotNode.child side.opposite with
  | none => return (.idle, tree)
  | some lifted =>
    let inner := (← tree.node lifted).child side
    let tree ← tree.setChild pivot side.opposite inner
    let tree ← match inner with
      | some inner => tree.setParent inner (some pivot)
      | none => pure tree
    let parent := (← tree.node pivot).parent
    let tree ← tree.setParent lifted parent
    let tree ← match parent with
      | none => pure { tree with root := some lifted }
      | some parent => do
        let above := (← tree.node parent).sideOf pivot
        tree.setChild parent above (some lifted)
    let tree ← tree.setChild lifted side (some pivot)
    let tree ← tree.setParent pivot (some lifted)
    return (.turned, tree)

/-- `slot` if it is there and red. -/
def redSlot? (tree : Tree α) : Option Slot → Checked (Option Slot)
  | none => .ok none
  | some slot => do
    return if (← tree.node slot).color = .red then some slot else none

/-- Puts `parent` in the place of `grand`, its own parent on `side`. -/
def raise (tree : Tree α) (parent grand : Slot) (side : Side) : Checked (Turn × Tree α) := do
  let tree ← tree.setColor parent .black
  let tree ← tree.setColor grand .red
  tree.rotate grand side.opposite

/-- One round of repair at `slot`, which is red and may hang under a red parent. -/
def repairStep (tree : Tree α) (slot : Slot) : Checked (Repair × Tree α) := do
  match (← tree.node slot).parent with
  | none => return (.settled, tree)
  | some parent =>
    let parentNode ← tree.node parent
    if parentNode.color = .black then return (.settled, tree)
    match parentNode.parent with
    | none => return (.rootless, tree)
    | some grand =>
      let grandNode ← tree.node grand
      let side := grandNode.sideOf parent
      match ← tree.redSlot? (grandNode.child side.opposite) with
      | some uncle =>
        let tree ← tree.setColor parent .black
        let tree ← tree.setColor uncle .black
        let tree ← tree.setColor grand .red
        return (.recolored grand, tree)
      | none =>
        if parentNode.child side.opposite = some slot then
          let (inner, tree) ← tree.rotate parent side
          match (← tree.node parent).parent with
          | none => return (.detached, tree)
          | some top =>
            let (outer, tree) ← tree.raise top grand side
            return (.rotated (some inner) outer parent, tree)
        else
          let (outer, tree) ← tree.raise parent grand side
          return (.rotated none outer slot, tree)

/-- Repairs upward from `slot` until a round has nothing left to do. -/
def repairFrom (tree : Tree α) : Nat → Slot → Checked (Tree α)
  | 0, _ => .error .endlessWalk
  | fuel + 1, slot => do
    match ← tree.repairStep slot with
    | (.settled, tree) | (.rootless, tree) | (.detached, tree) => return tree
    | (.recolored grand, tree) => tree.repairFrom fuel grand
    | (.rotated _ _ slot, tree) => tree.repairFrom fuel slot

def blackenRoot (tree : Tree α) : Checked (Tree α) :=
  match tree.root with
  | some root => tree.setColor root .black
  | none => .ok tree

/-- Restores the colours after the red leaf `slot` was hung into the tree. A round
moves two levels up or is the last but one, so their number is at most one above that
of the nodes. -/
def rebalance (tree : Tree α) (slot : Slot) : Checked (Tree α) := do
  (← tree.repairFrom (tree.size + 1) slot).blackenRoot

/-- Hangs the node at `slot` below `place`. -/
def hang (tree : Tree α) (slot : Slot) : Option (Slot × Side) → Checked (Tree α)
  | some (parent, side) => tree.setChild parent side (some slot)
  | none => .ok { tree with root := some slot }

/-- The slot at which the answer is "equal", or that of a new entry made by `build`.
The flag tells whether `build` ran. -/
def insert (tree : Tree α) (ask : α → σ → Ordering × σ) (build : σ → Checked (α × σ))
    (state : σ) : Checked ((Slot × Bool) × Tree α × σ) := do
  match ← tree.locate ask state with
  | (.hit slot, state) => return ((slot, false), tree, state)
  | (.gap place, state) =>
    let slot ← tree.nodes.next
    let (value, state) ← build state
    let leaf : TreeNode α :=
      { value, color := .red, parent := place.map Prod.fst, left := none, right := none }
    let tree ← ({ tree with nodes := ⟨tree.nodes.items.push leaf⟩ } : Tree α).hang slot place
    return ((slot, true), ← tree.rebalance slot, state)

end Tree

end CanonIR
