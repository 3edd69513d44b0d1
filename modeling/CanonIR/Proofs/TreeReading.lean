import CanonIR.Proofs.Storage
import CanonIR.Proofs.TreeShape

/-! Reading a slab of linked nodes as a shape. The nodes below a link are fixed by the
shape that is read there, and so are those around a hole: what a change of links does is
then said by the shape before and the shape after. -/

namespace CanonIR

variable {α : Type}

namespace Tree

variable {tree before after : Tree α} {slot other : Slot} {node : TreeNode α}

/-- Puts `node` in the place of the one at `slot`. -/
def write (tree : Tree α) (slot : Slot) (node : TreeNode α) : Tree α :=
  { tree with nodes := ⟨tree.nodes.items.setIfInBounds slot.raw node⟩ }

theorem node_eq_ok : tree.node slot = .ok node ↔ tree.nodes.items[slot.raw]? = some node := by
  rw [Tree.node, Slab.get_eq_ok]
  rfl

theorem raw_lt_size (found : tree.node slot = .ok node) : slot.raw < tree.size :=
  (Array.getElem?_eq_some_iff.mp (node_eq_ok.mp found)).1

@[simp] theorem root_write : (tree.write slot node).root = tree.root := rfl

@[simp] theorem size_write : (tree.write slot node).size = tree.size := by
  simp [write, size, Slab.size]

theorem node_write_self {old : TreeNode α} (found : tree.node slot = .ok old) :
    (tree.write slot node).node slot = .ok node := by
  rw [node_eq_ok]
  exact Array.getElem?_setIfInBounds_self_of_lt (raw_lt_size found)

theorem node_write_other (different : other ≠ slot) :
    (tree.write slot node).node other = tree.node other := by
  have apart : slot.raw ≠ other.raw := by
    intro same
    exact different (by cases slot; cases other; simp_all)
  have unchanged : (tree.write slot node).nodes.items[other.raw]? = tree.nodes.items[other.raw]? :=
    Array.getElem?_setIfInBounds_ne apart
  simp only [Tree.node, Slab.get, Slab.get?, Table.firstFree, Nat.not_lt_zero, if_false,
    Nat.sub_zero, unchanged]

theorem modify_eq_write {change : TreeNode α → TreeNode α} (found : tree.node slot = .ok node) :
    tree.modify slot change = .ok (tree.write slot (change node)) := by
  have present := node_eq_ok.mp found
  have same : tree.nodes.items.modify slot.raw change =
      tree.nodes.items.setIfInBounds slot.raw (change node) := by
    apply Array.ext (by simp)
    intro index first last
    have inside : index < tree.nodes.items.size := by simpa using first
    rw [Array.getElem_modify, Array.getElem_setIfInBounds inside]
    split
    next at_slot =>
      subst at_slot
      rw [(Array.getElem?_eq_some_iff.mp present).2]
    next => rfl
  obtain ⟨nodes, root⟩ := tree
  have changed : nodes.modify slot change = .ok ⟨nodes.items.modify slot.raw change⟩ :=
    Slab.modify_eq_ok.mpr ⟨node, present, rfl⟩
  simp only [modify, changed, Checked.ok_bind, Checked.pure_eq_ok, write]
  rw [same]

/-- Below a link that leads to it, with `parent` above it, the tree is `shape`. -/
def Holds (tree : Tree α) (parent : Option Slot) : Shape α → Prop
  | .leaf => True
  | .node color left slot value right =>
    tree.node slot = .ok ⟨value, color, parent, left.root?, right.root?⟩ ∧
      tree.Holds (some slot) left ∧ tree.Holds (some slot) right

/-- Around a hole, which the link to `hole` leads into, the tree is `path`. -/
def Surrounds (tree : Tree α) (hole : Option Slot) : Path α → Prop
  | .root => tree.root = hole
  | .under frame outer =>
    tree.node frame.slot = .ok (.branch frame.side frame.color frame.value outer.parent? hole
        frame.sibling.root?) ∧
      tree.Holds (some frame.slot) frame.sibling ∧ tree.Surrounds (some frame.slot) outer

/-- The tree seen from one of its places: `path` is around it and `shape` below it. No
slot is met twice. -/
structure Focus (tree : Tree α) (path : Path α) (shape : Shape α) : Prop where
  around : tree.Surrounds shape.root? path
  inside : tree.Holds path.parent? shape
  distinct : (path.fill shape).slots.Nodup

/-- The whole tree is `shape`. -/
abbrev Reads (tree : Tree α) (shape : Shape α) : Prop := tree.Focus .root shape

theorem Holds.frame {parent : Option Slot} {shape : Shape α} (holds : before.Holds parent shape)
    (same : ∀ slot ∈ shape.slots, after.node slot = before.node slot) : after.Holds parent shape := by
  induction shape generalizing parent with
  | leaf => trivial
  | node color left slot value right first second =>
    obtain ⟨here, onLeft, onRight⟩ := holds
    refine ⟨(same slot (by simp)).trans here, first onLeft ?_, second onRight ?_⟩
    · exact fun other member => same other (by simp [member])
    · exact fun other member => same other (by simp [member])

theorem Holds.reparent {parent other : Option Slot} {shape : Shape α}
    (holds : before.Holds parent shape) (distinct : shape.slots.Nodup)
    (root : ∀ slot node, shape.root? = some slot → before.node slot = .ok node →
      after.node slot = .ok { node with parent := other })
    (same : ∀ slot ∈ shape.slots, shape.root? ≠ some slot → after.node slot = before.node slot) :
    after.Holds other shape := by
  cases shape with
  | leaf => trivial
  | node color left slot value right =>
    obtain ⟨here, onLeft, onRight⟩ := holds
    simp only [Shape.slots_node, List.nodup_append, List.nodup_cons, List.mem_cons] at distinct
    refine ⟨root slot _ rfl here, onLeft.frame ?_, onRight.frame ?_⟩
    · intro child member
      apply same child (by simp [member])
      simp only [Shape.root?, ne_eq, Option.some.injEq]
      exact fun equal => distinct.2.2 child member child (.inl equal.symm) rfl
    · intro child member
      apply same child (by simp [member])
      simp only [Shape.root?, ne_eq, Option.some.injEq]
      intro same
      subst same
      exact distinct.2.1.1 member

theorem Holds.in_range {parent : Option Slot} {shape : Shape α} (holds : tree.Holds parent shape) :
    ∀ slot ∈ shape.slots, slot.raw < tree.size := by
  induction shape generalizing parent with
  | leaf => simp
  | node color left slot value right first second =>
    obtain ⟨here, onLeft, onRight⟩ := holds
    simp only [Shape.slots_node, List.mem_append, List.mem_cons]
    rintro other (member | rfl | member)
    · exact first onLeft other member
    · exact raw_lt_size here
    · exact second onRight other member

theorem Holds.get {parent : Option Slot} {shape : Shape α} (holds : tree.Holds parent shape) :
    ∀ entry ∈ shape.entries, tree.get entry.1 = .ok entry.2 := by
  induction shape generalizing parent with
  | leaf => simp [Shape.entries]
  | node color left slot value right first second =>
    obtain ⟨here, onLeft, onRight⟩ := holds
    simp only [Shape.entries, List.mem_append, List.mem_cons]
    rintro entry (member | rfl | member)
    · exact first onLeft entry member
    · simp [Tree.get, here]
    · exact second onRight entry member

theorem Surrounds.frame {hole : Option Slot} {path : Path α} (surrounds : before.Surrounds hole path)
    (root : after.root = before.root)
    (same : ∀ slot ∈ path.slots, after.node slot = before.node slot) : after.Surrounds hole path := by
  induction path generalizing hole with
  | root => exact root.trans surrounds
  | under frame outer ih =>
    obtain ⟨here, beside, around⟩ := surrounds
    simp only [Path.mem_slots_under] at same
    exact ⟨(same _ (.inl rfl)).trans here, beside.frame fun slot member => same slot (.inr (.inl member)),
      ih around fun slot member => same slot (.inr (.inr member))⟩

theorem holds_branch {side : Side} {color : Color} {near far : Shape α} {value : α}
    {parent : Option Slot} {slot : Slot} :
    tree.Holds parent (.branch side color near slot value far) ↔
      tree.node slot = .ok (.branch side color value parent near.root? far.root?) ∧
        tree.Holds (some slot) near ∧ tree.Holds (some slot) far := by
  cases side
  · rfl
  · simp only [Shape.branch, Holds, TreeNode.branch, and_congr_right_iff]
    exact fun _ => And.comm

theorem focus_under {frame : Frame α} {outer : Path α} {shape : Shape α} :
    tree.Focus (.under frame outer) shape ↔ tree.Focus outer (frame.fill shape) := by
  constructor
  · intro focus
    obtain ⟨⟨here, beside, around⟩, inside, distinct⟩ := focus
    refine ⟨?_, holds_branch.mpr ⟨here, inside, beside⟩, distinct⟩
    rwa [Frame.fill, Shape.root?_branch]
  · intro focus
    obtain ⟨around, inside, distinct⟩ := focus
    obtain ⟨here, inside, beside⟩ := holds_branch.mp inside
    rw [Frame.fill, Shape.root?_branch] at around
    exact ⟨⟨here, beside, around⟩, inside, distinct⟩

theorem focus_iff_reads {path : Path α} {shape : Shape α} :
    tree.Focus path shape ↔ tree.Reads (path.fill shape) := by
  induction path generalizing shape with
  | root => rfl
  | under frame outer ih => exact focus_under.trans ih

theorem Focus.apart {path : Path α} {shape : Shape α} (focus : tree.Focus path shape) :
    shape.slots.Nodup ∧ path.slots.Nodup ∧ ∀ slot ∈ shape.slots, slot ∉ path.slots := by
  have distinct := (path.slots_fill_perm shape).nodup_iff.mp focus.distinct
  rw [List.nodup_append] at distinct
  exact ⟨distinct.1, distinct.2.1, fun slot member other => distinct.2.2 slot member slot other rfl⟩

end Tree

end CanonIR
