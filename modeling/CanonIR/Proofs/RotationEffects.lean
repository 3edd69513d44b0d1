import CanonIR.Proofs.TreeRotation
import CanonIR.Proofs.TreeVerdicts

/-! What a rotation does to a tree, link by link, and that the rotation of the lifted node to
the other side undoes it. Only the links have to make sense: colours and values may be
anything. -/

namespace CanonIR

variable {α : Type}

namespace TreeNode

variable (node : TreeNode α) (side : Side) (child : Option Slot)

@[simp] theorem color_setChild : (node.setChild side child).color = node.color := by
  cases side <;> rfl

@[simp] theorem value_setChild : (node.setChild side child).value = node.value := by
  cases side <;> rfl

end TreeNode

/-! ### A node of a shape, and what is around it -/

theorem Shape.exists_branch {shape : Shape α} {slot : Slot} (root : shape.root? = some slot)
    (side : Side) : ∃ color near value far, shape = .branch side color near slot value far := by
  cases shape with
  | leaf => cases root
  | node color left slot value right =>
    cases root
    cases side
    · exact ⟨color, left, value, right, rfl⟩
    · exact ⟨color, right, value, left, rfl⟩

theorem Path.exists_fill (outer : Path α) {shape : Shape α} {slot : Slot} (member : slot ∈ shape.slots) :
    ∃ (path : Path α) (below : Shape α), path.fill below = outer.fill shape ∧
      below.root? = some slot := by
  induction shape generalizing outer with
  | leaf => cases member
  | node color left here value right first second =>
    rw [Shape.slots_node, List.mem_append, List.mem_cons] at member
    rcases member with onLeft | rfl | onRight
    · exact first (.under ⟨.left, color, here, value, right⟩ outer) onLeft
    · exact ⟨outer, _, rfl, rfl⟩
    · exact second (.under ⟨.right, color, here, value, left⟩ outer) onRight

theorem Path.root?_fill_congr (path : Path α) {one other : Shape α} (same : one.root? = other.root?) :
    (path.fill one).root? = (path.fill other).root? := by
  induction path generalizing one other with
  | root => exact same
  | under frame outer ih =>
    apply ih
    rw [Frame.fill, Frame.fill, Shape.root?_branch, Shape.root?_branch]

namespace Tree

variable {tree first second : Tree α} {shape : Shape α}

theorem Holds.child_mem {parent : Option Slot} {slot child : Slot} (holds : tree.Holds parent shape)
    (member : slot ∈ shape.slots) (link : tree.Child slot child) : child ∈ shape.slots := by
  induction shape generalizing parent with
  | leaf => cases member
  | node color left here value right onLeft onRight =>
    obtain ⟨found, below, beside⟩ := holds
    rw [Shape.slots_node, List.mem_append, List.mem_cons] at member ⊢
    rcases member with inside | rfl | inside
    · exact .inl (onLeft below inside)
    · obtain ⟨node, side, again, leads⟩ := link
      cases found.symm.trans again
      cases side with
      | left => exact .inl (Shape.root?_mem leads)
      | right => exact .inr (.inr (Shape.root?_mem leads))
    · exact .inr (.inr (onRight beside inside))

/-- Links lead from the root to the slots of the shape and to no others. -/
theorem Focus.mem_of_reachable (reads : tree.Reads shape) {slot : Slot}
    (reachable : tree.Reachable slot) : slot ∈ shape.slots := by
  obtain ⟨root, top, links⟩ := reachable
  induction links with
  | refl => exact Shape.root?_mem (reads.around.symm.trans top)
  | tail _ link ih => exact reads.inside.child_mem ih link

/-! ### Trees with the same nodes -/

theorem ext_node (root : first.root = second.root)
    (same : ∀ slot, first.node slot = second.node slot) : first = second := by
  obtain ⟨⟨items⟩, top⟩ := first
  obtain ⟨⟨others⟩, other⟩ := second
  have equal : items = others := by
    apply Array.ext_getElem?
    intro index
    apply Option.ext
    intro node
    have agree := same ⟨index⟩
    have one : (⟨⟨items⟩, top⟩ : Tree α).node ⟨index⟩ = .ok node ↔ items[index]? = some node :=
      node_eq_ok
    have two : (⟨⟨others⟩, other⟩ : Tree α).node ⟨index⟩ = .ok node ↔ others[index]? = some node :=
      node_eq_ok
    rw [← one, agree, two]
  cases equal
  cases root
  rfl

theorem Holds.node_eq {parent : Option Slot} (one : first.Holds parent shape)
    (two : second.Holds parent shape) : ∀ slot ∈ shape.slots, first.node slot = second.node slot := by
  induction shape generalizing parent with
  | leaf => simp
  | node color left here value right onLeft onRight =>
    intro slot member
    rw [Shape.slots_node, List.mem_append, List.mem_cons] at member
    rcases member with inside | rfl | inside
    · exact onLeft one.2.1 two.2.1 slot inside
    · exact one.1.trans two.1.symm
    · exact onRight one.2.2 two.2.2 slot inside

/-- A shape fixes the nodes in it, so that only the others can tell two trees apart. -/
theorem Focus.eq_of_elsewhere (one : first.Reads shape) (two : second.Reads shape)
    (elsewhere : ∀ slot, slot ∉ shape.slots → first.node slot = second.node slot) :
    first = second := by
  have top : first.root = second.root := by
    have here : first.root = shape.root? := one.around
    exact here.trans two.around.symm
  refine ext_node top fun slot => ?_
  by_cases inside : slot ∈ shape.slots
  · exact one.inside.node_eq two.inside slot inside
  · exact elsewhere slot inside

/-! ### Rotations -/

/-- What a rotation of `pivot` toward `side` does to a tree of the given shape, where `node` is
the one at `pivot` and `below` its child at `lifted`. -/
structure Rotates (before : Tree α) (shape : Shape α) (pivot lifted : Slot) (side : Side)
    (node below : TreeNode α) (after : Tree α) : Prop where
  turned : before.rotate pivot side = .ok (.turned, after)
  size : after.size = before.size
  reads : ∃ other, after.Reads other ∧ other.entries = shape.entries
  kept : ∀ {slot old}, before.node slot = .ok old → ∃ now, after.node slot = .ok now ∧
    now.color = old.color ∧ now.value = old.value
  root : after.root = if before.root = some pivot then some lifted else before.root
  atPivot : after.node pivot =
    .ok { node.setChild side.opposite (below.child side) with parent := some lifted }
  atLifted : after.node lifted =
    .ok { below.setChild side (some pivot) with parent := node.parent }
  atInner : ∀ {inner old}, below.child side = some inner → before.node inner = .ok old →
    after.node inner = .ok { old with parent := some pivot }
  atParent : ∀ {parent old}, node.parent = some parent → before.node parent = .ok old →
    after.node parent = .ok (old.setChild (old.sideOf pivot) (some lifted))
  elsewhere : ∀ {slot}, slot ≠ pivot → slot ≠ lifted → below.child side ≠ some slot →
    node.parent ≠ some slot → after.node slot = before.node slot
  restored : after.rotate lifted side.opposite = .ok (.turned, before)

section Rotation

variable {path : Path α} {side : Side} {pivotColor liftedColor : Color} {near inner far : Shape α}
  {pivot lifted : Slot} {pivotValue liftedValue : α}

/-- Turning back gives the links that were there. What lies outside the shape is not touched
by either rotation. -/
theorem rotate_back {after : Tree α}
    (focus : tree.Focus path (.branch side pivotColor near pivot pivotValue
      (.branch side liftedColor inner lifted liftedValue far)))
    (turned : tree.rotate pivot side = .ok (.turned, after)) :
    after.rotate lifted side.opposite = .ok (.turned, tree) := by
  obtain ⟨_, forth, -, -, -, -, -, same⟩ := rotate_writes focus
  cases forth.symm.trans turned
  obtain ⟨_, again, -, lower⟩ := rotate_focus focus
  cases again.symm.trans turned
  simp only [← Shape.branch_opposite side] at lower
  obtain ⟨back, returned, -, -, -, -, -, kept⟩ := rotate_writes lower
  obtain ⟨_, once, -, upper⟩ := rotate_focus lower
  cases once.symm.trans returned
  rw [Shape.branch_opposite, Shape.branch_opposite] at upper
  have equal : back = tree := by
    refine Focus.eq_of_elsewhere (focus_iff_reads.mp upper) (focus_iff_reads.mp focus) ?_
    intro slot outside
    rw [(slots_turn_perm ..).mem_iff] at outside
    simp only [List.mem_cons, List.mem_append, not_or] at outside
    obtain ⟨unpivoted, unlifted, -, notInner, -, notAround⟩ := outside
    have uninner : inner.root? ≠ some slot := fun root => notInner (Shape.root?_mem root)
    have unlinked : path.parent? ≠ some slot := fun parent => notAround (Path.parent?_mem parent)
    rw [kept slot unlifted unpivoted uninner unlinked, same slot unpivoted unlifted uninner unlinked]
  rw [returned, equal]

theorem rotate_root {after : Tree α}
    (focus : tree.Focus path (.branch side pivotColor near pivot pivotValue
      (.branch side liftedColor inner lifted liftedValue far)))
    (turned : tree.rotate pivot side = .ok (.turned, after)) :
    after.root = if tree.root = some pivot then some lifted else tree.root := by
  obtain ⟨_, again, -, lower⟩ := rotate_focus focus
  cases again.symm.trans turned
  have former : tree.root = _ := (focus_iff_reads.mp focus).around
  have latter : after.root = _ := (focus_iff_reads.mp lower).around
  cases path with
  | root =>
    rw [latter, former, Path.fill, Path.fill, Shape.root?_branch, Shape.root?_branch, if_pos rfl]
  | under frame outer =>
    have sameRoot (one other : Shape α) : ((Path.under frame outer).fill one).root? =
        ((Path.under frame outer).fill other).root? := by
      apply outer.root?_fill_congr
      rw [Frame.fill, Frame.fill, Shape.root?_branch, Shape.root?_branch]
    have unmoved : after.root = tree.root := latter.trans ((sameRoot _ _).trans former.symm)
    have other : tree.root ≠ some pivot := by
      intro top
      have member := Shape.root?_mem ((sameRoot .leaf _).trans (former.symm.trans top))
      rw [(Path.slots_fill_perm _ _).mem_iff, Shape.slots_leaf, List.nil_append] at member
      have distinct := slots_distinct focus
      simp only [List.nodup_cons, List.mem_append, List.mem_cons, not_or] at distinct
      exact distinct.1.2.2.2.2 member
    rw [if_neg other, unmoved]

theorem rotates_ok (focus : tree.Focus path (.branch side pivotColor near pivot pivotValue
      (.branch side liftedColor inner lifted liftedValue far))) :
    ∃ after, tree.Rotates (path.fill (.branch side pivotColor near pivot pivotValue
        (.branch side liftedColor inner lifted liftedValue far))) pivot lifted side
      (.branch side pivotColor pivotValue path.parent? near.root? (some lifted))
      (.branch side liftedColor liftedValue (some pivot) inner.root? far.root?) after := by
  obtain ⟨after, turned, size, around, atPivot, atLifted, atInner, same⟩ := rotate_writes focus
  obtain ⟨_, again, -, lower⟩ := rotate_focus focus
  cases again.symm.trans turned
  have distinct := slots_distinct focus
  simp only [List.nodup_cons, List.mem_append, List.mem_cons, not_or] at distinct
  obtain ⟨⟨pivotLifted, -, -, -, pivotPath⟩, -⟩ := distinct
  obtain ⟨here, -, inside⟩ := holds_branch.mp focus.inside
  obtain ⟨below, -, -⟩ := holds_branch.mp inside
  rw [Shape.root?_branch] at here
  -- The parent's other link does not lead to the pivot, so the side is read off it.
  have atParent : ∀ {parent old}, path.parent? = some parent → tree.node parent = .ok old →
      after.node parent = .ok (old.setChild (old.sideOf pivot) (some lifted)) := by
    intro parent old link found
    cases path with
    | root => cases link
    | under frame outer =>
      cases link
      have former := focus.around.1
      have different : frame.sibling.root? ≠ some pivot := fun root =>
        pivotPath (Path.mem_slots_under.mpr (.inr (.inl (Shape.root?_mem root))))
      rw [Shape.root?_branch] at former
      cases former.symm.trans found
      rw [around.1, TreeNode.sideOf_branch _ _ _ _ _ different, TreeNode.setChild_branch]
  have colored : ∀ {slot old}, tree.node slot = .ok old → ∃ now, after.node slot = .ok now ∧
      now.color = old.color ∧ now.value = old.value := by
    intro slot old found
    by_cases atTop : slot = pivot
    · subst atTop
      cases here.symm.trans found
      exact ⟨_, atPivot, by simp, by cases side <;> rfl⟩
    by_cases atLow : slot = lifted
    · subst atLow
      cases below.symm.trans found
      exact ⟨_, atLifted, by simp, by cases side <;> rfl⟩
    by_cases within : inner.root? = some slot
    · exact ⟨_, atInner slot old within found, rfl, rfl⟩
    by_cases above : path.parent? = some slot
    · exact ⟨_, atParent above found, by simp, by simp⟩
    · exact ⟨old, (same slot atTop atLow within above).trans found, rfl, rfl⟩
  refine ⟨after, turned, size, ⟨_, focus_iff_reads.mp lower, ?_⟩, colored, rotate_root focus turned,
    ?_, ?_, ?_, ?_, ?_, rotate_back focus turned⟩
  · exact path.entries_fill_congr (Shape.entries_branch_rotate side ..)
  · simpa only [TreeNode.child_branch, TreeNode.setChild_opposite_branch, TreeNode.setParent_branch]
      using atPivot
  · simpa only [TreeNode.parent_branch, TreeNode.setChild_branch, TreeNode.setParent_branch]
      using atLifted
  · intro slot old link found
    rw [TreeNode.child_branch] at link
    exact atInner slot old link found
  · intro parent old link found
    rw [TreeNode.parent_branch] at link
    exact atParent link found
  · intro slot atTop atLow within above
    rw [TreeNode.child_branch] at within
    rw [TreeNode.parent_branch] at above
    exact same slot atTop atLow within above

/-- Wherever the links of a tree spell out a shape, with every parent link leading back, a node
that has a child to lift can be rotated. That keeps the tree and the order of its entries, and
changes no links but those of the pivot, of the lifted child, of the child that passes from
one to the other and of the parent. -/
theorem rotation_keeps_tree {node : TreeNode α} (reads : tree.Reads shape)
    (reachable : tree.Reachable pivot) (found : tree.node pivot = .ok node)
    (child : node.child side.opposite = some lifted) :
    ∃ below after, tree.node lifted = .ok below ∧
      tree.Rotates shape pivot lifted side node below after := by
  obtain ⟨path, here, rfl, root⟩ := Path.exists_fill .root (Focus.mem_of_reachable reads reachable)
  obtain ⟨pivotColor, near, pivotValue, rest, rfl⟩ := Shape.exists_branch root side
  have focus := focus_iff_reads.mpr reads
  obtain ⟨top, -, inside⟩ := holds_branch.mp focus.inside
  cases top.symm.trans found
  rw [TreeNode.child_opposite_branch] at child
  obtain ⟨liftedColor, inner, liftedValue, far, rfl⟩ := Shape.exists_branch child side
  obtain ⟨low, -, -⟩ := holds_branch.mp inside
  obtain ⟨after, rotates⟩ := rotates_ok focus
  rw [Shape.root?_branch]
  exact ⟨_, after, low, rotates⟩

end Rotation

/-- Five nodes, every other one red, that lean to the right below the left link of the root. -/
def leaning : Tree Nat where
  nodes := ⟨#[⟨50, .black, none, some ⟨1⟩, none⟩, ⟨10, .red, some ⟨0⟩, none, some ⟨2⟩⟩,
    ⟨30, .red, some ⟨1⟩, some ⟨3⟩, some ⟨4⟩⟩, ⟨20, .black, some ⟨2⟩, none, none⟩,
    ⟨40, .red, some ⟨2⟩, none, none⟩]⟩
  root := some ⟨0⟩

def leaningShape : Shape Nat :=
  .node .black
    (.node .red .leaf ⟨1⟩ 10
      (.node .red (.node .black .leaf ⟨3⟩ 20 .leaf) ⟨2⟩ 30 (.node .red .leaf ⟨4⟩ 40 .leaf)))
    ⟨0⟩ 50 .leaf

/-- A pivot below a parent lifts a child that has children on both sides. -/
theorem rotation_keeps_tree_leaning :
    leaning.Reads leaningShape ∧ leaning.Reachable ⟨1⟩ ∧
      leaning.node ⟨1⟩ = .ok ⟨10, .red, some ⟨0⟩, none, some ⟨2⟩⟩ ∧
      ∃ below after, leaning.node ⟨2⟩ = .ok below ∧
        leaning.Rotates leaningShape ⟨1⟩ ⟨2⟩ .left ⟨10, .red, some ⟨0⟩, none, some ⟨2⟩⟩ below after := by
  have reads : leaning.Reads leaningShape :=
    ⟨rfl, ⟨rfl, ⟨rfl, trivial, rfl, ⟨rfl, trivial, trivial⟩, rfl, trivial, trivial⟩, trivial⟩, by decide⟩
  have link : leaning.Child ⟨0⟩ ⟨1⟩ := ⟨_, .left, rfl, rfl⟩
  have reachable : leaning.Reachable ⟨1⟩ := ⟨⟨0⟩, rfl, .single link⟩
  exact ⟨reads, reachable, rfl, rotation_keeps_tree reads reachable rfl rfl⟩

end Tree

end CanonIR
