import CanonIR.Ordered.Insertion
import CanonIR.Proofs.TreeReading

/-! A rotation moves three links and their backward links. Seen from the pivot it turns
one shape into another with the same order of entries; all around it stays. -/

namespace CanonIR.Tree

variable {α : Type} {tree after : Tree α}

/-- The backward link of a child, if there is one. -/
def setParentOf (tree : Tree α) (child : Option Slot) (parent : Slot) : Checked (Tree α) :=
  match child with
  | some child => tree.setParent child (some parent)
  | none => .ok tree

/-- Leads the link to `old` below `parent`, or the one to the root, to `new` instead. -/
def relink (tree : Tree α) (parent : Option Slot) (old new : Slot) : Checked (Tree α) :=
  match parent with
  | none => .ok { tree with root := some new }
  | some parent => do tree.setChild parent ((← tree.node parent).sideOf old) (some new)

theorem rotate_eq (tree : Tree α) (pivot : Slot) (side : Side) :
    tree.rotate pivot side = do
      match (← tree.node pivot).child side.opposite with
      | none => return (.idle, tree)
      | some lifted =>
        let inner := (← tree.node lifted).child side
        let tree ← (← tree.setChild pivot side.opposite inner).setParentOf inner pivot
        let parent := (← tree.node pivot).parent
        let tree ← (← tree.setParent lifted parent).relink parent pivot lifted
        let tree ← tree.setChild lifted side (some pivot)
        return (.turned, ← tree.setParent pivot (some lifted)) := by
  unfold rotate setParentOf relink
  apply bind_congr
  intro node
  cases node.child side.opposite with
  | none => rfl
  | some lifted =>
    apply bind_congr
    intro liftedNode
    cases liftedNode.child side
    all_goals
      apply bind_congr
      intro tree
      apply bind_congr
      intro tree
      apply bind_congr
      intro pivotNode
      apply bind_congr
      intro tree
      cases pivotNode.parent <;> simp

theorem setParentOf_ok {shape : Shape α} {parent : Option Slot} (holds : tree.Holds parent shape)
    (slot : Slot) : ∃ after, tree.setParentOf shape.root? slot = .ok after ∧
      after.size = tree.size ∧ after.root = tree.root ∧
      (∀ child node, shape.root? = some child → tree.node child = .ok node →
        after.node child = .ok { node with parent := some slot }) ∧
      ∀ other, shape.root? ≠ some other → after.node other = tree.node other := by
  cases shape with
  | leaf => exact ⟨tree, rfl, rfl, rfl, nofun, fun _ _ => rfl⟩
  | node color left child value right =>
    obtain ⟨here, -, -⟩ := holds
    refine ⟨_, modify_eq_write here, size_write, root_write, ?_, ?_⟩
    · rintro _ node ⟨⟩ found
      rw [node_write_self here]
      cases here.symm.trans found
      rfl
    · intro other different
      exact node_write_other fun same => different (congrArg some same.symm)

theorem hang_ok {path : Path α} {hole : Option Slot} (around : tree.Surrounds hole path)
    (distinct : path.slots.Nodup) (slot : Slot) :
    ∃ after, tree.hang slot path.place? = .ok after ∧ after.size = tree.size ∧
      after.Surrounds (some slot) path ∧
      ∀ other, path.parent? ≠ some other → after.node other = tree.node other := by
  cases path with
  | root => exact ⟨_, rfl, rfl, rfl, fun _ _ => rfl⟩
  | under frame outer =>
    obtain ⟨here, beside, around⟩ := around
    obtain ⟨notBeside, notAbove, -⟩ := Path.nodup_slots_under.mp distinct
    have linked : tree.hang slot (some (frame.slot, frame.side)) =
        .ok (tree.write frame.slot (.branch frame.side frame.color frame.value outer.parent?
          (some slot) frame.sibling.root?)) := by
      simp only [hang, setChild, modify_eq_write here, TreeNode.setChild_branch]
    refine ⟨_, linked, size_write, ⟨node_write_self here, ?_, ?_⟩, ?_⟩
    · apply beside.frame
      intro slot member
      apply node_write_other
      exact fun same => notBeside (same ▸ member)
    · apply around.frame root_write
      intro slot member
      apply node_write_other
      exact fun same => notAbove (same ▸ member)
    · intro other different
      exact node_write_other fun same => different (congrArg some same.symm)

theorem relink_eq_hang {path : Path α} {old : Slot} (around : tree.Surrounds (some old) path)
    (absent : old ∉ path.slots) (new : Slot) :
    tree.relink path.parent? old new = tree.hang new path.place? := by
  cases path with
  | root => rfl
  | under frame outer =>
    obtain ⟨here, -, -⟩ := around
    have different : frame.sibling.root? ≠ some old := fun root =>
      absent (Path.mem_slots_under.mpr (.inr (.inl (Shape.root?_mem root))))
    simp only [Path.parent?_under, relink, here, Checked.ok_bind,
      TreeNode.sideOf_branch _ _ _ _ _ different, Path.place?, hang]

theorem slots_turn_perm (path : Path α) (side : Side) (pivotColor liftedColor : Color)
    (near inner far : Shape α) (pivot lifted : Slot) (pivotValue liftedValue : α) :
    (path.fill (.branch side pivotColor near pivot pivotValue
      (.branch side liftedColor inner lifted liftedValue far))).slots.Perm
      (pivot :: lifted :: (near.slots ++ (inner.slots ++ (far.slots ++ path.slots)))) := by
  refine (path.slots_fill_perm _).trans ?_
  have outer := Shape.slots_branch_perm side pivotColor near pivot pivotValue
    (.branch side liftedColor inner lifted liftedValue far)
  have inner := Shape.slots_branch_perm side liftedColor inner lifted liftedValue far
  rw [List.perm_iff_count] at *
  intro slot
  have first := outer slot
  have second := inner slot
  simp only [List.count_append, List.count_cons] at *
  omega

/-- The slots that a rotation has to keep apart. -/
theorem slots_distinct {path : Path α} {side : Side} {pivotColor liftedColor : Color}
    {near inner far : Shape α} {pivot lifted : Slot} {pivotValue liftedValue : α}
    (focus : tree.Focus path (.branch side pivotColor near pivot pivotValue
      (.branch side liftedColor inner lifted liftedValue far))) :
    (pivot :: lifted :: (near.slots ++ (inner.slots ++ (far.slots ++ path.slots)))).Nodup :=
  (slots_turn_perm ..).nodup_iff.mp focus.distinct

/-- What a rotation writes. The pivot and the lifted node exchange their places, `inner`
passes from one to the other, and the link from above follows. -/
theorem rotate_writes {path : Path α} {side : Side} {pivotColor liftedColor : Color}
    {near inner far : Shape α} {pivot lifted : Slot} {pivotValue liftedValue : α}
    (focus : tree.Focus path (.branch side pivotColor near pivot pivotValue
      (.branch side liftedColor inner lifted liftedValue far))) :
    ∃ after, tree.rotate pivot side = .ok (.turned, after) ∧ after.size = tree.size ∧
      after.Surrounds (some lifted) path ∧
      after.node pivot =
        .ok (.branch side pivotColor pivotValue (some lifted) near.root? inner.root?) ∧
      after.node lifted =
        .ok (.branch side liftedColor liftedValue path.parent? (some pivot) far.root?) ∧
      (∀ slot node, inner.root? = some slot → tree.node slot = .ok node →
        after.node slot = .ok { node with parent := some pivot }) ∧
      ∀ slot, slot ≠ pivot → slot ≠ lifted → inner.root? ≠ some slot → path.parent? ≠ some slot →
        after.node slot = tree.node slot := by
  have distinct := slots_distinct focus
  simp only [List.nodup_cons, List.mem_append, List.mem_cons, not_or] at distinct
  obtain ⟨⟨pivotLifted, -, pivotInner, -, pivotPath⟩, ⟨-, liftedInner, -, liftedPath⟩, rest⟩ :=
    distinct
  have innerPath : ∀ slot ∈ path.slots, slot ∉ inner.slots := by grind
  obtain ⟨-, pathDistinct, -⟩ := focus.apart
  obtain ⟨around, inside, -⟩ := focus
  obtain ⟨atPivot, -, inside⟩ := holds_branch.mp inside
  obtain ⟨atLifted, onInner, -⟩ := holds_branch.mp inside
  rw [Shape.root?_branch] at around
  have pivotRoot : inner.root? ≠ some pivot := fun root => pivotInner (Shape.root?_mem root)
  have liftedRoot : inner.root? ≠ some lifted := fun root => liftedInner (Shape.root?_mem root)
  have liftedParent : path.parent? ≠ some lifted := fun parent => liftedPath (Path.parent?_mem parent)
  have pivotParent : path.parent? ≠ some pivot := fun parent => pivotPath (Path.parent?_mem parent)
  rw [Shape.root?_branch] at atPivot
  -- The pivot takes over the inner subtree.
  let first := tree.write pivot
    (.branch side pivotColor pivotValue path.parent? near.root? inner.root?)
  have setFirst : tree.setChild pivot side.opposite inner.root? = .ok first := by
    simp only [setChild, modify_eq_write atPivot, TreeNode.setChild_opposite_branch]
    rfl
  have firstOther (slot : Slot) (different : slot ≠ pivot) : first.node slot = tree.node slot :=
    node_write_other different
  have onInner : first.Holds (some lifted) inner :=
    onInner.frame fun slot member => firstOther slot fun same => pivotInner (same ▸ member)
  obtain ⟨second, setSecond, secondSize, secondRoot, secondInner, secondSame⟩ :=
    setParentOf_ok onInner pivot
  have secondPivot := (secondSame pivot pivotRoot).trans (node_write_self atPivot)
  have secondLifted := (secondSame lifted liftedRoot).trans
    ((firstOther lifted (Ne.symm pivotLifted)).trans atLifted)
  -- The lifted node takes the pivot's place.
  let third := second.write lifted
    (.branch side liftedColor liftedValue path.parent? inner.root? far.root?)
  have setThird : second.setParent lifted path.parent? = .ok third := by
    simp only [setParent, modify_eq_write secondLifted, TreeNode.setParent_branch]
    rfl
  have around : third.Surrounds (some pivot) path := by
    refine around.frame secondRoot fun slot member => ?_
    have unlifted : slot ≠ lifted := fun same => liftedPath (same ▸ member)
    have unpivoted : slot ≠ pivot := fun same => pivotPath (same ▸ member)
    have uninner : inner.root? ≠ some slot := fun root => innerPath slot member (Shape.root?_mem root)
    exact (node_write_other unlifted).trans ((secondSame slot uninner).trans (firstOther slot unpivoted))
  obtain ⟨fourth, setFourth, fourthSize, fourthAround, fourthSame⟩ :=
    hang_ok around pathDistinct lifted
  rw [← relink_eq_hang around pivotPath] at setFourth
  have fourthLifted := (fourthSame lifted liftedParent).trans (node_write_self secondLifted)
  have fourthPivot := (fourthSame pivot pivotParent).trans
    ((node_write_other pivotLifted).trans secondPivot)
  -- The pivot becomes the child of the lifted node.
  let fifth := fourth.write lifted
    (.branch side liftedColor liftedValue path.parent? (some pivot) far.root?)
  have setFifth : fourth.setChild lifted side (some pivot) = .ok fifth := by
    simp only [setChild, modify_eq_write fourthLifted, TreeNode.setChild_branch]
    rfl
  have fifthPivot : fifth.node pivot = _ := (node_write_other pivotLifted).trans fourthPivot
  let last := fifth.write pivot
    (.branch side pivotColor pivotValue (some lifted) near.root? inner.root?)
  have setLast : fifth.setParent pivot (some lifted) = .ok last := by
    simp only [setParent, modify_eq_write fifthPivot, TreeNode.setParent_branch]
    rfl
  have unwritten (slot : Slot) (unpivoted : slot ≠ pivot) (unlifted : slot ≠ lifted)
      (unlinked : path.parent? ≠ some slot) : last.node slot = second.node slot :=
    (node_write_other unpivoted).trans ((node_write_other unlifted).trans
      ((fourthSame slot unlinked).trans (node_write_other unlifted)))
  have turned : tree.rotate pivot side = .ok (.turned, last) := by
    simp only [rotate_eq, atPivot, TreeNode.child_opposite_branch, atLifted, TreeNode.child_branch,
      setFirst, setSecond, secondPivot, TreeNode.parent_branch, setThird, setFourth, setFifth,
      setLast, Checked.ok_bind, Checked.pure_eq_ok]
  refine ⟨last, turned, ?_, ?_, node_write_self fifthPivot, ?_, ?_, ?_⟩
  · rw [size_write, size_write, fourthSize, size_write, secondSize, size_write]
  · refine fourthAround.frame rfl fun slot member => ?_
    have unlifted : slot ≠ lifted := fun same => liftedPath (same ▸ member)
    have unpivoted : slot ≠ pivot := fun same => pivotPath (same ▸ member)
    exact (node_write_other unpivoted).trans (node_write_other unlifted)
  · exact (node_write_other (Ne.symm pivotLifted)).trans (node_write_self fourthLifted)
  · intro slot node root found
    have member : slot ∈ inner.slots := Shape.root?_mem root
    have unlifted : slot ≠ lifted := fun same => liftedInner (same ▸ member)
    have unpivoted : slot ≠ pivot := fun same => pivotInner (same ▸ member)
    have unlinked : path.parent? ≠ some slot := fun parent =>
      innerPath slot (Path.parent?_mem parent) member
    rw [unwritten slot unpivoted unlifted unlinked]
    exact secondInner slot node root ((firstOther slot unpivoted).trans found)
  · intro slot unpivoted unlifted uninner unlinked
    rw [unwritten slot unpivoted unlifted unlinked, secondSame slot uninner]
    exact firstOther slot unpivoted

/-- A rotation toward `side` turns the shape below the pivot and leaves the rest. -/
theorem rotate_focus {path : Path α} {side : Side} {pivotColor liftedColor : Color}
    {near inner far : Shape α} {pivot lifted : Slot} {pivotValue liftedValue : α}
    (focus : tree.Focus path (.branch side pivotColor near pivot pivotValue
      (.branch side liftedColor inner lifted liftedValue far))) :
    ∃ after, tree.rotate pivot side = .ok (.turned, after) ∧ after.size = tree.size ∧
      after.Focus path (.branch side liftedColor
        (.branch side pivotColor near pivot pivotValue inner) lifted liftedValue far) := by
  obtain ⟨after, turned, size, around, atPivot, atLifted, innerRoot, same⟩ := rotate_writes focus
  have distinct := slots_distinct focus
  simp only [List.nodup_cons, List.mem_append, List.mem_cons, not_or] at distinct
  obtain ⟨⟨-, pivotNear, pivotInner, pivotFar, -⟩, ⟨liftedNear, liftedInner, liftedFar, -⟩, rest⟩ :=
    distinct
  have innerDistinct : inner.slots.Nodup := by grind
  have nearApart : ∀ slot ∈ near.slots, slot ∉ inner.slots ∧ slot ∉ path.slots := by grind
  have farApart : ∀ slot ∈ far.slots, slot ∉ inner.slots ∧ slot ∉ path.slots := by grind
  have innerApart : ∀ slot ∈ inner.slots, slot ∉ path.slots := by grind
  obtain ⟨-, onNear, inside⟩ := holds_branch.mp focus.inside
  obtain ⟨-, onInner, onFar⟩ := holds_branch.mp inside
  have onNear : after.Holds (some pivot) near := by
    refine onNear.frame fun slot member => same slot ?_ ?_ ?_ ?_
    · exact fun equal => pivotNear (equal ▸ member)
    · exact fun equal => liftedNear (equal ▸ member)
    · exact fun root => (nearApart slot member).1 (Shape.root?_mem root)
    · exact fun parent => (nearApart slot member).2 (Path.parent?_mem parent)
  have onFar : after.Holds (some lifted) far := by
    refine onFar.frame fun slot member => same slot ?_ ?_ ?_ ?_
    · exact fun equal => pivotFar (equal ▸ member)
    · exact fun equal => liftedFar (equal ▸ member)
    · exact fun root => (farApart slot member).1 (Shape.root?_mem root)
    · exact fun parent => (farApart slot member).2 (Path.parent?_mem parent)
  have onInner : after.Holds (some pivot) inner := by
    apply onInner.reparent innerDistinct innerRoot
    intro slot member different
    refine same slot ?_ ?_ different ?_
    · exact fun equal => pivotInner (equal ▸ member)
    · exact fun equal => liftedInner (equal ▸ member)
    · exact fun parent => innerApart slot member (Path.parent?_mem parent)
  refine ⟨after, turned, size, by rwa [Shape.root?_branch], ?_, ?_⟩
  · refine holds_branch.mpr ⟨by rwa [Shape.root?_branch], ?_, onFar⟩
    exact holds_branch.mpr ⟨atPivot, onNear, onInner⟩
  · have order := focus.distinct
    simp only [Shape.slots, Path.entries_fill] at order ⊢
    rwa [Shape.entries_branch_rotate side _ _ pivotColor liftedColor]

theorem setColor_focus {path : Path α} {side : Side} {color : Color} {near far : Shape α}
    {slot : Slot} {value : α} (focus : tree.Focus path (.branch side color near slot value far))
    (other : Color) : ∃ after, tree.setColor slot other = .ok after ∧ after.size = tree.size ∧
      after.Focus path (.branch side other near slot value far) := by
  have distinct := (path.slots_fill_perm _).nodup_iff.mp focus.distinct
  have members := Shape.slots_branch_perm side color near slot value far
  rw [(members.append_right _).nodup_iff] at distinct
  simp only [List.cons_append, List.nodup_cons, List.mem_append, not_or] at distinct
  obtain ⟨here, onNear, onFar⟩ := holds_branch.mp focus.inside
  refine ⟨_, modify_eq_write here, size_write, ?_, ?_, ?_⟩
  · rw [Shape.root?_branch]
    have around := focus.around
    rw [Shape.root?_branch] at around
    apply around.frame root_write
    intro other member
    apply node_write_other
    exact fun same => distinct.1.2 (same ▸ member)
  · rw [TreeNode.setColor_branch]
    refine holds_branch.mpr ⟨node_write_self here, onNear.frame ?_, onFar.frame ?_⟩
    · exact fun child member => node_write_other fun same => distinct.1.1.1 (same ▸ member)
    · exact fun child member => node_write_other fun same => distinct.1.1.2 (same ▸ member)
  · have order := focus.distinct
    simp only [Shape.slots, Path.entries_fill] at order ⊢
    rwa [Shape.entries_branch_color side other color]

end CanonIR.Tree
