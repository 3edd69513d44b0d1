import CanonIR.Proofs.TreeRotation

/-! The repair after an insertion. Between two rounds the tree keeps every colour rule but
one: the node in focus is red where a black shape was expected. A round either finds
nothing to do, or moves this to a node two levels up, or ends it. -/

namespace CanonIR

variable {α : Type}

/-- A red node can hang in the hole. -/
def Path.IsSettled : Path α → Prop
  | .root => True
  | .under frame _ => frame.color = .black

namespace Tree

variable {tree : Tree α}

/-- The state between two rounds: the shape at `slot` is red and keeps the rules, and so
does `path` around a black shape. -/
def Unsettled (tree : Tree α) (path : Path α) (slot : Slot) (entries : List (Slot × α)) : Prop :=
  ∃ shape count, tree.Focus path shape ∧ shape.root? = some slot ∧ shape.Balanced .red count ∧
    path.Fits .black count ∧ (path.fill shape).entries = entries

theorem focus_beside {side : Side} {color : Color} {slot : Slot} {value : α} {outer : Path α}
    {near far : Shape α} : tree.Focus (.under ⟨side, color, slot, value, far⟩ outer) near ↔
      tree.Focus (.under ⟨side.opposite, color, slot, value, near⟩ outer) far := by
  rw [focus_under, focus_under]
  simp only [Frame.fill, Shape.branch_opposite]

/-- Raising a node into the place of its parent makes it black and the parent red. -/
theorem raise_focus {outer : Path α} {side : Side} {upper lower : Color} {near inner far : Shape α}
    {parent grand : Slot} {parentValue grandValue : α}
    (focus : tree.Focus outer (.branch side upper (.branch side lower near parent parentValue inner)
      grand grandValue far)) :
    ∃ after, tree.raise parent grand side = .ok (.turned, after) ∧ after.size = tree.size ∧
      after.Focus outer (.branch side .black near parent parentValue
        (.branch side .red inner grand grandValue far)) := by
  have below : tree.Focus (.under ⟨side, upper, grand, grandValue, far⟩ outer)
      (.branch side lower near parent parentValue inner) := focus_under.mpr focus
  obtain ⟨first, setFirst, firstSize, focus⟩ := setColor_focus below .black
  obtain ⟨second, setSecond, secondSize, focus⟩ := setColor_focus (focus_under.mp focus) .red
  simp only [← Shape.branch_opposite side] at focus
  obtain ⟨third, turned, thirdSize, focus⟩ := rotate_focus focus
  simp only [Shape.branch_opposite] at focus
  refine ⟨third, ?_, thirdSize.trans (secondSize.trans firstSize), focus⟩
  simp only [raise, setFirst, setSecond, turned, Checked.ok_bind]

theorem redSlot?_eq {parent : Option Slot} {shape : Shape α} (holds : tree.Holds parent shape) :
    tree.redSlot? shape.root? = .ok (if shape.color = .red then shape.root? else none) := by
  cases shape with
  | leaf => rfl
  | node color left slot value right =>
    obtain ⟨here, -, -⟩ := holds
    cases color <;> simp [redSlot?, Shape.root?, Shape.color, here]

theorem repairStep_settled {path : Path α} {slot : Slot} {shape : Shape α}
    (focus : tree.Focus path shape) (root : shape.root? = some slot) (settled : path.IsSettled) :
    tree.repairStep slot = .ok (.settled, tree) := by
  cases shape with
  | leaf => cases root
  | node color left slot value right =>
    cases root
    obtain ⟨around, ⟨here, -, -⟩, -⟩ := focus
    cases path with
    | root => simp [repairStep, here]
    | under frame outer =>
      obtain ⟨above, -, -⟩ := around
      have black : frame.color = .black := settled
      simp [repairStep, here, above, black]

/-- Below a red node, a round goes by the colour of the uncle and by the side that the
node hangs on. -/
theorem repairStep_eq {outer : Path α} {parentSide side : Side} {upper : Color}
    {parent grand slot : Slot} {parentValue grandValue : α} {shape sibling uncle : Shape α}
    (focus : tree.Focus (.under ⟨parentSide, .red, parent, parentValue, sibling⟩
      (.under ⟨side, upper, grand, grandValue, uncle⟩ outer)) shape)
    (root : shape.root? = some slot) :
    tree.repairStep slot =
      match (if uncle.color = .red then uncle.root? else none) with
      | some uncle => do
        let tree ← tree.setColor parent .black
        let tree ← tree.setColor uncle .black
        return (.recolored grand, ← tree.setColor grand .red)
      | none =>
        if parentSide = side then do
          let (outer, tree) ← tree.raise parent grand side
          return (.rotated none outer slot, tree)
        else do
          let (inner, tree) ← tree.rotate parent side
          match (← tree.node parent).parent with
          | none => return (.detached, tree)
          | some top =>
            let (outer, tree) ← tree.raise top grand side
            return (.rotated (some inner) outer parent, tree) := by
  cases shape with
  | leaf => cases root
  | node color left slot value right =>
    cases root
    have apart := focus.apart.2.2
    have pathDistinct := focus.apart.2.1
    obtain ⟨⟨above, -, top, beside, -⟩, ⟨here, -, -⟩, -⟩ := focus
    have parentUncle : uncle.root? ≠ some parent := by
      intro root
      refine (Path.nodup_slots_under.mp pathDistinct).2.1 (Path.mem_slots_under.mpr ?_)
      exact .inr (.inl (Shape.root?_mem root))
    have slotSibling : sibling.root? ≠ some slot := by
      intro root
      exact apart slot (by simp) (Path.mem_slots_under.mpr (.inr (.inl (Shape.root?_mem root))))
    have isInner : (TreeNode.branch parentSide .red parentValue (some grand) (some slot)
        sibling.root?).child side.opposite = some slot ↔ parentSide ≠ side := by
      cases parentSide <;> cases side <;>
        simp [TreeNode.branch, TreeNode.child, Side.opposite, slotSibling]
    simp only [Path.parent?_under, Shape.root?_node] at here above top
    simp only [repairStep, here, above, top, TreeNode.color_branch, TreeNode.parent_branch,
      TreeNode.sideOf_branch _ _ _ _ _ parentUncle, TreeNode.child_opposite_branch,
      redSlot?_eq beside, isInner, Checked.ok_bind, reduceCtorEq, if_false]
    cases (if uncle.color = .red then uncle.root? else none) with
    | some uncle => rfl
    | none =>
      by_cases same : parentSide = side
      · simp [same]
      · exact (if_pos same).trans (if_neg same).symm

theorem repairStep_recolored {outer : Path α} {parentSide side : Side} {parent grand slot : Slot}
    {parentValue grandValue : α} {shape sibling uncle : Shape α} {count : Nat}
    (focus : tree.Focus (.under ⟨parentSide, .red, parent, parentValue, sibling⟩
      (.under ⟨side, .black, grand, grandValue, uncle⟩ outer)) shape)
    (root : shape.root? = some slot) (fits : outer.Fits .black (count + 1))
    (here : shape.Balanced .red count) (beside : sibling.Balanced .black count)
    (red : uncle.Balanced .red count) :
    ∃ after, tree.repairStep slot = .ok (.recolored grand, after) ∧ after.size = tree.size ∧
      after.Unsettled outer grand (outer.fill (.branch side .black
        (.branch parentSide .red shape parent parentValue sibling) grand grandValue uncle)).entries := by
  have step := repairStep_eq focus root
  obtain ⟨near, uncleSlot, uncleValue, far, rfl, first, second⟩ := red.exists_branch .left
  simp only [red.color_eq, Shape.root?_branch, if_true] at step
  obtain ⟨one, setOne, oneSize, focus⟩ := setColor_focus (focus_under.mp focus) .black
  obtain ⟨two, setTwo, twoSize, focus⟩ := setColor_focus (focus_beside.mp focus) .black
  obtain ⟨three, setThree, threeSize, focus⟩ := setColor_focus (focus_under.mp focus) .red
  refine ⟨three, ?_, threeSize.trans (twoSize.trans oneSize), ?_⟩
  · simp only [step, setOne, setTwo, setThree, Checked.ok_bind, Checked.pure_eq_ok]
  · rw [Shape.branch_opposite] at focus
    refine ⟨_, count + 1, focus, Shape.root?_branch .., ?_, fits, ?_⟩
    · exact .branch_red _ (.branch_black _ here beside) (.branch_black _ first second)
    · simp only [Path.entries_fill]
      cases side <;> cases parentSide <;> rfl

theorem raise_unsettled {outer : Path α} {side : Side} {upper lower : Color}
    {near inner far : Shape α} {parent grand low : Slot} {parentValue grandValue : α} {count : Nat}
    (focus : tree.Focus outer (.branch side upper (.branch side lower near parent parentValue inner)
      grand grandValue far))
    (root : near.root? = some low) (fits : outer.Fits .black (count + 1))
    (first : near.Balanced .red count) (second : inner.Balanced .black count)
    (third : far.Balanced .black count) :
    ∃ frame after, tree.raise parent grand side = .ok (.turned, after) ∧ after.size = tree.size ∧
      frame.color = .black ∧ after.Unsettled (.under frame outer) low
        (outer.fill (.branch side upper (.branch side lower near parent parentValue inner)
          grand grandValue far)).entries := by
  obtain ⟨after, raised, size, focus⟩ := raise_focus focus
  refine ⟨⟨side, .black, parent, parentValue, .branch side .red inner grand grandValue far⟩, after,
    raised, size, rfl, near, count, focus_under.mpr focus, root, first, ?_, ?_⟩
  · exact .black fits (.branch_red side second third)
  · simp only [Path.fill, Frame.fill, Path.entries_fill]
    rw [Shape.entries_branch_rotate side _ _ .black .red]

/-- Under a black uncle, at most two rotations settle the node. -/
theorem repairStep_rotated {outer : Path α} {parentSide side : Side} {parent grand slot : Slot}
    {parentValue grandValue : α} {shape sibling uncle : Shape α} {count : Nat}
    (focus : tree.Focus (.under ⟨parentSide, .red, parent, parentValue, sibling⟩
      (.under ⟨side, .black, grand, grandValue, uncle⟩ outer)) shape)
    (root : shape.root? = some slot) (fits : outer.Fits .black (count + 1))
    (here : shape.Balanced .red count) (beside : sibling.Balanced .black count)
    (black : uncle.Balanced .black count) :
    ∃ inner low frame after, tree.repairStep slot = .ok (.rotated inner .turned low, after) ∧
      inner ≠ some .idle ∧ after.size = tree.size ∧ frame.color = .black ∧
      after.Unsettled (.under frame outer) low (outer.fill (.branch side .black
        (.branch parentSide .red shape parent parentValue sibling) grand grandValue uncle)).entries := by
  have step := repairStep_eq focus root
  simp only [black.color_eq, reduceCtorEq, if_false] at step
  by_cases same : parentSide = side
  · subst same
    have focus : tree.Focus outer (.branch parentSide .black
        (.branch parentSide .red shape parent parentValue sibling) grand grandValue uncle) :=
      focus_under.mp (focus_under.mp focus)
    obtain ⟨frame, after, raised, size, settled, unsettled⟩ :=
      raise_unsettled focus root fits here beside black
    refine ⟨none, slot, frame, after, ?_, by simp, size, settled, unsettled⟩
    simp only [step, if_true, raised, Checked.ok_bind, Checked.pure_eq_ok]
  · -- The node hangs on the inner side: it changes places with its parent first.
    have opposite : parentSide = side.opposite := by
      cases parentSide <;> cases side <;> simp_all [Side.opposite]
    subst opposite
    obtain ⟨near, slot, value, far, rfl, first, second⟩ := here.exists_branch side
    cases (Shape.root?_branch ..).symm.trans root
    have focus := focus_under.mp focus
    simp only [Frame.fill, Shape.branch_opposite] at focus
    obtain ⟨turned, rotated, turnedSize, focus⟩ := rotate_focus focus
    have lowered : turned.node parent = .ok (.branch side .red parentValue (some slot)
        sibling.root? near.root?) :=
      (holds_branch.mp (holds_branch.mp focus.inside).2.1).1
    have focus : turned.Focus outer (.branch side .black (.branch side .red
        (.branch side .red sibling parent parentValue near) slot value far) grand grandValue uncle) :=
      focus_under.mp focus
    obtain ⟨frame, after, raised, size, settled, unsettled⟩ :=
      raise_unsettled focus (Shape.root?_branch ..) fits (.branch_red side beside first) second black
    refine ⟨some .turned, parent, frame, after, ?_, by simp, size.trans turnedSize, settled, ?_⟩
    · simp only [step, same, if_false, rotated, lowered, TreeNode.parent_branch, raised,
        Checked.ok_bind, Checked.pure_eq_ok]
    · have turn : (Shape.branch side .red (.branch side .red sibling parent parentValue near)
          slot value far).entries = (Shape.branch side .red sibling parent parentValue
          (.branch side .red near slot value far)).entries :=
        Shape.entries_branch_rotate side ..
      have order := Path.entries_fill_congr
        (.under ⟨side, .black, grand, grandValue, uncle⟩ outer) turn
      simp only [Path.fill, Frame.fill] at order
      rw [Shape.branch_opposite]
      exact order ▸ unsettled

/-- One round. The exits for a red root and for a rotation without a child to lift are
not among the outcomes. -/
theorem repairStep_ok {path : Path α} {slot : Slot} {entries : List (Slot × α)}
    (unsettled : tree.Unsettled path slot entries) :
    (path.IsSettled ∧ tree.repairStep slot = .ok (.settled, tree)) ∨
    ∃ parent grand outer, path = .under parent (.under grand outer) ∧
      ((∃ after, tree.repairStep slot = .ok (.recolored grand.slot, after) ∧
        after.size = tree.size ∧ after.Unsettled outer grand.slot entries) ∨
      ∃ inner low frame after, tree.repairStep slot = .ok (.rotated inner .turned low, after) ∧
        inner ≠ some .idle ∧ after.size = tree.size ∧ frame.color = .black ∧
        after.Unsettled (.under frame outer) low entries) := by
  obtain ⟨shape, count, focus, root, here, fits, rfl⟩ := unsettled
  cases fits with
  | root => exact .inl ⟨trivial, repairStep_settled focus root trivial⟩
  | black rest beside => exact .inl ⟨rfl, repairStep_settled focus root rfl⟩
  | @red parentSide parent parentValue sibling outer _ rest beside =>
    -- Only a black node has a red one below it, so there is a grandparent.
    cases rest with
    | @black side grand grandValue uncle outer _ uncleColor _ rest above =>
      refine .inr ⟨_, _, outer, rfl, ?_⟩
      cases uncleColor with
      | red => exact .inl (repairStep_recolored focus root rest here beside above)
      | black => exact .inr (repairStep_rotated focus root rest here beside above)

/-- A whole repair. A round that recolours shortens the path by two, and one that rotates
is followed by the last. -/
theorem repairFrom_ok {path : Path α} {slot : Slot} {entries : List (Slot × α)} {fuel : Nat}
    (unsettled : tree.Unsettled path slot entries) (enough : path.length < fuel) :
    ∃ after shape color count, tree.repairFrom fuel slot = .ok after ∧ after.size = tree.size ∧
      after.Reads shape ∧ shape.entries = entries ∧ shape.Balanced color count := by
  induction fuel generalizing tree path slot with
  | zero => omega
  | succ fuel ih =>
    rcases repairStep_ok unsettled with ⟨settled, step⟩ | ⟨parent, grand, outer, rfl, outcome⟩
    · obtain ⟨shape, count, focus, root, here, fits, same⟩ := unsettled
      have balanced : ∃ color count, (path.fill shape).Balanced color count := by
        cases fits with
        | root => exact ⟨.red, count, here⟩
        | red rest beside => cases settled
        | black rest beside =>
          obtain ⟨total, balanced⟩ := rest.fill (.branch_black _ here beside)
          exact ⟨.black, total, balanced⟩
      obtain ⟨color, count, balanced⟩ := balanced
      refine ⟨tree, path.fill shape, color, count, ?_, rfl, focus_iff_reads.mp focus, same, balanced⟩
      simp [repairFrom, step]
    · simp only [Path.length] at enough
      rcases outcome with ⟨next, step, size, unsettled⟩ |
        ⟨inner, low, frame, next, step, -, size, black, unsettled⟩
      · obtain ⟨after, shape, color, count, repaired, sameSize, rest⟩ := ih unsettled (by omega)
        refine ⟨after, shape, color, count, ?_, sameSize.trans size, rest⟩
        simp [repairFrom, step, repaired]
      · obtain ⟨after, shape, color, count, repaired, sameSize, rest⟩ :=
          ih unsettled (by simp only [Path.length]; omega)
        refine ⟨after, shape, color, count, ?_, sameSize.trans size, rest⟩
        simp [repairFrom, step, repaired]

theorem blackenRoot_ok {shape : Shape α} (reads : tree.Reads shape) :
    ∃ after, tree.blackenRoot = .ok after ∧ after.size = tree.size ∧ after.Reads shape.blacken := by
  have root : tree.root = shape.root? := reads.around
  cases shape with
  | leaf => exact ⟨tree, by simp [blackenRoot, root], rfl, reads⟩
  | node color left slot value right =>
    have focus : tree.Focus .root (.branch .left color left slot value right) := reads
    obtain ⟨after, colored, size, focus⟩ := setColor_focus focus .black
    exact ⟨after, by simpa [blackenRoot, root] using colored, size, focus⟩

/-- After a red leaf was hung into a tree with all rules kept, the repair keeps them
again and leaves the order as it was. -/
theorem rebalance_ok {path : Path α} {slot : Slot} {entries : List (Slot × α)}
    (unsettled : tree.Unsettled path slot entries) (short : path.length ≤ tree.size) :
    ∃ after shape count, tree.rebalance slot = .ok after ∧ after.size = tree.size ∧
      after.Reads shape ∧ shape.entries = entries ∧ shape.Balanced .black count := by
  obtain ⟨middle, shape, color, count, repaired, sameSize, reads, same, balanced⟩ :=
    repairFrom_ok unsettled (Nat.lt_succ_of_le short)
  obtain ⟨after, blackened, size, reads⟩ := blackenRoot_ok reads
  obtain ⟨total, balanced⟩ := balanced.blacken
  refine ⟨after, shape.blacken, total, ?_, size.trans sameSize, reads, ?_, balanced⟩
  · simp [rebalance, repaired, blackened]
  · rw [Shape.entries_blacken, same]

end Tree

end CanonIR
