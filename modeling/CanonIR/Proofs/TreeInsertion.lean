import CanonIR.Proofs.TreeRepair

/-! Search and insertion on a tree that keeps the rules. Nothing is asked of the answers
that lead a search: whatever they are, it ends at an entry or in a gap, and hanging a new
entry there and repairing gives a tree that keeps the rules. -/

namespace CanonIR

variable {α σ : Type}

/-- The answer that leads to a side. -/
def Side.answer : Side → Ordering
  | .left => .lt
  | .right => .gt

/-- The turns of a path are answers that may have been given. -/
def Path.Follows (answers : α → Ordering → Prop) : Path α → Prop
  | .root => True
  | .under frame outer => answers frame.value frame.side.answer ∧ outer.Follows answers

namespace Tree

variable {tree : Tree α} {shape : Shape α} {ask : α → σ → Ordering × σ}
  {answers : α → Ordering → Prop}

/-- A tree that spells out `shape`, uses every slot of its slab, and keeps all colour
rules. -/
structure Sound (tree : Tree α) (shape : Shape α) : Prop where
  reads : tree.Reads shape
  complete : shape.slots.length = tree.size
  balanced : ∃ count, shape.Balanced .black count

theorem sound_empty : ({} : Tree α).Sound .leaf :=
  ⟨⟨rfl, trivial, List.nodup_nil⟩, rfl, 0, .leaf⟩

/-- Where a search of `shape` may end, given the answers it may get. -/
inductive Lands (answers : α → Ordering → Prop) (shape : Shape α) : Landing → Prop where
  | hit {slot value} (member : (slot, value) ∈ shape.entries) (equal : answers value .eq) :
      Lands answers shape (.hit slot)
  | gap {path : Path α} (filled : path.fill .leaf = shape) (follows : path.Follows answers) :
      Lands answers shape (.gap path.place?)

theorem descend_ok (lawful : ∀ value state, answers value (ask value state).1) {path : Path α}
    {fuel : Nat} (focus : tree.Focus path shape) (follows : path.Follows answers)
    (enough : shape.height ≤ fuel) (state : σ) :
    ∃ landing after, tree.descend ask fuel path.place? shape.root? state = .ok (landing, after) ∧
      Lands answers (path.fill shape) landing := by
  induction shape generalizing path fuel state with
  | leaf =>
    refine ⟨_, state, ?_, .gap rfl follows⟩
    cases fuel <;> rfl
  | node color left slot value right first second =>
    cases fuel with
    | zero => simp [Shape.height] at enough
    | succ fuel =>
      simp only [Shape.height] at enough
      have here := focus.inside.1
      have given := lawful value state
      simp only [Shape.root?_node, descend, here, Checked.ok_bind]
      generalize ask value state = answer at given
      obtain ⟨order, state⟩ := answer
      cases order with
      | lt =>
        have lower : tree.Focus (.under ⟨.left, color, slot, value, right⟩ path) left :=
          focus_under.mpr focus
        exact first lower ⟨given, follows⟩ (by omega) state
      | gt =>
        have lower : tree.Focus (.under ⟨.right, color, slot, value, left⟩ path) right :=
          focus_under.mpr focus
        exact second lower ⟨given, follows⟩ (by omega) state
      | eq =>
        refine ⟨.hit slot, state, rfl, .hit ?_ given⟩
        simp [Path.entries_fill, Shape.entries]

theorem locate_ok (sound : tree.Sound shape) (lawful : ∀ value state, answers value (ask value state).1)
    (state : σ) : ∃ landing after, tree.locate ask state = .ok (landing, after) ∧
      Lands answers shape landing := by
  have enough : shape.height ≤ tree.size := sound.complete ▸ shape.height_le_length
  obtain ⟨landing, after, found, lands⟩ := descend_ok lawful sound.reads trivial enough state
  refine ⟨landing, after, ?_, lands⟩
  have root : tree.root = shape.root? := sound.reads.around
  rwa [locate, root]

theorem locate_any (sound : tree.Sound shape) (ask : α → σ → Ordering × σ) (state : σ) :
    ∃ landing after, tree.locate ask state = .ok (landing, after) ∧
      Lands (fun _ _ => True) shape landing :=
  locate_ok sound (fun _ _ => trivial) state

theorem find?_hit {state after : σ} {slot : Slot}
    (found : tree.locate ask state = .ok (.hit slot, after)) :
    tree.find? ask state = .ok (some slot, after) := by
  simp [find?, found]

theorem find?_gap {state after : σ} {place : Option (Slot × Side)}
    (missing : tree.locate ask state = .ok (.gap place, after)) :
    tree.find? ask state = .ok (none, after) := by
  simp [find?, missing]

theorem insert_hit {state after : σ} {slot : Slot} {build : σ → Checked (α × σ)}
    (found : tree.locate ask state = .ok (.hit slot, after)) :
    tree.insert ask build state = .ok ((slot, false), tree, after) := by
  simp [insert, found]

theorem node_push {nodes : Slab .slot (TreeNode α)} {root : Option Slot} {leaf : TreeNode α}
    {slot : Slot} : ({ nodes := ⟨nodes.items.push leaf⟩, root } : Tree α).node slot =
      if slot = ⟨nodes.size⟩ then .ok leaf else ({ nodes, root } : Tree α).node slot := by
  have view : (⟨nodes.items.push leaf⟩ : Slab .slot (TreeNode α)).get? slot = _ := Slab.get?_push
  simp only [Table.firstFree, Nat.zero_add] at view
  simp only [node, Slab.get, view]
  by_cases last : slot = ⟨nodes.size⟩ <;> simp [last]

/-- What an insertion does before it repairs: the search, and a new red leaf in the gap it
ends in. -/
def attach (tree : Tree α) (ask : α → σ → Ordering × σ) (build : σ → Checked (α × σ)) (state : σ) :
    Checked ((Slot × Bool) × Tree α × σ) := do
  match ← tree.locate ask state with
  | (.hit slot, state) => return ((slot, false), tree, state)
  | (.gap place, state) =>
    let slot ← tree.nodes.next
    let (value, state) ← build state
    let leaf : TreeNode α :=
      { value, color := .red, parent := place.map Prod.fst, left := none, right := none }
    let tree ← ({ tree with nodes := ⟨tree.nodes.items.push leaf⟩ } : Tree α).hang slot place
    return ((slot, true), tree, state)

theorem insert_eq_attach (tree : Tree α) (ask : α → σ → Ordering × σ)
    (build : σ → Checked (α × σ)) (state : σ) :
    tree.insert ask build state = do
      let ((slot, fresh), tree, state) ← tree.attach ask build state
      return ((slot, fresh), ← if fresh then tree.rebalance slot else pure tree, state) := by
  simp only [insert, attach, bind_assoc]
  apply bind_congr
  intro landed
  obtain ⟨landing, state⟩ := landed
  cases landing with
  | hit slot => rfl
  | gap place => simp only [bind_assoc, pure_bind, if_true]

/-- A search that ends in a gap hangs a red leaf there. Until the repair it may have a red
parent, and no other rule is broken. -/
theorem attach_gap (sound : tree.Sound shape) {path : Path α} (filled : path.fill .leaf = shape)
    {state middle after : σ} {build : σ → Checked (α × σ)} {value : α}
    (missing : tree.locate ask state = .ok (.gap path.place?, middle))
    (room : tree.size < positionLimit) (built : build middle = .ok (value, after)) :
    ∃ hung, tree.attach ask build state = .ok ((⟨tree.size⟩, true), hung, after) ∧
      hung.size = tree.size + 1 ∧ path.length ≤ hung.size ∧
      hung.Unsettled path ⟨tree.size⟩ (path.before ++ (⟨tree.size⟩, value) :: path.after) := by
  subst filled
  obtain ⟨reads, complete, total, balanced⟩ := sound
  have members := path.slots_fill_perm .leaf
  simp only [Shape.slots_leaf, List.nil_append] at members
  have pathLength : path.slots.length = tree.size := members.length_eq.symm.trans complete
  have old : ∀ slot ∈ path.slots, slot ≠ ⟨tree.size⟩ := by
    intro slot member same
    subst same
    exact Nat.lt_irrefl _ (reads.inside.in_range _ (members.mem_iff.mpr member))
  have focus : tree.Focus path .leaf := focus_iff_reads.mpr reads
  obtain ⟨-, pathDistinct, -⟩ := focus.apart
  -- The new node is put at the end of the slab and hung into the gap.
  let leaf : TreeNode α := ⟨value, .red, path.place?.map Prod.fst, none, none⟩
  let pushed : Tree α := { tree with nodes := ⟨tree.nodes.items.push leaf⟩ }
  have around : pushed.Surrounds none path :=
    focus.around.frame rfl fun slot member => node_push.trans (if_neg (old slot member))
  obtain ⟨hung, linked, hungSize, around, same⟩ := hang_ok around pathDistinct ⟨tree.size⟩
  have here : hung.node ⟨tree.size⟩ = .ok ⟨value, .red, path.parent?, none, none⟩ := by
    rw [same _ fun parent => old _ (Path.parent?_mem parent) rfl, ← path.map_fst_place?]
    exact node_push.trans (if_pos rfl)
  have distinct : (path.fill (.node .red .leaf ⟨tree.size⟩ value .leaf)).slots.Nodup := by
    rw [(path.slots_fill_perm _).nodup_iff]
    simp only [Shape.slots_node, Shape.slots_leaf, List.nil_append, List.singleton_append,
      List.nodup_cons]
    exact ⟨fun member => old _ member rfl, pathDistinct⟩
  have order : (path.fill (.node .red .leaf ⟨tree.size⟩ value .leaf)).entries =
      path.before ++ (⟨tree.size⟩, value) :: path.after := by
    rw [Path.entries_fill]
    simp only [Shape.entries, List.nil_append, List.append_assoc, List.singleton_append]
  obtain ⟨color, count, leafBalanced, fits⟩ := Path.Fits.of_fill balanced
  cases leafBalanced
  have pushedSize : hung.size = tree.size + 1 := by
    rw [hungSize]
    simp [pushed, size, Slab.size]
  have short : path.length ≤ hung.size := by
    have bound := path.length_le_slots
    omega
  refine ⟨hung, ?_, pushedSize, short, .node .red .leaf ⟨tree.size⟩ value .leaf, 0,
    ⟨around, ⟨here, trivial, trivial⟩, distinct⟩, rfl, .red .leaf .leaf, fits, order⟩
  have slot : tree.nodes.next = .ok ⟨tree.size⟩ :=
    Slab.next_eq_ok.mpr
      ⟨by simp [Table.firstFree, size], by simpa [Table.firstFree, size] using room⟩
  have linked : ({ tree with nodes := ⟨tree.nodes.items.push leaf⟩ } : Tree α).hang ⟨tree.size⟩
      path.place? = .ok hung := linked
  simp only [attach, missing, slot, built, linked, Checked.ok_bind, Checked.pure_eq_ok, leaf]

/-- A search that ends in a gap makes a new entry there. -/
theorem insert_gap (sound : tree.Sound shape) {path : Path α} (filled : path.fill .leaf = shape)
    {state middle after : σ} {build : σ → Checked (α × σ)} {value : α}
    (missing : tree.locate ask state = .ok (.gap path.place?, middle))
    (room : tree.size < positionLimit) (built : build middle = .ok (value, after)) :
    ∃ larger grown, tree.insert ask build state = .ok ((⟨tree.size⟩, true), larger, after) ∧
      larger.Sound grown ∧ larger.size = tree.size + 1 ∧
      grown.entries = path.before ++ (⟨tree.size⟩, value) :: path.after := by
  obtain ⟨hung, attached, hungSize, short, unsettled⟩ := attach_gap sound filled missing room built
  obtain ⟨larger, grown, count, rebalanced, largerSize, reads, order, balanced⟩ :=
    rebalance_ok unsettled short
  refine ⟨larger, grown, ?_, ⟨reads, ?_, count, balanced⟩, largerSize.trans hungSize, order⟩
  · simp only [insert_eq_attach, attached, rebalanced, if_true, Checked.ok_bind, Checked.pure_eq_ok]
  · have complete := sound.complete
    simp only [← filled, Shape.slots, Path.entries_fill_leaf, List.length_map,
      List.length_append] at complete
    simp only [Shape.slots, order, List.length_map, List.length_append, List.length_cons]
    omega

theorem insert_full {path : Path α} {state middle : σ} {build : σ → Checked (α × σ)}
    (missing : tree.locate ask state = .ok (.gap path.place?, middle))
    (full : positionLimit ≤ tree.size) :
    tree.insert ask build state = .error (.capacity "Slot" tree.size) := by
  have refused : tree.nodes.next = .error (.capacity "Slot" tree.size) := by
    simp only [Slab.next, Handle.ofIndex, position, Table.firstFree, Nat.zero_add, Table.label]
    rw [if_neg (by simpa [size, Slab.size] using full)]
    rfl
  simp only [insert, missing, refused, Checked.ok_bind, Checked.error_bind]

end Tree

end CanonIR
