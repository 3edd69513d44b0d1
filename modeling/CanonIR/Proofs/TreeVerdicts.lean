import CanonIR.Proofs.TreeCheck
import Mathlib.Data.List.Perm.Subperm
import Mathlib.Logic.Relation

/-! The check of a tree whose slab holds anything at all: any colours, any parents, any values,
links that share nodes. So long as the links below the root end somewhere, it comes to a verdict,
and the verdict is true. -/

namespace CanonIR

namespace Tree

variable {α : Type} {tree : Tree α} {slot child top : Slot} {node below : TreeNode α} {count : Nat}

/-! ### Links -/

/-- A link of the node at `slot` leads to `child`. -/
def Child (tree : Tree α) (slot child : Slot) : Prop :=
  ∃ node side, tree.node slot = .ok node ∧ node.child side = some child

/-- Links lead from the root to the slot. -/
def Reachable (tree : Tree α) (slot : Slot) : Prop :=
  ∃ root, tree.root = some root ∧ Relation.ReflTransGen tree.Child root slot

/-- All links lead to nodes, and none of those below the root leads back to where it came from. -/
structure Navigable (tree : Tree α) : Prop where
  root : ∀ root, tree.root = some root → root.raw < tree.size
  inRange : ∀ slot child, tree.Child slot child → child.raw < tree.size
  acyclic : ∀ slot, tree.Reachable slot → ¬ Relation.TransGen tree.Child slot slot

theorem exists_node (inside : slot.raw < tree.size) : ∃ node, tree.node slot = .ok node :=
  ⟨_, node_eq_ok.mpr (Array.getElem?_eq_getElem inside)⟩

theorem Reachable.step (reachable : tree.Reachable slot) (link : tree.Child slot child) :
    tree.Reachable child := by
  obtain ⟨root, top, path⟩ := reachable
  exact ⟨root, top, path.tail link⟩

theorem Navigable.exists_node (navigable : tree.Navigable) (reachable : tree.Reachable slot) :
    ∃ node, tree.node slot = .ok node := by
  obtain ⟨root, top, path⟩ := reachable
  rcases path.cases_tail with rfl | ⟨_, -, link⟩
  · exact Tree.exists_node (navigable.root _ top)
  · exact Tree.exists_node (navigable.inRange _ _ link)

/-- Links that all lead to later slots lead nowhere twice. -/
theorem navigable_of_rising (root : ∀ root, tree.root = some root → root.raw < tree.size)
    (rises : ∀ slot child, tree.Child slot child → slot.raw < child.raw ∧ child.raw < tree.size) :
    tree.Navigable where
  root := root
  inRange slot child link := (rises slot child link).2
  acyclic slot _ cycle := by
    have climbs : ∀ {lower upper}, Relation.TransGen tree.Child lower upper → lower.raw < upper.raw := by
      intro lower upper path
      induction path with
      | single link => exact (rises _ _ link).1
      | tail _ link ih => exact Nat.lt_trans ih (rises _ _ link).1
    exact Nat.lt_irrefl _ (climbs cycle)

/-- The slots above `slot` on a way down from the root, nearest first. -/
inductive Trail (tree : Tree α) : List Slot → Slot → Prop where
  | start {root : Slot} (top : tree.root = some root) : Trail tree [] root
  | down {above : List Slot} {slot child : Slot} (trail : Trail tree above slot)
      (link : tree.Child slot child) : Trail tree (slot :: above) child

theorem Trail.reachable {above : List Slot} (trail : tree.Trail above slot) : tree.Reachable slot := by
  induction trail with
  | start top => exact ⟨_, top, .refl⟩
  | down _ link ih => exact ih.step link

theorem Trail.leads {above : List Slot} (trail : tree.Trail above slot) :
    ∀ upper ∈ above, Relation.TransGen tree.Child upper slot := by
  induction trail with
  | start => simp
  | down _ link ih =>
    intro upper member
    rcases List.mem_cons.mp member with rfl | higher
    · exact .single link
    · exact (ih upper higher).tail link

theorem Trail.distinct {above : List Slot} (navigable : tree.Navigable) (trail : tree.Trail above slot) :
    (slot :: above).Nodup := by
  induction trail with
  | start => simp
  | down trail link ih =>
    have lower := trail.down link
    refine List.nodup_cons.mpr ⟨fun member => ?_, ih⟩
    exact navigable.acyclic _ lower.reachable (lower.leads _ member)

theorem Trail.inside {above : List Slot} (navigable : tree.Navigable) (trail : tree.Trail above slot) :
    ∀ other ∈ slot :: above, other.raw < tree.size := by
  induction trail with
  | start top => simpa using navigable.root _ top
  | down _ link ih => exact List.forall_mem_cons.mpr ⟨navigable.inRange _ _ link, ih⟩

/-- A way down meets no node twice, so it is no longer than the tree has nodes. -/
theorem Trail.length_lt {above : List Slot} (navigable : tree.Navigable) (trail : tree.Trail above slot) :
    above.length < tree.size := by
  have listed : slot :: above ⊆ (List.range tree.size).map Handle.mk := by
    intro other member
    exact List.mem_map.mpr ⟨other.raw, List.mem_range.mpr (trail.inside navigable other member), rfl⟩
  have bound := ((trail.distinct navigable).subperm listed).length_le
  rw [List.length_map, List.length_range] at bound
  exact bound

/-! ### The rules -/

/-- A way down from a link to a missing child, and the number of black nodes on it. -/
inductive WayDown (tree : Tree α) : Option Slot → Nat → Prop where
  | missing : WayDown tree none 0
  | through {slot : Slot} {node : TreeNode α} {count : Nat} (found : tree.node slot = .ok node) (side : Side)
      (rest : WayDown tree (node.child side) count) :
      WayDown tree (some slot) (count + if node.color = .black then 1 else 0)

/-- There are `count` black nodes on every way down from the link. -/
def Level (tree : Tree α) (link : Option Slot) (count : Nat) : Prop :=
  ∀ passed, tree.WayDown link passed → passed = count

/-- The red-black rules, for a tree that has a root. -/
structure Obeys (tree : Tree α) (count : Nat) : Prop where
  root : ∃ root node, tree.root = some root ∧ tree.node root = .ok node ∧ node.color = .black ∧
    node.parent = none
  linked : ∀ slot child below, tree.Reachable slot → tree.Child slot child → tree.node child = .ok below →
    below.parent = some slot
  noRedRed : ∀ slot node child below, tree.Reachable slot → tree.node slot = .ok node → node.color = .red →
    tree.Child slot child → tree.node child = .ok below → below.color ≠ .red
  level : tree.Level tree.root count

/-- The rule that a violation names is broken at the slot that it names. -/
inductive Breaks (tree : Tree α) : TreeViolation → Prop where
  | redRoot {root : Slot} {node : TreeNode α} (top : tree.root = some root)
      (found : tree.node root = .ok node) (red : node.color = .red) : Breaks tree .redRoot
  | rootParent {root : Slot} {node : TreeNode α} (top : tree.root = some root)
      (found : tree.node root = .ok node) (hung : node.parent ≠ none) : Breaks tree (.brokenParent root)
  | childParent {slot child : Slot} {below : TreeNode α} (reachable : tree.Reachable slot)
      (link : tree.Child slot child) (found : tree.node child = .ok below)
      (astray : below.parent ≠ some slot) : Breaks tree (.brokenParent child)
  | redRed {slot child : Slot} {node below : TreeNode α} (reachable : tree.Reachable slot)
      (here : tree.node slot = .ok node) (red : node.color = .red) (link : tree.Child slot child)
      (found : tree.node child = .ok below) (again : below.color = .red) : Breaks tree (.redRed slot)
  | blackHeight {slot : Slot} {node : TreeNode α} {left right : Nat} (reachable : tree.Reachable slot)
      (here : tree.node slot = .ok node) (onLeft : tree.WayDown node.left left ∧ tree.Level node.left left)
      (onRight : tree.WayDown node.right right ∧ tree.Level node.right right) (differ : left ≠ right) :
      Breaks tree (.blackHeight slot left right)

/-! ### What an inspection finds -/

/-- What the rules ask of one link. -/
structure Fine (tree : Tree α) (slot child : Slot) : Prop where
  parent : ∀ below, tree.node child = .ok below → below.parent = some slot
  color : ∀ node below, tree.node slot = .ok node → node.color = .red → tree.node child = .ok below →
    below.color ≠ .red

/-- The rules are kept below a link, with `count` black nodes on every way down. -/
structure Regular (tree : Tree α) (link : Option Slot) (count : Nat) : Prop where
  fine : ∀ top, link = some top → ∀ slot child, Relation.ReflTransGen tree.Child top slot →
    tree.Child slot child → tree.Fine slot child
  way : tree.WayDown link count
  level : tree.Level link count

theorem regular_missing : tree.Regular none 0 where
  fine _ absent := by cases absent
  way := .missing
  level passed way := by
    cases way
    rfl

theorem regular_node (here : tree.node slot = .ok node)
    (fine : ∀ side child, node.child side = some child → tree.Fine slot child)
    (regular : ∀ side, tree.Regular (node.child side) count) :
    tree.Regular (some slot) (count + if node.color = .black then 1 else 0) where
  fine top same upper child path link := by
    cases same
    rcases path.cases_head with rfl | ⟨middle, first, path⟩
    · obtain ⟨_, side, again, hangs⟩ := link
      cases here.symm.trans again
      exact fine side child hangs
    · obtain ⟨_, side, again, hangs⟩ := first
      cases here.symm.trans again
      exact (regular side).fine middle hangs upper child path link
  way := .through here .left (regular .left).way
  level passed way := by
    cases way with
    | through again side rest =>
      cases here.symm.trans again
      rw [(regular side).level _ rest]

/-- The verdict on what is below a link is true. -/
def Judges (tree : Tree α) (link : Option Slot) : Except TreeViolation Nat → Prop
  | .ok count => tree.Regular link count
  | .error violation => tree.Breaks violation

theorem Inspection.run_bind_error {β γ : Type} {first : Inspection β} {next : β → Inspection γ}
    {violation : TreeViolation} (found : first.run = .ok (.error violation)) :
    (first >>= next).run = .ok (.error violation) := by
  rw [ExceptT.run_bind, found]
  rfl

theorem inspectLink_verdict {inspectBelow : Slot → Inspection Nat} {link : Option Slot} {side : Side}
    (navigable : tree.Navigable) (reachable : tree.Reachable slot) (here : tree.node slot = .ok node)
    (hangs : node.child side = link)
    (judged : ∀ child, tree.Child slot child → ∃ verdict, (inspectBelow child).run = .ok verdict ∧
      tree.Judges (some child) verdict) :
    ∃ verdict, (tree.inspectLink inspectBelow slot node link).run = .ok verdict ∧
      tree.Judges link verdict ∧
      ∀ count child, verdict = .ok count → link = some child → tree.Fine slot child := by
  cases link with
  | none => exact ⟨.ok 0, rfl, regular_missing, by simp⟩
  | some child =>
    have link : tree.Child slot child := ⟨node, side, here, hangs⟩
    obtain ⟨below, found⟩ := navigable.exists_node (reachable.step link)
    rw [inspectLink, Inspection.run_read found]
    by_cases astray : below.parent ≠ some slot
    · refine ⟨.error (.brokenParent child), ?_, .childParent reachable link found astray, by simp⟩
      rw [if_pos astray]
      rfl
    by_cases reds : node.color = .red ∧ below.color = .red
    · refine ⟨.error (.redRed slot), ?_, .redRed reachable here reds.1 link found reds.2, by simp⟩
      rw [if_neg astray, if_pos reds]
      rfl
    · obtain ⟨verdict, inspected, judges⟩ := judged child link
      refine ⟨verdict, ?_, judges, ?_⟩
      · rw [if_neg astray, if_neg reds]
        exact inspected
      · intro count other _ same
        cases same
        refine ⟨fun _ again => ?_, fun _ _ again red second black => ?_⟩
        · cases found.symm.trans again
          exact not_not.mp astray
        · cases here.symm.trans again
          cases found.symm.trans second
          exact reds ⟨red, black⟩

/-- With fuel for the rest of the longest way down, an inspection comes to a true verdict. -/
theorem inspect_verdict (navigable : tree.Navigable) {above : List Slot} (trail : tree.Trail above slot)
    {fuel : Nat} (enough : tree.size ≤ above.length + fuel) :
    ∃ verdict, (tree.inspect fuel slot).run = .ok verdict ∧ tree.Judges (some slot) verdict := by
  induction fuel generalizing above slot with
  | zero => exact absurd enough (Nat.not_le_of_lt (trail.length_lt navigable))
  | succ fuel ih =>
    have reachable := trail.reachable
    obtain ⟨node, here⟩ := navigable.exists_node reachable
    have judged : ∀ child, tree.Child slot child → ∃ verdict, (tree.inspect fuel child).run = .ok verdict ∧
        tree.Judges (some child) verdict :=
      fun child link => ih (trail.down link) (by simp only [List.length_cons]; omega)
    obtain ⟨first, inspected, onLeft, fineLeft⟩ :=
      inspectLink_verdict navigable reachable here (show node.child .left = node.left from rfl) judged
    obtain ⟨second, examined, onRight, fineRight⟩ :=
      inspectLink_verdict navigable reachable here (show node.child .right = node.right from rfl) judged
    rw [inspect, Inspection.run_read here]
    cases first with
    | error violation => exact ⟨_, Inspection.run_bind_error inspected, onLeft⟩
    | ok left =>
      rw [Inspection.run_bind_ok inspected]
      cases second with
      | error violation => exact ⟨_, Inspection.run_bind_error examined, onRight⟩
      | ok right =>
        rw [Inspection.run_bind_ok examined]
        by_cases differ : left ≠ right
        · refine ⟨.error (.blackHeight slot left right), ?_, .blackHeight reachable here
            ⟨onLeft.way, onLeft.level⟩ ⟨onRight.way, onRight.level⟩ differ⟩
          rw [if_pos differ]
          rfl
        · obtain rfl := not_not.mp differ
          refine ⟨.ok _, by rw [if_neg differ]; rfl, regular_node here ?_ ?_⟩
          · intro side child hangs
            cases side with
            | left => exact fineLeft left child rfl hangs
            | right => exact fineRight left child rfl hangs
          · intro side
            cases side with
            | left => exact onLeft
            | right => exact onRight

theorem Regular.obeys {root : Slot} (regular : tree.Regular tree.root count) (top : tree.root = some root)
    (here : tree.node root = .ok node) (black : node.color = .black) (free : node.parent = none) :
    tree.Obeys count where
  root := ⟨root, node, top, here, black, free⟩
  linked slot child below reachable link found := by
    obtain ⟨top, same, path⟩ := reachable
    exact (regular.fine top same slot child path link).parent below found
  noRedRed slot node child below reachable here red link found := by
    obtain ⟨top, same, path⟩ := reachable
    exact (regular.fine top same slot child path link).color node below here red found
  level := regular.level

/-- The check comes to a true verdict. -/
theorem check_verdict (navigable : tree.Navigable) :
    ∃ verdict, tree.check.run = .ok verdict ∧
      (∀ count, verdict = .ok count → tree.WayDown tree.root count ∧
        (tree.root = none ∧ count = 0 ∨ tree.Obeys count)) ∧
      ∀ violation, verdict = .error violation → tree.Breaks violation := by
  cases top : tree.root with
  | none =>
    refine ⟨.ok 0, by rw [check, top]; rfl, ?_, by simp⟩
    rintro _ ⟨⟩
    exact ⟨.missing, .inl ⟨rfl, rfl⟩⟩
  | some root =>
    have trail : tree.Trail [] root := .start top
    obtain ⟨node, here⟩ := navigable.exists_node trail.reachable
    rw [check, top, Inspection.run_read here]
    by_cases red : node.color = .red
    · refine ⟨.error .redRoot, by rw [if_pos red]; rfl, by simp, ?_⟩
      rintro _ ⟨⟩
      exact .redRoot top here red
    by_cases hung : node.parent.isSome = true
    · refine ⟨.error (.brokenParent root), by rw [if_neg red, if_pos hung]; rfl, by simp, ?_⟩
      rintro _ ⟨⟩
      exact .rootParent top here (Option.isSome_iff_ne_none.mp hung)
    obtain ⟨verdict, inspected, judges⟩ :=
      inspect_verdict navigable trail (Nat.le_add_left tree.size _)
    refine ⟨verdict, by rw [if_neg red, if_neg hung]; exact inspected, ?_, ?_⟩
    · rintro count rfl
      have regular : tree.Regular tree.root count := by rw [top]; exact judges
      have black : node.color = .black := by
        cases color : node.color with
        | red => exact absurd color red
        | black => rfl
      exact ⟨judges.way, .inr (regular.obeys top here black (by simpa using hung))⟩
    · rintro violation rfl
      exact judges

/-! ### No tree both keeps and breaks the rules -/

/-- What is above a slot adds the same to every way down from it. -/
theorem WayDown.extend {root : Slot} (path : Relation.ReflTransGen tree.Child root slot) :
    ∃ above, ∀ passed, tree.WayDown (some slot) passed → tree.WayDown (some root) (passed + above) := by
  induction path using Relation.ReflTransGen.head_induction_on with
  | refl => exact ⟨0, fun _ way => way⟩
  | head link _ ih =>
    obtain ⟨node, side, here, hangs⟩ := link
    obtain ⟨above, extend⟩ := ih
    refine ⟨above + if node.color = .black then 1 else 0, fun passed way => ?_⟩
    rw [← Nat.add_assoc]
    exact .through here side (by rw [hangs]; exact extend passed way)

theorem Breaks.not_obeys {violation : TreeViolation} (broken : tree.Breaks violation) :
    ¬ tree.Obeys count := by
  intro obeys
  obtain ⟨_, _, same, again, black, free⟩ := obeys.root
  cases broken with
  | redRoot top found red =>
    cases top.symm.trans same
    cases found.symm.trans again
    cases red.symm.trans black
  | rootParent top found hung =>
    cases top.symm.trans same
    cases found.symm.trans again
    exact hung free
  | childParent reachable link found astray => exact astray (obeys.linked _ _ _ reachable link found)
  | redRed reachable here red link found second =>
    exact obeys.noRedRed _ _ _ _ reachable here red link found second
  | blackHeight reachable here onLeft onRight differ =>
    obtain ⟨root, top, path⟩ := reachable
    obtain ⟨above, extend⟩ := WayDown.extend path
    have level := obeys.level
    rw [top] at level
    have first := level _ (extend _ (.through here .left onLeft.1))
    have second := level _ (extend _ (.through here .right onRight.1))
    omega

theorem Breaks.rooted {violation : TreeViolation} (broken : tree.Breaks violation) : tree.root ≠ none := by
  have named : ∃ root, tree.root = some root := by
    cases broken with
    | redRoot top _ _ => exact ⟨_, top⟩
    | rootParent top _ _ => exact ⟨_, top⟩
    | childParent reachable _ _ _ => exact reachable.imp fun _ => And.left
    | redRed reachable _ _ _ _ _ => exact reachable.imp fun _ => And.left
    | blackHeight reachable _ _ _ _ => exact reachable.imp fun _ => And.left
  exact Option.ne_none_iff_exists'.mpr named

/-! ### The check decides the rules -/

/-- Whatever lies in the slab, so long as the links can be followed to their ends, the check
passes exactly the trees that keep the rules, with their count of black nodes, and whatever it
finds wrong with another is wrong there. -/
theorem check_decides_rules (navigable : tree.Navigable) :
    ∃ verdict, tree.check.run = .ok verdict ∧
      (∀ count, verdict = .ok count ↔ tree.root = none ∧ count = 0 ∨ tree.Obeys count) ∧
      (∀ violation, verdict = .error violation → tree.Breaks violation) ∧
      (tree.isEmpty → verdict = .ok 0) := by
  obtain ⟨verdict, checked, passes, fails⟩ := check_verdict navigable
  have decides : ∀ count, verdict = .ok count ↔ tree.root = none ∧ count = 0 ∨ tree.Obeys count := by
    intro count
    refine ⟨fun passed => (passes count passed).2, fun kept => ?_⟩
    cases verdict with
    | error violation =>
      have broken := fails violation rfl
      exact (kept.elim (fun rootless => broken.rooted rootless.1) broken.not_obeys).elim
    | ok found =>
      have level : tree.Level tree.root count := by
        rcases kept with ⟨rootless, rfl⟩ | obeys
        · rw [rootless]
          exact regular_missing.level
        · exact obeys.level
      rw [level found (passes found rfl).1]
  refine ⟨verdict, checked, decides, fails, fun empty => (decides 0).mpr (.inl ⟨?_, rfl⟩)⟩
  refine Option.eq_none_iff_forall_ne_some.mpr fun root top => ?_
  have inside := navigable.root root top
  rw [size, Slab.size, Array.isEmpty_iff.mp empty] at inside
  exact Nat.not_lt_zero _ inside

/-- A black child on the left and a red one on the right. -/
def lopsided : Tree Unit where
  nodes := ⟨#[⟨(), .black, none, some ⟨1⟩, some ⟨2⟩⟩, ⟨(), .black, some ⟨0⟩, none, none⟩,
    ⟨(), .red, some ⟨0⟩, none, none⟩]⟩
  root := some ⟨0⟩

theorem check_decides_rules_lopsided :
    lopsided.Navigable ∧ lopsided.check.run = .ok (.error (.blackHeight ⟨0⟩ 1 0)) ∧
      lopsided.Breaks (.blackHeight ⟨0⟩ 1 0) := by
  have rises : ∀ slot child, lopsided.Child slot child → slot.raw < child.raw ∧ child.raw < 3 := by
    rintro ⟨_ | _ | _ | raw⟩ child ⟨node, side, here, hangs⟩ <;> cases here <;> cases side <;> cases hangs <;>
      decide
  have navigable : lopsided.Navigable := by
    refine navigable_of_rising ?_ rises
    rintro _ ⟨⟩
    decide
  obtain ⟨verdict, checked, -, fails, -⟩ := check_decides_rules navigable
  have found : lopsided.check.run = .ok (.error (.blackHeight ⟨0⟩ 1 0)) := by rfl
  cases found.symm.trans checked
  exact ⟨navigable, found, fails _ rfl⟩

end Tree

end CanonIR
