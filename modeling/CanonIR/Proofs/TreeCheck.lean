import CanonIR.Ordered.Traversal
import CanonIR.Proofs.TreeReading

/-! The check of the colour rules passes on every tree that keeps them, and counts the
black nodes on the way down. -/

namespace CanonIR.Tree

variable {α β γ : Type} {tree : Tree α}

theorem Inspection.run_bind_ok {first : Inspection β} {next : β → Inspection γ} {value : β}
    (found : first.run = .ok (.ok value)) : (first >>= next).run = (next value).run := by
  rw [ExceptT.run_bind, found]
  rfl

theorem Inspection.run_read {slot : Slot} {node : TreeNode α} {next : TreeNode α → Inspection β}
    (found : tree.node slot = .ok node) :
    ((liftM (tree.node slot) : Inspection (TreeNode α)) >>= next).run = (next node).run := by
  apply run_bind_ok
  rw [found]
  rfl

theorem inspectLink_ok {below : Slot → Inspection Nat} {slot : Slot} {node : TreeNode α}
    {shape : Shape α} {color : Color} {count : Nat} (holds : tree.Holds (some slot) shape)
    (balanced : shape.Balanced color count) (allowed : node.color = .red → color = .black)
    (inspected : ∀ child, shape.root? = some child → (below child).run = .ok (.ok count)) :
    (tree.inspectLink below slot node shape.root?).run = .ok (.ok count) := by
  cases shape with
  | leaf =>
    cases balanced
    rfl
  | node childColor left child value right =>
    obtain ⟨here, -, -⟩ := holds
    have same : childColor = color := balanced.color_eq
    have fine : ¬ (node.color = .red ∧ childColor = .red) := by
      intro ⟨red, redBelow⟩
      have black := allowed red
      simp_all
    rw [Shape.root?_node, inspectLink, Inspection.run_read here]
    simp only [ne_eq, not_true_eq_false, if_false, if_neg fine]
    exact inspected child rfl

/-- Below a slot with all rules kept, the check counts what the rules say. -/
theorem inspect_ok {parent : Option Slot} {shape : Shape α} {color : Color} {count fuel : Nat}
    {slot : Slot} (holds : tree.Holds parent shape) (balanced : shape.Balanced color count)
    (root : shape.root? = some slot) (enough : shape.height ≤ fuel) :
    (tree.inspect fuel slot).run = .ok (.ok count) := by
  induction shape generalizing parent color count fuel slot with
  | leaf => cases root
  | node here left slot value right first second =>
    cases root
    cases fuel with
    | zero => simp [Shape.height] at enough
    | succ fuel =>
      simp only [Shape.height] at enough
      obtain ⟨found, onLeft, onRight⟩ := holds
      rw [inspect, Inspection.run_read found]
      cases balanced with
      | red leftBalanced rightBalanced =>
        rw [Inspection.run_bind_ok (inspectLink_ok onLeft leftBalanced (fun _ => rfl)
          fun child root => first onLeft leftBalanced root (by omega))]
        rw [Inspection.run_bind_ok (inspectLink_ok onRight rightBalanced (fun _ => rfl)
          fun child root => second onRight rightBalanced root (by omega))]
        simp
      | black leftBalanced rightBalanced =>
        rw [Inspection.run_bind_ok (inspectLink_ok onLeft leftBalanced (by simp)
          fun child root => first onLeft leftBalanced root (by omega))]
        rw [Inspection.run_bind_ok (inspectLink_ok onRight rightBalanced (by simp)
          fun child root => second onRight rightBalanced root (by omega))]
        simp

theorem check_ok {shape : Shape α} {count : Nat} (reads : tree.Reads shape)
    (balanced : shape.Balanced .black count) (enough : shape.slots.length ≤ tree.size) :
    tree.check.run = .ok (.ok count) := by
  have root : tree.root = shape.root? := reads.around
  cases shape with
  | leaf =>
    cases balanced
    rw [check, root]
    rfl
  | node color left slot value right =>
    cases balanced.color_eq
    rw [check, root, Shape.root?_node, Inspection.run_read reads.inside.1]
    simp only [reduceCtorEq, if_false, Path.parent?_root, Option.isSome_none, Bool.false_eq_true]
    exact inspect_ok reads.inside balanced rfl (Nat.le_trans (Shape.height_le_length _) enough)

end CanonIR.Tree
