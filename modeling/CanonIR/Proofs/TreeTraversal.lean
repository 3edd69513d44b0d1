import CanonIR.Ordered.Traversal
import CanonIR.Proofs.TreeInsertion

/-! Reading a tree from left to right. Between two values the walk holds a list of nodes
whose right subtrees are still to come; the values it owes are fixed by that list. -/

namespace CanonIR

variable {α : Type}

@[simp] theorem Shape.values_node (color : Color) (left : Shape α) (slot : Slot) (value : α)
    (right : Shape α) :
    (node color left slot value right).values = left.values ++ value :: right.values := by
  simp [values, entries]

@[simp] theorem Shape.values_leaf : (leaf : Shape α).values = [] := rfl

namespace Tree

variable {tree : Tree α} {shape : Shape α}

/-- The values that are still to come when `pending` is held. -/
inductive Owes (tree : Tree α) : List Slot → List α → Prop where
  | nothing : Owes tree [] []
  | next {slot color value parent left right pending values}
      (here : tree.node slot = .ok ⟨value, color, parent, left, right.root?⟩)
      (inside : tree.Holds (some slot) right) (low : right.height ≤ tree.size)
      (rest : Owes tree pending values) :
      Owes tree (slot :: pending) (value :: right.values ++ values)

theorem leftSpine_ok {parent : Option Slot} {pending : List Slot} {values : List α} {fuel : Nat}
    (holds : tree.Holds parent shape) (low : shape.height ≤ tree.size)
    (enough : shape.height ≤ fuel) (owes : tree.Owes pending values) :
    ∃ spine, tree.leftSpine fuel shape.root? pending = .ok spine ∧
      tree.Owes spine (shape.values ++ values) := by
  induction shape generalizing parent pending values fuel with
  | leaf => exact ⟨pending, by cases fuel <;> rfl, owes⟩
  | node color left slot value right first =>
    obtain ⟨here, onLeft, onRight⟩ := holds
    simp only [Shape.height] at low enough
    cases fuel with
    | zero => omega
    | succ fuel =>
      have owes : tree.Owes (slot :: pending) (value :: right.values ++ values) :=
        .next here onRight (by omega) owes
      have enough : left.height ≤ fuel := by omega
      obtain ⟨spine, walked, owes⟩ := first onLeft (by omega) enough owes
      refine ⟨spine, by simpa [leftSpine, here] using walked, ?_⟩
      simpa using owes

theorem valuesFrom_ok {pending : List Slot} {values : List α} {fuel : Nat}
    (owes : tree.Owes pending values) (enough : values.length ≤ fuel) :
    tree.valuesFrom fuel pending = .ok values := by
  induction fuel generalizing pending values with
  | zero =>
    cases owes with
    | nothing => rfl
    | next => simp at enough
  | succ fuel ih =>
    cases owes with
    | nothing => rfl
    | @next slot _ value _ _ right pending values here inside low rest =>
      obtain ⟨spine, walked, owes⟩ := leftSpine_ok inside low low rest
      simp only [List.cons_append, List.length_cons, Nat.add_le_add_iff_right] at enough
      simp [valuesFrom, nextValue, here, walked, ih owes enough]

theorem values_ok (sound : tree.Sound shape) : tree.values = .ok shape.values := by
  have low : shape.height ≤ tree.size := sound.complete ▸ shape.height_le_length
  obtain ⟨spine, walked, owes⟩ := leftSpine_ok sound.reads.inside low low .nothing
  have root : tree.root = shape.root? := sound.reads.around
  have enough : (shape.values ++ []).length ≤ tree.size := by
    rw [← sound.complete]
    simp [Shape.values, Shape.slots]
  simp [values, root, walked, valuesFrom_ok owes enough]

end Tree

end CanonIR
