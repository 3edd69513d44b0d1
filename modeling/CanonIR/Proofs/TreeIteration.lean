import CanonIR.Proofs.TreeCalls
import CanonIR.Proofs.TreeTraversal

/-! Iterating with a list of pending nodes does what recursion into both children does. The
pending nodes spell out which part of the traversal is still to come, so nothing is asked of
the shape of the tree or of the order of its values. -/

namespace CanonIR

variable {α σ : Type}

namespace Tree

variable {tree after : Tree α} {shape : Shape α}

/-- The slots below a link by recursion: the left subtree, the node, the right subtree. -/
def inOrder (tree : Tree α) : Nat → Option Slot → Checked (List Slot)
  | _, none => .ok []
  | 0, some _ => .error .endlessWalk
  | fuel + 1, some slot => do
    let node ← tree.node slot
    let left ← tree.inOrder fuel node.left
    let right ← tree.inOrder fuel node.right
    return left ++ slot :: right

/-- Taking one value after the other gives `values`, and then there is none left. -/
inductive Yields (tree : Tree α) : List Slot → List α → Prop where
  | done {pending} (last : tree.nextValue pending = .ok none) : Yields tree pending []
  | next {pending rest value values} (taken : tree.nextValue pending = .ok (some (value, rest)))
      (onward : Yields tree rest values) : Yields tree pending (value :: values)

theorem inOrder_ok {parent : Option Slot} {fuel : Nat} (holds : tree.Holds parent shape)
    (enough : shape.height ≤ fuel) : tree.inOrder fuel shape.root? = .ok shape.slots := by
  induction shape generalizing parent fuel with
  | leaf => cases fuel <;> rfl
  | node color left slot value right first second =>
    cases fuel with
    | zero => simp [Shape.height] at enough
    | succ fuel =>
      simp only [Shape.height] at enough
      obtain ⟨here, onLeft, onRight⟩ := holds
      have lowLeft : left.height ≤ fuel := by omega
      have lowRight : right.height ≤ fuel := by omega
      simp only [Shape.root?_node, inOrder, here, Checked.ok_bind, first onLeft lowLeft,
        second onRight lowRight, Shape.slots_node, Checked.pure_eq_ok]

/-- One call takes the first of the values owed and leaves the others owed. -/
theorem Owes.nextValue {pending : List Slot} {value : α} {values : List α}
    (owes : tree.Owes pending (value :: values)) :
    ∃ rest, tree.nextValue pending = .ok (some (value, rest)) ∧ tree.Owes rest values := by
  cases owes with
  | next here inside low rest =>
    obtain ⟨spine, walked, owes⟩ := leftSpine_ok inside low low rest
    exact ⟨spine, by simp [Tree.nextValue, here, walked], owes⟩

theorem Owes.yields {pending : List Slot} {values : List α} (owes : tree.Owes pending values) :
    tree.Yields pending values := by
  induction values generalizing pending with
  | nil =>
    cases owes with
    | nothing => exact .done rfl
  | cons value values ih =>
    obtain ⟨rest, taken, owes⟩ := owes.nextValue
    exact .next taken (ih owes)

theorem sound_of_runCalls (sound : tree.Sound shape) (bound : tree.size ≤ positionLimit)
    {calls : List (TreeCall α σ)} {state final : σ} {replies : List (TreeReply α)}
    (ran : runCalls calls tree state = .ok (replies, after, final)) : ∃ grown, after.Sound grown := by
  induction calls generalizing tree shape state replies with
  | nil =>
    cases ran
    exact ⟨shape, sound⟩
  | cons call rest ih =>
    obtain ⟨⟨reply, larger, middle⟩, performed, ran⟩ := Checked.bind_eq_ok.mp ran
    obtain ⟨⟨others, last⟩, went, ran⟩ := Checked.bind_eq_ok.mp ran
    cases ran
    rcases perform_ok sound bound call state with ⟨_, _, grown, _, succeeded, sound, bound⟩ | ⟨-, refused⟩
    · cases performed.symm.trans succeeded
      exact ih sound bound went
    · cases performed.symm.trans refused

/-- The iteration over a tree, against the recursive traversal of its slots. -/
structure IteratesInOrder (tree : Tree α) (slots : List Slot) (values : List α) : Prop where
  traversed : tree.inOrder tree.size tree.root = .ok slots
  /-- The traversal meets every slot of the slab once. -/
  everySlot : slots.Perm ((List.range tree.size).map Handle.mk)
  stored : slots.mapM tree.get = .ok values
  collected : tree.values = .ok values
  /-- Values are taken one at a time, from the pending nodes on the way down from the root. -/
  taken : ∃ pending, tree.leftSpine tree.size tree.root [] = .ok pending ∧ tree.Yields pending values
  complete : values.length = tree.size

theorem Sound.iteratesInOrder (sound : tree.Sound shape) :
    tree.IteratesInOrder shape.slots shape.values := by
  have low : shape.height ≤ tree.size := sound.complete ▸ shape.height_le_length
  have root : tree.root = shape.root? := sound.reads.around
  obtain ⟨spine, walked, owes⟩ := leftSpine_ok sound.reads.inside low low .nothing
  rw [List.append_nil] at owes
  have stored : shape.slots.mapM tree.get = .ok shape.values := by
    rw [Checked.mapM_eq_ok, Shape.slots, Shape.values, List.forall₂_map_left_iff,
      List.forall₂_map_right_iff, List.forall₂_same]
    exact sound.reads.inside.get
  exact {
    traversed := root ▸ inOrder_ok sound.reads.inside low
    everySlot := sound.everySlot
    stored
    collected := values_ok sound
    taken := ⟨spine, root ▸ walked, owes.yields⟩
    complete := by rw [← sound.complete, Shape.values, Shape.slots, List.length_map, List.length_map] }

/-- However a tree came about, iterating over it ends and gives the values that the recursive
traversal from the root meets, in its order: one for each slot. -/
theorem iteration_is_traversal {calls : List (TreeCall α σ)} {state final : σ}
    {replies : List (TreeReply α)} (ran : runCalls calls {} state = .ok (replies, tree, final)) :
    ∃ slots values, tree.IteratesInOrder slots values := by
  obtain ⟨shape, sound⟩ := sound_of_runCalls sound_empty (Nat.zero_le _) ran
  exact ⟨shape.slots, shape.values, sound.iteratesInOrder⟩

/-- A caller whose answers depend on nothing but how often it was asked. -/
def fickle : TreeCall Nat Nat :=
  .insertSlot (fun _ asked => (if asked % 3 = 0 then .lt else .gt, asked + 1)) fun asked => (asked, asked)

theorem iteration_is_traversal_fickle :
    ∃ replies tree final, runCalls (.replicate 6 fickle) {} 0 = .ok (replies, tree, final) ∧
      tree.IteratesInOrder [⟨1⟩, ⟨5⟩, ⟨0⟩, ⟨3⟩, ⟨2⟩, ⟨4⟩] [1, 8, 0, 4, 2, 6] := by
  have performed : (do
      let (_, tree, _) ← runCalls (.replicate 6 fickle) {} 0
      return (← tree.inOrder tree.size tree.root, ← tree.values) : Checked _) =
        .ok ([⟨1⟩, ⟨5⟩, ⟨0⟩, ⟨3⟩, ⟨2⟩, ⟨4⟩], [1, 8, 0, 4, 2, 6]) := by rfl
  obtain ⟨⟨replies, tree, final⟩, ran, rest⟩ := Checked.bind_eq_ok.mp performed
  obtain ⟨slots, traversed, rest⟩ := Checked.bind_eq_ok.mp rest
  obtain ⟨values, collected, same⟩ := Checked.bind_eq_ok.mp rest
  cases same
  obtain ⟨slots, values, iterates⟩ := iteration_is_traversal ran
  cases iterates.traversed.symm.trans traversed
  cases iterates.collected.symm.trans collected
  exact ⟨replies, tree, final, ran, iterates⟩

end Tree

end CanonIR
