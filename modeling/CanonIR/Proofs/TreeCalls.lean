import CanonIR.Proofs.Runs
import CanonIR.Proofs.TreeCheck
import CanonIR.Proofs.TreeInsertion
import Mathlib.Data.List.Perm.Subperm

/-! Runs of calls on one tree, from the empty one on. No order is asked of the caller:
its answers may contradict each other, and depend on all that it was asked before. -/

namespace CanonIR

variable {α σ : Type}

/-- A call on a tree. The state of the caller is handed on from question to question and
from call to call. -/
inductive TreeCall (α σ : Type) where
  | insertSlot (ask : α → σ → Ordering × σ) (build : σ → α × σ)
  | insert (ask : α → σ → Ordering × σ) (build : σ → α × σ)
  | findSlot (ask : α → σ → Ordering × σ)

inductive TreeReply (α : Type) where
  | inserted (slot : Slot) (fresh : Bool)
  | value (value : α)
  | found (slot : Option Slot)

def TreeCall.perform (tree : Tree α) (state : σ) :
    TreeCall α σ → Checked (TreeReply α × Tree α × σ)
  | .insertSlot ask build => do
    let ((slot, fresh), tree, state) ← tree.insert ask (fun state => .ok (build state)) state
    return (.inserted slot fresh, tree, state)
  | .insert ask build => do
    let ((slot, _), tree, state) ← tree.insert ask (fun state => .ok (build state)) state
    return (.value (← tree.get slot), tree, state)
  | .findSlot ask => do
    let (slot, state) ← tree.find? ask state
    return (.found slot, tree, state)

namespace Tree

/-- A run of calls, with what each of them gave back. -/
def runCalls (calls : List (TreeCall α σ)) (tree : Tree α) (state : σ) :
    Checked (List (TreeReply α) × Tree α × σ) :=
  runAll (fun call (tree, state) => call.perform tree state) calls (tree, state)

variable {tree : Tree α} {shape : Shape α}

/-- The rules of a red-black tree. That a tree reads as a shape says that its root has no
parent and that the parent link of every child leads back. -/
structure RedBlack (tree : Tree α) (shape : Shape α) : Prop where
  reads : tree.Reads shape
  /-- Child links reach every slot of the slab once. -/
  everySlot : shape.slots.Perm ((List.range tree.size).map Handle.mk)
  blackRoot : shape.color = .black
  noRedRed : shape.NoRedRed
  evenCounts : ∃ count, ∀ black ∈ shape.blackCounts, black = count

theorem Sound.everySlot (sound : tree.Sound shape) :
    shape.slots.Perm ((List.range tree.size).map Handle.mk) := by
  have inside : shape.slots ⊆ (List.range tree.size).map Handle.mk := by
    intro slot member
    exact List.mem_map.mpr ⟨slot.raw, List.mem_range.mpr (sound.reads.inside.in_range slot member), rfl⟩
  have distinct : shape.slots.Nodup := sound.reads.distinct
  apply (distinct.subperm inside).perm_of_length_le
  simp [sound.complete]

theorem Sound.redBlack (sound : tree.Sound shape) : tree.RedBlack shape := by
  obtain ⟨count, balanced⟩ := sound.balanced
  exact ⟨sound.reads, sound.everySlot, balanced.color_eq, balanced.noRedRed, count,
    balanced.blackCounts⟩

/-- Whatever the answers, an insertion finds an entry, makes one, or finds the tree full. -/
theorem insert_cases (sound : tree.Sound shape) (bound : tree.size ≤ positionLimit)
    (ask : α → σ → Ordering × σ) (build : σ → α × σ) (state : σ) :
    (∃ slot fresh larger grown after, larger.Sound grown ∧ larger.size ≤ positionLimit ∧
      slot ∈ grown.slots ∧
      tree.insert ask (fun state => .ok (build state)) state =
        .ok ((slot, fresh), larger, after)) ∨
    (tree.size = positionLimit ∧
      tree.insert ask (fun state => .ok (build state)) state =
        .error (.capacity "Slot" positionLimit)) := by
  obtain ⟨landing, middle, located, lands⟩ := locate_any sound ask state
  cases lands with
  | hit member equal =>
    exact .inl ⟨_, _, tree, shape, _, sound, bound, List.mem_map_of_mem member, insert_hit located⟩
  | gap filled follows =>
    by_cases room : tree.size < positionLimit
    · let made : σ → Checked (α × σ) := fun state => .ok (build state)
      have built : made middle = .ok ((build middle).1, (build middle).2) := rfl
      obtain ⟨larger, grown, inserted, sound, size, order⟩ :=
        insert_gap sound filled located room built
      refine .inl ⟨_, _, larger, grown, _, sound, by omega, ?_, inserted⟩
      simp [Shape.slots, order]
    · have full : tree.size = positionLimit := by omega
      exact .inr ⟨full, full ▸ insert_full located (Nat.le_of_eq full.symm)⟩

/-- One call keeps the rules. It fails only if it would need a slot beyond the last. -/
theorem perform_ok (sound : tree.Sound shape) (bound : tree.size ≤ positionLimit)
    (call : TreeCall α σ) (state : σ) :
    (∃ reply larger grown after, call.perform tree state = .ok (reply, larger, after) ∧
      larger.Sound grown ∧ larger.size ≤ positionLimit) ∨
    (tree.size = positionLimit ∧
      call.perform tree state = .error (.capacity "Slot" positionLimit)) := by
  cases call with
  | insertSlot ask build =>
    rcases insert_cases sound bound ask build state with
      ⟨slot, fresh, larger, grown, after, sound, bound, -, inserted⟩ | ⟨full, refused⟩
    · exact .inl ⟨.inserted slot fresh, larger, grown, after, by simp [TreeCall.perform, inserted],
        sound, bound⟩
    · exact .inr ⟨full, by simp [TreeCall.perform, refused]⟩
  | insert ask build =>
    rcases insert_cases sound bound ask build state with
      ⟨slot, fresh, larger, grown, after, sound, bound, member, inserted⟩ | ⟨full, refused⟩
    · obtain ⟨entry, present, rfl⟩ := List.mem_map.mp member
      have stored := sound.reads.inside.get entry present
      exact .inl ⟨.value entry.2, larger, grown, after,
        by simp [TreeCall.perform, inserted, stored], sound, bound⟩
    · exact .inr ⟨full, by simp [TreeCall.perform, refused]⟩
  | findSlot ask =>
    obtain ⟨landing, after, located, lands⟩ := locate_any sound ask state
    cases lands with
    | @hit slot =>
      exact .inl ⟨.found (some slot), tree, shape, after,
        by simp [TreeCall.perform, find?_hit located], sound, bound⟩
    | gap =>
      exact .inl ⟨.found none, tree, shape, after,
        by simp [TreeCall.perform, find?_gap located], sound, bound⟩

/-- A run keeps the rules, and ends early only at a full tree. -/
theorem runCalls_ok (sound : tree.Sound shape) (bound : tree.size ≤ positionLimit)
    (calls : List (TreeCall α σ)) (state : σ) :
    (∃ replies larger grown after, runCalls calls tree state = .ok (replies, larger, after) ∧
      larger.Sound grown) ∨
    ∃ early call later replies full after, calls = early ++ call :: later ∧
      runCalls early tree state = .ok (replies, full, after) ∧ full.size = positionLimit ∧
      call.perform full after = .error (.capacity "Slot" positionLimit) := by
  induction calls generalizing tree shape state with
  | nil => exact .inl ⟨[], tree, shape, state, rfl, sound⟩
  | cons call rest ih =>
    rcases perform_ok sound bound call state with
      ⟨reply, larger, grown, after, performed, sound, bound⟩ | ⟨full, refused⟩
    · simp only [runCalls] at ih ⊢
      rcases ih sound bound after with
        ⟨replies, last, grown, final, ran, sound⟩ |
        ⟨early, next, later, replies, full, final, rfl, ran, size, refused⟩
      · exact .inl ⟨reply :: replies, last, grown, final, by simp [runAll, performed, ran], sound⟩
      · exact .inr ⟨call :: early, next, later, reply :: replies, full, final, rfl,
          by simp [runAll, performed, ran], size, refused⟩
    · exact .inr ⟨[], call, rest, [], tree, state, rfl, rfl, full, refused⟩

/-- Every run of calls from the empty tree returns and leaves a red-black tree that passes
its check, as long as no call needs more slots than there are. -/
theorem runCalls_redBlack (calls : List (TreeCall α σ)) (state : σ) :
    (∃ replies tree after shape count, runCalls calls {} state = .ok (replies, tree, after) ∧
      tree.RedBlack shape ∧ tree.check.run = .ok (.ok count)) ∨
    ∃ early call later replies full after, calls = early ++ call :: later ∧
      runCalls early {} state = .ok (replies, full, after) ∧ full.size = positionLimit ∧
      call.perform full after = .error (.capacity "Slot" positionLimit) := by
  rcases runCalls_ok sound_empty (Nat.zero_le _) calls state with
    ⟨replies, tree, shape, after, ran, sound⟩ | stopped
  · obtain ⟨count, balanced⟩ := sound.balanced
    exact .inl ⟨replies, tree, after, shape, count, ran, sound.redBlack,
      check_ok sound.reads balanced (Nat.le_of_eq sound.complete)⟩
  · exact .inr stopped

end Tree

end CanonIR
