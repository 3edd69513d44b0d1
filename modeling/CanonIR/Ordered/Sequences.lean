import CanonIR.Ordered.Insertion
import CanonIR.Ordered.Traversal

/-! Sequences of which each is kept once. -/

namespace CanonIR

structure Sequences (τ : Type) where
  tree : Tree (List τ)

namespace Sequences

variable {τ : Type} [Ord τ]

/-- Where `items` lie relative to a kept sequence: the first difference decides. -/
def ask (items kept : List τ) (state : Unit) : Ordering × Unit :=
  (List.compareLex compare items kept, state)

/-- The slot of `items`, and whether they are new. -/
def intern (sequences : Sequences τ) (items : List τ) :
    Checked ((Slot × Bool) × Sequences τ) := do
  let (result, tree, _) ← sequences.tree.insert (ask items) (fun state => .ok (items, state)) ()
  return (result, ⟨tree⟩)

def emptySlot : Slot := ⟨0⟩

/-- The empty sequence is there from the start. -/
def initial : Sequences τ where
  tree :=
    { nodes := ⟨#[{ value := [], color := .black, parent := none, left := none, right := none }]⟩
      root := some emptySlot }

/-- Keeping the empty sequence first is what makes the initial state. -/
theorem intern_nil_none : intern (⟨{}⟩ : Sequences τ) [] = .ok ((emptySlot, true), initial) := rfl

/-- The slot of `items` if they are kept. -/
def find? (sequences : Sequences τ) (items : List τ) : Checked (Option Slot) := do
  return (← sequences.tree.find? (ask items) ()).1

def get (sequences : Sequences τ) (slot : Slot) : Checked (List τ) := sequences.tree.get slot

def size (sequences : Sequences τ) : Nat := sequences.tree.size

def isEmpty (sequences : Sequences τ) : Bool := sequences.tree.isEmpty

end Sequences

end CanonIR
