import CanonIR.Handle

/-! Append-only storage. The first entry sits at the first free position of its
table, and an entry never moves. -/

namespace CanonIR

structure Slab (table : Table) (α : Type) where
  items : Array α := #[]

namespace Slab

variable {table : Table} {α : Type}

def size (slab : Slab table α) : Nat := slab.items.size

/-- The entry of `handle`; shared positions hold none. -/
def get? (slab : Slab table α) (handle : Handle table) : Option α :=
  if handle.raw < table.firstFree then none else slab.items[handle.raw - table.firstFree]?

def get (slab : Slab table α) (handle : Handle table) : Checked α :=
  match slab.get? handle with
  | some item => .ok item
  | none => .error .outOfRange

/-- The handle that the next entry will have. -/
def next (slab : Slab table α) : Checked (Handle table) :=
  Handle.ofIndex table (table.firstFree + slab.items.size)

def push (item : α) (slab : Slab table α) : Checked (Handle table × Slab table α) := do
  let handle ← slab.next
  return (handle, ⟨slab.items.push item⟩)

/-- Changes the entry of `handle` in place. -/
def modify (slab : Slab table α) (handle : Handle table) (change : α → α) :
    Checked (Slab table α) :=
  match slab.get? handle with
  | some _ => .ok ⟨slab.items.modify (handle.raw - table.firstFree) change⟩
  | none => .error .outOfRange

def set (slab : Slab table α) (handle : Handle table) (item : α) : Checked (Slab table α) :=
  slab.modify handle fun _ => item

end Slab

end CanonIR
