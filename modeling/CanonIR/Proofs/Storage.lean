import CanonIR.Slab
import Mathlib.Data.List.Forall2

/-! Laws of faults and slabs. Later proofs use `get?` as the one view of a slab and
never open an array. -/

namespace CanonIR

variable {α β : Type} {table : Table}

namespace Checked

theorem bind_eq_ok {first : Checked α} {next : α → Checked β} {result : β} :
    (first >>= next) = .ok result ↔ ∃ value, first = .ok value ∧ next value = .ok result := by
  cases first with
  | error fault => simp [bind, Except.bind]
  | ok value => simp [bind, Except.bind]

@[simp] theorem ok_bind (value : α) (next : α → Checked β) :
    ((.ok value : Checked α) >>= next) = next value := rfl

@[simp] theorem error_bind (fault : Fault) (next : α → Checked β) :
    ((.error fault : Checked α) >>= next) = .error fault := rfl

@[simp] theorem pure_eq_ok (value : α) : (pure value : Checked α) = .ok value := rfl

theorem mapM_eq_ok {read : α → Checked β} {items : List α} {results : List β} :
    items.mapM read = .ok results ↔ List.Forall₂ (fun item result => read item = .ok result) items results := by
  induction items generalizing results with
  | nil => simp [eq_comm]
  | cons item rest ih =>
    simp only [List.mapM_cons, bind_eq_ok, pure_eq_ok, Except.ok.injEq, List.forall₂_cons_left_iff, ih]
    constructor
    · rintro ⟨first, read, others, each, rfl⟩
      exact ⟨first, others, read, each, rfl⟩
    · rintro ⟨first, others, read, each, rfl⟩
      exact ⟨first, read, others, each, rfl⟩

theorem exists_of_isOk {checked : Checked α} (ok : checked.isOk) : ∃ value, checked = .ok value := by
  cases checked with
  | error fault => cases ok
  | ok value => exact ⟨value, rfl⟩

end Checked

theorem position_eq_ok {what : String} {count result : Nat} :
    position what count = .ok result ↔ result = count ∧ count < positionLimit := by
  unfold position
  split
  · simp_all [eq_comm]
  · simp only [reduceCtorEq, false_iff]
    omega

theorem fetch_eq_ok {items : Array α} {index : Nat} {item : α} :
    fetch items index = .ok item ↔ items[index]? = some item := by
  unfold fetch
  split <;> simp_all

namespace Slab

variable {slab after : Slab table α} {handle other : Handle table} {item : α}

theorem get_eq_ok : slab.get handle = .ok item ↔ slab.get? handle = some item := by
  unfold get
  split <;> simp_all

/-- The entries of a slab lie at consecutive positions from the first free one on. -/
theorem get?_eq_some : slab.get? handle = some item ↔
    ∃ index, handle = ⟨table.firstFree + index⟩ ∧ slab.items[index]? = some item := by
  unfold get?
  split
  next shared =>
    simp only [reduceCtorEq, false_iff]
    rintro ⟨index, rfl, -⟩
    exact Nat.not_lt_of_le (Nat.le_add_right _ _) shared
  next free =>
    constructor
    · intro found
      refine ⟨handle.raw - table.firstFree, ?_, found⟩
      rw [Nat.add_sub_cancel' (Nat.le_of_not_lt free)]
    · rintro ⟨index, rfl, found⟩
      simpa using found

theorem raw_lt_of_get? (found : slab.get? handle = some item) :
    handle.raw < table.firstFree + slab.size := by
  obtain ⟨index, rfl, present⟩ := get?_eq_some.mp found
  have inside := (Array.getElem?_eq_some_iff.mp present).1
  simp only [size]
  omega

theorem next_eq_ok : slab.next = .ok handle ↔
    handle = ⟨table.firstFree + slab.size⟩ ∧ table.firstFree + slab.size < positionLimit := by
  simp only [next, Handle.ofIndex, Checked.bind_eq_ok, position_eq_ok, Checked.pure_eq_ok,
    Except.ok.injEq, size]
  constructor
  · rintro ⟨_, ⟨rfl, small⟩, rfl⟩
    exact ⟨rfl, small⟩
  · rintro ⟨rfl, small⟩
    exact ⟨_, ⟨rfl, small⟩, rfl⟩

theorem push_eq_ok : slab.push item = .ok (handle, after) ↔
    handle = ⟨table.firstFree + slab.size⟩ ∧ table.firstFree + slab.size < positionLimit ∧
      after = ⟨slab.items.push item⟩ := by
  simp only [push, Checked.bind_eq_ok, next_eq_ok, Checked.pure_eq_ok, Except.ok.injEq,
    Prod.mk.injEq]
  constructor
  · rintro ⟨_, ⟨rfl, small⟩, rfl, rfl⟩
    exact ⟨rfl, small, rfl⟩
  · rintro ⟨rfl, small, rfl⟩
    exact ⟨_, ⟨rfl, small⟩, rfl, rfl⟩

/-- The new entry is at the next position, and the others are where they were. -/
theorem get?_push : (⟨slab.items.push item⟩ : Slab table α).get? handle =
    if handle = ⟨table.firstFree + slab.size⟩ then some item else slab.get? handle := by
  cases handle with
  | mk raw =>
    simp only [get?, size, Handle.mk.injEq, Array.getElem?_push]
    split
    · rw [if_neg (by omega)]
    · congr 1
      simp only [eq_iff_iff]
      omega

theorem get?_of_push (pushed : slab.push item = .ok (handle, after)) :
    after.get? other = if other = handle then some item else slab.get? other := by
  obtain ⟨rfl, -, rfl⟩ := push_eq_ok.mp pushed
  exact get?_push

theorem get?_pushed (pushed : slab.push item = .ok (handle, after)) :
    after.get? handle = some item := by
  rw [get?_of_push pushed, if_pos rfl]

theorem fresh_of_push (pushed : slab.push item = .ok (handle, after)) : slab.get? handle = none := by
  obtain ⟨rfl, -, -⟩ := push_eq_ok.mp pushed
  rw [Option.eq_none_iff_forall_ne_some]
  intro present found
  have small := raw_lt_of_get? found
  simp at small

theorem get?_kept (pushed : slab.push item = .ok (handle, after)) {old : α}
    (found : slab.get? other = some old) : after.get? other = some old := by
  rw [get?_of_push pushed, if_neg, found]
  intro same
  subst same
  rw [fresh_of_push pushed] at found
  cases found

theorem size_push (pushed : slab.push item = .ok (handle, after)) : after.size = slab.size + 1 := by
  obtain ⟨-, -, rfl⟩ := push_eq_ok.mp pushed
  simp [size]

/-- Nothing but the entry of `handle` is new. -/
def Adds (slab after : Slab table α) (handle : Handle table) : Prop :=
  ∀ ⦃other item⦄, after.get? other = some item → other = handle ∨ ∃ old, slab.get? other = some old

theorem adds_refl (slab : Slab table α) (handle : Handle table) : slab.Adds slab handle :=
  fun _ item found => .inr ⟨item, found⟩

theorem push_cases (pushed : slab.push item = .ok (handle, after)) {now : α}
    (found : after.get? other = some now) :
    slab.get? other = some now ∨ slab.get? other = none ∧ other = handle ∧ now = item := by
  rw [get?_of_push pushed] at found
  split at found
  next same =>
    cases found
    subst same
    exact .inr ⟨fresh_of_push pushed, rfl, rfl⟩
  · exact .inl found

theorem adds_of_push (pushed : slab.push item = .ok (handle, after)) : slab.Adds after handle := by
  intro other now found
  rcases push_cases pushed found with present | ⟨-, same, -⟩
  · exact .inr ⟨now, present⟩
  · exact .inl same

theorem modify_eq_ok {change : α → α} : slab.modify handle change = .ok after ↔
    ∃ item, slab.get? handle = some item ∧
      after = ⟨slab.items.modify (handle.raw - table.firstFree) change⟩ := by
  unfold modify
  cases slab.get? handle with
  | none => simp
  | some item => simp [eq_comm]

theorem size_modify {change : α → α} (changed : slab.modify handle change = .ok after) :
    after.size = slab.size := by
  obtain ⟨item, -, rfl⟩ := modify_eq_ok.mp changed
  simp [size]

theorem get?_modify {change : α → α} (changed : slab.modify handle change = .ok after) :
    after.get? other = if other = handle then (slab.get? handle).map change else slab.get? other := by
  obtain ⟨item, found, rfl⟩ := modify_eq_ok.mp changed
  have free : ¬ handle.raw < table.firstFree := by
    intro shared
    simp [get?, shared] at found
  split
  next same =>
    subst same
    simp [get?, free, Array.getElem?_modify]
  next different =>
    have apart : handle.raw ≠ other.raw := by
      intro same
      exact different (by cases handle; cases other; simp_all)
    simp only [get?]
    split
    · rfl
    · rw [Array.getElem?_modify, if_neg (by omega)]

theorem get?_modify_cases {change : α → α} (changed : slab.modify handle change = .ok after)
    (found : slab.get? other = some item) :
    after.get? other = some item ∨ other = handle ∧ after.get? other = some (change item) := by
  by_cases same : other = handle
  · refine .inr ⟨same, ?_⟩
    rw [get?_modify changed, if_pos same, ← same, found, Option.map_some]
  · refine .inl ?_
    rw [get?_modify changed, if_neg same, found]

theorem exists_of_modify {change : α → α} (changed : slab.modify handle change = .ok after)
    (found : slab.get? other = some item) : ∃ now, after.get? other = some now := by
  rcases get?_modify_cases changed found with same | ⟨-, altered⟩
  · exact ⟨item, same⟩
  · exact ⟨change item, altered⟩

theorem modify_cases {change : α → α} (changed : slab.modify handle change = .ok after) {now : α}
    (found : after.get? other = some now) :
    slab.get? other = some now ∨ other = handle ∧ ∃ old, slab.get? other = some old ∧ now = change old := by
  rw [get?_modify changed] at found
  split at found
  next same =>
    subst same
    obtain ⟨old, present, equal⟩ := Option.map_eq_some_iff.mp found
    exact .inr ⟨rfl, old, present, equal.symm⟩
  · exact .inl found

theorem adds_of_modify {change : α → α} (changed : slab.modify handle change = .ok after) :
    slab.Adds after handle := by
  intro other now found
  rcases modify_cases changed found with present | ⟨same, -⟩
  · exact .inr ⟨now, present⟩
  · exact .inl same

end Slab

end CanonIR
