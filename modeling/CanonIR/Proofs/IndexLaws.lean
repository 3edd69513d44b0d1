import CanonIR.Ordered.Index
import CanonIR.Ordered.Sequences
import CanonIR.Proofs.TreeOrder

/-! An index stands for the list of its entries in the order in which they came, and a
store of sequences for the list of its sequences. Later proofs use these laws and never
open a tree. -/

namespace CanonIR

namespace Index

variable {κ ν σ : Type} [Ord κ] {index : Index κ ν} {entries : List (IndexEntry κ ν)}
  {key : κ} {value : ν}

/-- The index stands for `entries`, of which no two have one key. -/
def Stores (index : Index κ ν) (entries : List (IndexEntry κ ν)) : Prop :=
  index.tree.Lists IndexEntry.key entries

/-- The entry of a key, with a value that is made for it. -/
def entryOf (key : κ) (make : σ → Checked (ν × σ)) (state : σ) : Checked (IndexEntry κ ν × σ) := do
  let (value, state) ← make state
  return (⟨key, value⟩, state)

theorem getOrMake_eq (key : κ) (make : σ → Checked (ν × σ)) (state : σ) :
    index.getOrMake key make state = (do
      let ((slot, fresh), tree, state) ←
        index.tree.insert (Tree.askBy IndexEntry.key key) (entryOf key make) state
      return (((← tree.get slot).value, fresh), ⟨tree⟩, state)) := rfl

/-- Whatever the order says, nothing is made, or `make` ran once and the flag tells so. -/
theorem getOrMake_cases {make : σ → Checked (ν × σ)} {state after : σ} {fresh : Bool} {larger : Index κ ν}
    (given : index.getOrMake key make state = .ok ((value, fresh), larger, after)) :
    fresh = false ∧ larger = index ∧ after = state ∨ fresh = true ∧ ∃ made, make state = .ok (made, after) := by
  obtain ⟨⟨⟨slot, _⟩, tree, _⟩, inserted, given⟩ := Checked.bind_eq_ok.mp given
  obtain ⟨entry, -, equal⟩ := Checked.bind_eq_ok.mp given
  cases equal
  obtain ⟨⟨landing, middle⟩, located, inserted⟩ := Checked.bind_eq_ok.mp inserted
  obtain rfl : middle = state := Tree.descend_pure (fun _ _ => rfl) located
  cases landing with
  | hit _ =>
    cases inserted
    exact .inl ⟨rfl, rfl, rfl⟩
  | gap place =>
    obtain ⟨_, -, inserted⟩ := Checked.bind_eq_ok.mp inserted
    obtain ⟨⟨built, _⟩, ran, inserted⟩ := Checked.bind_eq_ok.mp inserted
    obtain ⟨_, -, inserted⟩ := Checked.bind_eq_ok.mp inserted
    obtain ⟨_, -, equal⟩ := Checked.bind_eq_ok.mp inserted
    cases equal
    obtain ⟨⟨made, _⟩, ran, equal⟩ := Checked.bind_eq_ok.mp ran
    cases equal
    exact .inr ⟨rfl, made, ran⟩

theorem stores_empty : ({} : Index κ ν).Stores [] := Tree.lists_empty _

variable [Std.LawfulEqOrd κ]

theorem Stores.get?_new (stores : index.Stores entries)
    (missing : key ∉ entries.map IndexEntry.key) : index.get? key = .ok none := by
  have searched : index.tree.find? (ask key) () = .ok (none, ()) :=
    Tree.Lists.find?_new stores missing ()
  simp [get?, searched]

variable [Std.TransOrd κ]

theorem Stores.get?_known (stores : index.Stores entries) (member : ⟨key, value⟩ ∈ entries) :
    index.get? key = .ok (some value) := by
  obtain ⟨position, found⟩ := List.mem_iff_getElem?.mp member
  have searched : index.tree.find? (ask key) () = .ok (some ⟨position⟩, ()) :=
    Tree.Lists.find?_known stores ⟨position⟩ found ()
  have stored : index.tree.get ⟨position⟩ = .ok ⟨key, value⟩ :=
    (Tree.Lists.get stores).mpr found
  simp [get?, searched, stored]

/-- A search always returns, with the value of the one entry that has the key. -/
theorem Stores.get?_eq_ok (stores : index.Stores entries) {result : Option ν} :
    index.get? key = .ok result ↔
      ∀ value, result = some value ↔ ⟨key, value⟩ ∈ entries := by
  have known : ∀ value, ⟨key, value⟩ ∈ entries → index.get? key = .ok (some value) :=
    fun value => stores.get?_known
  by_cases present : ∃ value, ⟨key, value⟩ ∈ entries
  · obtain ⟨value, member⟩ := present
    rw [known value member, Except.ok.injEq]
    constructor
    · rintro rfl other
      refine ⟨?_, fun again => ?_⟩
      · rintro ⟨rfl⟩
        exact member
      · have same := known other again
        rw [known value member, Except.ok.injEq] at same
        exact same
    · exact fun same => ((same value).mpr member).symm
  · have missing : key ∉ entries.map IndexEntry.key := by
      intro member
      obtain ⟨entry, inside, rfl⟩ := List.mem_map.mp member
      exact present ⟨entry.value, inside⟩
    rw [stores.get?_new missing, Except.ok.injEq]
    constructor
    · rintro rfl value
      simpa using fun member => present ⟨value, member⟩
    · intro same
      cases result with
      | none => rfl
      | some value => exact absurd ⟨value, (same value).mp rfl⟩ present

theorem Stores.getOrMake_known (stores : index.Stores entries) (member : ⟨key, value⟩ ∈ entries)
    (make : σ → Checked (ν × σ)) (state : σ) :
    index.getOrMake key make state = .ok ((value, false), index, state) := by
  obtain ⟨position, found⟩ := List.mem_iff_getElem?.mp member
  have stored : index.tree.get ⟨position⟩ = .ok ⟨key, value⟩ :=
    (Tree.Lists.get stores).mpr found
  have searched : index.tree.insert (Tree.askBy IndexEntry.key key) (entryOf key make) state =
      .ok ((⟨position⟩, false), index.tree, state) :=
    Tree.Lists.insert_known stores ⟨position⟩ found _ state
  rw [getOrMake_eq, searched]
  simp [stored]

theorem Stores.getOrMake_new (stores : index.Stores entries)
    (missing : key ∉ entries.map IndexEntry.key) (room : entries.length < positionLimit)
    {make : σ → Checked (ν × σ)} {state after : σ} (made : make state = .ok (value, after)) :
    ∃ larger : Index κ ν, index.getOrMake key make state = .ok ((value, true), larger, after) ∧
      larger.Stores (entries ++ [⟨key, value⟩]) := by
  have built : entryOf key make state = .ok (⟨key, value⟩, after) := by simp [entryOf, made]
  obtain ⟨larger, inserted, lists⟩ := Tree.Lists.insert_new stores missing room built
  have stored : larger.get ⟨entries.length⟩ = .ok ⟨key, value⟩ := (Tree.Lists.get lists).mpr (by simp)
  refine ⟨⟨larger⟩, ?_, lists⟩
  have inserted : index.tree.insert (Tree.askBy IndexEntry.key key) (entryOf key make) state =
      .ok ((⟨entries.length⟩, true), larger, after) := inserted
  rw [getOrMake_eq, inserted]
  simp [stored]

theorem Stores.getOrMake_eq_ok (stores : index.Stores entries) {make : σ → Checked (ν × σ)}
    {state after : σ} {fresh : Bool} {larger : Index κ ν}
    (given : index.getOrMake key make state = .ok ((value, fresh), larger, after)) :
    (⟨key, value⟩ ∈ entries ∧ fresh = false ∧ larger = index ∧ after = state) ∨
    (key ∉ entries.map IndexEntry.key ∧ fresh = true ∧ make state = .ok (value, after) ∧
      larger.Stores (entries ++ [⟨key, value⟩])) := by
  by_cases present : key ∈ entries.map IndexEntry.key
  · obtain ⟨entry, member, rfl⟩ := List.mem_map.mp present
    have known : (⟨entry.key, entry.value⟩ : IndexEntry κ ν) ∈ entries := member
    rw [stores.getOrMake_known known] at given
    simp only [Except.ok.injEq, Prod.mk.injEq] at given
    obtain ⟨⟨rfl, rfl⟩, rfl, rfl⟩ := given
    exact .inl ⟨member, rfl, rfl, rfl⟩
  · have returned := given
    simp only [getOrMake_eq, Checked.bind_eq_ok] at returned
    obtain ⟨⟨result, tree, final⟩, inserted, slot, -, equal⟩ := returned
    simp only [Checked.pure_eq_ok, Except.ok.injEq, Prod.mk.injEq] at equal
    obtain ⟨-, -, rfl⟩ := equal
    obtain ⟨room, entry, built⟩ := Tree.Lists.insert_eq_ok stores present inserted
    simp only [entryOf, Checked.bind_eq_ok] at built
    obtain ⟨⟨made, last⟩, ran, equal⟩ := built
    simp only [Checked.pure_eq_ok, Except.ok.injEq, Prod.mk.injEq] at equal
    obtain ⟨-, rfl⟩ := equal
    obtain ⟨grown, again, stores⟩ := stores.getOrMake_new present room ran
    rw [again] at given
    simp only [Except.ok.injEq, Prod.mk.injEq] at given
    obtain ⟨⟨rfl, rfl⟩, rfl, -⟩ := given
    exact .inr ⟨present, rfl, ran, stores⟩

section Relations

variable {holds : κ → ν → Prop}

/-- The index leads from a key to a value exactly where `holds` does. -/
def Indexes (index : Index κ ν) (holds : κ → ν → Prop) : Prop :=
  ∃ entries, index.Stores entries ∧ ∀ key value, ⟨key, value⟩ ∈ entries ↔ holds key value

omit [Std.LawfulEqOrd κ] [Std.TransOrd κ] in
theorem Indexes.congr {same : κ → ν → Prop} (indexes : index.Indexes holds)
    (agree : ∀ key value, holds key value ↔ same key value) : index.Indexes same := by
  obtain ⟨entries, stores, exact⟩ := indexes
  exact ⟨entries, stores, fun key value => (exact key value).trans (agree key value)⟩

omit [Std.LawfulEqOrd κ] [Std.TransOrd κ] in
theorem indexes_empty : ({} : Index κ ν).Indexes fun _ _ => False :=
  ⟨[], stores_empty, by simp⟩

theorem Indexes.get?_eq_some (indexes : index.Indexes holds) :
    index.get? key = .ok (some value) ↔ holds key value := by
  obtain ⟨entries, stores, exact⟩ := indexes
  rw [← exact]
  refine ⟨fun found => ?_, stores.get?_known⟩
  exact (stores.get?_eq_ok.mp found value).mp rfl

theorem Indexes.get?_eq_ok (indexes : index.Indexes holds) {result : Option ν} :
    index.get? key = .ok result ↔ ∀ value, result = some value ↔ holds key value := by
  obtain ⟨entries, stores, exact⟩ := indexes
  simp only [stores.get?_eq_ok, exact]

theorem Indexes.exists_get? (indexes : index.Indexes holds) (key : κ) :
    ∃ result, index.get? key = .ok result := by
  by_cases known : ∃ value, holds key value
  · obtain ⟨value, known⟩ := known
    exact ⟨_, indexes.get?_eq_some.mpr known⟩
  · refine ⟨none, indexes.get?_eq_ok.mpr fun value => ?_⟩
    simpa using fun present => known ⟨value, present⟩

omit [Std.LawfulEqOrd κ] [Std.TransOrd κ] in
/-- The entries come out in the order of their keys. -/
theorem Indexes.entries_eq_ok (indexes : index.Indexes holds) :
    ∃ sorted, index.entries = .ok sorted ∧
      sorted.Pairwise (fun first second => compare first.key second.key = .lt) ∧
      ∀ key value, ⟨key, value⟩ ∈ sorted ↔ holds key value := by
  obtain ⟨entries, stores, exact⟩ := indexes
  obtain ⟨sorted, listed, same, ascends⟩ := Tree.Lists.values stores
  exact ⟨sorted, listed, ascends, fun key value => same.mem_iff.trans (exact key value)⟩

theorem Indexes.getOrMake_known (indexes : index.Indexes holds) (known : holds key value)
    (make : σ → Checked (ν × σ)) (state : σ) :
    index.getOrMake key make state = .ok ((value, false), index, state) := by
  obtain ⟨entries, stores, exact⟩ := indexes
  exact stores.getOrMake_known ((exact key value).mpr known) make state

theorem Indexes.getOrMake_eq_ok (indexes : index.Indexes holds) {make : σ → Checked (ν × σ)}
    {state after : σ} {fresh : Bool} {larger : Index κ ν}
    (given : index.getOrMake key make state = .ok ((value, fresh), larger, after)) :
    (holds key value ∧ larger = index ∧ after = state) ∨
    ((∀ other, ¬ holds key other) ∧ make state = .ok (value, after) ∧
      larger.Indexes fun asked found => holds asked found ∨ asked = key ∧ found = value) := by
  obtain ⟨entries, stores, exact⟩ := indexes
  rcases stores.getOrMake_eq_ok given with ⟨known, -, rfl, rfl⟩ | ⟨missing, -, made, grown⟩
  · exact .inl ⟨(exact key value).mp known, rfl, rfl⟩
  · refine .inr ⟨fun other known => missing ?_, made, _, grown, fun asked found => ?_⟩
    · exact List.mem_map.mpr ⟨_, (exact key other).mpr known, rfl⟩
    · simp [exact]

end Relations

end Index

namespace Sequences

variable {τ : Type} [Ord τ] {sequences : Sequences τ} {list : List (List τ)} {items : List τ}

/-- The store stands for `list`, in which no sequence comes twice. -/
def Stores (sequences : Sequences τ) (list : List (List τ)) : Prop :=
  sequences.tree.Lists id list

theorem intern_eq (items : List τ) : sequences.intern items = (do
    let (result, tree, _) ←
      sequences.tree.insert (Tree.askBy id items) (fun state => .ok (items, state)) ()
    return (result, ⟨tree⟩)) := rfl

theorem find?_eq (items : List τ) : sequences.find? items = (do
    return (← sequences.tree.find? (Tree.askBy id items) ()).1) := rfl

theorem Stores.get (stores : sequences.Stores list) {slot : Slot} :
    sequences.get slot = .ok items ↔ list[slot.raw]? = some items :=
  Tree.Lists.get stores

variable [Std.LawfulEqOrd τ]

theorem Stores.find?_new (stores : sequences.Stores list) (missing : items ∉ list) :
    sequences.find? items = .ok none := by
  have absent : items ∉ list.map id := by simpa using missing
  simp [find?_eq, Tree.Lists.find?_new stores absent]

variable [Std.TransOrd τ]

theorem Stores.find?_known (stores : sequences.Stores list) (slot : Slot)
    (found : list[slot.raw]? = some items) : sequences.find? items = .ok (some slot) := by
  have searched : sequences.tree.find? (Tree.askBy id items) () = .ok (some slot, ()) :=
    Tree.Lists.find?_known stores slot found ()
  simp [find?_eq, searched]

theorem Stores.intern_known (stores : sequences.Stores list) (slot : Slot)
    (found : list[slot.raw]? = some items) :
    sequences.intern items = .ok ((slot, false), sequences) := by
  have searched := fun build => Tree.Lists.insert_known stores slot found build ()
  simp only [id_eq] at searched
  simp [intern_eq, searched]

theorem Stores.intern_new (stores : sequences.Stores list) (missing : items ∉ list)
    (room : list.length < positionLimit) :
    ∃ larger : Sequences τ, sequences.intern items = .ok ((⟨list.length⟩, true), larger) ∧
      larger.Stores (list ++ [items]) := by
  have absent : id items ∉ list.map id := by simpa using missing
  let build : Unit → Checked (List τ × Unit) := fun state => .ok (items, state)
  have built : build () = .ok (items, ()) := rfl
  obtain ⟨larger, inserted, lists⟩ := Tree.Lists.insert_new stores absent room built
  simp only [id_eq, build] at inserted
  exact ⟨⟨larger⟩, by simp [intern_eq, inserted], lists⟩

theorem stores_initial : (initial : Sequences τ).Stores [[]] := by
  have empty : (⟨{}⟩ : Sequences τ).Stores [] := Tree.lists_empty _
  obtain ⟨larger, interned, stores⟩ :=
    empty.intern_new (List.not_mem_nil (a := [])) (by simp [positionLimit])
  rw [intern_nil_none, Except.ok.injEq, Prod.mk.injEq] at interned
  obtain ⟨-, rfl⟩ := interned
  exact stores

/-- No sequence is kept twice. -/
def Sound (sequences : Sequences τ) : Prop := ∃ list, sequences.Stores list

theorem Sound.intern_known (sound : sequences.Sound) {slot : Slot}
    (found : sequences.get slot = .ok items) :
    sequences.intern items = .ok ((slot, false), sequences) := by
  obtain ⟨list, stores⟩ := sound
  exact stores.intern_known slot (stores.get.mp found)

theorem Sound.find?_eq_ok (sound : sequences.Sound) {result : Option Slot}
    (searched : sequences.find? items = .ok result) (slot : Slot) :
    result = some slot ↔ sequences.get slot = .ok items := by
  obtain ⟨list, stores⟩ := sound
  constructor
  · rintro rfl
    by_cases known : items ∈ list
    · obtain ⟨position, found⟩ := List.mem_iff_getElem?.mp known
      rw [stores.find?_known ⟨position⟩ found] at searched
      cases searched
      exact stores.get.mpr found
    · rw [stores.find?_new known] at searched
      cases searched
  · intro found
    rw [stores.find?_known slot (stores.get.mp found)] at searched
    cases searched
    rfl

/-- What is interned is there already, or goes to the end. -/
theorem Stores.intern_cases (stores : sequences.Stores list) {slot : Slot} {fresh : Bool}
    {larger : Sequences τ} (interned : sequences.intern items = .ok ((slot, fresh), larger)) :
    list[slot.raw]? = some items ∧ larger = sequences ∨
      slot = ⟨list.length⟩ ∧ larger.Stores (list ++ [items]) := by
  by_cases known : items ∈ list
  · obtain ⟨position, found⟩ := List.mem_iff_getElem?.mp known
    rw [stores.intern_known ⟨position⟩ found] at interned
    simp only [Except.ok.injEq, Prod.mk.injEq] at interned
    obtain ⟨⟨rfl, -⟩, rfl⟩ := interned
    exact .inl ⟨found, rfl⟩
  · have returned := interned
    simp only [intern_eq, Checked.bind_eq_ok] at returned
    obtain ⟨⟨result, tree, _⟩, inserted, -⟩ := returned
    have absent : id items ∉ list.map id := by simpa using known
    obtain ⟨room, -⟩ := Tree.Lists.insert_eq_ok stores absent inserted
    obtain ⟨grown, again, stored⟩ := stores.intern_new known room
    rw [again] at interned
    simp only [Except.ok.injEq, Prod.mk.injEq] at interned
    obtain ⟨⟨rfl, -⟩, rfl⟩ := interned
    exact .inr ⟨rfl, stored⟩

/-- What is interned can be read, and so can everything that could be read before. -/
theorem Sound.intern_eq_ok (sound : sequences.Sound) {slot : Slot} {fresh : Bool}
    {larger : Sequences τ} (interned : sequences.intern items = .ok ((slot, fresh), larger)) :
    larger.Sound ∧ larger.get slot = .ok items ∧
      ∀ {other kept}, sequences.get other = .ok kept → larger.get other = .ok kept := by
  obtain ⟨list, stores⟩ := sound
  rcases stores.intern_cases interned with ⟨found, rfl⟩ | ⟨rfl, stored⟩
  · exact ⟨⟨list, stores⟩, stores.get.mpr found, id⟩
  · refine ⟨⟨_, stored⟩, stored.get.mpr (by simp), fun found => stored.get.mpr ?_⟩
    have present := stores.get.mp found
    rw [List.getElem?_append_left (List.getElem?_eq_some_iff.mp present).1]
    exact present

/-- No more than one sequence is added. -/
theorem Sound.size_intern_le (sound : sequences.Sound) {slot : Slot} {fresh : Bool}
    {larger : Sequences τ} (interned : sequences.intern items = .ok ((slot, fresh), larger)) :
    larger.size ≤ sequences.size + 1 := by
  obtain ⟨list, stores⟩ := sound
  rcases stores.intern_cases interned with ⟨-, rfl⟩ | ⟨-, stored⟩
  · exact Nat.le_succ _
  · have before : sequences.size = list.length := Tree.Lists.size stores
    have after : larger.size = (list ++ [items]).length := Tree.Lists.size stored
    simp [before, after]

end Sequences

end CanonIR
