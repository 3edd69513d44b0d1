import CanonIR.Proofs.DeclarationTables
import CanonIR.Proofs.NodeCensus

/-! Room in the tables. Every node is numbered by one census, so that a census with a
number left has room for a node in whatever table it goes to; and an index has no more
entries than there are places that it leads to, since each of them leads to its own. -/

namespace CanonIR

/-- Where each of the one list has its own of the other, there are no more of them. -/
theorem length_le_of_own {α β : Type} (relates : α → β → Prop) {items : List α} {others : List β}
    (distinct : items.Nodup) (owns : ∀ item ∈ items, ∃ other ∈ others, relates item other)
    (apart : ∀ {first second other}, relates first other → relates second other → first = second) :
    items.length ≤ others.length := by
  classical
  by_cases empty : items = []
  · simp [empty]
  · obtain ⟨first, member⟩ := List.exists_mem_of_ne_nil items empty
    obtain ⟨default, -⟩ := owns first member
    let own : α → β := fun item => if inside : ∃ other ∈ others, relates item other
      then inside.choose else default
    have owned : ∀ item ∈ items, own item ∈ others ∧ relates item (own item) := by
      intro item member
      have inside := owns item member
      simpa only [own, dif_pos inside] using inside.choose_spec
    have injective : ∀ first ∈ items, ∀ second ∈ items, own first = own second → first = second := by
      intro first one second two same
      exact apart (owned first one).2 (same ▸ (owned second two).2)
    have inside : items.map own ⊆ others := by
      intro other member
      obtain ⟨item, listed, rfl⟩ := List.mem_map.mp member
      exact (owned item listed).1
    simpa using ((distinct.map_on injective).subperm inside).length_le

namespace Slab

variable {α : Type} {table : Table} {slab : Slab table α}

theorem length_handles : slab.handles.length = slab.size := by simp [handles]

theorem nodup_handles : slab.handles.Nodup := by
  refine List.Nodup.map (fun first second same => ?_) List.nodup_range
  simpa using same

theorem exists_push (fits : table.firstFree + slab.size < positionLimit) (item : α) :
    ∃ handle after, slab.push item = .ok (handle, after) :=
  ⟨_, _, push_eq_ok.mpr ⟨rfl, fits, rfl⟩⟩

theorem length_select_le {test : α → Bool} : (slab.select test).length ≤ slab.size := by
  rw [← length_handles]
  exact List.length_filter_le ..

end Slab

namespace Index

variable {κ σ α : Type} [Ord κ] [Std.LawfulEqOrd κ] [Std.TransOrd κ] {table : Table}
  {index : Index κ (Handle table)} {slab : Slab table α} {holds : κ → Handle table → Prop}
  {value : Handle table}

/-- No two keys lead to one entry of the table. -/
structure LeadsInto (slab : Slab table α) (holds : κ → Handle table → Prop) : Prop where
  apart : ∀ {first second value}, holds first value → holds second value → first = second
  inside : ∀ {key value}, holds key value → ∃ item, slab.get? value = some item

omit [Std.TransOrd κ] in
theorem Stores.length_le_targets {entries : List (IndexEntry κ (Handle table))}
    (stores : index.Stores entries)
    (exact : ∀ key value, ⟨key, value⟩ ∈ entries ↔ holds key value) {targets : List (Handle table)}
    (apart : ∀ {first second value}, holds first value → holds second value → first = second)
    (inside : ∀ {key value}, holds key value → value ∈ targets) : entries.length ≤ targets.length := by
  have distinct : (entries.map IndexEntry.key).Nodup := Tree.Lists.nodup stores
  rw [← List.length_map IndexEntry.key]
  refine length_le_of_own holds distinct (fun key member => ?_) apart
  obtain ⟨entry, listed, rfl⟩ := List.mem_map.mp member
  have held := (exact entry.key entry.value).mp listed
  exact ⟨entry.value, inside held, held⟩

omit [Std.TransOrd κ] in
theorem Stores.length_le {entries : List (IndexEntry κ (Handle table))} (stores : index.Stores entries)
    (exact : ∀ key value, ⟨key, value⟩ ∈ entries ↔ holds key value) (leads : LeadsInto slab holds) :
    entries.length ≤ slab.size := by
  rw [← Slab.length_handles]
  exact stores.length_le_targets exact leads.apart fun held => Slab.mem_handles.mpr (leads.inside held)

/-- With room for one more entry, one that can be made is found or made. -/
theorem Indexes.exists_getOrMake_of_lt (indexes : index.Indexes holds)
    (room : ∀ entries, index.Stores entries →
      (∀ key value, ⟨key, value⟩ ∈ entries ↔ holds key value) → entries.length < positionLimit)
    (key : κ) {make : σ → Checked (Handle table × σ)} {state after : σ}
    (made : make state = .ok (value, after)) :
    ∃ result larger final, index.getOrMake key make state = .ok (result, larger, final) := by
  by_cases known : ∃ value, holds key value
  · obtain ⟨value, known⟩ := known
    exact ⟨_, _, _, indexes.getOrMake_known known make state⟩
  · obtain ⟨entries, stores, exact⟩ := indexes
    have missing : key ∉ entries.map IndexEntry.key := by
      intro member
      obtain ⟨entry, listed, rfl⟩ := List.mem_map.mp member
      exact known ⟨entry.value, (exact _ _).mp listed⟩
    obtain ⟨larger, given, -⟩ := stores.getOrMake_new missing (room entries stores exact) made
    exact ⟨_, larger, after, given⟩

/-- An index that leads into a table has room where the table has. -/
theorem Indexes.exists_getOrMake (indexes : index.Indexes holds) (leads : LeadsInto slab holds)
    (room : slab.size < positionLimit) (key : κ) {make : σ → Checked (Handle table × σ)}
    {state after : σ} (made : make state = .ok (value, after)) :
    ∃ result larger final, index.getOrMake key make state = .ok (result, larger, final) := by
  refine indexes.exists_getOrMake_of_lt (fun entries stores exact => ?_) key made
  exact Nat.lt_of_le_of_lt (stores.length_le exact leads) room

omit [Ord κ] [Std.LawfulEqOrd κ] [Std.TransOrd κ] in
/-- The index of a table of nodes leads to the nodes that have its keys. -/
theorem leadsInto_shows {label : α → Option κ} :
    LeadsInto slab fun key value => (key, value) ∈ ([] : List (κ × Handle table)) ∨
      slab.Shows label key value where
  apart := by
    rintro first second value (⟨⟨⟩⟩ | ⟨item, found, labelled⟩) (⟨⟨⟩⟩ | ⟨other, again, same⟩)
    cases found.symm.trans again
    exact Option.some.inj (labelled.symm.trans same)
  inside := by
    rintro key value (⟨⟨⟩⟩ | ⟨item, found, -⟩)
    exact ⟨item, found⟩

end Index

namespace Sequences

variable {τ : Type} [Ord τ] [Std.LawfulEqOrd τ] [Std.TransOrd τ] {sequences : Sequences τ}

theorem Sound.exists_intern (sound : sequences.Sound) (room : sequences.size < positionLimit)
    (items : List τ) : ∃ result larger, sequences.intern items = .ok (result, larger) := by
  obtain ⟨list, stores⟩ := sound
  have counted : sequences.size = list.length := Tree.Lists.size stores
  by_cases known : items ∈ list
  · obtain ⟨position, found⟩ := List.mem_iff_getElem?.mp known
    exact ⟨_, _, stores.intern_known ⟨position⟩ found⟩
  · obtain ⟨larger, interned, -⟩ := stores.intern_new known (by omega)
    exact ⟨_, larger, interned⟩

theorem Sound.exists_find? (sound : sequences.Sound) (items : List τ) :
    ∃ result, sequences.find? items = .ok result := by
  obtain ⟨list, stores⟩ := sound
  by_cases known : items ∈ list
  · obtain ⟨position, found⟩ := List.mem_iff_getElem?.mp known
    exact ⟨_, stores.find?_known ⟨position⟩ found⟩
  · exact ⟨none, stores.find?_new known⟩

end Sequences

namespace Census

variable {census counted : Census} {category : Category} {number : NodeId}

theorem exists_enroll (room : census.next + 1 < positionLimit) (category : Category) :
    ∃ number counted, census.enroll category = .ok (number, counted) := by
  rw [enroll, if_pos room]
  exact ⟨_, _, rfl⟩

theorem enroll_room (enrolled : census.enroll category = .ok (number, counted)) :
    census.next + 1 < positionLimit := by
  unfold enroll at enrolled
  split at enrolled
  · assumption
  · cases enrolled

theorem next_countRequest (group : Group) (fresh : Bool) :
    (census.countRequest group fresh).next = census.next := by
  cases fresh <;> rfl

end Census

/-- A node that is numbered goes to the end of its table. -/
theorem exists_enrolled {α : Type} {table : Table} {slab : Slab table α} {census : Census}
    (room : census.next + 1 < positionLimit) (fits : table.firstFree + slab.size < positionLimit)
    (category : Category) (node : NodeId → α) :
    ∃ id grown counted, (do
      let (number, census) ← census.enroll category
      let (id, nodes) ← slab.push (node number)
      return (id, nodes, census) : Checked (Handle table × Slab table α × Census)) =
        .ok (id, grown, counted) := by
  obtain ⟨number, counted, enrolled⟩ := Census.exists_enroll room category
  obtain ⟨id, grown, pushed⟩ := Slab.exists_push fits (node number)
  exact ⟨id, grown, counted, by simp only [enrolled, Checked.ok_bind, pushed, Checked.pure_eq_ok]⟩

theorem NameTable.exists_canonical {names : NameTable} {census : Census} (canonical : names.Canonical)
    (room : census.next + 1 < positionLimit) (fits : names.nodes.size < positionLimit)
    (kind : NameKind) : ∃ id after counted, names.canonical kind census = .ok (id, after, counted) := by
  have behind : Table.firstFree .name + names.nodes.size < positionLimit := by
    simpa [Table.firstFree] using fits
  let make : Slab .name NameNode × Census → Checked (NameId × Slab .name NameNode × Census) :=
    fun state => do
      let numbered ← state.2.enroll kind.category
      let pushed ← state.1.push ⟨numbered.1, kind⟩
      return (pushed.1, pushed.2, numbered.2)
  obtain ⟨id, grown, counted, made⟩ : ∃ id grown counted,
      make (names.nodes, census) = .ok (id, grown, counted) :=
    exists_enrolled room behind kind.category (⟨·, kind⟩)
  obtain ⟨result, larger, final, given⟩ :=
    Index.Indexes.exists_getOrMake canonical.covers Index.leadsInto_shows fits kind made
  exact ⟨_, _, _, Checked.bind_eq_ok.mpr ⟨_, given, rfl⟩⟩

theorem NameTable.Canonical.exists_keepTerms {names : NameTable} (canonical : names.Canonical)
    (room : names.terms.size < positionLimit) (terms : List Term) :
    ∃ list after, names.keepTerms terms = .ok (list, after) := by
  obtain ⟨⟨slot, _⟩, larger, interned⟩ := canonical.sound.exists_intern room terms
  exact ⟨⟨slot.raw⟩, { names with terms := larger }, Checked.bind_eq_ok.mpr ⟨_, interned, rfl⟩⟩

theorem NameTable.Canonical.exists_templateId? {names : NameTable} (canonical : names.Canonical)
    (template : NameId) (args : List Term) : ∃ result, names.templateId? template args = .ok result := by
  obtain ⟨found, searched⟩ := canonical.sound.exists_find? args
  cases found with
  | none => exact ⟨none, Checked.bind_eq_ok.mpr ⟨_, searched, rfl⟩⟩
  | some slot =>
    obtain ⟨result, looked⟩ := Index.Indexes.exists_get? canonical.covers (.templateId template ⟨slot.raw⟩)
    exact ⟨result, Checked.bind_eq_ok.mpr ⟨_, searched, looked⟩⟩

theorem TypeTable.exists_canonical {types : TypeTable} {census : Census} (canonical : types.Canonical)
    (room : census.next + 1 < positionLimit)
    (fits : Table.firstFree .type + types.nodes.size < positionLimit) {kind : TypeKind}
    (structural : kind.IsStructural) :
    ∃ id after counted, types.canonical kind census = .ok (id, after, counted) := by
  have inside : types.nodes.size < positionLimit := Nat.lt_of_le_of_lt (Nat.le_add_left ..) fits
  let make : Slab .type TypeNode × Census → Checked (TypeId × Slab .type TypeNode × Census) :=
    fun state => push kind state.1 state.2
  obtain ⟨id, grown, counted, made⟩ : ∃ id grown counted,
      make (types.nodes, census) = .ok (id, grown, counted) :=
    exists_enrolled room fits kind.category (⟨·, kind⟩)
  obtain ⟨result, larger, final, given⟩ :=
    Index.Indexes.exists_getOrMake canonical.covers Index.leadsInto_shows inside kind made
  rw [canonical_eq structural.2]
  exact ⟨_, _, _, Checked.bind_eq_ok.mpr ⟨_, given, rfl⟩⟩

namespace ExprTable

variable {exprs : ExprTable} {census : Census}

theorem sharedLiterals_inj : ∀ first ∈ sharedLiterals, ∀ second ∈ sharedLiterals,
    first.2 = second.2 → first.1 = second.1 := by decide

theorem sharedLiterals_low : ∀ entry ∈ sharedLiterals, entry.2.raw < Table.firstFree .expr := by decide

theorem not_shows_of_shared {first second : LiteralKey} {id : ExprId}
    (shared : (first, id) ∈ sharedLiterals) : ¬ exprs.nodes.Shows ExprNode.key? second id := by
  intro shows
  obtain ⟨node, found, -⟩ := shows
  exact Nat.not_lt_of_le (Slab.firstFree_le_of_get? found) (sharedLiterals_low _ shared)

/-- A literal is a shared constant or a node of the table, and never both. -/
theorem literals_length_le {entries : List (IndexEntry LiteralKey ExprId)}
    (stores : exprs.literals.Stores entries)
    (exact : ∀ key id, ⟨key, id⟩ ∈ entries ↔
      (key, id) ∈ sharedLiterals ∨ exprs.nodes.Shows ExprNode.key? key id) :
    entries.length ≤ sharedLiterals.length + exprs.nodes.size := by
  have targets : (sharedLiterals.map Prod.snd ++ exprs.nodes.handles).length =
      sharedLiterals.length + exprs.nodes.size := by
    rw [List.length_append, List.length_map, Slab.length_handles]
  rw [← targets]
  apply stores.length_le_targets exact
  · intro first second id one two
    rcases one with one | one
    · rcases two with two | two
      · exact sharedLiterals_inj _ one _ two rfl
      · exact absurd two (not_shows_of_shared one)
    · rcases two with two | two
      · exact absurd one (not_shows_of_shared two)
      · exact Index.leadsInto_shows.apart (.inr one) (.inr two)
  · intro key id held
    apply List.mem_append.mpr
    rcases held with shared | shows
    · exact .inl (List.mem_map.mpr ⟨(key, id), shared, rfl⟩)
    · obtain ⟨node, found, -⟩ := shows
      exact .inr (Slab.mem_handles.mpr ⟨node, found⟩)

theorem exists_literal (canonical : exprs.Canonical) (room : census.next + 1 < positionLimit)
    (fits : Table.firstFree .expr + exprs.nodes.size < positionLimit) (type : TypeId) (text : Symbol) :
    ∃ id after counted, exprs.literal type text census = .ok (id, after, counted) := by
  let make : Slab .expr ExprNode × Census → Checked (ExprId × Slab .expr ExprNode × Census) :=
    fun state => push (.literal type text) (some type) state.1 state.2
  obtain ⟨id, grown, counted, made⟩ : ∃ id grown counted,
      make (exprs.nodes, census) = .ok (id, grown, counted) :=
    exists_enrolled room fits _ (⟨·, .literal type text, some type⟩)
  have few : ∀ entries, exprs.literals.Stores entries →
      (∀ key id, ⟨key, id⟩ ∈ entries ↔
        (key, id) ∈ sharedLiterals ∨ exprs.nodes.Shows ExprNode.key? key id) →
      entries.length < positionLimit := by
    intro entries stores exact
    have counted := literals_length_le stores exact
    simp only [sharedLiterals, List.length_cons, List.length_nil, Table.firstFree] at counted fits
    omega
  obtain ⟨result, larger, final, given⟩ :=
    Index.Indexes.exists_getOrMake_of_lt canonical.covers few ⟨type, text⟩ made
  exact ⟨_, _, _, Checked.bind_eq_ok.mpr ⟨_, given, rfl⟩⟩

end ExprTable

namespace Program

variable {known : Answer → Prop} {program after : Program}

/-- The census counts the nodes of every table. -/
theorem Tallied.nodeCount_le (tallied : program.Tallied) (group : Group) :
    Table.firstFree .node + program.nodeCount group ≤ program.census.next := by
  have started := tallied.started
  have total := tallied.total_eq
  have counted : program.nodeCount group ≤ program.census.total := by
    rw [total, ← length_roster]
    simp only [Group.all, List.map_cons, List.map_nil, List.sum_cons, List.sum_nil]
    cases group <;> omega
  simp only [Census.total] at counted
  omega

/-- With a number left for a node, every table has room for one, since none keeps more of
its positions for constants than the numbers do. -/
theorem Tallied.fits (tallied : program.Tallied) (room : program.census.next + 1 < positionLimit)
    (group : Group) {kept : Nat} (low : kept ≤ Table.firstFree .node) :
    kept + program.nodeCount group < positionLimit := by
  have counted := tallied.nodeCount_le group
  omega

/-- Numbers of nodes are positions. -/
def InRange (program : Program) : Prop := program.census.next < positionLimit

theorem InRange.enroll {census counted : Census} {category : Category} {number : NodeId}
    (enrolled : census.enroll category = .ok (number, counted)) : counted.next < positionLimit := by
  rw [(Census.enroll_eq_ok enrolled).2.1]
  exact Census.enroll_room enrolled

theorem InRange.name {names former : NameTable} {kind : NameKind} {id : NameId} {census counted : Census}
    (inRange : census.next < positionLimit)
    (given : former.canonical kind census = .ok (id, names, counted)) : counted.next < positionLimit := by
  rcases NameTable.canonical_cases given with ⟨-, rfl⟩ | ⟨enrolled, ⟨_, _, numbered, -⟩, rfl⟩
  · rwa [Census.next_countRequest]
  · rw [Census.next_countRequest]
    exact InRange.enroll numbered

theorem InRange.type {types former : TypeTable} {kind : TypeKind} {id : TypeId} {census counted : Census}
    (inRange : census.next < positionLimit) (structural : kind.IsStructural)
    (given : former.canonical kind census = .ok (id, types, counted)) : counted.next < positionLimit := by
  rcases TypeTable.canonical_cases structural.2 given with ⟨-, rfl⟩ | ⟨enrolled, ⟨_, _, numbered, -⟩, rfl⟩
  · rwa [Census.next_countRequest]
  · rw [Census.next_countRequest]
    exact InRange.enroll numbered

theorem Change.keeps_inRange (change : program.Change known after) (inRange : program.InRange) :
    after.InRange := by
  cases change with
  | name _ _ given | templateId _ _ given => exact InRange.name inRange given
  | simpleType simple _ given =>
    exact InRange.type inRange (TypeKind.structural_of_isSimple simple) given
  | qualifiedType _ _ given => exact InRange.type inRange (TypeKind.structural_qualifiedWith ..) given
  | product _ _ given => exact InRange.type inRange (TypeKind.structural_product _) given
  | sum _ _ given => exact InRange.type inRange (TypeKind.structural_sum _) given
  | userType _ given =>
    obtain ⟨_, enrolled, -⟩ := TypeTable.fresh_parts given
    exact InRange.enroll enrolled
  | literal _ given =>
    rcases ExprTable.literal_cases given with ⟨-, rfl⟩ | ⟨enrolled, ⟨_, _, numbered, -⟩, rfl⟩
    · simpa only [InRange, Census.next_countRequest] using inRange
    · simpa only [InRange, Census.next_countRequest] using InRange.enroll numbered
  | expr _ given =>
    obtain ⟨_, _, enrolled, -⟩ := ExprTable.fresh_enrols given
    exact InRange.enroll enrolled
  | stmt enrolled | directive enrolled => exact InRange.enroll enrolled
  | decl _ _ _ _ _ _ _ enrolled => exact InRange.enroll enrolled
  | _ => exact inRange

theorem Reaches.keeps_inRange (reaches : program.Reaches known after) (inRange : program.InRange) :
    after.InRange := by
  induction reaches with
  | refl => exact inRange
  | tail _ change ih => exact change.keeps_inRange ih

theorem inRange_initial {hash : Bytes → UInt64} {sizing : Sizing}
    (began : initial hash sizing = .ok program) : program.InRange := by
  obtain ⟨exprs, before, -, reaches, equal⟩ := initial_reaches (fun _ => True) began
  have inRange : before.InRange := reaches.keeps_inRange (by simp [InRange, Table.firstFree, positionLimit])
  rw [equal]
  exact inRange

end Program

end CanonIR
