import CanonIR.Proofs.IndexLaws
import CanonIR.Proofs.KeyOrder
import CanonIR.Space.Scope

/-! Scope tables. Two indices after one another lead from a name and a type to a chain:
the one of the scope to an overload set, and that of the overload set to the chain. -/

namespace CanonIR

namespace ScopeTable

variable {table after : ScopeTable} {scope : ScopeId} {name : NameId} {type : TypeId} {chain : ChainId}
  {id : OverloadId} {holds : ScopeId → NameId → TypeId → ChainId → Prop}

/-- What a scope is about, apart from what its names lead to. -/
def outline? (table : ScopeTable) (scope : ScopeId) : Option (RegionId × Array DeclId) :=
  (table.scopes.get? scope).map fun entry => (entry.region, entry.members)

/-- The overload set is that of the name in the scope. -/
def Groups (table : ScopeTable) (scope : ScopeId) (name : NameId) (id : OverloadId) : Prop :=
  ∃ overload, table.overloads.get? id = some overload ∧ overload.scope = scope ∧ overload.name = name

/-- Name and type lead to a chain exactly where `holds` does. There may be overload sets
that lead nowhere. -/
structure Leads (table : ScopeTable) (holds : ScopeId → NameId → TypeId → ChainId → Prop) : Prop where
  names : ∀ {id scope}, table.scopes.get? id = some scope → scope.overloads.Indexes (table.Groups id)
  types : ∀ {id overload}, table.overloads.get? id = some overload →
    overload.entries.Indexes (holds overload.scope overload.name)
  placed : ∀ {scope name id}, table.Groups scope name id → (table.scopes.get? scope).isSome
  grouped : ∀ {scope name type chain}, holds scope name type chain → ∃ id, table.Groups scope name id

/-- The same, where every overload set leads somewhere. -/
structure Indexes (table : ScopeTable) (holds : ScopeId → NameId → TypeId → ChainId → Prop) : Prop
    extends table.Leads holds where
  inhabited : ∀ {scope name id}, table.Groups scope name id → ∃ type chain, holds scope name type chain

theorem Indexes.congr {same : ScopeId → NameId → TypeId → ChainId → Prop} (indexes : table.Indexes holds)
    (agree : ∀ scope name type chain, holds scope name type chain ↔ same scope name type chain) :
    table.Indexes same := by
  have equal : holds = same := by
    funext scope name type chain
    exact propext (agree scope name type chain)
  exact equal ▸ indexes

theorem indexes_empty : ({} : ScopeTable).Indexes fun _ _ _ _ => False where
  names found := by simp [Slab.get?] at found
  types found := by simp [Slab.get?] at found
  placed groups := by simp [Groups, Slab.get?] at groups
  grouped := False.elim
  inhabited groups := by simp [Groups, Slab.get?] at groups

/-! ### Looking up -/

section Lookup

variable {entry : Scope} (here : table.scopes.get? scope = some entry)

include here

theorem find?_eq : table.find? scope name = entry.overloads.get? name := by
  simp [find?, Slab.get_eq_ok.mpr here]

theorem Leads.find?_eq_ok (leads : table.Leads holds) {result : Option OverloadId} :
    table.find? scope name = .ok result ↔ ∀ id, result = some id ↔ table.Groups scope name id := by
  rw [find?_eq here, (leads.names here).get?_eq_ok]

theorem Leads.exists_find? (leads : table.Leads holds) (name : NameId) :
    ∃ result, table.find? scope name = .ok result := by
  rw [find?_eq here]
  exact (leads.names here).exists_get? name

theorem Leads.groups_unique (leads : table.Leads holds) {other : OverloadId}
    (one : table.Groups scope name id) (two : table.Groups scope name other) : id = other := by
  have first := (leads.names here).get?_eq_some.mpr one
  rw [(leads.names here).get?_eq_some.mpr two] at first
  cases first
  rfl

theorem Leads.findChain?_eq_ok (leads : table.Leads holds) {result : Option ChainId} :
    table.findChain? scope name type = .ok result ↔
      ∀ chain, result = some chain ↔ holds scope name type chain := by
  obtain ⟨found, looked⟩ := leads.exists_find? here name
  have exact := (leads.find?_eq_ok here).mp looked
  cases found with
  | none =>
    have nowhere : ∀ chain, ¬ holds scope name type chain := by
      intro chain leading
      obtain ⟨id, groups⟩ := leads.grouped leading
      cases (exact id).mpr groups
    simp only [findChain?, looked, Checked.ok_bind, Checked.pure_eq_ok, Except.ok.injEq, nowhere, iff_false]
    constructor
    · rintro rfl
      exact nofun
    · intro absent
      cases result with
      | none => rfl
      | some chain => exact absurd rfl (absent chain)
  | some id =>
    obtain ⟨overload, present, rfl, rfl⟩ := (exact id).mp rfl
    simp only [findChain?, looked, Checked.ok_bind, Slab.get_eq_ok.mpr present]
    exact (leads.types present).get?_eq_ok

/-- Where there is a chain, the overload set that leads to it can be looked up. -/
theorem Leads.exists_overload (leads : table.Leads holds) (leading : holds scope name type chain) :
    ∃ id overload, table.find? scope name = .ok (some id) ∧ table.overloads.get? id = some overload ∧
      overload.entries.get? type = .ok (some chain) := by
  obtain ⟨id, overload, present, rfl, rfl⟩ := leads.grouped leading
  refine ⟨id, overload, ?_, present, (leads.types present).get?_eq_some.mpr leading⟩
  rw [find?_eq here]
  exact (leads.names here).get?_eq_some.mpr ⟨overload, present, rfl, rfl⟩

theorem Leads.findChain?_eq_some (leads : table.Leads holds) :
    table.findChain? scope name type = .ok (some chain) ↔ holds scope name type chain := by
  constructor
  · intro found
    exact ((leads.findChain?_eq_ok here).mp found chain).mp rfl
  · intro leading
    obtain ⟨id, overload, looked, present, found⟩ := leads.exists_overload here leading
    simp only [findChain?, looked, Checked.ok_bind, Slab.get_eq_ok.mpr present, found]

theorem Leads.chain_unique (leads : table.Leads holds) {other : ChainId}
    (one : holds scope name type chain) (two : holds scope name type other) : chain = other := by
  have first := (leads.findChain?_eq_some here).mpr one
  rw [(leads.findChain?_eq_some here).mpr two] at first
  cases first
  rfl

end Lookup

/-! ### Binding -/

theorem outline?_congr {scopes : Slab .scope Scope} {overloads : Slab .overload Overload}
    {change : Scope → Scope} (changed : table.scopes.modify scope change = .ok scopes)
    (same : ∀ entry, (change entry).region = entry.region ∧ (change entry).members = entry.members)
    (other : ScopeId) : outline? ⟨scopes, overloads⟩ other = table.outline? other := by
  simp only [outline?, Slab.get?_modify changed]
  split
  next equal =>
    subst equal
    simp [Function.comp_def, same]
  · rfl

theorem groups_push {overloads : Slab .overload Overload} {scopes : Slab .scope Scope} {overload : Overload}
    (pushed : table.overloads.push overload = .ok (id, overloads)) {set : ScopeId} {label : NameId}
    {other : OverloadId} : Groups ⟨scopes, overloads⟩ set label other ↔
      table.Groups set label other ∨ set = overload.scope ∧ label = overload.name ∧ other = id := by
  simp only [Groups, Slab.get?_of_push pushed]
  split
  next same =>
    subst same
    simp [Slab.fresh_of_push pushed, eq_comm]
  next different => simp [different]

theorem groups_modify {overloads : Slab .overload Overload} {scopes : Slab .scope Scope}
    {entries : Index TypeId ChainId}
    (changed : table.overloads.modify id ({ · with entries }) = .ok overloads) {set : ScopeId}
    {label : NameId} {other : OverloadId} :
    Groups ⟨scopes, overloads⟩ set label other ↔ table.Groups set label other := by
  simp only [Groups, Slab.get?_modify changed]
  split
  next same =>
    subst same
    cases table.overloads.get? other <;> simp
  · rfl

section Group

variable {entry : Scope} {fresh : Bool} {names : Index NameId OverloadId}
  {overloads : Slab .overload Overload} {scopes : Slab .scope Scope}
  (here : table.scopes.get? scope = some entry)
  (given : entry.overloads.getOrMake name (Slab.push { name, scope }) table.overloads =
    .ok ((id, fresh), names, overloads))

include here given

/-- The overload set of a name is found or made. -/
theorem Leads.groups_getOrMake (leads : table.Leads holds) {set : ScopeId} {label : NameId}
    {other : OverloadId} : Groups ⟨scopes, overloads⟩ set label other ↔
      table.Groups set label other ∨ set = scope ∧ label = name ∧ other = id := by
  rcases (leads.names here).getOrMake_eq_ok given with ⟨known, -, rfl⟩ | ⟨-, made, -⟩
  · refine (or_iff_left_of_imp ?_).symm
    rintro ⟨rfl, rfl, rfl⟩
    exact known
  · exact groups_push made

theorem Leads.names_getOrMake (leads : table.Leads holds) :
    names.Indexes (Groups ⟨scopes, overloads⟩ scope) := by
  have groups : ∀ label other, Groups ⟨scopes, overloads⟩ scope label other ↔
      table.Groups scope label other ∨ label = name ∧ other = id := by
    simp [leads.groups_getOrMake here given]
  rcases (leads.names here).getOrMake_eq_ok given with ⟨known, rfl, rfl⟩ | ⟨-, -, grown⟩
  · exact leads.names here
  · exact grown.congr fun label other => (groups label other).symm

/-- A new overload set leads nowhere. -/
theorem Leads.types_getOrMake (leads : table.Leads holds) {other : OverloadId} {overload : Overload}
    (present : overloads.get? other = some overload) :
    overload.entries.Indexes (holds overload.scope overload.name) := by
  rcases (leads.names here).getOrMake_eq_ok given with ⟨-, -, rfl⟩ | ⟨missing, made, -⟩
  · exact leads.types present
  · rw [Slab.get?_of_push made] at present
    split at present
    · cases present
      refine Index.indexes_empty.congr fun type chain => ⟨False.elim, fun leading => ?_⟩
      obtain ⟨known, groups⟩ := leads.grouped leading
      exact missing known groups
    · exact leads.types present

/-- With an overload set for its name, the scope leads where it led before. -/
theorem Leads.group (leads : table.Leads holds)
    (changed : table.scopes.modify scope ({ · with overloads := names }) = .ok scopes) :
    Leads ⟨scopes, overloads⟩ holds where
  names {other found} present := by
    have labels : names.Indexes (Groups ⟨scopes, overloads⟩ scope) := leads.names_getOrMake here given
    simp only [Slab.get?_modify changed] at present
    split at present
    next same =>
      subst same
      simp only [here, Option.map_some, Option.some.injEq] at present
      subst present
      exact labels
    next different =>
      refine (leads.names present).congr fun label overload => ?_
      simp [leads.groups_getOrMake here given, different]
  types := leads.types_getOrMake here given
  placed {set label other} groups := by
    have present : (table.scopes.get? set).isSome := by
      rcases (leads.groups_getOrMake here given).mp groups with known | ⟨rfl, -, -⟩
      · exact leads.placed known
      · simp [here]
    simp only [Slab.get?_modify changed]
    split <;> simp_all
  grouped leading := by
    obtain ⟨other, groups⟩ := leads.grouped leading
    exact ⟨other, (leads.groups_getOrMake here given).mpr (.inl groups)⟩

end Group

/-- A chain that is found is bound as before. -/
theorem Leads.extend_known (leads : table.Leads holds) {overload : Overload}
    {overloads : Slab .overload Overload} (here : table.overloads.get? id = some overload)
    (changed : table.overloads.modify id ({ · with entries := overload.entries }) = .ok overloads) :
    Leads ⟨table.scopes, overloads⟩ holds where
  names present := (leads.names present).congr fun _ _ => (groups_modify changed).symm
  types {other found} present := by
    simp only [Slab.get?_modify changed] at present
    split at present
    · simp only [here, Option.map_some, Option.some.injEq] at present
      subst present
      exact leads.types here
    · exact leads.types present
  placed groups := leads.placed ((groups_modify changed).mp groups)
  grouped leading := by
    obtain ⟨other, groups⟩ := leads.grouped leading
    exact ⟨other, (groups_modify changed).mpr groups⟩

theorem Leads.extend_new (leads : table.Leads holds) {overload : Overload}
    {types : Index TypeId ChainId} {overloads : Slab .overload Overload}
    (here : table.overloads.get? id = some overload)
    (grown : types.Indexes fun key value =>
      holds overload.scope overload.name key value ∨ key = type ∧ value = chain)
    (changed : table.overloads.modify id ({ · with entries := types }) = .ok overloads) :
    Leads ⟨table.scopes, overloads⟩ fun set label key value => holds set label key value ∨
      set = overload.scope ∧ label = overload.name ∧ key = type ∧ value = chain where
  names present := (leads.names present).congr fun _ _ => (groups_modify changed).symm
  types {other found} present := by
    simp only [Slab.get?_modify changed] at present
    split at present
    · simp only [here, Option.map_some, Option.some.injEq] at present
      subst present
      exact grown.congr fun key value => by simp
    next different =>
      -- No other overload set is for the same name in the same scope.
      have apart : ¬ (found.scope = overload.scope ∧ found.name = overload.name) := by
        rintro ⟨same, alike⟩
        have groups : table.Groups overload.scope overload.name id := ⟨overload, here, rfl, rfl⟩
        obtain ⟨entry, placed⟩ := Option.isSome_iff_exists.mp (leads.placed groups)
        exact different (leads.groups_unique placed ⟨found, present, same, alike⟩ groups)
      refine (leads.types present).congr fun key value => ?_
      grind
  placed groups := leads.placed ((groups_modify changed).mp groups)
  grouped {set label key value} leading := by
    have groups : ∃ other, table.Groups set label other := by
      rcases leading with leading | ⟨rfl, rfl, -⟩
      · exact leads.grouped leading
      · exact ⟨id, overload, here, rfl, rfl⟩
    obtain ⟨other, groups⟩ := groups
    exact ⟨other, (groups_modify changed).mpr groups⟩

/-- What `bind` does: it finds the chain of a name and a type, or makes it and binds it.
Members stay what they were. -/
theorem Indexes.bind_eq_ok {σ : Type} {newChain : σ → Checked (ChainId × σ)} {state final : σ}
    (indexes : table.Indexes holds)
    (bound : table.bind scope name type newChain state = .ok (chain, after, final)) :
    (∀ other, after.outline? other = table.outline? other) ∧
    (holds scope name type chain ∧ final = state ∧ after.Indexes holds ∨
      (∀ other, ¬ holds scope name type other) ∧ newChain state = .ok (chain, final) ∧
        after.Indexes fun set label key value => holds set label key value ∨
          set = scope ∧ label = name ∧ key = type ∧ value = chain) := by
  obtain ⟨entry, read, bound⟩ := Checked.bind_eq_ok.mp bound
  have here := Slab.get_eq_ok.mp read
  obtain ⟨⟨⟨id, _⟩, names, opened⟩, given, bound⟩ := Checked.bind_eq_ok.mp bound
  obtain ⟨scopes, changed, bound⟩ := Checked.bind_eq_ok.mp bound
  obtain ⟨overload, read, bound⟩ := Checked.bind_eq_ok.mp bound
  have present := Slab.get_eq_ok.mp read
  obtain ⟨⟨⟨_, _⟩, types, _⟩, chained, bound⟩ := Checked.bind_eq_ok.mp bound
  obtain ⟨overloads, extended, equal⟩ := Checked.bind_eq_ok.mp bound
  cases equal
  have leads := indexes.toLeads.group here given changed
  have groups : ∀ {set label other}, Groups ⟨scopes, opened⟩ set label other ↔
      table.Groups set label other ∨ set = scope ∧ label = name ∧ other = id :=
    indexes.toLeads.groups_getOrMake here given
  obtain ⟨_, again, rfl, rfl⟩ := groups.mpr (.inr ⟨rfl, rfl, rfl⟩)
  cases present.symm.trans again
  refine ⟨outline?_congr changed fun _ => ⟨rfl, rfl⟩, ?_⟩
  have former : ∀ {set label other}, Groups ⟨scopes, overloads⟩ set label other →
      table.Groups set label other ∨ set = overload.scope ∧ label = overload.name := fun grouped =>
    (groups.mp ((groups_modify extended).mp grouped)).imp_right fun same => ⟨same.1, same.2.1⟩
  rcases (leads.types present).getOrMake_eq_ok chained with ⟨known, rfl, rfl⟩ | ⟨missing, made, grown⟩
  · refine .inl ⟨known, rfl, leads.extend_known present extended, fun grouped => ?_⟩
    rcases former grouped with old | ⟨rfl, rfl⟩
    · exact indexes.inhabited old
    · exact ⟨type, chain, known⟩
  · refine .inr ⟨missing, made, leads.extend_new present grown extended, fun grouped => ?_⟩
    rcases former grouped with old | ⟨rfl, rfl⟩
    · obtain ⟨key, value, leading⟩ := indexes.inhabited old
      exact ⟨key, value, .inl leading⟩
    · exact ⟨type, chain, .inr ⟨rfl, rfl, rfl, rfl⟩⟩

/-! ### Scopes and their members -/

section Scopes

variable {scopes : Slab .scope Scope} {region : RegionId} {decl : DeclId}

theorem outline?_push (opened : table.scopes.push { region } = .ok (scope, scopes)) (other : ScopeId) :
    outline? { table with scopes } other =
      if other = scope then some (region, #[]) else table.outline? other := by
  simp only [outline?, Slab.get?_of_push opened]
  split <;> rfl

/-- A new scope has no overload sets, since each of those is in an older scope. -/
theorem Indexes.push (indexes : table.Indexes holds)
    (opened : table.scopes.push { region } = .ok (scope, scopes)) :
    Indexes { table with scopes } holds where
  names {id entry} present := by
    rw [Slab.get?_of_push opened] at present
    split at present
    next same =>
      subst same
      cases present
      refine Index.indexes_empty.congr fun name overload => ⟨False.elim, fun groups => ?_⟩
      have placed : (table.scopes.get? id).isSome := indexes.placed groups
      rw [Slab.fresh_of_push opened] at placed
      cases placed
    · exact indexes.names present
  types := indexes.types
  placed groups := by
    obtain ⟨entry, present⟩ := Option.isSome_iff_exists.mp (indexes.placed groups)
    simp [Slab.get?_kept opened present]
  grouped := indexes.grouped
  inhabited := indexes.inhabited

theorem outline?_pushMember (listed : table.pushMember scope decl = .ok after) (other : ScopeId) :
    after.outline? other = if other = scope then
      (table.outline? scope).map fun (region, members) => (region, members.push decl)
      else table.outline? other := by
  obtain ⟨scopes, changed, equal⟩ := Checked.bind_eq_ok.mp listed
  cases equal
  simp only [outline?, Slab.get?_modify changed]
  split
  · simp [Function.comp_def]
  · rfl

theorem Indexes.pushMember (indexes : table.Indexes holds)
    (listed : table.pushMember scope decl = .ok after) : after.Indexes holds := by
  obtain ⟨scopes, changed, equal⟩ := Checked.bind_eq_ok.mp listed
  cases equal
  refine ⟨⟨fun {id entry} present => ?_, indexes.types, fun {set label id} groups => ?_,
    indexes.grouped⟩, indexes.inhabited⟩
  · simp only [Slab.get?_modify changed] at present
    split at present
    next same =>
      subst same
      obtain ⟨old, found, rfl⟩ := Option.map_eq_some_iff.mp present
      have labels : old.overloads.Indexes (table.Groups id) := indexes.names found
      exact labels
    · exact indexes.names present
  · have placed : (table.scopes.get? set).isSome := indexes.placed groups
    simp only [Slab.get?_modify changed]
    split <;> simp_all

end Scopes

end ScopeTable

end CanonIR
