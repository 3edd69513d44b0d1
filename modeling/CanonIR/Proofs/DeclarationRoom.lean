import CanonIR.Proofs.RegionOwners
import CanonIR.Proofs.RequestEffects
import CanonIR.Proofs.TableRoom

/-! Room for a declaration. Every chain and every overload set has a declaration of its own
and every scope a region of its own, so that where there is room for a declaration and for
a region there is room for all that comes with them, and nothing else can go wrong. -/

namespace CanonIR

theorem Checked.exists_mapM {α β : Type} {read : α → Checked β} {items : List α}
    (readable : ∀ item ∈ items, ∃ result, read item = .ok result) :
    ∃ results, items.mapM read = .ok results := by
  induction items with
  | nil => exact ⟨[], rfl⟩
  | cons item rest ih =>
    obtain ⟨⟨first, found⟩, others⟩ := List.forall_mem_cons.mp readable
    obtain ⟨results, given⟩ := ih others
    exact ⟨first :: results, by simp [List.mapM_cons, found, given]⟩

/-! ### Binding -/

namespace ScopeTable

variable {table : ScopeTable} {scope : ScopeId} {holds : ScopeId → NameId → TypeId → ChainId → Prop}

/-- Different names lead to different overload sets. -/
theorem leadsInto_groups : Index.LeadsInto table.overloads (table.Groups scope) where
  apart := by
    rintro first second value ⟨overload, found, -, rfl⟩ ⟨other, again, -, rfl⟩
    cases found.symm.trans again
    rfl
  inside := by
    rintro name value ⟨overload, found, -⟩
    exact ⟨overload, found⟩

/-- With room for an overload set and a chain, a name and a type can be bound. -/
theorem Indexes.exists_bind (indexes : table.Indexes holds) {entry : Scope}
    (here : table.scopes.get? scope = some entry) {chains : Slab .chain (Array DeclId)}
    (leads : ∀ scope name, Index.LeadsInto chains (holds scope name))
    (sets : Table.firstFree .overload + table.overloads.size < positionLimit)
    (room : Table.firstFree .chain + chains.size < positionLimit) (name : NameId) (type : TypeId) :
    ∃ chain after larger, table.bind scope name type (Slab.push #[]) chains = .ok (chain, after, larger) := by
  obtain ⟨_, _, opens⟩ := Slab.exists_push sets { name, scope : Overload }
  obtain ⟨⟨id, fresh⟩, names, opened, given⟩ := (indexes.names here).exists_getOrMake leadsInto_groups
    (Nat.lt_of_le_of_lt (Nat.le_add_left ..) sets) name opens
  obtain ⟨scopes, changed⟩ : ∃ scopes,
      table.scopes.modify scope ({ · with overloads := names }) = .ok scopes :=
    ⟨_, Slab.modify_eq_ok.mpr ⟨entry, here, rfl⟩⟩
  have grouped := indexes.toLeads.group here given changed
  obtain ⟨overload, present, -⟩ : Groups ⟨scopes, opened⟩ scope name id :=
    (indexes.toLeads.groups_getOrMake here given).mpr (.inr ⟨rfl, rfl, rfl⟩)
  obtain ⟨_, _, begins⟩ := Slab.exists_push room (#[] : Array DeclId)
  obtain ⟨⟨chain, _⟩, types, larger, chained⟩ := (grouped.types present).exists_getOrMake (leads _ _)
    (Nat.lt_of_le_of_lt (Nat.le_add_left ..) room) type begins
  obtain ⟨overloads, extended⟩ : ∃ overloads,
      opened.modify id ({ · with entries := types }) = .ok overloads :=
    ⟨_, Slab.modify_eq_ok.mpr ⟨overload, present, rfl⟩⟩
  refine ⟨chain, ⟨scopes, overloads⟩, larger, ?_⟩
  simp only [bind, Slab.get_eq_ok.mpr here, given, changed, Slab.get_eq_ok.mpr present, chained, extended,
    Checked.ok_bind, Checked.pure_eq_ok]

end ScopeTable

namespace Program

variable {program after : Program}

/-! ### Counting -/

section Counting

variable (filed : program.Filed)

include filed

theorem Filed.chains_le : program.decls.chains.size ≤ program.decls.nodes.size := by
  rw [← Slab.length_handles, ← Slab.length_handles]
  refine length_le_of_own (fun chain decl => ∃ node, program.decls.nodes.get? decl = some node ∧
    node.chain = chain) Slab.nodup_handles (fun chain member => ?_) ?_
  · obtain ⟨list, present⟩ := Slab.mem_handles.mp member
    obtain ⟨exact, nonempty⟩ := filed.lists present
    obtain ⟨decl, inside⟩ := List.exists_mem_of_ne_nil list.toList (by simpa using nonempty)
    rw [exact] at inside
    obtain ⟨node, found, joined⟩ := Slab.mem_select.mp inside
    exact ⟨decl, Slab.mem_handles.mpr ⟨node, found⟩, node, found, by simpa using joined⟩
  · rintro first second decl ⟨node, found, rfl⟩ ⟨other, again, rfl⟩
    cases found.symm.trans again
    rfl

theorem Filed.overloads_le : program.scopes.overloads.size ≤ program.decls.nodes.size := by
  rw [← Slab.length_handles, ← Slab.length_handles]
  refine length_le_of_own (fun id decl => ∃ overload node, program.scopes.overloads.get? id = some overload ∧
    program.decls.nodes.get? decl = some node ∧
    scopeOf? program.regions node.home = some overload.scope ∧ node.name = overload.name)
    Slab.nodup_handles (fun id member => ?_) ?_
  · obtain ⟨overload, present⟩ := Slab.mem_handles.mp member
    obtain ⟨type, chain, decl, node, found, opened, named, -⟩ :=
      filed.bound.inhabited ⟨overload, present, rfl, rfl⟩
    exact ⟨decl, Slab.mem_handles.mpr ⟨node, found⟩, overload, node, present, found, opened, named⟩
  · rintro first second decl ⟨one, node, present, found, opened, named⟩
      ⟨two, _, there, again, placed, labelled⟩
    cases found.symm.trans again
    have groups : program.scopes.Groups one.scope one.name first := ⟨one, present, rfl, rfl⟩
    obtain ⟨entry, here⟩ := Option.isSome_iff_exists.mp (filed.bound.placed groups)
    refine filed.bound.groups_unique here groups ⟨two, there, ?_, labelled.symm.trans named⟩
    exact Option.some.inj (placed.symm.trans opened)

theorem Filed.scopes_le : program.scopes.scopes.size ≤ program.regions.size := by
  rw [← Slab.length_handles, ← Slab.length_handles]
  refine length_le_of_own (fun scope region => scopeOf? program.regions region = some scope)
    Slab.nodup_handles (fun scope member => ?_) ?_
  · obtain ⟨entry, present⟩ := Slab.mem_handles.mp member
    have opened : scopeOf? program.regions entry.region = some scope :=
      (filed.paired _ _).mpr ⟨entry.members, by simp [ScopeTable.outline?, present]⟩
    obtain ⟨region, found, -⟩ := Option.map_eq_some_iff.mp opened
    exact ⟨entry.region, Slab.mem_handles.mpr ⟨region, found⟩, opened⟩
  · intro first second region one two
    exact Option.some.inj (one.symm.trans two)

/-- Different types of one name lead to different chains. -/
theorem Filed.leadsInto_binds (scope : ScopeId) (name : NameId) :
    Index.LeadsInto program.decls.chains (program.Binds scope name) where
  apart := by
    rintro first second chain ⟨_, _, found, -, -, rfl, rfl⟩ ⟨_, _, again, -, -, rfl, joined⟩
    have alike := filed.peers found again joined
    simp only [DeclNode.subject, Prod.mk.injEq] at alike
    exact alike.2.2.1.symm
  inside := by
    rintro type chain ⟨_, _, found, -, -, -, rfl⟩
    obtain ⟨list, present, -⟩ := filed.chained found
    exact ⟨list, present⟩

end Counting

/-! ### Regions for parameters -/

theorem exists_newRegion (filed : program.Filed) (room : program.regions.size < positionLimit)
    {parent : RegionId} {entry : Region} (here : program.region parent = .ok entry) :
    ∃ id after, (newRegion (some parent)).run program = .ok (id, after) := by
  have behind : Table.firstFree .region + program.regions.size < positionLimit := by
    simpa [Table.firstFree] using room
  have beside : Table.firstFree .scope + program.scopes.scopes.size < positionLimit := by
    have fewer := filed.scopes_le
    simp only [Table.firstFree]
    omega
  have planned := Slab.next_eq_ok.mpr ⟨rfl, behind⟩
  obtain ⟨scope, scopes, opened⟩ := Slab.exists_push beside
    { region := ⟨Table.firstFree .region + program.regions.size⟩ : Scope }
  obtain ⟨id, regions, made⟩ := Slab.exists_push behind
    { parent := some parent, scope, depth := entry.depth + 1 : Region }
  refine ⟨id, { program with regions, scopes := { program.scopes with scopes } }, ?_⟩
  have read : program.regions.get parent = .ok entry := here
  simp only [StateT.run, newRegion, planned, opened, read, made, Checked.ok_bind, Checked.pure_eq_ok]

theorem exists_parameterRegion (filed : program.Filed) (room : program.regions.size < positionLimit)
    {home : RegionId} {entry : Region} (here : program.region home = .ok entry) (decl : DeclId) :
    ∃ parameters after, (parameterRegion home decl).run program = .ok (parameters, after) := by
  obtain ⟨parameters, opened, first⟩ := exists_newRegion filed room here
  obtain ⟨region, found, unowned, -⟩ := newRegion_unowned first
  obtain ⟨adopted, owned⟩ := setRegionOwner_unowned found unowned (.decl decl)
  have second : (ownRegion parameters (.decl decl)).run opened = .ok ((), adopted) :=
    Checked.bind_eq_ok.mpr ⟨_, owned, rfl⟩
  exact ⟨parameters, adopted, Checked.bind_eq_ok.mpr ⟨_, first, Checked.bind_eq_ok.mpr ⟨_, second, rfl⟩⟩⟩

/-! ### Declarations -/

/-- What a declaration needs beforehand can be made, and declares and counts nothing. -/
def Supplies (program : Program) (make : Edit DeclKind) : Prop :=
  ∃ kind prepared, make.run program = .ok (kind, prepared) ∧ prepared.Filed ∧
    program.KeepsBindings prepared ∧ prepared.census = program.census

theorem supplies_pure (filed : program.Filed) (kind : DeclKind) : program.Supplies (pure kind) :=
  ⟨kind, program, rfl, filed, .refl program, rfl⟩

theorem supplies_parameterRegion (filed : program.Filed) (room : program.regions.size < positionLimit)
    {home : RegionId} {entry : Region} (here : program.region home = .ok entry) (decl : DeclId)
    (kind : RegionId → DeclKind) : program.Supplies (do return kind (← parameterRegion home decl)) := by
  obtain ⟨parameters, prepared, made⟩ := exists_parameterRegion filed room here decl
  refine ⟨kind parameters, prepared, Checked.bind_eq_ok.mpr ⟨_, made, rfl⟩, ?_⟩
  obtain ⟨⟨_, opened⟩, first, made⟩ := Checked.bind_eq_ok.mp made
  obtain ⟨⟨_, _⟩, second, equal⟩ := Checked.bind_eq_ok.mp made
  cases equal
  have reaches : program.Reaches (fun _ => True) prepared :=
    (newRegion_inside_moves first).trans (ownRegion_moves second)
  refine ⟨reaches.keeps_filed filed, (newRegion_keeps first).trans (ownRegion_keeps second), ?_⟩
  obtain ⟨region, found, unowned, -⟩ := newRegion_unowned first
  obtain ⟨regions, -, rfl⟩ := ownRegion_unowned second found unowned
  obtain ⟨_, _, _, _, -, -, -, -, rfl⟩ := newRegion_eq_ok first
  rfl

theorem exists_joinChain (filed : program.Filed) (room : program.decls.nodes.size < positionLimit)
    {home : RegionId} {region : Region} (here : program.region home = .ok region) (name : NameId)
    (type : TypeId) (decl : DeclId) :
    ∃ chain index after, (joinChain region.scope name type decl).run program = .ok ((chain, index), after) ∧
      after.decls.nodes = program.decls.nodes ∧ after.census = program.census ∧
      ∃ entry, after.scopes.scopes.get? region.scope = some entry := by
  obtain ⟨entry, opened⟩ := filed.exists_scope here
  have sets : Table.firstFree .overload + program.scopes.overloads.size < positionLimit := by
    have fewer := filed.overloads_le
    simp only [Table.firstFree]
    omega
  have fits : Table.firstFree .chain + program.decls.chains.size < positionLimit := by
    have fewer := filed.chains_le
    simp only [Table.firstFree]
    omega
  obtain ⟨chain, bound, chains, chained⟩ :=
    filed.bound.exists_bind opened filed.leadsInto_binds sets fits name type
  obtain ⟨outlines, outcome⟩ := filed.bound.bind_eq_ok chained
  obtain ⟨list, present, short⟩ : ∃ list, chains.get? chain = some list ∧ list.size < positionLimit := by
    rcases outcome with ⟨⟨id, node, found, -, -, -, rfl⟩, rfl, -⟩ | ⟨-, begun, -⟩
    · obtain ⟨list, present, -⟩ := filed.chained found
      refine ⟨list, present, ?_⟩
      rw [← Array.length_toList, (filed.lists present).1]
      exact Nat.lt_of_le_of_lt Slab.length_select_le room
    · exact ⟨#[], Slab.get?_pushed begun, by simp [positionLimit]⟩
  obtain ⟨longer, changed⟩ : ∃ longer, chains.modify chain (·.push decl) = .ok longer :=
    ⟨_, Slab.modify_eq_ok.mpr ⟨list, present, rfl⟩⟩
  have appended : { program.decls with chains }.appendToChain chain decl =
      .ok (list.size, { program.decls with chains := longer }) := by
    simp only [DeclTable.appendToChain, Slab.get_eq_ok.mpr present, position_eq_ok.mpr ⟨rfl, short⟩, changed,
      Checked.ok_bind, Checked.pure_eq_ok]
  refine ⟨chain, list.size, _, joinChain_eq_ok.mpr ⟨bound, chains, _, chained, appended, rfl⟩, rfl, rfl, ?_⟩
  have outlined : bound.outline? region.scope = some (entry.region, entry.members) := by
    rw [outlines]
    simp [ScopeTable.outline?, opened]
  obtain ⟨now, there, -⟩ := Option.map_eq_some_iff.mp outlined
  exact ⟨now, there⟩

theorem exists_pushDecl (program : Program) (room : program.decls.nodes.size < positionLimit)
    {scope : ScopeId} {entry : Scope}
    (here : program.scopes.scopes.get? scope = some entry) (node : DeclNode) :
    ∃ id after, (pushDecl scope node).run program = .ok (id, after) := by
  have behind : Table.firstFree .decl + program.decls.nodes.size < positionLimit := by
    simpa [Table.firstFree] using room
  obtain ⟨id, nodes, made⟩ := Slab.exists_push behind node
  obtain ⟨scopes, listed⟩ : ∃ scopes, program.scopes.pushMember scope id = .ok scopes :=
    ⟨_, Checked.bind_eq_ok.mpr ⟨_, Slab.modify_eq_ok.mpr ⟨entry, here, rfl⟩, rfl⟩⟩
  exact ⟨id, _, pushDecl_eq_ok.mpr ⟨nodes, scopes, made, listed, rfl⟩⟩

/-- With a number for a node left, a declaration that agrees with those before it is made. -/
theorem exists_declare (tallied : program.Tallied) (room : program.census.next + 1 < positionLimit)
    {home : RegionId} {region : Region} (here : program.region home = .ok region)
    {name : NameId} {type : TypeId} {specifiers : Specifiers}
    {category : Category} {make : DeclId → Option DeclId → Edit DeclKind} {master : Option DeclId}
    (allowed : ¬ specifiers.isConflicting)
    (agreed : program.joinedMaster home name type category = .ok (.ok master))
    (supplies : ∀ id, program.Supplies (make id master)) :
    ∃ id after, (declare home name type specifiers category make).run.run program =
      .ok (.ok id, after) := by
  have counted : Table.firstFree .node + program.decls.nodes.size ≤ program.census.next :=
    tallied.nodeCount_le .decl
  have fits : program.decls.nodes.size < positionLimit := by omega
  obtain ⟨id, planned⟩ : ∃ id, program.decls.nodes.next = .ok id :=
    ⟨_, Slab.next_eq_ok.mpr ⟨rfl, by simpa [Table.firstFree] using fits⟩⟩
  obtain ⟨kind, prepared, made, filed, keeps, numbered⟩ := supplies id
  obtain ⟨now, present, same⟩ := keeps.regions here
  rw [← keeps.decls] at fits
  obtain ⟨chain, index, joined, joins, nodes, census, entry, opened⟩ :=
    exists_joinChain filed fits present name type id
  rw [same] at joins opened
  rw [← numbered, ← census] at room
  obtain ⟨number, counted, enrolled⟩ := Census.exists_enroll room category
  have enrolls : (enrollNode category).run joined = .ok (number, { joined with census := counted }) :=
    enrollNode_eq_ok.mpr ⟨counted, enrolled, rfl⟩
  rw [← nodes] at fits
  let node : DeclNode := ⟨number, name, type, home, specifiers, chain, index, master.getD id, kind⟩
  obtain ⟨last, after, pushed⟩ := exists_pushDecl { joined with census := counted } fits opened node
  refine ⟨last, after, ?_⟩
  unfold declare
  rw [if_neg allowed]
  refine Build.run_get_bind.mpr (Build.run_check_bind.mpr ⟨region, here, ?_⟩)
  refine Build.run_get_bind.mpr (Build.run_check_bind.mpr ⟨.ok master, agreed, ?_⟩)
  refine Build.run_get_bind.mpr (Build.run_check_bind.mpr ⟨_, planned, ?_⟩)
  refine Build.run_edit_bind.mpr ⟨kind, prepared, made, ?_⟩
  refine Build.run_edit_bind.mpr ⟨(chain, index), joined, joins, ?_⟩
  exact Build.run_edit_bind.mpr ⟨number, _, enrolls, Build.run_edit.mpr ⟨last, pushed, rfl⟩⟩

theorem exists_parameterCount (filed : program.Filed) (tallied : program.Tallied)
    (inRange : program.InRange) {home : RegionId} {region : Region}
    (here : program.region home = .ok region) :
    ∃ count, program.parameterCount region.scope = .ok count ∧ position "parameters" count = .ok count := by
  obtain ⟨members, outlined⟩ := filed.outlined here
  have exact := filed.members outlined
  obtain ⟨entry, opened, equal⟩ := Option.map_eq_some_iff.mp outlined
  cases equal
  obtain ⟨categories, read⟩ : ∃ categories, (entry.members.toList.mapM fun member =>
      return (← program.declNode member).category : Checked (List Category)) = .ok categories := by
    refine Checked.exists_mapM fun member inside => ?_
    rw [exact] at inside
    obtain ⟨node, found, -⟩ := Slab.mem_select.mp inside
    exact ⟨node.category, by simp [declNode, Slab.get_eq_ok.mpr found]⟩
  refine ⟨categories.count .parameter, ?_, position_eq_ok.mpr ⟨rfl, ?_⟩⟩
  · exact Checked.bind_eq_ok.mpr ⟨entry, Slab.get_eq_ok.mpr opened,
      Checked.bind_eq_ok.mpr ⟨categories, read, rfl⟩⟩
  · have counted : Table.firstFree .node + program.decls.nodes.size ≤ program.census.next :=
      tallied.nodeCount_le .decl
    have numbers : program.census.next < positionLimit := inRange
    calc categories.count .parameter ≤ categories.length := List.count_le_length
      _ = entry.members.toList.length := (Checked.mapM_eq_ok.mp read).length_eq.symm
      _ ≤ program.decls.nodes.size := exact ▸ Slab.length_select_le
      _ < positionLimit := by omega

/-! ### Specializations -/

/-- There are numbers for two nodes and handles for a region and a list of terms. -/
structure HasRoom (program : Program) : Prop where
  nodes : program.census.next + 2 < positionLimit
  regions : program.regions.size < positionLimit
  lists : program.names.terms.size < positionLimit

theorem exists_templateId (canonical : program.Canonical) (tallied : program.Tallied)
    (numbers : program.census.next + 1 < positionLimit)
    (lists : program.names.terms.size < positionLimit) (template : NameId) (args : List Term) :
    ∃ name after, (templateId template args).run program = .ok (name, after) := by
  obtain ⟨list, listed, kept⟩ := canonical.names.exists_keepTerms lists args
  obtain ⟨middle, -, -, nodes, -⟩ := NameTable.keepTerms_eq_ok canonical.names kept
  have fits : listed.nodes.size < positionLimit := by
    rw [nodes]
    exact Nat.lt_of_le_of_lt (Nat.le_add_left ..) (tallied.fits numbers .name (Nat.le_refl _))
  obtain ⟨name, names, census, given⟩ :=
    NameTable.exists_canonical middle numbers fits (.templateId template list)
  exact ⟨name, _, templateId_eq_ok.mpr ⟨list, listed, names, census, kept, given, rfl⟩⟩

theorem next_templateId_le {template name : NameId} {args : List Term}
    (made : (templateId template args).run program = .ok (name, after)) :
    after.census.next ≤ program.census.next + 1 := by
  obtain ⟨list, listed, names, census, -, given, rfl⟩ := templateId_eq_ok.mp made
  rcases NameTable.canonical_cases given with ⟨-, rfl⟩ | ⟨enrolled, ⟨_, _, numbered, -⟩, rfl⟩
  · rw [Census.next_countRequest]
    exact Nat.le_succ _
  · rw [Census.next_countRequest, (Census.enroll_eq_ok numbered).2.1]

/-- Once its name is made, a specialization that agrees with what is declared by that name is
made. Its arguments are kept already. -/
theorem exists_specialize (canonical : program.Canonical) (filed : program.Filed) (tallied : program.Tallied)
    (room : program.HasRoom) {home : RegionId} {region : Region} (here : program.region home = .ok region)
    {base name : NameId} {args : List Term} {type : TypeId} {primary : DeclId} {named : Program}
    (made : (templateId base args).run program = .ok (name, named)) {master : Option DeclId}
    (agreed : program.joinedMaster home name type .template = .ok (.ok master)) :
    ∃ id after, (specialize home base args type primary).run.run program = .ok (.ok id, after) := by
  have moves : program.Reaches (fun _ => True) named := templateId_moves (fun _ _ => trivial) made
  have numbers := room.nodes
  have fewer := next_templateId_le made
  obtain ⟨_, _, names, census, kept, given, rfl⟩ := templateId_eq_ok.mp made
  obtain ⟨canonical, -, ⟨list, -, readable⟩, -⟩ := NameTable.templateId_eq_ok canonical.names kept given
  have keeps : (keepTerms args).run { program with names, census } =
      .ok (list, { program with names, census }) :=
    Checked.bind_eq_ok.mpr ⟨_, NameTable.keepTerms_known canonical readable, rfl⟩
  let make : DeclId → Option DeclId → Edit DeclKind := fun id _ => do
    return .template (← parameterRegion home id) none primary (some list)
  have supplies : ∀ id, Supplies { program with names, census } (make id master) := fun id =>
    supplies_parameterRegion (moves.keeps_filed filed) room.regions here id _
  obtain ⟨id, declared, declares⟩ := exists_declare (moves.keeps_tallied tallied) (by omega) here
    (by decide : ¬ Specifiers.empty.isConflicting) agreed supplies
  obtain ⟨node, read⟩ : ∃ node, declared.declNode id = .ok node := by
    rcases declare_cases declares fun _ _ => parametrized_quiet with
      ⟨⟨_, impossible⟩, -⟩ | ⟨_, _, _, node, same, -, -, -, gains⟩
    · cases impossible
    · cases same
      exact ⟨node, Slab.get_eq_ok.mpr (Slab.get?_pushed gains.pushed)⟩
  refine ⟨id, if node.isMaster then { declared with decls := declared.decls.listSpecialization primary id }
    else declared, Build.run_edit_bind.mpr ⟨name, _, made, Build.run_edit_bind.mpr ⟨list, _, keeps, ?_⟩⟩⟩
  refine Checked.bind_eq_ok.mpr ⟨_, declares, ?_⟩
  refine Build.run_get_bind.mpr (Build.run_check_bind.mpr ⟨node, read, ?_⟩)
  split <;> rfl

end Program

end CanonIR
