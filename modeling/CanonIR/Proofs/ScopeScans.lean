import CanonIR.Proofs.DeclarationTables

/-! Scopes against a plain scan. What a scope tells of the declarations in its region is
what one finds by going through all declarations of the program, one after the other. -/

namespace CanonIR

theorem Handle.compare_eq_lt {table : Table} {left right : Handle table} :
    compare left right = .lt ↔ left.raw < right.raw :=
  compareOfLessAndEq_eq_lt

namespace Program

variable {program : Program} {home : RegionId} {region : Region} {name : NameId} {type : TypeId}

/-- The declarations of a region that pass a test, in the order they were made. -/
def scan (program : Program) (home : RegionId) (test : DeclNode → Bool) : List DeclId :=
  program.decls.nodes.select fun node => node.home = home && test node

def alike (program : Program) (home : RegionId) (name : NameId) (type : TypeId) : List DeclId :=
  program.scan home fun node => node.name = name && node.type = type

/-- What the scope of a region tells is what a scan finds. -/
structure ScanAgrees (program : Program) (home : RegionId) (scope : ScopeId) : Prop where
  members : ∃ entry, program.scope scope = .ok entry ∧ entry.region = home ∧
    entry.members.toList = program.scan home fun _ => true
  lookup : ∀ name, ∃ result, program.scopeLookup scope name = .ok result ∧
    (result.isSome ↔ program.scan home (·.name = name) ≠ [])
  own : ∀ name overload, program.scopeLookup scope name = .ok (some overload) ↔
    ∃ set, program.overload overload = .ok set ∧ set.scope = scope ∧ set.name = name
  chains : ∀ name overload, program.scopeLookup scope name = .ok (some overload) → ∀ type,
    program.overloadLookup overload type =
      .ok (if program.alike home name type = [] then none else some (program.alike home name type))
  /-- Every declared name has its overload set, in the order of the names. -/
  overloads : ∃ (names : List NameId) (overloads : List OverloadId),
    program.scopes.overloadsOf scope = .ok overloads ∧
    List.Forall₂ (fun name overload => program.scopeLookup scope name = .ok (some overload))
      names overloads ∧
    names.Pairwise (fun first second => first.raw < second.raw) ∧
    ∀ name, name ∈ names ↔ program.scan home (·.name = name) ≠ []
  entries : ∀ name overload, program.scopeLookup scope name = .ok (some overload) →
    ∃ types : List TypeId,
      program.overloadEntries overload = .ok (types.map fun type => (type, program.alike home name type)) ∧
      types.Pairwise (fun first second => first.raw < second.raw) ∧
      ∀ type, type ∈ types ↔ program.alike home name type ≠ []

section Region

variable (filed : program.Filed) (here : program.region home = .ok region)

include filed here

theorem Filed.alike_ne_nil : program.alike home name type ≠ [] ↔
    ∃ chain, program.Binds region.scope name type chain := by
  simp [alike, scan, Slab.select_eq_nil, Declares, filed.opens_iff here]

theorem Filed.named_ne_nil : program.scan home (·.name = name) ≠ [] ↔
    ∃ type chain, program.Binds region.scope name type chain := by
  simp [scan, Slab.select_eq_nil, Declares, filed.opens_iff here]

/-- A chain has the declarations that are alike in name, type and region. -/
theorem Filed.chain_alike {chain : ChainId} (binds : program.Binds region.scope name type chain) :
    program.chain chain = .ok (program.alike home name type) := by
  obtain ⟨entry, placed⟩ := filed.exists_scope here
  obtain ⟨id, node, found, opened, rfl, rfl, rfl⟩ := binds
  obtain ⟨list, present, -⟩ := filed.chained found
  have same : program.decls.nodes.select (·.chain = node.chain) = program.alike home node.name node.type := by
    refine Slab.select_congr fun {other peer} there => ?_
    simp only [← Bool.decide_and, decide_eq_decide]
    constructor
    · intro joined
      have agrees := filed.peers found there joined
      simp only [DeclNode.subject, Prod.mk.injEq] at agrees
      exact ⟨agrees.1.trans ((filed.opens_iff here _).mp opened), agrees.2.1, agrees.2.2.1⟩
    · rintro ⟨rfl, name, type⟩
      have one : program.Binds region.scope node.name node.type node.chain :=
        ⟨id, node, found, opened, rfl, rfl, rfl⟩
      have two : program.Binds region.scope node.name node.type peer.chain :=
        ⟨other, peer, there, scopeOf?_eq here, name, type, rfl⟩
      exact filed.bound.chain_unique placed two one
  simp [Program.chain, Slab.get_eq_ok.mpr present, (filed.lists present).1, same]

theorem Filed.scopeLookup_eq_some {overload : OverloadId} :
    program.scopeLookup region.scope name = .ok (some overload) ↔
      program.scopes.Groups region.scope name overload := by
  obtain ⟨entry, placed⟩ := filed.exists_scope here
  rw [scopeLookup, ScopeTable.find?_eq placed]
  exact (filed.bound.names placed).get?_eq_some

theorem Filed.named_iff_groups : program.scan home (·.name = name) ≠ [] ↔
    ∃ overload, program.scopes.Groups region.scope name overload := by
  rw [filed.named_ne_nil here]
  constructor
  · rintro ⟨type, chain, binds⟩
    exact filed.bound.grouped binds
  · rintro ⟨overload, groups⟩
    exact filed.bound.inhabited groups

theorem Filed.scan_members : ∃ entry, program.scope region.scope = .ok entry ∧ entry.region = home ∧
    entry.members.toList = program.scan home fun _ => true := by
  obtain ⟨members, outlined⟩ := filed.outlined here
  have exact := filed.members outlined
  obtain ⟨entry, found, equal⟩ := Option.map_eq_some_iff.mp outlined
  cases equal
  refine ⟨entry, Slab.get_eq_ok.mpr found, rfl, exact.trans ?_⟩
  exact Slab.select_congr fun _ => by simp

theorem Filed.scan_lookup (name : NameId) :
    ∃ result, program.scopeLookup region.scope name = .ok result ∧
      (result.isSome ↔ program.scan home (·.name = name) ≠ []) := by
  obtain ⟨entry, placed⟩ := filed.exists_scope here
  obtain ⟨result, looked⟩ := filed.bound.exists_find? placed name
  refine ⟨result, looked, ?_⟩
  rw [filed.named_iff_groups here, Option.isSome_iff_exists]
  exact exists_congr ((filed.bound.find?_eq_ok placed).mp looked)

theorem Filed.scan_chains {overload : OverloadId}
    (looked : program.scopeLookup region.scope name = .ok (some overload)) (type : TypeId) :
    program.overloadLookup overload type =
      .ok (if program.alike home name type = [] then none else some (program.alike home name type)) := by
  obtain ⟨set, present, scope, rfl⟩ := (filed.scopeLookup_eq_some here).mp looked
  have types := filed.bound.types present
  rw [scope] at types
  obtain ⟨result, found⟩ := types.exists_get? type
  have exact := types.get?_eq_ok.mp found
  have read : program.overload overload = .ok set := Slab.get_eq_ok.mpr present
  cases result with
  | none =>
    have empty : program.alike home set.name type = [] := by
      by_contra nonempty
      obtain ⟨chain, binds⟩ := (filed.alike_ne_nil here).mp nonempty
      cases (exact chain).mpr binds
    simp [overloadLookup, read, found, empty]
  | some chain =>
    have binds := (exact chain).mp rfl
    have nonempty := (filed.alike_ne_nil here).mpr ⟨chain, binds⟩
    simp [overloadLookup, read, found, filed.chain_alike here binds, nonempty]

theorem Filed.scan_overloads : ∃ (names : List NameId) (overloads : List OverloadId),
    program.scopes.overloadsOf region.scope = .ok overloads ∧
    List.Forall₂ (fun name overload => program.scopeLookup region.scope name = .ok (some overload))
      names overloads ∧
    names.Pairwise (fun first second => first.raw < second.raw) ∧
    ∀ name, name ∈ names ↔ program.scan home (·.name = name) ≠ [] := by
  obtain ⟨entry, placed⟩ := filed.exists_scope here
  obtain ⟨sorted, listed, ascends, exact⟩ := (filed.bound.names placed).entries_eq_ok
  refine ⟨sorted.map (·.key), sorted.map (·.value), ?_, ?_, ?_, fun name => ?_⟩
  · simp [ScopeTable.overloadsOf, Slab.get_eq_ok.mpr placed, listed]
  · rw [List.forall₂_map_left_iff, List.forall₂_map_right_iff, List.forall₂_same]
    exact fun pair member => (filed.scopeLookup_eq_some here).mpr ((exact _ _).mp member)
  · exact List.pairwise_map.mpr (ascends.imp Handle.compare_eq_lt.mp)
  · rw [filed.named_iff_groups here, List.mem_map]
    constructor
    · rintro ⟨pair, member, rfl⟩
      exact ⟨pair.value, (exact _ _).mp member⟩
    · rintro ⟨overload, groups⟩
      exact ⟨⟨name, overload⟩, (exact _ _).mpr groups, rfl⟩

theorem Filed.scan_entries {overload : OverloadId}
    (looked : program.scopeLookup region.scope name = .ok (some overload)) :
    ∃ types : List TypeId,
      program.overloadEntries overload = .ok (types.map fun type => (type, program.alike home name type)) ∧
      types.Pairwise (fun first second => first.raw < second.raw) ∧
      ∀ type, type ∈ types ↔ program.alike home name type ≠ [] := by
  obtain ⟨set, present, scope, rfl⟩ := (filed.scopeLookup_eq_some here).mp looked
  have types := filed.bound.types present
  rw [scope] at types
  obtain ⟨sorted, listed, ascends, exact⟩ := types.entries_eq_ok
  have read : program.overload overload = .ok set := Slab.get_eq_ok.mpr present
  refine ⟨sorted.map (·.key), ?_, ?_, fun type => ?_⟩
  · simp only [overloadEntries, read, Checked.ok_bind, listed, List.map_map]
    rw [Checked.mapM_eq_ok, List.forall₂_map_right_iff, List.forall₂_same]
    intro pair member
    simp [filed.chain_alike here ((exact pair.key pair.value).mp member)]
  · exact List.pairwise_map.mpr (ascends.imp Handle.compare_eq_lt.mp)
  · rw [filed.alike_ne_nil here, List.mem_map]
    constructor
    · rintro ⟨pair, member, rfl⟩
      exact ⟨pair.value, (exact _ _).mp member⟩
    · rintro ⟨chain, binds⟩
      exact ⟨⟨type, chain⟩, (exact _ _).mpr binds, rfl⟩

theorem Filed.scanAgrees : program.ScanAgrees home region.scope where
  members := filed.scan_members here
  lookup := filed.scan_lookup here
  own name overload := by
    rw [filed.scopeLookup_eq_some here]
    simp [ScopeTable.Groups, Program.overload, Slab.get_eq_ok]
  chains _ _ := filed.scan_chains here
  overloads := filed.scan_overloads here
  entries _ _ := filed.scan_entries here

end Region

/-- In every program that requests lead to, the scope of every region agrees with a scan,
and every overload set is that of its name in its scope. -/
theorem scopes_agree_with_scans {hash : Bytes → UInt64} {sizing : Sizing} {start : Program}
    {requests : List Request} (began : initial hash sizing = .ok start)
    (ran : start.run requests = .ok program) :
    (∀ home region, program.region home = .ok region → program.ScanAgrees home region.scope) ∧
      ∀ overload set, program.overload overload = .ok set →
        program.scopeLookup set.scope set.name = .ok (some overload) := by
  have filed := filed_run began ran
  refine ⟨fun home region here => filed.scanAgrees here, fun overload set read => ?_⟩
  have groups : program.scopes.Groups set.scope set.name overload :=
    ⟨set, Slab.get_eq_ok.mp read, rfl, rfl⟩
  obtain ⟨entry, placed⟩ := Option.isSome_iff_exists.mp (filed.bound.placed groups)
  rw [scopeLookup, ScopeTable.find?_eq placed]
  exact (filed.bound.names placed).get?_eq_some.mpr groups

/-- One name with two types in the global region, and with one of them in a region inside. -/
theorem scopes_agree_with_scans_nested : ∃ (start program : Program) (region inner : Region),
    initial (fun _ => 0) {} = .ok start ∧
    start.run [.intern (.ofString "x"), .identifier (.entry 0), .newRegion .global,
      .declareVar .global ⟨0⟩ ⟨12⟩ .empty, .declareVar ⟨1⟩ ⟨0⟩ ⟨11⟩ .empty,
      .declareVar .global ⟨0⟩ ⟨11⟩ .empty] = .ok program ∧
    program.region .global = .ok region ∧ program.region ⟨1⟩ = .ok inner ∧
    program.alike .global ⟨0⟩ ⟨11⟩ = [⟨2⟩] ∧ program.alike ⟨1⟩ ⟨0⟩ ⟨11⟩ = [⟨1⟩] ∧
    program.ScanAgrees .global region.scope ∧ program.ScanAgrees ⟨1⟩ inner.scope := by
  have performed : (do
      let start ← initial (fun _ => 0) {}
      let program ← start.run [.intern (.ofString "x"), .identifier (.entry 0), .newRegion .global,
        .declareVar .global ⟨0⟩ ⟨12⟩ .empty, .declareVar ⟨1⟩ ⟨0⟩ ⟨11⟩ .empty,
        .declareVar .global ⟨0⟩ ⟨11⟩ .empty]
      let region ← program.region .global
      let inner ← program.region ⟨1⟩
      if program.alike .global ⟨0⟩ ⟨11⟩ = [⟨2⟩] ∧ program.alike ⟨1⟩ ⟨0⟩ ⟨11⟩ = [⟨1⟩] then
        return (region, inner)
      else .error .outOfRange : Checked (Region × Region)).isOk := by decide +kernel
  obtain ⟨_, performed⟩ := Checked.exists_of_isOk performed
  obtain ⟨start, began, rest⟩ := Checked.bind_eq_ok.mp performed
  obtain ⟨program, ran, rest⟩ := Checked.bind_eq_ok.mp rest
  obtain ⟨region, here, rest⟩ := Checked.bind_eq_ok.mp rest
  obtain ⟨inner, inside, rest⟩ := Checked.bind_eq_ok.mp rest
  split at rest
  next same =>
    have agrees := (scopes_agree_with_scans began ran).1
    exact ⟨start, program, region, inner, began, ran, here, inside, same.1, same.2,
      agrees _ _ here, agrees _ _ inside⟩
  · cases rest

end Program

end CanonIR
