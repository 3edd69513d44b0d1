import CanonIR.Proofs.IssuedAnswers
import CanonIR.Proofs.ScopeScans
import CanonIR.Proofs.TableGrowth

/-! The tree of regions. Every region but the first one is made inside an older one, so
whoever walks outward comes to the global region, after as many steps as the region is
deep. A look-up takes that walk and stops at the first region that has the name. -/

namespace CanonIR

variable {regions after : Slab .region Region} {id : RegionId} {entry : Region}

/-- Where a region lies: the global one in no other, and every other one in an older one. -/
inductive Lies (regions : Slab .region Region) (id : RegionId) (entry : Region) : Prop where
  | outermost (first : id = .global) (free : entry.parent = none) (flat : entry.depth = 0)
  | inside {outer : RegionId} {around : Region} (nests : entry.parent = some outer)
      (older : outer.raw < id.raw) (found : regions.get? outer = some around)
      (deeper : entry.depth = around.depth + 1)

structure Nested (regions : Slab .region Region) : Prop where
  lies : ∀ {id entry}, regions.get? id = some entry → Lies regions id entry
  few : regions.size ≤ positionLimit

/-- The next region on the way outward. -/
def Encloses (regions : Slab .region Region) (inner outer : RegionId) : Prop :=
  ∃ entry, regions.get? inner = some entry ∧ entry.parent = some outer

theorem nested_empty : Nested {} :=
  ⟨fun found => by simp [Slab.get?] at found, by simp [Slab.size]⟩

namespace Nested

variable (nested : Nested regions)

include nested

theorem push {parent : Option RegionId} {scope : ScopeId} {depth : Nat}
    (outermost : parent = none → depth = 0 ∧ regions.size = 0)
    (inside : ∀ outer, parent = some outer →
      ∃ around, regions.get outer = .ok around ∧ depth = around.depth + 1)
    (made : regions.push { parent, scope, depth } = .ok (id, after)) : Nested after := by
  obtain ⟨position, room, -⟩ := Slab.push_eq_ok.mp made
  refine ⟨fun {other now} found => ?_, ?_⟩
  · rcases Slab.push_cases made found with before | ⟨-, rfl, rfl⟩
    · cases nested.lies before with
      | outermost first free flat => exact .outermost first free flat
      | inside nests older around deeper =>
        exact .inside nests older (Slab.get?_kept made around) deeper
    · cases parent with
      | none =>
        obtain ⟨flat, empty⟩ := outermost rfl
        exact .outermost (by rw [position, empty]; rfl) rfl flat
      | some outer =>
        obtain ⟨around, present, deeper⟩ := inside outer rfl
        have present := Slab.get_eq_ok.mp present
        have older : outer.raw < other.raw := by
          rw [position]
          exact Slab.raw_lt_of_get? present
        exact .inside rfl older (Slab.get?_kept made present) deeper
  · simp only [Table.firstFree] at room
    rw [Slab.size_push made]
    omega

theorem modify {change : Region → Region} (changed : regions.modify id change = .ok after)
    (same : ∀ entry, (change entry).parent = entry.parent ∧ (change entry).depth = entry.depth) :
    Nested after := by
  refine ⟨fun {other now} found => ?_, ?_⟩
  · obtain ⟨old, present, parent, depth⟩ : ∃ old, regions.get? other = some old ∧
        now.parent = old.parent ∧ now.depth = old.depth := by
      rcases Slab.modify_cases changed found with before | ⟨-, old, before, rfl⟩
      · exact ⟨now, before, rfl, rfl⟩
      · exact ⟨old, before, same old⟩
    cases nested.lies present with
    | outermost first free flat => exact .outermost first (parent.trans free) (depth.trans flat)
    | @inside outer around nests older there deeper =>
      rcases Slab.get?_modify_cases changed there with still | ⟨-, still⟩
      · exact .inside (parent.trans nests) older still (depth.trans deeper)
      · refine .inside (parent.trans nests) older still ?_
        rw [depth, deeper, (same around).2]
  · obtain ⟨item, -, rfl⟩ := Slab.modify_eq_ok.mp changed
    simpa [Slab.size] using nested.few

theorem depth_le (found : regions.get? id = some entry) : entry.depth ≤ id.raw := by
  obtain ⟨raw⟩ := id
  induction raw using Nat.strongRecOn generalizing entry with
  | ind raw ih =>
    cases nested.lies found with
    | outermost first free flat => omega
    | @inside outer around nests older there deeper =>
      have bound := ih outer.raw older there
      dsimp only at *
      omega

theorem raw_lt (found : regions.get? id = some entry) : id.raw < positionLimit := by
  have inside := Slab.raw_lt_of_get? found
  have few := nested.few
  simp only [Table.firstFree] at inside
  omega

theorem outward_eq_ok {fuel : Nat} (found : regions.get? id = some entry) (enough : entry.depth < fuel) :
    ∃ path, outward regions fuel (some id) = .ok (id :: path) ∧ path.length = entry.depth ∧
      (id :: path).getLast? = some .global ∧ (id :: path).IsChain (Encloses regions) ∧
      ∀ other ∈ id :: path, ∃ around, regions.get? other = some around := by
  induction fuel generalizing id entry with
  | zero => omega
  | succ fuel ih =>
    have read := Slab.get_eq_ok.mpr found
    cases nested.lies found with
    | outermost first free flat =>
      exact ⟨[], by simp [outward, read, free], by simp [flat], by simp [first], .singleton id,
        List.forall_mem_singleton.mpr ⟨entry, found⟩⟩
    | @inside outer around nests older there deeper =>
      obtain ⟨path, walked, length, last, chained, present⟩ := ih there (by omega)
      refine ⟨outer :: path, by simp [outward, read, nests, walked], ?_, ?_, ?_,
        List.forall_mem_cons.mpr ⟨⟨entry, found⟩, present⟩⟩
      · simp only [List.length_cons]
        omega
      · rw [List.getLast?_cons_cons, last]
      · exact .cons_cons ⟨entry, found, nests⟩ chained

/-- The walk from a region ends at the global one, after as many steps as it is deep. -/
theorem ancestors_eq_ok (found : regions.get? id = some entry) :
    ∃ path, ancestors regions id = .ok path ∧ path.length = entry.depth ∧
      (id :: path).getLast? = some .global ∧ (id :: path).IsChain (Encloses regions) ∧
      ∀ other ∈ id :: path, ∃ around, regions.get? other = some around := by
  have deep := nested.depth_le found
  have inside := Slab.raw_lt_of_get? found
  simp only [Table.firstFree] at inside
  obtain ⟨path, walked, rest⟩ := nested.outward_eq_ok found (show entry.depth < regions.size + 1 by omega)
  refine ⟨path, ?_, rest⟩
  obtain ⟨_, read, walked⟩ := Checked.bind_eq_ok.mp walked
  obtain ⟨others, outer, equal⟩ := Checked.bind_eq_ok.mp walked
  cases equal
  exact Checked.bind_eq_ok.mpr ⟨_, read, outer⟩

end Nested

namespace Program

variable {known : Answer → Prop} {program after : Program} {name : NameId}

theorem Change.keeps_nested (change : program.Change known after) (nested : Nested program.regions) :
    Nested after.regions := by
  cases change with
  | region _ outermost inside made => exact nested.push outermost inside made
  | regionOwner _ _ changed => exact nested.modify changed fun _ => ⟨rfl, rfl⟩
  | directive _ _ changed => exact nested.modify changed fun _ => ⟨rfl, rfl⟩
  | _ => exact nested

theorem Reaches.keeps_nested (reaches : program.Reaches known after) (nested : Nested program.regions) :
    Nested after.regions := by
  induction reaches with
  | refl => exact nested
  | tail _ change ih => exact change.keeps_nested ih

theorem nested_initial {hash : Bytes → UInt64} {sizing : Sizing}
    (began : initial hash sizing = .ok program) : Nested program.regions := by
  obtain ⟨exprs, before, -, reaches, equal⟩ := initial_reaches (fun _ => True) began
  have nested : Nested before.regions := reaches.keeps_nested nested_empty
  rw [equal]
  exact nested

/-- The global region is there from the start, and no region is ever lost. -/
theorem exists_global {hash : Bytes → UInt64} {sizing : Sizing} {start : Program} {requests : List Request}
    (began : initial hash sizing = .ok start) (ran : start.run requests = .ok program) :
    ∃ entry, program.region .global = .ok entry := by
  obtain ⟨exprs, -, began⟩ := Checked.bind_eq_ok.mp began
  obtain ⟨⟨region, middle⟩, opened, began⟩ := Checked.bind_eq_ok.mp began
  obtain ⟨⟨globalNamespace, before⟩, owned, equal⟩ := Checked.bind_eq_ok.mp began
  cases equal
  obtain ⟨entry, found, unowned, -⟩ := newRegion_unowned opened
  obtain ⟨_, _, _, _, -, -, -, made, -⟩ := newRegion_eq_ok opened
  have first : region = .global := (Slab.push_eq_ok.mp made).1
  have here : middle.region .global = .ok entry := Slab.get_eq_ok.mpr (first ▸ found)
  have reaches : middle.Reaches (fun _ => True) before := newOwningType_moves rfl rfl found unowned owned
  obtain ⟨now, there⟩ := reaches.keeps_region here
  exact (run_reaches ran).keeps_region there

/-! ### Look-up -/

/-- A member of the region has the name. -/
def HasMember (program : Program) (name : NameId) (home : RegionId) : Prop :=
  ∃ region scope, program.region home = .ok region ∧ program.scope region.scope = .ok scope ∧
    ∃ member ∈ scope.members, ∃ node, program.declNode member = .ok node ∧ node.name = name

theorem Filed.hasMember_iff (filed : program.Filed) {home : RegionId} {region : Region}
    (here : program.region home = .ok region) :
    program.HasMember name home ↔ program.scan home (·.name = name) ≠ [] := by
  obtain ⟨scope, opened, -, listed⟩ := filed.scan_members here
  constructor
  · intro ⟨_, _, again, reopened, member, inside, node, found, named⟩
    cases here.symm.trans again
    cases opened.symm.trans reopened
    rw [← Array.mem_toList_iff, listed] at inside
    obtain ⟨_, present, at_home⟩ := Slab.mem_select.mp inside
    cases (Slab.get_eq_ok.mp found).symm.trans present
    exact List.ne_nil_of_mem (Slab.mem_select.mpr ⟨node, present, by simpa [named] using at_home⟩)
  · intro nonempty
    obtain ⟨member, inside⟩ := List.exists_mem_of_ne_nil _ nonempty
    obtain ⟨node, present, passes⟩ := Slab.mem_select.mp inside
    obtain ⟨at_home, named⟩ : node.home = home ∧ node.name = name := by simpa using passes
    refine ⟨region, scope, here, opened, member, ?_, node, Slab.get_eq_ok.mpr present, named⟩
    rw [← Array.mem_toList_iff, listed]
    exact Slab.mem_select.mpr ⟨node, present, by simpa using at_home⟩

/-- The look-up is answered by the innermost region of the path that has the name. -/
inductive Answers (program : Program) (name : NameId) (path : List RegionId) :
    Option OverloadId → Prop where
  | found {inner outer : List RegionId} {home : RegionId} {region : Region} {overload : OverloadId}
      {set : Overload} (split : path = inner ++ home :: outer)
      (skipped : ∀ other ∈ inner, ¬ program.HasMember name other) (has : program.HasMember name home)
      (here : program.region home = .ok region)
      (looked : program.scopeLookup region.scope name = .ok (some overload))
      (read : program.overload overload = .ok set) (own : set.scope = region.scope ∧ set.name = name) :
      Answers program name path (some overload)
  | absent (missing : ∀ other ∈ path, ¬ program.HasMember name other) : Answers program name path none

theorem Filed.lookupAmong_eq_ok (filed : program.Filed) {path : List RegionId}
    (there : ∀ id ∈ path, ∃ region, program.region id = .ok region) :
    ∃ result, program.lookupAmong name path = .ok result ∧ program.Answers name path result := by
  induction path with
  | nil => exact ⟨none, rfl, .absent nofun⟩
  | cons home outer ih =>
    obtain ⟨⟨region, here⟩, there⟩ := List.forall_mem_cons.mp there
    obtain ⟨result, looked, exact⟩ := filed.scan_lookup here name
    rw [← filed.hasMember_iff here] at exact
    cases result with
    | some overload =>
      obtain ⟨set, read, own⟩ := ((filed.scanAgrees here).own name overload).mp looked
      exact ⟨some overload, by simp [lookupAmong, here, looked],
        .found (List.nil_append _).symm nofun (exact.mp rfl) here looked read own⟩
    | none =>
      have missing : ¬ program.HasMember name home := fun has => nomatch exact.mpr has
      obtain ⟨result, walked, answers⟩ := ih there
      refine ⟨result, by simp [lookupAmong, here, looked, walked], ?_⟩
      cases answers with
      | @found inner outer _ _ _ _ split skipped has here looked read own =>
        exact .found (by rw [split, List.cons_append]) (List.forall_mem_cons.mpr ⟨missing, skipped⟩) has here
          looked read own
      | absent others => exact .absent (List.forall_mem_cons.mpr ⟨missing, others⟩)

/-! ### The tree -/

/-- The regions of a program form a tree, with one scope for each region. -/
structure Arborescent (program : Program) : Prop where
  rooted : ∃ entry, program.region .global = .ok entry ∧ entry.parent = none ∧ entry.depth = 0
  nested : ∀ id entry, program.region id = .ok entry → id ≠ .global → ∃ outer around,
    entry.parent = some outer ∧ outer.raw < id.raw ∧ program.region outer = .ok around ∧
    entry.depth = around.depth + 1
  shallow : ∀ id entry, program.region id = .ok entry → entry.depth ≤ id.raw ∧ id.raw < 2 ^ 32
  scopeOf : ∀ id entry, program.region id = .ok entry →
    ∃ scope, program.scope entry.scope = .ok scope ∧ scope.region = id
  regionOf : ∀ id scope, program.scope id = .ok scope →
    ∃ entry, program.region scope.region = .ok entry ∧ entry.scope = id
  /-- The walk outward, step by step, and the look-ups that take it. -/
  walks : ∀ id entry, program.region id = .ok entry → ∃ path, program.ancestors id = .ok path ∧
    path.length = entry.depth ∧ (id :: path).getLast? = some .global ∧
    (id :: path).IsChain (Encloses program.regions) ∧
    ∀ name, ∃ result, program.lookup id name = .ok result ∧ program.Answers name (id :: path) result

theorem Filed.arborescent (filed : program.Filed) (nested : Nested program.regions)
    (rooted : ∃ entry, program.region .global = .ok entry) : program.Arborescent := by
  refine ⟨?_, ?_, ?_, ?_, ?_, ?_⟩
  · obtain ⟨entry, found⟩ := rooted
    cases nested.lies (Slab.get_eq_ok.mp found) with
    | outermost _ free flat => exact ⟨entry, found, free, flat⟩
    | inside _ older => exact absurd older (Nat.not_lt_zero _)
  · intro id entry found inner
    cases nested.lies (Slab.get_eq_ok.mp found) with
    | outermost first => exact absurd first inner
    | @inside outer around nests older there deeper =>
      exact ⟨outer, around, nests, older, Slab.get_eq_ok.mpr there, deeper⟩
  · intro id entry found
    have present := Slab.get_eq_ok.mp found
    exact ⟨nested.depth_le present, nested.raw_lt present⟩
  · intro id entry found
    obtain ⟨scope, opened, same, -⟩ := filed.scan_members found
    exact ⟨scope, opened, same⟩
  · intro id scope opened
    have outlined : program.scopes.outline? id = some (scope.region, scope.members) := by
      simp [ScopeTable.outline?, Slab.get_eq_ok.mp opened]
    obtain ⟨entry, found, same⟩ := Option.map_eq_some_iff.mp ((filed.paired _ _).mpr ⟨_, outlined⟩)
    exact ⟨entry, Slab.get_eq_ok.mpr found, same⟩
  · intro id entry found
    obtain ⟨path, walked, length, last, chained, present⟩ :=
      nested.ancestors_eq_ok (Slab.get_eq_ok.mp found)
    refine ⟨path, walked, length, last, chained, fun name => ?_⟩
    have there : ∀ other ∈ id :: path, ∃ region, program.region other = .ok region := by
      intro other member
      obtain ⟨region, here⟩ := present other member
      exact ⟨region, Slab.get_eq_ok.mpr here⟩
    obtain ⟨result, looked, answers⟩ := filed.lookupAmong_eq_ok there
    exact ⟨result, Checked.bind_eq_ok.mpr ⟨path, walked, looked⟩, answers⟩

/-- Whatever requests are made of a new program, its regions form a tree. -/
theorem regions_form_tree {hash : Bytes → UInt64} {sizing : Sizing} {start : Program}
    {requests : List Request} (began : initial hash sizing = .ok start)
    (ran : start.run requests = .ok program) : program.Arborescent :=
  (filed_run began ran).arborescent ((run_reaches ran).keeps_nested (nested_initial began))
    (exists_global began ran)

/-- A region in a block in a class. The class has the name that is looked up, and so has the
global region. -/
theorem regions_form_tree_class : ∃ start program : Program,
    initial (fun _ => 0) {} = .ok start ∧
    start.run [.intern (.ofString "x"), .identifier (.entry 0), .newClass .global, .newBlock ⟨1⟩,
      .newRegion ⟨2⟩, .declareVar .global ⟨0⟩ ⟨11⟩ .empty, .declareField ⟨1⟩ ⟨0⟩ ⟨11⟩ .empty] = .ok program ∧
    program.ancestors ⟨3⟩ = .ok [⟨2⟩, ⟨1⟩, .global] ∧
    program.lookup ⟨3⟩ ⟨0⟩ = .ok (some ⟨1⟩) ∧ program.Arborescent := by
  have performed : (do
      let start ← initial (fun _ => 0) {}
      let program ← start.run [.intern (.ofString "x"), .identifier (.entry 0), .newClass .global,
        .newBlock ⟨1⟩, .newRegion ⟨2⟩, .declareVar .global ⟨0⟩ ⟨11⟩ .empty,
        .declareField ⟨1⟩ ⟨0⟩ ⟨11⟩ .empty]
      let path ← program.ancestors ⟨3⟩
      let result ← program.lookup ⟨3⟩ ⟨0⟩
      if path = [⟨2⟩, ⟨1⟩, .global] ∧ result = some ⟨1⟩ then return ()
      else .error .outOfRange : Checked Unit).isOk := by decide +kernel
  obtain ⟨_, performed⟩ := Checked.exists_of_isOk performed
  obtain ⟨start, began, rest⟩ := Checked.bind_eq_ok.mp performed
  obtain ⟨program, ran, rest⟩ := Checked.bind_eq_ok.mp rest
  obtain ⟨path, walked, rest⟩ := Checked.bind_eq_ok.mp rest
  obtain ⟨result, looked, rest⟩ := Checked.bind_eq_ok.mp rest
  split at rest
  next same =>
    rw [same.1] at walked
    rw [same.2] at looked
    exact ⟨start, program, began, ran, walked, looked, regions_form_tree began ran⟩
  · cases rest

end Program

end CanonIR
