import CanonIR.Proofs.CanonicalNodes
import CanonIR.Proofs.TableGrowth
import Mathlib.Algebra.GroupWithZero.Nat

/-! The census of nodes. Nodes are numbered without gaps, in the order they are made
whatever table they go to, and they are counted by category; and a request for a canonical
node counts as a miss where it makes the node. The census is compared with a roll call of
the six tables. -/

namespace CanonIR

/-! ### Categories and groups -/

theorem Category.find?_code (category : Category) :
    Category.all.find? (·.code = category.code) = some category := by
  cases category <;> rfl

theorem Category.code_inj {first second : Category} (same : first.code = second.code) : first = second := by
  have found := first.find?_code
  rw [same, second.find?_code] at found
  exact (Option.some.inj found).symm

theorem Category.mem_all (category : Category) : category ∈ Category.all :=
  List.mem_of_find?_eq_some category.find?_code

theorem Category.nodup_all : Category.all.Nodup := by decide +kernel

theorem Category.not_isCanonical {category : Category}
    (kin : category.group ∈ [Group.stmt, .decl, .directive]) : category.isCanonical = false := by
  unfold isCanonical
  revert kin
  cases category.group <;> simp

theorem Group.index_inj {first second : Group} (same : first.index = second.index) : first = second := by
  cases first <;> cases second <;> first | rfl | cases same

theorem NameKind.category_canonical (kind : NameKind) :
    kind.category.group = .name ∧ kind.category.isCanonical := by
  cases kind <;> exact ⟨rfl, rfl⟩

theorem TypeKind.category_group (kind : TypeKind) : kind.category.group = .type := by
  cases kind <;> rfl

theorem TypeKind.isCanonical_iff (kind : TypeKind) : kind.category.isCanonical ↔ kind.region? = none := by
  cases kind <;> simp [category, region?, Category.isCanonical, Category.group, Category.code]

theorem ExprKind.category_group (kind : ExprKind) : kind.category.group = .expr := by
  cases kind <;> rfl

/-! ### Roll calls -/

/-- The nodes of each group, by number and category. -/
abbrev Roster := Group → List (NodeId × Category)

namespace Roster

/-- The nodes of all groups. -/
def all (roster : Roster) : List (NodeId × Category) := Group.all.flatMap roster

/-- One node more in the group of its category. -/
def add (roster : Roster) (entry : NodeId × Category) : Roster := fun group =>
  if group = entry.2.group then roster group ++ [entry] else roster group

theorem countP_add (roster : Roster) (entry : NodeId × Category) (group : Group)
    (test : NodeId × Category → Bool) : (roster.add entry group).countP test =
      (roster group).countP test + if group = entry.2.group ∧ test entry then 1 else 0 := by
  by_cases same : group = entry.2.group <;> simp [add, same, List.countP_cons]

theorem perm_add (roster : Roster) (entry : NodeId × Category) :
    (roster.add entry).all.Perm (entry :: roster.all) := by
  refine List.perm_iff_count.mpr fun other => ?_
  simp only [all, Group.all, add, List.flatMap_cons, List.flatMap_nil, List.count_append, List.count_cons]
  cases entry.2.group <;> simp [List.count_cons] <;> omega

theorem eq_add {roster after : Roster} {entry : NodeId × Category} {group : Group}
    (kin : entry.2.group = group) (own : after group = roster group ++ [entry])
    (others : ∀ other, other ≠ group → after other = roster other) : after = roster.add entry := by
  subst kin
  funext other
  by_cases same : other = entry.2.group
  · simp [add, same, own]
  · simp [add, same, others]

end Roster

/-! ### Counting -/

namespace Census

variable {census counted : Census} {category : Category} {number : NodeId} {group : Group} {roster : Roster}

theorem enroll_eq_ok (enrolled : census.enroll category = .ok (number, counted)) :
    number = ⟨census.next⟩ ∧ counted.next = census.next + 1 ∧
      (∀ other, counted.count other = census.count other + if other = category then 1 else 0) ∧
      counted.hitsOf = census.hitsOf ∧ counted.missesOf = census.missesOf := by
  unfold enroll at enrolled
  split at enrolled
  · cases enrolled
    refine ⟨rfl, rfl, fun other => ?_, rfl, rfl⟩
    by_cases same : other = category
    · simp [count, same]
    · have apart : category.code.val ≠ other.code.val :=
        fun equal => same (Category.code_inj (Fin.ext equal)).symm
      simp [count, same, apart]
  · cases enrolled

theorem missesOf_countRequest (fresh : Bool) (other : Group) :
    (census.countRequest group fresh).missesOf other =
      census.missesOf other + if fresh ∧ other = group then 1 else 0 := by
  cases fresh with
  | false => simp [countRequest, missesOf]
  | true =>
    by_cases same : other = group
    · simp [countRequest, missesOf, same]
    · have apart : group.index.val ≠ other.index.val :=
        fun equal => same (Group.index_inj (Fin.ext equal)).symm
      simp [countRequest, missesOf, same, apart]

theorem hitsOf_countRequest (fresh : Bool) {other : Group} (different : other ≠ group) :
    (census.countRequest group fresh).hitsOf other = census.hitsOf other := by
  have apart : group.index.val ≠ other.index.val :=
    fun equal => different (Group.index_inj (Fin.ext equal)).symm
  cases fresh <;> simp [countRequest, hitsOf, apart]

/-- Nodes are numbered from the first free number on, and counted by category. -/
structure Numbers (census : Census) (roster : Roster) : Prop where
  started : Table.firstFree .node ≤ census.next
  numbered : (roster.all.map Prod.fst).Perm
    ((List.range census.total).map fun index => ⟨Table.firstFree .node + index⟩)
  counted : ∀ category, census.count category = (roster.all.map Prod.snd).count category
  grouped : ∀ {group entry}, entry ∈ roster group → entry.2.group = group

theorem Numbers.enroll (numbers : census.Numbers roster)
    (enrolled : census.enroll category = .ok (number, counted)) :
    counted.Numbers (roster.add (number, category)) := by
  obtain ⟨rfl, next, counts, -⟩ := enroll_eq_ok enrolled
  have started := numbers.started
  have larger : counted.total = census.total + 1 := by
    simp only [total, next]
    omega
  have last : census.next = Table.firstFree .node + census.total := by
    simp only [total]
    omega
  refine ⟨by omega, ?_, fun other => ?_, fun {group entry} member => ?_⟩
  · refine ((roster.perm_add _).map Prod.fst).trans ?_
    rw [larger, List.range_succ, List.map_append, List.map_singleton, ← last]
    exact (numbers.numbered.cons _).trans (List.perm_append_singleton _ _).symm
  · rw [counts, numbers.counted, ((roster.perm_add _).map Prod.snd).count_eq]
    simp only [List.map_cons, List.count_cons, beq_iff_eq, @eq_comm _ other]
  · simp only [Roster.add] at member
    split at member
    next kin =>
      rcases List.mem_append.mp member with old | new
      · exact numbers.grouped old
      · rw [List.mem_singleton.mp new]
        exact kin.symm
    · exact numbers.grouped member

theorem Numbers.countRequest (numbers : census.Numbers roster) (group : Group) (fresh : Bool) :
    (census.countRequest group fresh).Numbers roster := by
  cases fresh <;> exact ⟨numbers.started, numbers.numbered, numbers.counted, numbers.grouped⟩

/-- Moreover, a group has a miss for each of its canonical nodes, and no hits where no node is
canonical. -/
structure Tallies (census : Census) (roster : Roster) : Prop extends census.Numbers roster where
  missed : ∀ group, census.missesOf group = (roster group).countP (·.2.isCanonical)
  unasked : ∀ {group}, group ∈ [Group.stmt, .decl, .directive] → census.hitsOf group = 0

theorem tallies_empty : ({} : Census).Tallies fun _ => [] where
  started := Nat.le_refl _
  numbered := by simp [Roster.all, total]
  counted category := by simp [Roster.all, Group.all, count]
  grouped member := by simp at member
  missed group := by simp [missesOf]
  unasked _ := by simp [hitsOf]

/-- A canonical node that is asked for is found. -/
theorem Tallies.find (tallies : census.Tallies roster) (asked : group ∉ [Group.stmt, .decl, .directive]) :
    (census.countRequest group false).Tallies roster where
  toNumbers := tallies.toNumbers.countRequest group false
  missed other := by simp [missesOf_countRequest, tallies.missed]
  unasked member := by
    rw [hitsOf_countRequest false (ne_of_mem_of_not_mem member asked)]
    exact tallies.unasked member

/-- A canonical node that is asked for is made. -/
theorem Tallies.make (tallies : census.Tallies roster) (asked : group ∉ [Group.stmt, .decl, .directive])
    (kin : category.group = group) (canonical : category.isCanonical)
    (enrolled : census.enroll category = .ok (number, counted)) :
    (counted.countRequest group true).Tallies (roster.add (number, category)) where
  toNumbers := (tallies.toNumbers.enroll enrolled).countRequest group true
  missed other := by
    obtain ⟨-, -, -, -, misses⟩ := enroll_eq_ok enrolled
    simp [missesOf_countRequest, Roster.countP_add, misses, tallies.missed, kin, canonical]
  unasked member := by
    obtain ⟨-, -, -, hits, -⟩ := enroll_eq_ok enrolled
    rw [hitsOf_countRequest true (ne_of_mem_of_not_mem member asked), hits]
    exact tallies.unasked member

/-- A node that is no canonical one is made unasked. -/
theorem Tallies.enroll (tallies : census.Tallies roster) (distinct : category.isCanonical = false)
    (enrolled : census.enroll category = .ok (number, counted)) :
    counted.Tallies (roster.add (number, category)) where
  toNumbers := tallies.toNumbers.enroll enrolled
  missed other := by
    obtain ⟨-, -, -, -, misses⟩ := enroll_eq_ok enrolled
    simp [Roster.countP_add, misses, tallies.missed, distinct]
  unasked member := by
    obtain ⟨-, -, -, hits, -⟩ := enroll_eq_ok enrolled
    rw [hits]
    exact tallies.unasked member

/-! ### Totals -/

/-- A category is counted in its group alone. -/
theorem Numbers.count_eq (numbers : census.Numbers roster) (category : Category) :
    census.count category = ((roster category.group).map Prod.snd).count category := by
  have elsewhere : ∀ group, group ≠ category.group → ((roster group).map Prod.snd).count category = 0 := by
    intro group different
    refine List.count_eq_zero.mpr fun member => ?_
    obtain ⟨entry, listed, rfl⟩ := List.mem_map.mp member
    exact different (numbers.grouped listed).symm
  rw [numbers.counted]
  simp only [Roster.all, Group.all, List.flatMap_cons, List.flatMap_nil, List.map_append, List.count_append]
  cases kin : category.group <;> simp [elsewhere, kin]

theorem countP_mem_cons {categories rest : List Category} {first : Category} (absent : first ∉ rest) :
    categories.countP (· ∈ first :: rest) = categories.count first + categories.countP (· ∈ rest) := by
  induction categories with
  | nil => rfl
  | cons category categories ih =>
    rw [List.countP_cons, List.countP_cons, List.count_cons, ih]
    by_cases same : category = first
    · subst same
      simp only [List.mem_cons, true_or, decide_true, absent, decide_false, beq_self_eq_true, if_true]
      simp only [Bool.false_eq_true, if_false]
      omega
    · simp only [List.mem_cons, same, false_or, beq_iff_eq, if_false]
      omega

theorem sum_count {categories members : List Category} (distinct : members.Nodup) :
    (members.map categories.count).sum = categories.countP (· ∈ members) := by
  induction members with
  | nil => simp
  | cons first rest ih =>
    obtain ⟨absent, distinct⟩ := List.nodup_cons.mp distinct
    rw [List.map_cons, List.sum_cons, ih distinct, countP_mem_cons absent]

theorem Numbers.groupCount_eq (numbers : census.Numbers roster) (group : Group) :
    census.groupCount group = (roster group).length := by
  have counts : ∀ category ∈ Category.all.filter (·.group = group),
      census.count category = ((roster group).map Prod.snd).count category := by
    intro category member
    obtain ⟨-, kin⟩ := List.mem_filter.mp member
    rw [numbers.count_eq, of_decide_eq_true kin]
  calc census.groupCount group
      = ((Category.all.filter (·.group = group)).map census.count).sum := by
        rw [groupCount, List.sum_eq_foldl, List.foldl_map]
    _ = ((Category.all.filter (·.group = group)).map ((roster group).map Prod.snd).count).sum := by
        rw [List.map_congr_left counts]
    _ = ((roster group).map Prod.snd).countP (· ∈ Category.all.filter (·.group = group)) :=
        sum_count (Category.nodup_all.filter _)
    _ = (roster group).length := by
        rw [List.countP_eq_length.mpr, List.length_map]
        intro category member
        obtain ⟨entry, listed, rfl⟩ := List.mem_map.mp member
        simp [Category.mem_all, numbers.grouped listed]

theorem Numbers.total_eq (numbers : census.Numbers roster) :
    census.total = (Group.all.map fun group => (roster group).length).sum := by
  have same := numbers.numbered.length_eq
  simp only [List.length_map, List.length_range] at same
  rw [← same, Roster.all, List.length_flatMap]

theorem Numbers.nodup (numbers : census.Numbers roster) : (roster.all.map Prod.fst).Nodup := by
  refine numbers.numbered.nodup_iff.mpr (List.Nodup.map (fun first second same => ?_) List.nodup_range)
  simpa using same

theorem Numbers.mem_iff (numbers : census.Numbers roster) (number : NodeId) :
    number ∈ roster.all.map Prod.fst ↔
      Table.firstFree .node ≤ number.raw ∧ number.raw < Table.firstFree .node + census.total := by
  rw [numbers.numbered.mem_iff, List.mem_map]
  constructor
  · intro ⟨index, inside, equal⟩
    subst equal
    have small := List.mem_range.mp inside
    constructor <;> dsimp only <;> omega
  · intro ⟨free, inside⟩
    refine ⟨number.raw - Table.firstFree .node, List.mem_range.mpr (by omega), ?_⟩
    rw [Nat.add_sub_cancel' free]

/-- Where all nodes of a group are canonical, every one of them was a miss. -/
theorem Tallies.missed_all (tallies : census.Tallies roster)
    (canonical : ∀ category : Category, category.group = group → category.isCanonical) :
    census.missesOf group = (roster group).length := by
  rw [tallies.missed, List.countP_eq_length]
  exact fun entry listed => canonical _ (tallies.grouped listed)

theorem Tallies.missed_literals (tallies : census.Tallies roster) :
    census.missesOf .expr = census.count .literal := by
  rw [tallies.missed, tallies.count_eq, List.count, List.countP_map]
  refine List.countP_congr fun entry listed => ?_
  simp [Category.isCanonical, tallies.grouped listed]

theorem Tallies.missed_none (tallies : census.Tallies roster) (member : group ∈ [Group.stmt, .decl, .directive]) :
    census.missesOf group = 0 := by
  rw [tallies.missed, List.countP_eq_zero]
  intro entry listed
  rw [Category.not_isCanonical ((tallies.grouped listed).symm ▸ member)]
  exact Bool.false_ne_true

end Census

/-! ### Programs -/

namespace Slab

variable {α : Type} {table : Table} {slab after : Slab table α} {handle : Handle table} {item : α}
  {read : α → NodeId × Category}

/-- The entries in order, by number and category. -/
def rollCall (slab : Slab table α) (read : α → NodeId × Category) : List (NodeId × Category) :=
  slab.items.toList.map read

theorem rollCall_push (pushed : slab.push item = .ok (handle, after)) :
    after.rollCall read = slab.rollCall read ++ [read item] := by
  obtain ⟨-, -, rfl⟩ := push_eq_ok.mp pushed
  simp [rollCall]

theorem rollCall_modify {change : α → α} (changed : slab.modify handle change = .ok after)
    (same : ∀ item, slab.get? handle = some item → read (change item) = read item) :
    after.rollCall read = slab.rollCall read := by
  obtain ⟨old, found, rfl⟩ := modify_eq_ok.mp changed
  obtain ⟨index, rfl, present⟩ := get?_eq_some.mp found
  refine List.ext_getElem? fun position => ?_
  simp only [rollCall, List.getElem?_map, Array.getElem?_toList, Array.getElem?_modify, Nat.add_sub_cancel_left]
  split
  next here =>
    subst here
    simp [present, same old found]
  · rfl

end Slab

namespace Program

variable {known : Answer → Prop} {program after : Program}

/-- The nodes that the program made, group by group. -/
def roster (program : Program) : Roster
  | .name => program.names.nodes.rollCall fun node => (node.id, node.category)
  | .type => program.types.nodes.rollCall fun node => (node.id, node.category)
  | .expr => program.exprs.nodes.rollCall fun node => (node.id, node.category)
  | .stmt => program.stmts.rollCall fun node => (node.id, node.category)
  | .decl => program.decls.nodes.rollCall fun node => (node.id, node.category)
  | .directive => program.directives.rollCall fun node => (node.id, node.category)

/-- The census agrees with the tables. -/
def Tallied (program : Program) : Prop := program.census.Tallies program.roster

theorem Tallied.congr (tallied : program.Tallied) (counted : after.census = program.census)
    (called : ∀ group, after.roster group = program.roster group) : after.Tallied := by
  rw [Tallied, counted, funext called]
  exact tallied

theorem Tallied.terms (tallied : program.Tallied) {terms : List Term} {list : TermListId} {names : NameTable}
    (kept : program.names.keepTerms terms = .ok (list, names)) : Tallied { program with names } := by
  refine tallied.congr rfl fun group => ?_
  cases group <;> simp [roster, NameTable.keepTerms_nodes kept]

theorem Tallied.name (tallied : program.Tallied) {kind : NameKind} {id : NameId} {names : NameTable}
    {census : Census} (given : program.names.canonical kind program.census = .ok (id, names, census)) :
    Tallied { program with names, census } := by
  rcases NameTable.canonical_cases given with ⟨rfl, rfl⟩ | ⟨_, ⟨number, handle, enrolled, pushed⟩, rfl⟩
  · exact tallied.find (by decide)
  · obtain ⟨kin, canonical⟩ := kind.category_canonical
    have called : roster { program with names } = program.roster.add (number, kind.category) := by
      refine Roster.eq_add kin (Slab.rollCall_push pushed) fun other different => ?_
      cases other <;> first | rfl | exact absurd rfl different
    have tallies := tallied.make (by decide) kin canonical enrolled
    rw [← called] at tallies
    exact tallies

theorem Tallied.types (tallied : program.Tallied) {members : List TypeId} {list : TypeListId}
    {types : TypeTable} (kept : program.types.keepList members = .ok (list, types)) :
    Tallied { program with types } := by
  refine tallied.congr rfl fun group => ?_
  cases group <;> simp [roster, TypeTable.keepList_nodes kept]

theorem roster_types {types : TypeTable} {kind : TypeKind} {number : NodeId} {handle : TypeId}
    (pushed : program.types.nodes.push ⟨number, kind⟩ = .ok (handle, types.nodes)) :
    roster { program with types } = program.roster.add (number, kind.category) := by
  refine Roster.eq_add kind.category_group (Slab.rollCall_push pushed) fun other different => ?_
  cases other <;> first | rfl | exact absurd rfl different

theorem Tallied.type (tallied : program.Tallied) {kind : TypeKind} {id : TypeId} {types : TypeTable}
    {census : Census} (structural : kind.IsStructural)
    (given : program.types.canonical kind program.census = .ok (id, types, census)) :
    Tallied { program with types, census } := by
  rcases TypeTable.canonical_cases structural.2 given with
    ⟨rfl, rfl⟩ | ⟨_, ⟨number, handle, enrolled, pushed⟩, rfl⟩
  · exact tallied.find (by decide)
  · have tallies := tallied.make (by decide) kind.category_group structural.1 enrolled
    rw [← roster_types pushed] at tallies
    exact tallies

theorem Tallied.userType (tallied : program.Tallied) {kind : TypeKind} {region : RegionId} {id : TypeId}
    {types : TypeTable} {census : Census} (owning : kind.region? = some region)
    (given : program.types.fresh kind program.census = .ok (id, types, census)) :
    Tallied { program with types, census } := by
  obtain ⟨number, handle, enrolled, pushed⟩ := TypeTable.fresh_enrols given
  have distinct : kind.category.isCanonical = false := by
    have owned := kind.isCanonical_iff
    simpa [owning] using owned
  have tallies := Census.Tallies.enroll tallied distinct enrolled
  rw [← roster_types pushed] at tallies
  exact tallies

theorem roster_exprs {exprs : ExprTable} {kind : ExprKind} {type : Option TypeId} {number : NodeId}
    {handle : ExprId} (pushed : program.exprs.nodes.push ⟨number, kind, type⟩ = .ok (handle, exprs.nodes)) :
    roster { program with exprs } = program.roster.add (number, kind.category) := by
  refine Roster.eq_add kind.category_group (Slab.rollCall_push pushed) fun other different => ?_
  cases other <;> first | rfl | exact absurd rfl different

theorem Tallied.literal (tallied : program.Tallied) {type : TypeId} {text : Symbol} {id : ExprId}
    {exprs : ExprTable} {census : Census}
    (given : program.exprs.literal type text program.census = .ok (id, exprs, census)) :
    Tallied { program with exprs, census } := by
  rcases ExprTable.literal_cases given with ⟨rfl, rfl⟩ | ⟨_, ⟨number, handle, enrolled, pushed⟩, rfl⟩
  · exact tallied.find (by decide)
  · have called : roster { program with exprs } = program.roster.add (number, .literal) := roster_exprs pushed
    have tallies := tallied.make (by decide) rfl rfl enrolled
    rw [← called] at tallies
    exact tallies

theorem Tallied.expr (tallied : program.Tallied) {kind : ExprKind} {type : Option TypeId} {id : ExprId}
    {exprs : ExprTable} {census : Census} (distinct : kind.category ≠ .literal)
    (given : program.exprs.fresh kind type program.census = .ok (id, exprs, census)) :
    Tallied { program with exprs, census } := by
  obtain ⟨number, handle, enrolled, pushed⟩ := ExprTable.fresh_enrols given
  have tallies := Census.Tallies.enroll tallied (by simp [Category.isCanonical, kind.category_group, distinct]) enrolled
  rw [← roster_exprs pushed] at tallies
  exact tallies

/-- In a group without canonical nodes, every node is made unasked. -/
theorem Tallied.enters (tallied : program.Tallied) {group : Group} {category : Category} {number : NodeId}
    {counted : Census} (unasked : group ∈ [Group.stmt, .decl, .directive]) (kin : category.group = group)
    (enrolled : program.census.enroll category = .ok (number, counted)) (census : after.census = counted)
    (own : after.roster group = program.roster group ++ [(number, category)])
    (others : ∀ other, other ≠ group → after.roster other = program.roster other) : after.Tallied := by
  rw [Tallied, census, Roster.eq_add kin own others]
  exact Census.Tallies.enroll tallied (Category.not_isCanonical (kin ▸ unasked)) enrolled

theorem Change.keeps_tallied (change : program.Change known after) (tallied : program.Tallied) :
    after.Tallied := by
  cases change with
  | strings | base | region | regionOwner | specialization => exact tallied
  | name _ _ given => exact tallied.name given
  | terms kept => exact tallied.terms kept
  | templateId _ kept given => exact (tallied.terms kept).name given
  | simpleType simple _ given => exact tallied.type (TypeKind.structural_of_isSimple simple) given
  | qualifiedType _ _ given => exact tallied.type (TypeKind.structural_qualifiedWith ..) given
  | product _ kept given => exact (tallied.types kept).type (TypeKind.structural_product _) given
  | sum _ kept given => exact (tallied.types kept).type (TypeKind.structural_sum _) given
  | userType owning given => exact tallied.userType owning given
  | underlyingType found changed =>
    refine tallied.congr rfl fun group => ?_
    cases group with
    | type =>
      refine Slab.rollCall_modify changed fun node present => ?_
      cases found.symm.trans present
      rfl
    | _ => rfl
  | literal _ given => exact tallied.literal given
  | expr distinct given => exact tallied.expr distinct given
  | exprs kept =>
    refine tallied.congr rfl fun group => ?_
    cases group <;> simp [roster, ExprTable.keepList_nodes kept]
  | exprType found untyped changed =>
    refine tallied.congr rfl fun group => ?_
    cases group with
    | expr => exact Slab.rollCall_modify changed fun _ _ => rfl
    | _ => rfl
  | @stmt kind number id census stmts enrolled made =>
    have kin : kind.category.group = .stmt := by cases kind <;> rfl
    exact tallied.enters (by decide) kin enrolled rfl (Slab.rollCall_push made) fun other different => by
      cases other <;> first | rfl | exact absurd rfl different
  | blockEnd found unfinished changed =>
    refine tallied.congr rfl fun group => ?_
    cases group with
    | stmt =>
      refine Slab.rollCall_modify changed fun node present => ?_
      cases (Slab.get_eq_ok.mp found).symm.trans present
      simp [StmtNode.category, unfinished, StmtKind.category]
    | _ => rfl
  | @directive region kind number id census directives regions enrolled made changed =>
    have kin : kind.category.group = .directive := by cases kind <;> rfl
    exact tallied.enters (by decide) kin enrolled rfl (Slab.rollCall_push made) fun other different => by
      cases other <;> first | rfl | exact absurd rfl different
  | @decl _ _ node id _ _ scopes joined nodes census _ _ _ _ _ appended enrolled made =>
    rw [appendToChain_nodes appended] at made
    have kin : node.category.group = .decl := by
      unfold DeclNode.category
      cases node.kind <;> rfl
    exact tallied.enters (by decide) kin enrolled rfl (Slab.rollCall_push made) fun other different => by
      cases other <;> first | rfl | exact absurd rfl different
  | refill found filled changed =>
    refine tallied.congr rfl fun group => ?_
    cases group with
    | decl =>
      refine Slab.rollCall_modify changed fun node present => ?_
      cases (Slab.get_eq_ok.mp found).symm.trans present
      simp [DeclNode.category, filled.category]
    | _ => rfl

theorem Reaches.keeps_tallied (reaches : program.Reaches known after) (tallied : program.Tallied) :
    after.Tallied := by
  induction reaches with
  | refl => exact tallied
  | tail _ change ih => exact change.keeps_tallied ih

theorem tallied_shared {sizing : Sizing} {strings : SymbolPool} {exprs : ExprTable}
    (unmade : exprs.nodes = {}) : Tallied { sizing, strings, exprs } := by
  have uncalled : roster { sizing, strings, exprs } = fun _ => [] := by
    funext group
    cases group <;> simp [roster, Slab.rollCall, unmade]
  rw [Tallied, uncalled]
  exact Census.tallies_empty

theorem tallied_initial {hash : Bytes → UInt64} {sizing : Sizing}
    (began : initial hash sizing = .ok program) : program.Tallied := by
  obtain ⟨exprs, before, seeded, reaches, equal⟩ := initial_reaches (fun _ => True) began
  rw [equal]
  exact reaches.keeps_tallied (tallied_shared (ExprTable.nodes_initial seeded))

theorem length_roster (program : Program) (group : Group) :
    (program.roster group).length = program.nodeCount group := by
  cases group <;> simp [roster, Slab.rollCall, nodeCount, Slab.size]

theorem typeNode_fundamental (program : Program) (fundamental : Fundamental) :
    ∃ node, program.typeNode fundamental.typeId = .ok node ∧ node.id.raw < Table.firstFree .node := by
  have found := fundamental.getElem?_index
  obtain ⟨inside, -⟩ := List.getElem?_eq_some_iff.mp found
  exact ⟨_, TypeTable.get_eq_ok.mpr (.inl ⟨fundamental, found, rfl⟩), Nat.lt_trans inside (by decide)⟩

theorem sharedExprs_low : ∀ node ∈ sharedExprs, node.id.raw < Table.firstFree .node := by decide

/-- The numbers of the nodes that the program made. -/
def numbers (program : Program) : List NodeId := program.roster.all.map Prod.fst

/-- The census is exact. -/
structure ExactCensus (program : Program) : Prop where
  distinct : program.numbers.Nodup
  consecutive : ∀ number : NodeId,
    number ∈ program.numbers ↔ 64 ≤ number.raw ∧ number.raw < 64 + program.census.total
  fundamental : ∀ fundamental : Fundamental,
    ∃ node, program.typeNode fundamental.typeId = .ok node ∧ node.id ∉ program.numbers
  shared : ∀ node ∈ sharedExprs, node.id ∉ program.numbers
  counts : ∀ category, program.census.count category = (program.roster.all.map Prod.snd).count category
  groupCounts : ∀ group, program.census.groupCount group = program.nodeCount group
  total : program.census.total = (Group.all.map program.nodeCount).sum
  missedNames : program.census.missesOf .name = program.nodeCount .name
  missedTypes : program.census.missesOf .type = (program.roster .type).countP (·.2.isCanonical)
  missedExprs : program.census.missesOf .expr = program.census.count .literal
  unasked : ∀ group ∈ [Group.stmt, .decl, .directive],
    program.census.hitsOf group = 0 ∧ program.census.missesOf group = 0

theorem Tallied.exactCensus (tallied : program.Tallied) : program.ExactCensus := by
  have counted := tallied.toNumbers
  have consecutive := counted.mem_iff
  have low : ∀ number : NodeId, number.raw < 64 → number ∉ program.numbers := by
    intro number small listed
    obtain ⟨free, -⟩ := (consecutive number).mp listed
    exact Nat.not_le_of_lt small free
  refine ⟨counted.nodup, consecutive, fun fundamental => ?_, fun node shared => ?_, counted.counted,
    fun group => ?_, ?_, ?_, tallied.missed _, tallied.missed_literals, fun group member => ?_⟩
  · obtain ⟨node, read, small⟩ := program.typeNode_fundamental fundamental
    exact ⟨node, read, low node.id small⟩
  · exact low node.id (sharedExprs_low node shared)
  · rw [counted.groupCount_eq, length_roster]
  · rw [counted.total_eq]
    simp only [length_roster]
  · rw [tallied.missed_all fun category kin => by simp [Category.isCanonical, kin], length_roster]
  · exact ⟨tallied.unasked member, tallied.missed_none member⟩

/-- After any run of a new program its census is exact. -/
theorem census_exact {hash : Bytes → UInt64} {sizing : Sizing} {start : Program} {requests : List Request}
    (began : initial hash sizing = .ok start) (ran : start.run requests = .ok program) :
    program.ExactCensus :=
  ((run_reaches ran).keeps_tallied (tallied_initial began)).exactCensus

/-- A run that makes nodes of all six groups. The second pointer and the literal that is a
shared constant make none. -/
theorem census_exact_all_groups : ∃ start program : Program,
    initial (fun _ => 0) {} = .ok start ∧
    start.run [.intern (.ofString "x"), .identifier (.entry 0), .pointer ⟨11⟩, .pointer ⟨11⟩,
      .literal Fundamental.bool.typeId (.word 69), .newClass .global, .literal ⟨11⟩ (.entry 0),
      .returnStmt (some ⟨8⟩), .declareVar .global ⟨0⟩ ⟨11⟩ .empty, .pragma .global (.entry 0)] = .ok program ∧
    program.numbers = [⟨65⟩, ⟨64⟩, ⟨66⟩, ⟨67⟩, ⟨68⟩, ⟨69⟩, ⟨70⟩, ⟨71⟩] ∧ program.ExactCensus ∧
    program.census.groupCount .type = 3 ∧ program.census.missesOf .type = 1 ∧
    program.census.missesOf .expr = 1 ∧ program.census.total = 8 := by
  have performed : (do
      let start ← initial (fun _ => 0) {}
      let program ← start.run [.intern (.ofString "x"), .identifier (.entry 0), .pointer ⟨11⟩, .pointer ⟨11⟩,
        .literal Fundamental.bool.typeId (.word 69), .newClass .global, .literal ⟨11⟩ (.entry 0),
        .returnStmt (some ⟨8⟩), .declareVar .global ⟨0⟩ ⟨11⟩ .empty, .pragma .global (.entry 0)]
      if program.numbers = [⟨65⟩, ⟨64⟩, ⟨66⟩, ⟨67⟩, ⟨68⟩, ⟨69⟩, ⟨70⟩, ⟨71⟩] ∧
          program.census.groupCount .type = 3 ∧ program.census.missesOf .type = 1 ∧
          program.census.missesOf .expr = 1 ∧ program.census.total = 8 then return program
      else .error .outOfRange : Checked Program).isOk := by decide +kernel
  obtain ⟨_, performed⟩ := Checked.exists_of_isOk performed
  obtain ⟨start, began, rest⟩ := Checked.bind_eq_ok.mp performed
  obtain ⟨program, ran, rest⟩ := Checked.bind_eq_ok.mp rest
  split at rest
  next facts =>
    obtain ⟨numbered, counts⟩ := facts
    exact ⟨start, program, began, ran, numbered, census_exact began ran, counts⟩
  · cases rest

end Program

end CanonIR
