import CanonIR.Proofs.NodeSources
import CanonIR.Proofs.StructuralIdentity

/-! What nodes refer to, and what a change does to that. The links of a node stay as they
are, but that one may be added where it was left open. The links of a new node lead to
nodes that were there before it; only the first declaration of a chain leads to itself. -/

namespace CanonIR

/-- The number of a node and what the node refers to. -/
structure Links where
  number : NodeId
  /-- What it is made of. -/
  operands : List NodeRef
  /-- What is in fields that can be filled later, and in lists that can grow. -/
  additions : List NodeRef
  deriving DecidableEq

namespace Links

def targets (links : Links) : List NodeRef := links.operands ++ links.additions

/-- At most one link is added, to a node and of a node that are `known`. -/
inductive Grows (known : Answer → Prop) (ref : NodeRef) (old : Links) : Links → Prop where
  | same : Grows known ref old old
  | added {target : NodeRef} (uses : known (.node ref) ∧ known (.node target)) :
      Grows known ref old { old with additions := old.additions ++ [target] }

/-- Links may have been added since. -/
structure Extends (old now : Links) : Prop where
  number : now.number = old.number
  operands : now.operands = old.operands
  additions : old.additions <+: now.additions

theorem Extends.refl (links : Links) : links.Extends links := ⟨rfl, rfl, List.prefix_rfl⟩

theorem Extends.trans {first second third : Links} (earlier : first.Extends second)
    (later : second.Extends third) : first.Extends third :=
  ⟨later.number.trans earlier.number, later.operands.trans earlier.operands,
    earlier.additions.trans later.additions⟩

theorem Grows.extends {known : Answer → Prop} {ref : NodeRef} {old now : Links}
    (grows : old.Grows known ref now) : old.Extends now := by
  cases grows with
  | same => exact .refl old
  | added => exact ⟨rfl, rfl, List.prefix_append ..⟩

end Links

/-- The field that is filled was the only one that was open. -/
theorem DeclKind.Fills.links {old new : DeclKind} (filled : old.Fills new) :
    new.operands = old.operands ∧ new.args? = old.args? ∧
      ∃ target, old.additions = [] ∧ new.additions = [target] := by
  cases filled <;> exact ⟨rfl, rfl, _, rfl, rfl⟩

namespace Program

variable {known : Answer → Prop} {program after : Program} {ref : NodeRef}

/-- The terms that a template is specialized for. -/
def specializedFor (program : Program) (kind : DeclKind) : Checked (List Term) :=
  match kind.args? with
  | none => return []
  | some list => program.termList list

def links (program : Program) : NodeRef → Checked Links
  | .name id => do
    let node ← program.nameNode id
    let (_, operands) ← program.nameLayer node.kind
    return ⟨node.id, operands.map Term.toRef, []⟩
  | .type id => do
    let node ← program.typeNode id
    let (_, operands) ← program.typeLayer id node.kind
    return ⟨node.id, operands.map Term.toRef, (program.bases id).map .type ++ node.kind.additions⟩
  | .expr id => do
    let node ← program.exprNode id
    return ⟨node.id, ← program.exprOperands node.kind, node.additions⟩
  | .stmt id => do
    let node ← program.stmtNode id
    return ⟨node.id, node.kind.operands, node.kind.additions⟩
  | .decl id => do
    let node ← program.declNode id
    let terms ← program.specializedFor node.kind
    return ⟨node.id, .name node.name :: .type node.type :: .decl node.master ::
      (node.kind.operands ++ terms.map Term.toRef), node.kind.additions⟩
  | .directive id => do
    let node ← program.directiveNode id
    return ⟨node.id, node.kind.operands, []⟩

/-! ### Reading links -/

theorem links_name {id : NameId} {links : Links} : program.links (.name id) = .ok links ↔
    ∃ node head operands, program.nameNode id = .ok node ∧
      program.nameLayer node.kind = .ok (head, operands) ∧
      ⟨node.id, operands.map Term.toRef, []⟩ = links := by
  simp [Program.links, Checked.bind_eq_ok]

theorem links_type {id : TypeId} {links : Links} : program.links (.type id) = .ok links ↔
    ∃ node head operands, program.typeNode id = .ok node ∧
      program.typeLayer id node.kind = .ok (head, operands) ∧
      ⟨node.id, operands.map Term.toRef, (program.bases id).map .type ++ node.kind.additions⟩ = links := by
  simp [Program.links, Checked.bind_eq_ok]

theorem links_expr {id : ExprId} {links : Links} : program.links (.expr id) = .ok links ↔
    ∃ node operands, program.exprNode id = .ok node ∧ program.exprOperands node.kind = .ok operands ∧
      ⟨node.id, operands, node.additions⟩ = links := by
  simp [Program.links, Checked.bind_eq_ok]

theorem links_stmt {id : StmtId} {links : Links} : program.links (.stmt id) = .ok links ↔
    ∃ node, program.stmtNode id = .ok node ∧ ⟨node.id, node.kind.operands, node.kind.additions⟩ = links := by
  simp [Program.links, Checked.bind_eq_ok]

theorem links_decl {id : DeclId} {links : Links} : program.links (.decl id) = .ok links ↔
    ∃ node terms, program.declNode id = .ok node ∧ program.specializedFor node.kind = .ok terms ∧
      ⟨node.id, .name node.name :: .type node.type :: .decl node.master ::
        (node.kind.operands ++ terms.map Term.toRef), node.kind.additions⟩ = links := by
  simp [Program.links, Checked.bind_eq_ok]

theorem links_directive {id : DirectiveId} {links : Links} : program.links (.directive id) = .ok links ↔
    ∃ node, program.directiveNode id = .ok node ∧ ⟨node.id, node.kind.operands, []⟩ = links := by
  simp [Program.links, Checked.bind_eq_ok]

/-! ### What a change does to the links of a node -/

theorem Change.keeps_exprList (change : program.Change known after) {list : ExprListId}
    {members : List ExprId} (read : program.exprList list = .ok members) :
    after.exprList list = .ok members := by
  cases change with
  | literal _ given =>
    obtain ⟨_, -, equal⟩ := Checked.bind_eq_ok.mp given
    cases equal
    exact read
  | expr _ given =>
    obtain ⟨_, -, equal⟩ := Checked.bind_eq_ok.mp given
    cases equal
    exact read
  | exprs kept =>
    obtain ⟨⟨_, lists⟩, pushed, equal⟩ := Checked.bind_eq_ok.mp kept
    cases equal
    exact Slab.get_eq_ok.mpr (Slab.get?_kept pushed (Slab.get_eq_ok.mp read))
  | _ => exact read

theorem Change.keeps_exprOperands (change : program.Change known after) {kind : ExprKind}
    {operands : List NodeRef} (read : program.exprOperands kind = .ok operands) :
    after.exprOperands kind = .ok operands := by
  cases kind with
  | call | initializerList =>
    obtain ⟨members, listed, equal⟩ := Checked.bind_eq_ok.mp read
    exact Checked.bind_eq_ok.mpr ⟨members, change.keeps_exprList listed, equal⟩
  | newExpr type args =>
    cases args with
    | none => exact read
    | some list =>
      obtain ⟨members, listed, equal⟩ := Checked.bind_eq_ok.mp read
      exact Checked.bind_eq_ok.mpr ⟨members, change.keeps_exprList listed, equal⟩
  | _ => exact read

theorem bases_canonical {types former : TypeTable} {kind : TypeKind} {id : TypeId} {census counted : Census}
    (structural : kind.IsStructural) (given : former.canonical kind census = .ok (id, types, counted)) :
    types.bases = former.bases := by
  rw [TypeTable.canonical_eq structural.2] at given
  obtain ⟨_, -, equal⟩ := Checked.bind_eq_ok.mp given
  cases equal
  rfl

theorem bases_keepList {types former : TypeTable} {members : List TypeId} {list : TypeListId}
    (kept : former.keepList members = .ok (list, types)) : types.bases = former.bases := by
  obtain ⟨_, -, equal⟩ := Checked.bind_eq_ok.mp kept
  cases equal
  rfl

/-- Only a class gets a base. -/
theorem Change.bases_cases (change : program.Change known after) (id : TypeId) :
    after.bases id = program.bases id ∨ ∃ base node region, program.typeNode id = .ok node ∧
      node.kind = .classType region ∧ after.bases id = program.bases id ++ [base] ∧
      known (.type id) ∧ known (.type base) := by
  cases change with
  | simpleType simple _ given =>
    simp [bases, TypeTable.basesOf, bases_canonical (TypeKind.structural_of_isSimple simple) given]
  | qualifiedType _ _ given =>
    simp [bases, TypeTable.basesOf, bases_canonical (TypeKind.structural_qualifiedWith ..) given]
  | product _ kept given =>
    simp [bases, TypeTable.basesOf, bases_canonical (TypeKind.structural_product _) given, bases_keepList kept]
  | sum _ kept given =>
    simp [bases, TypeTable.basesOf, bases_canonical (TypeKind.structural_sum _) given, bases_keepList kept]
  | userType _ given =>
    obtain ⟨_, -, equal⟩ := Checked.bind_eq_ok.mp given
    cases equal
    exact .inl rfl
  | @base type base node region found extensible uses =>
    by_cases same : type = id
    · subst same
      exact .inr ⟨base, node, region, found, extensible,
        by simp [bases, TypeTable.basesOf, TypeTable.addBase], uses⟩
    · exact .inl (by simp [bases, TypeTable.basesOf, TypeTable.addBase, same])
  | _ => exact .inl rfl

theorem specializedFor_congr {kind other : DeclKind} (same : kind.args? = other.args?) :
    program.specializedFor kind = program.specializedFor other := by
  rw [specializedFor, same, specializedFor]

theorem Change.keeps_specializedFor (change : program.Change known after) (identifies : program.Identifies)
    {kind : DeclKind} {terms : List Term} (read : program.specializedFor kind = .ok terms) :
    after.specializedFor kind = .ok terms := by
  obtain ⟨-, recalls⟩ := change.keeps_identifies identifies
  unfold specializedFor at read ⊢
  split at read
  · exact read
  · exact recalls.larger.names.lists read

theorem Change.links_type_grows (change : program.Change known after) (identifies : program.Identifies)
    {id : TypeId} {old : Links} (read : program.links (.type id) = .ok old) :
    ∃ now, after.links (.type id) = .ok now ∧ old.Grows known (.type id) now := by
  obtain ⟨-, recalls⟩ := change.keeps_identifies identifies
  obtain ⟨node, head, operands, found, layered, rfl⟩ := links_type.mp read
  have issued := issued_type.mpr ⟨node, found⟩
  obtain ⟨now, there⟩ := issued_type.mp (change.keeps_issued identifies issued)
  cases change.typeSource there with
  | kept before =>
    cases found.symm.trans before
    have layered := recalls.typeLayer layered
    rcases change.bases_cases id with same | ⟨base, node, region, before, extensible, longer, uses⟩
    · exact ⟨_, links_type.mpr ⟨_, head, operands, there, layered, rfl⟩, by rw [same]; exact .same⟩
    · cases found.symm.trans before
      refine ⟨_, links_type.mpr ⟨_, head, operands, there, layered, rfl⟩, ?_⟩
      simpa [longer, extensible, TypeKind.additions] using .added uses
  | @filled region underlying before filled uses =>
    cases found.symm.trans before
    cases layered
    rcases change.bases_cases id with same | ⟨base, node, region, before, extensible, longer, uses⟩
    · refine ⟨_, links_type.mpr ⟨now, _, _, there, by rw [filled]; rfl, rfl⟩, ?_⟩
      simpa [same, filled, TypeKind.additions] using .added uses
    · cases found.symm.trans before
      cases extensible
  | new absent => exact absurd issued absent

theorem Change.links_expr_grows (change : program.Change known after) (identifies : program.Identifies)
    {id : ExprId} {old : Links} (read : program.links (.expr id) = .ok old) :
    ∃ now, after.links (.expr id) = .ok now ∧ old.Grows known (.expr id) now := by
  obtain ⟨node, operands, found, made, rfl⟩ := links_expr.mp read
  have issued := issued_expr.mpr ⟨node, found⟩
  have made := change.keeps_exprOperands made
  obtain ⟨now, there⟩ := issued_expr.mp (change.keeps_issued identifies issued)
  cases change.exprSource there with
  | kept before =>
    cases found.symm.trans before
    exact ⟨_, links_expr.mpr ⟨_, operands, there, made, rfl⟩, .same⟩
  | typed before typed uses =>
    cases found.symm.trans before
    refine ⟨_, links_expr.mpr ⟨now, operands, there, made, rfl⟩, ?_⟩
    simpa [ExprNode.additions, typed] using .added uses
  | new absent => exact absurd issued absent

theorem Change.links_stmt_grows (change : program.Change known after) {id : StmtId} {old : Links}
    (read : program.links (.stmt id) = .ok old) :
    ∃ now, after.links (.stmt id) = .ok now ∧ old.Grows known (.stmt id) now := by
  obtain ⟨node, found, rfl⟩ := links_stmt.mp read
  have issued := issued_stmt.mpr ⟨node, found⟩
  obtain ⟨now, there⟩ := change.keeps_stmt found
  refine ⟨_, links_stmt.mpr ⟨now, there, rfl⟩, ?_⟩
  cases change.stmtSource there with
  | kept before =>
    cases found.symm.trans before
    exact .same
  | longer before longer uses =>
    cases found.symm.trans before
    simpa [longer, StmtKind.operands, StmtKind.additions] using .added uses
  | new absent => exact absurd issued absent

theorem Change.links_decl_grows (change : program.Change known after) (identifies : program.Identifies)
    {id : DeclId} {old : Links} (read : program.links (.decl id) = .ok old) :
    ∃ now, after.links (.decl id) = .ok now ∧ old.Grows known (.decl id) now := by
  obtain ⟨node, terms, found, applied, rfl⟩ := links_decl.mp read
  have issued := issued_decl.mpr ⟨node, found⟩
  have applied := change.keeps_specializedFor identifies applied
  obtain ⟨now, there⟩ := change.keeps_decl found
  cases change.declSource there with
  | kept before =>
    cases found.symm.trans before
    exact ⟨_, links_decl.mpr ⟨_, terms, there, applied, rfl⟩, .same⟩
  | refilled before filled uses =>
    cases found.symm.trans before
    obtain ⟨operands, args, target, left, taken⟩ := filled.links
    refine ⟨_, links_decl.mpr ⟨now, terms, there, (specializedFor_congr args).trans applied, rfl⟩, ?_⟩
    have added : known (.node target) := uses.2 target (by simp [taken])
    simpa [operands, left, taken] using .added ⟨uses.1, added⟩
  | new absent => exact absurd issued absent

/-- The links of a node stay, but that one may be added. -/
theorem Change.links_grow (change : program.Change known after) (identifies : program.Identifies)
    {old : Links} (read : program.links ref = .ok old) :
    ∃ now, after.links ref = .ok now ∧ old.Grows known ref now := by
  obtain ⟨-, recalls⟩ := change.keeps_identifies identifies
  cases ref with
  | name id =>
    obtain ⟨node, head, operands, found, layered, rfl⟩ := links_name.mp read
    exact ⟨_, links_name.mpr
      ⟨node, head, operands, recalls.larger.nameNode found, recalls.nameLayer layered, rfl⟩, .same⟩
  | type id => exact change.links_type_grows identifies read
  | expr id => exact change.links_expr_grows identifies read
  | stmt id => exact change.links_stmt_grows read
  | decl id => exact change.links_decl_grows identifies read
  | directive id =>
    obtain ⟨node, found, rfl⟩ := links_directive.mp read
    obtain ⟨now, there⟩ := change.keeps_directive found
    cases change.directiveSource there with
    | kept before =>
      cases found.symm.trans before
      exact ⟨_, links_directive.mpr ⟨_, there, rfl⟩, .same⟩
    | new absent => exact absurd (issued_directive.mpr ⟨node, found⟩) absent

/-! ### The links of a new node -/

/-- Every link of an issued node can be read and leads to an issued one. -/
structure Closed (program : Program) : Prop where
  linked : ∀ {ref}, program.issued (.node ref) →
    ∃ links, program.links ref = .ok links ∧ ∀ target ∈ links.targets, program.issued (.node target)
  derived : ∀ {id}, program.bases id ≠ [] → program.issued (.type id)

/-- The node is the first declaration of a chain. -/
def LeadsChain (program : Program) (ref : NodeRef) : Prop :=
  ∃ id node, ref = .decl id ∧ program.declNode id = .ok node ∧ node.master = id

/-- The node has the next number, and it refers to issued nodes or, as its own master, to
itself. -/
structure Follows (program after : Program) (ref : NodeRef) (links : Links) : Prop where
  number : links.number = ⟨program.census.next⟩
  older : ∀ target ∈ links.targets, program.issued (.node target) ∨ target = ref ∧ after.LeadsChain ref

theorem Usable.issued (usable : program.Usable known ref)
    (granted : ∀ handle, known handle → program.issued handle) : program.issued (.node ref) :=
  usable.elim (granted _) id

theorem Offers.issued {type : TypeId} (offers : program.Offers type) (closed : program.Closed) :
    program.issued (.type type) := by
  cases offers with
  | @declared id node found same =>
    obtain ⟨links, read, issued⟩ := closed.linked (issued_decl.mpr ⟨node, found⟩)
    obtain ⟨_, terms, again, -, rfl⟩ := links_decl.mp read
    cases found.symm.trans again
    exact issued _ (by simp [Links.targets, same])
  | inner found same =>
    obtain ⟨links, read, issued⟩ := closed.linked (issued_expr.mpr ⟨_, found⟩)
    obtain ⟨_, operands, again, -, rfl⟩ := links_expr.mp read
    cases found.symm.trans again
    exact issued _ (by simp [Links.targets, ExprNode.additions, same])

/-- No program has issued everything. -/
theorem exists_unissued (program : Program) : ∃ handle, ¬ program.issued handle := by
  refine ⟨.stmt ⟨Table.firstFree .stmt + program.stmts.size⟩, fun issued => ?_⟩
  obtain ⟨node, found⟩ := issued_stmt.mp issued
  exact Nat.lt_irrefl _ (Slab.raw_lt_of_get? (Slab.get_eq_ok.mp found))

theorem specializedFor_of_listed {kind : DeclKind}
    (applied : ∀ list, kind.args? = some list → program.Listed known list)
    (granted : ∀ handle, known handle → program.issued handle) :
    ∃ terms, program.specializedFor kind = .ok terms ∧ ∀ term ∈ terms, program.issued (.term term) := by
  unfold specializedFor
  split
  · exact ⟨[], rfl, nofun⟩
  next list own =>
    rcases applied list own with all | ⟨terms, read, uses⟩
    · obtain ⟨handle, unissued⟩ := program.exists_unissued
      exact absurd (granted handle (all handle)) unissued
    · exact ⟨terms, read, fun term member => granted _ (uses term member)⟩

section New

variable (change : program.Change known after) (identifies : program.Identifies)
  (granted : ∀ handle, known handle → program.issued handle) (grounded : program.Grounded)
  (closed : program.Closed)

include change granted

include identifies grounded in
theorem Change.follows_name {id : NameId} (issued : after.issued (.name id))
    (absent : ¬ program.issued (.name id)) :
    ∃ links, after.links (.name id) = .ok links ∧ program.Follows after (.name id) links := by
  obtain ⟨node, found⟩ := issued_name.mp issued
  rcases change.madeOf identifies granted grounded (show after.issued (.term (.name id)) from issued) with
    before | ⟨head, operands, layered, made⟩
  · exact absurd before absent
  obtain ⟨_, again, layered⟩ := Checked.bind_eq_ok.mp layered
  cases found.symm.trans again
  refine ⟨_, links_name.mpr ⟨node, head, operands, found, layered, rfl⟩, ?_, fun target member => ?_⟩
  · cases change.nameSource found with
    | kept before => exact absurd (issued_name.mpr ⟨node, before⟩) absent
    | new _ numbered => exact numbered
  · obtain ⟨operand, inside, rfl⟩ := List.mem_map.mp (by simpa [Links.targets] using member)
    exact .inl (made operand inside)

include identifies grounded closed in
theorem Change.follows_type {id : TypeId} (issued : after.issued (.type id))
    (absent : ¬ program.issued (.type id)) :
    ∃ links, after.links (.type id) = .ok links ∧ program.Follows after (.type id) links := by
  obtain ⟨node, found⟩ := issued_type.mp issued
  rcases change.madeOf identifies granted grounded (show after.issued (.term (.type id)) from issued) with
    before | ⟨head, operands, layered, made⟩
  · exact absurd before absent
  obtain ⟨_, again, layered⟩ := Checked.bind_eq_ok.mp layered
  cases found.symm.trans again
  have underived : after.bases id = [] := by
    rcases change.bases_cases id with same | ⟨_, node, _, before, -⟩
    · rw [same]
      by_contra some
      exact absent (closed.derived some)
    · exact absurd (issued_type.mpr ⟨node, before⟩) absent
  refine ⟨_, links_type.mpr ⟨node, head, operands, found, layered, rfl⟩, ?_⟩
  cases change.typeSource found with
  | kept before | filled before => exact absurd (issued_type.mpr ⟨_, before⟩) absent
  | new _ numbered _ bare =>
    refine ⟨numbered, fun target member => ?_⟩
    obtain ⟨operand, inside, rfl⟩ := List.mem_map.mp (by simpa [Links.targets, underived, bare] using member)
    exact .inl (made operand inside)

include closed in
theorem Change.follows_expr {id : ExprId} (issued : after.issued (.expr id))
    (absent : ¬ program.issued (.expr id)) :
    ∃ links, after.links (.expr id) = .ok links ∧ program.Follows after (.expr id) links := by
  obtain ⟨node, found⟩ := issued_expr.mp issued
  cases change.exprSource found with
  | kept before | typed before => exact absurd (issued_expr.mpr ⟨_, before⟩) absent
  | @new operands _ numbered read uses typed =>
    refine ⟨_, links_expr.mpr ⟨node, operands, found, change.keeps_exprOperands read, rfl⟩, numbered,
      fun target member => .inl ?_⟩
    rcases List.mem_append.mp member with inside | inside
    · exact (uses target inside).issued granted
    · obtain ⟨type, given, rfl⟩ := List.mem_map.mp inside
      exact (typed type (Option.mem_toList.mp given)).elim (·.issued granted) (·.issued closed)

theorem Change.follows_stmt {id : StmtId} (issued : after.issued (.stmt id))
    (absent : ¬ program.issued (.stmt id)) :
    ∃ links, after.links (.stmt id) = .ok links ∧ program.Follows after (.stmt id) links := by
  obtain ⟨node, found⟩ := issued_stmt.mp issued
  cases change.stmtSource found with
  | kept before | longer before => exact absurd (issued_stmt.mpr ⟨_, before⟩) absent
  | new _ numbered _ uses =>
    exact ⟨_, links_stmt.mpr ⟨node, found, rfl⟩, numbered,
      fun target member => .inl ((uses target member).issued granted)⟩

include identifies in
theorem Change.follows_decl {id : DeclId} (issued : after.issued (.decl id))
    (absent : ¬ program.issued (.decl id)) :
    ∃ links, after.links (.decl id) = .ok links ∧ program.Follows after (.decl id) links := by
  obtain ⟨node, found⟩ := issued_decl.mp issued
  cases change.declSource found with
  | kept before | refilled before => exact absurd (issued_decl.mpr ⟨_, before⟩) absent
  | new _ numbered named mastered _ uses applied =>
    obtain ⟨typed, uses⟩ := List.forall_mem_cons.mp uses
    obtain ⟨terms, read, given⟩ := specializedFor_of_listed applied granted
    have made : ∀ target, target = .decl id ∧ node.master = id ∨ program.Usable known target →
        program.issued (.node target) ∨ target = .decl id ∧ after.LeadsChain (.decl id) := by
      intro target made
      rcases made with ⟨same, first⟩ | usable
      · exact .inr ⟨same, id, node, rfl, found, first⟩
      · exact .inl (usable.issued granted)
    refine ⟨_, links_decl.mpr ⟨node, terms, found, change.keeps_specializedFor identifies read, rfl⟩,
      numbered, fun target member => ?_⟩
    simp only [Links.targets, List.cons_append, List.mem_cons, List.append_assoc, List.mem_append,
      List.mem_map] at member
    rcases member with rfl | rfl | rfl | inside | ⟨term, inside, rfl⟩ | inside
    · exact .inl (named.issued granted)
    · exact made _ typed
    · rcases mastered with first | older
      · exact .inr ⟨congrArg _ first, id, node, rfl, found, first⟩
      · exact .inl older
    · exact made target (uses target (List.mem_append_left _ inside))
    · exact .inl (given term inside)
    · exact made target (uses target (List.mem_append_right _ inside))

theorem Change.follows_directive {id : DirectiveId} (issued : after.issued (.node (.directive id)))
    (absent : ¬ program.issued (.node (.directive id))) :
    ∃ links, after.links (.directive id) = .ok links ∧ program.Follows after (.directive id) links := by
  obtain ⟨node, found⟩ := issued_directive.mp issued
  cases change.directiveSource found with
  | kept before => exact absurd (issued_directive.mpr ⟨_, before⟩) absent
  | new _ numbered uses =>
    refine ⟨_, links_directive.mpr ⟨node, found, rfl⟩, numbered, fun target member => .inl ?_⟩
    exact (uses target (by simpa [Links.targets] using member)).issued granted

include identifies grounded closed in
/-- A node that is new after a change comes after what it refers to. -/
theorem Change.follows (issued : after.issued (.node ref)) (absent : ¬ program.issued (.node ref)) :
    ∃ links, after.links ref = .ok links ∧ program.Follows after ref links := by
  cases ref with
  | name id => exact change.follows_name identifies granted grounded issued absent
  | type id => exact change.follows_type identifies granted grounded closed issued absent
  | expr id => exact change.follows_expr granted closed issued absent
  | stmt id => exact change.follows_stmt granted issued absent
  | decl id => exact change.follows_decl identifies granted issued absent
  | directive id => exact change.follows_directive granted issued absent

include identifies grounded closed in
theorem Change.keeps_closed : after.Closed := by
  have keeps : ∀ {target}, program.issued (.node target) → after.issued (.node target) :=
    fun issued => change.keeps_issued identifies issued
  refine ⟨fun {ref} issued => ?_, fun {id} some => ?_⟩
  · by_cases before : program.issued (.node ref)
    · obtain ⟨old, read, linked⟩ := closed.linked before
      obtain ⟨now, there, grows⟩ := change.links_grow identifies read
      refine ⟨now, there, fun target member => keeps ?_⟩
      cases grows with
      | same => exact linked target member
      | added uses =>
        rw [Links.targets, ← List.append_assoc, List.mem_append, List.mem_singleton] at member
        rcases member with inside | rfl
        · exact linked target inside
        · exact granted _ uses.2
    · obtain ⟨links, read, -, older⟩ := change.follows identifies granted grounded closed issued before
      refine ⟨links, read, fun target member => ?_⟩
      rcases older target member with there | ⟨rfl, -⟩
      · exact keeps there
      · exact issued
  · rcases change.bases_cases id with same | ⟨_, node, _, found, -⟩
    · exact keeps (closed.derived (same ▸ some))
    · exact keeps (issued_type.mpr ⟨node, found⟩)

end New

end Program

end CanonIR
