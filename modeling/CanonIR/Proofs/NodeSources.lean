import CanonIR.Proofs.IssuedAnswers
import CanonIR.Proofs.NodeCensus
import CanonIR.Proofs.TableGrowth

/-! Where nodes come from. A node that is there after a change was there before it, perhaps
with a field that has been filled since; or it is new, and then it has the next number and
is made of what was there. There is one rule for each table, so that whoever wants to know
what becomes of a node need not go through the changes. -/

namespace CanonIR

theorem Slab.Enrols.cases {α : Type} {table : Table} {slab after : Slab table α} {handle : Handle table}
    {now : α} {census counted : Census} {category : Category} {node : NodeId → α}
    (enrols : slab.Enrols census category node after counted) (found : after.get? handle = some now) :
    slab.get? handle = some now ∨ slab.get? handle = none ∧ now = node ⟨census.next⟩ := by
  obtain ⟨number, _, enrolled, pushed⟩ := enrols
  obtain ⟨rfl, -⟩ := Census.enroll_eq_ok enrolled
  exact (Slab.push_cases pushed found).imp_right fun ⟨absent, _, same⟩ => ⟨absent, same⟩

theorem TypeKind.additions_of_region? {kind : TypeKind} (regionless : kind.region? = none) :
    kind.additions = [] := by
  cases kind <;> first | rfl | cases regionless

namespace Program

variable {known : Answer → Prop} {program after : Program}

/-! ### Names -/

inductive NameSource (program : Program) (id : NameId) (node : NameNode) : Prop where
  | kept (found : program.nameNode id = .ok node)
  | new (absent : ¬ program.issued (.name id)) (numbered : node.id = ⟨program.census.next⟩)

theorem nameSource_canonical {names : NameTable} {kind : NameKind} {made id : NameId} {counted : Census}
    {node : NameNode} {former : NameTable} (same : former.nodes = program.names.nodes)
    (given : former.canonical kind program.census = .ok (made, names, counted))
    (found : names.nodes.get id = .ok node) : program.NameSource id node := by
  rcases NameTable.canonical_cases given with ⟨rfl, -⟩ | ⟨enrolled, enrols, -⟩
  · rw [same] at found
    exact .kept found
  · rw [same] at enrols
    rcases enrols.cases (Slab.get_eq_ok.mp found) with present | ⟨absent, rfl⟩
    · exact .kept (Slab.get_eq_ok.mpr present)
    · refine .new (fun issued => ?_) rfl
      obtain ⟨old, present⟩ := issued_name.mp issued
      cases absent.symm.trans (Slab.get_eq_ok.mp present)

theorem Change.nameSource (change : program.Change known after) {id : NameId} {node : NameNode}
    (found : after.nameNode id = .ok node) : program.NameSource id node := by
  cases change with
  | name _ _ given => exact nameSource_canonical rfl given found
  | terms kept =>
    rw [nameNode, NameTable.keepTerms_nodes kept] at found
    exact .kept found
  | templateId _ kept given => exact nameSource_canonical (NameTable.keepTerms_nodes kept) given found
  | _ => exact .kept found

/-! ### Types -/

/-- A new type has no base and no underlying type, and its region is its own. -/
inductive TypeSource (known : Answer → Prop) (program : Program) (id : TypeId) (node : TypeNode) : Prop where
  | kept (found : program.typeNode id = .ok node)
  | filled {region : RegionId} {underlying : TypeId}
      (found : program.typeNode id = .ok { node with kind := .enumType region none })
      (filled : node.kind = .enumType region (some underlying))
      (uses : known (.type id) ∧ known (.type underlying))
  | new (absent : ¬ program.issued (.type id)) (numbered : node.id = ⟨program.census.next⟩)
      (owned : ∀ region, node.kind.region? = some region → program.Owned region (.type id))
      (bare : node.kind.additions = [])

theorem unissued_type {types : TypeTable} {id : TypeId} {node : TypeNode}
    (absent : program.types.nodes.get? id = none) (present : types.nodes.get? id = some node) :
    ¬ program.issued (.type id) := by
  intro issued
  obtain ⟨old, found⟩ := issued_type.mp issued
  rcases TypeTable.get_eq_ok.mp found with ⟨fundamental, shared, -⟩ | there
  · have free := Slab.firstFree_le_of_get? present
    have low := (List.getElem?_eq_some_iff.mp shared).1
    exact Nat.not_le_of_lt (Nat.lt_of_lt_of_le low (by decide)) free
  · cases absent.symm.trans there

theorem typeSource_canonical {types former : TypeTable} {kind : TypeKind} {made id : TypeId}
    {counted : Census} {node : TypeNode} (structural : kind.IsStructural)
    (same : former.nodes = program.types.nodes)
    (given : former.canonical kind program.census = .ok (made, types, counted))
    (found : types.get id = .ok node) : program.TypeSource known id node := by
  have regionless := (TypeKind.isCanonical_iff kind).mp structural.1
  rcases TypeTable.get_eq_ok.mp found with shared | present
  · exact .kept (TypeTable.get_eq_ok.mpr (.inl shared))
  rcases TypeTable.canonical_cases structural.2 given with ⟨rfl, -⟩ | ⟨enrolled, enrols, -⟩
  · exact .kept (TypeTable.get_eq_ok.mpr (.inr (same ▸ present)))
  · rw [same] at enrols
    rcases enrols.cases present with there | ⟨absent, rfl⟩
    · exact .kept (TypeTable.get_eq_ok.mpr (.inr there))
    · exact .new (unissued_type absent present) rfl (fun region own => nomatch regionless.symm.trans own)
        (TypeKind.additions_of_region? regionless)

theorem Change.typeSource (change : program.Change known after) {id : TypeId} {node : TypeNode}
    (found : after.typeNode id = .ok node) : program.TypeSource known id node := by
  cases change with
  | simpleType simple _ given =>
    exact typeSource_canonical (TypeKind.structural_of_isSimple simple) rfl given found
  | qualifiedType _ _ given =>
    exact typeSource_canonical (TypeKind.structural_qualifiedWith ..) rfl given found
  | product _ kept given =>
    exact typeSource_canonical (TypeKind.structural_product _) (TypeTable.keepList_nodes kept) given found
  | sum _ kept given =>
    exact typeSource_canonical (TypeKind.structural_sum _) (TypeTable.keepList_nodes kept) given found
  | userType owning given owned bare =>
    obtain ⟨number, enrolled, pushed⟩ := TypeTable.fresh_parts given
    rcases TypeTable.get_eq_ok.mp found with shared | present
    · exact .kept (TypeTable.get_eq_ok.mpr (.inl shared))
    rcases Slab.push_cases pushed present with there | ⟨absent, rfl, rfl⟩
    · exact .kept (TypeTable.get_eq_ok.mpr (.inr there))
    · refine .new (unissued_type absent present) (Census.enroll_eq_ok enrolled).1
        (fun other own => ?_) bare
      cases owning.symm.trans own
      exact owned
  | underlyingType old changed uses =>
    rcases TypeTable.get_eq_ok.mp found with shared | present
    · exact .kept (TypeTable.get_eq_ok.mpr (.inl shared))
    rcases Slab.modify_cases changed present with there | ⟨rfl, former, there, rfl⟩
    · exact .kept (TypeTable.get_eq_ok.mpr (.inr there))
    · cases old.symm.trans there
      exact .filled (TypeTable.get_eq_ok.mpr (.inr old)) rfl uses
  | _ => exact .kept found

/-! ### Expressions -/

inductive ExprSource (known : Answer → Prop) (program : Program) (id : ExprId) (node : ExprNode) : Prop where
  | kept (found : program.exprNode id = .ok node)
  | typed {type : TypeId} (found : program.exprNode id = .ok { node with type := none })
      (typed : node.type = some type) (uses : known (.expr id) ∧ known (.type type))
  | new {operands : List NodeRef} (absent : ¬ program.issued (.expr id))
      (numbered : node.id = ⟨program.census.next⟩)
      (read : program.exprOperands node.kind = .ok operands)
      (uses : ∀ ref ∈ operands, program.Usable known ref)
      (typed : ∀ type, node.type = some type → program.Usable known (.type type) ∨ program.Offers type)

theorem unissued_expr {exprs : ExprTable} {id : ExprId} {node : ExprNode}
    (absent : program.exprs.nodes.get? id = none) (present : exprs.nodes.get? id = some node) :
    ¬ program.issued (.expr id) := by
  intro issued
  obtain ⟨old, found⟩ := issued_expr.mp issued
  rcases ExprTable.get_eq_ok.mp found with shared | there
  · have free := Slab.firstFree_le_of_get? present
    have low := (List.getElem?_eq_some_iff.mp shared).1
    exact Nat.not_le_of_lt (Nat.lt_of_lt_of_le low (by decide)) free
  · cases absent.symm.trans there

theorem Change.exprSource (change : program.Change known after) {id : ExprId} {node : ExprNode}
    (found : after.exprNode id = .ok node) : program.ExprSource known id node := by
  cases change with
  | literal uses given =>
    rcases ExprTable.get_eq_ok.mp found with shared | present
    · exact .kept (ExprTable.get_eq_ok.mpr (.inl shared))
    rcases ExprTable.literal_cases given with ⟨rfl, -⟩ | ⟨enrolled, enrols, -⟩
    · exact .kept found
    · rcases enrols.cases present with there | ⟨absent, rfl⟩
      · exact .kept (ExprTable.get_eq_ok.mpr (.inr there))
      · have typed := uses _ List.mem_cons_self
        refine .new (unissued_expr absent present) rfl rfl
          (List.forall_mem_singleton.mpr (.inl typed)) fun type same => ?_
        cases same
        exact .inl (.inl typed)
  | expr _ given uses typed =>
    obtain ⟨operands, read, usable⟩ := uses
    rcases ExprTable.get_eq_ok.mp found with shared | present
    · exact .kept (ExprTable.get_eq_ok.mpr (.inl shared))
    rcases (ExprTable.fresh_enrols given).cases present with there | ⟨absent, rfl⟩
    · exact .kept (ExprTable.get_eq_ok.mpr (.inr there))
    · exact .new (unissued_expr absent present) rfl read usable typed
  | exprs kept =>
    obtain ⟨_, -, equal⟩ := Checked.bind_eq_ok.mp kept
    cases equal
    exact .kept found
  | exprType old untyped changed uses =>
    rcases ExprTable.get_eq_ok.mp found with shared | present
    · exact .kept (ExprTable.get_eq_ok.mpr (.inl shared))
    rcases Slab.modify_cases changed present with there | ⟨rfl, former, there, rfl⟩
    · exact .kept (ExprTable.get_eq_ok.mpr (.inr there))
    · cases old.symm.trans there
      refine .typed (ExprTable.get_eq_ok.mpr (.inr ?_)) rfl uses
      rw [old, ← untyped]
  | _ => exact .kept found

/-! ### Statements -/

inductive StmtSource (known : Answer → Prop) (program : Program) (id : StmtId) (node : StmtNode) : Prop where
  | kept (found : program.stmtNode id = .ok node)
  | longer {region : RegionId} {body : Array StmtId} {stmt : StmtId}
      (found : program.stmtNode id = .ok { node with kind := .block region body })
      (longer : node.kind = .block region (body.push stmt))
      (uses : known (.stmt id) ∧ known (.stmt stmt))
  | new (absent : ¬ program.issued (.stmt id)) (numbered : node.id = ⟨program.census.next⟩)
      (owned : ∀ region, node.kind.region? = some region → program.Owned region (.stmt id))
      (uses : ∀ ref ∈ node.kind.operands ++ node.kind.additions, program.Usable known ref)

theorem Change.stmtSource (change : program.Change known after) {id : StmtId} {node : StmtNode}
    (found : after.stmtNode id = .ok node) : program.StmtSource known id node := by
  cases change with
  | stmt enrolled made owned uses =>
    rcases Slab.push_cases made (Slab.get_eq_ok.mp found) with there | ⟨absent, rfl, rfl⟩
    · exact .kept (Slab.get_eq_ok.mpr there)
    · refine .new (fun issued => ?_) (Census.enroll_eq_ok enrolled).1 owned uses
      obtain ⟨old, present⟩ := issued_stmt.mp issued
      cases absent.symm.trans (Slab.get_eq_ok.mp present)
  | blockEnd old unfinished changed uses =>
    rcases Slab.modify_cases changed (Slab.get_eq_ok.mp found) with there | ⟨rfl, former, there, rfl⟩
    · exact .kept (Slab.get_eq_ok.mpr there)
    · cases (Slab.get_eq_ok.mp old).symm.trans there
      refine .longer ?_ rfl uses
      rw [old, ← unfinished]
  | _ => exact .kept found

/-! ### Declarations -/

/-- A new declaration is its own master if it is the first one of its chain. -/
inductive DeclSource (known : Answer → Prop) (program : Program) (id : DeclId) (node : DeclNode) : Prop where
  | kept (found : program.declNode id = .ok node)
  | refilled {old : DeclKind} (found : program.declNode id = .ok { node with kind := old })
      (filled : old.Fills node.kind) (uses : known (.decl id) ∧ ∀ ref ∈ node.kind.additions, known (.node ref))
  | new (absent : ¬ program.issued (.decl id)) (numbered : node.id = ⟨program.census.next⟩)
      (named : program.Usable known (.name node.name))
      (mastered : node.master = id ∨ program.issued (.decl node.master))
      (owned : ∀ parameters, node.kind.parameters? = some parameters →
        program.Owned parameters (.decl id) ∧
          ∃ entry, program.regions.get? parameters = some entry ∧ entry.parent = some node.home)
      (uses : ∀ ref ∈ .type node.type :: (node.kind.operands ++ node.kind.additions),
        ref = .decl id ∧ node.master = id ∨ program.Usable known ref)
      (applied : ∀ list, node.kind.args? = some list → program.Listed known list)

theorem Change.declSource (change : program.Change known after) {id : DeclId} {node : DeclNode}
    (found : after.declNode id = .ok node) : program.DeclSource known id node := by
  cases change with
  | @decl _ master node id _ _ _ _ _ _ named _ agreed mastered _ appended enrolled made _ owned uses applied =>
    rw [appendToChain_nodes appended] at made
    rcases Slab.push_cases made (Slab.get_eq_ok.mp found) with there | ⟨absent, rfl, rfl⟩
    · exact .kept (Slab.get_eq_ok.mpr there)
    · refine .new (fun issued => ?_) (Census.enroll_eq_ok enrolled).1 named ?_ owned
        (fun ref member => ?_) applied
      · obtain ⟨old, present⟩ := issued_decl.mp issued
        cases absent.symm.trans (Slab.get_eq_ok.mp present)
      · cases master with
        | none => exact .inl mastered
        | some master =>
          rw [mastered]
          exact .inr (issued_joinedMaster agreed)
      · refine (uses ref member).imp_left fun ⟨same, first⟩ => ⟨same, ?_⟩
        rw [mastered, first, Option.getD_none]
  | refill old filled changed uses =>
    rcases Slab.modify_cases changed (Slab.get_eq_ok.mp found) with there | ⟨rfl, former, there, rfl⟩
    · exact .kept (Slab.get_eq_ok.mpr there)
    · cases (Slab.get_eq_ok.mp old).symm.trans there
      exact .refilled old filled uses
  | _ => exact .kept found

/-! ### Directives -/

inductive DirectiveSource (known : Answer → Prop) (program : Program) (id : DirectiveId)
    (node : DirectiveNode) : Prop where
  | kept (found : program.directiveNode id = .ok node)
  | new (absent : ¬ program.issued (.node (.directive id))) (numbered : node.id = ⟨program.census.next⟩)
      (uses : ∀ ref ∈ node.kind.operands, program.Usable known ref)

theorem Change.directiveSource (change : program.Change known after) {id : DirectiveId} {node : DirectiveNode}
    (found : after.directiveNode id = .ok node) : program.DirectiveSource known id node := by
  cases change with
  | directive enrolled made _ uses =>
    rcases Slab.push_cases made (Slab.get_eq_ok.mp found) with there | ⟨absent, rfl, rfl⟩
    · exact .kept (Slab.get_eq_ok.mpr there)
    · refine .new (fun issued => ?_) (Census.enroll_eq_ok enrolled).1 uses
      obtain ⟨old, present⟩ := issued_directive.mp issued
      cases absent.symm.trans (Slab.get_eq_ok.mp present)
  | _ => exact .kept found

end Program

end CanonIR
