import CanonIR.Proofs.CanonicalNodes

/-! Issued handles. A name, a type, an expression or a text that was issued stays issued.
Where requests name only issued handles, declarations are made only with issued names,
and so every handle that goes into a new node is issued. -/

namespace CanonIR.Program

variable {known : Answer → Prop} {program after : Program}

theorem isOk_category {α : Type} {read : Checked α} {category : α → Category} :
    ((do return category (← read) : Checked Category)).isOk ↔ ∃ node, read = .ok node := by
  cases read with
  | error fault => exact ⟨nofun, nofun⟩
  | ok node => exact ⟨fun _ => ⟨node, rfl⟩, fun _ => rfl⟩

theorem issued_name {id : NameId} : program.issued (.name id) ↔ ∃ node, program.nameNode id = .ok node :=
  isOk_category

theorem issued_type {id : TypeId} : program.issued (.type id) ↔ ∃ node, program.typeNode id = .ok node :=
  isOk_category

theorem issued_expr {id : ExprId} : program.issued (.expr id) ↔ ∃ node, program.exprNode id = .ok node :=
  isOk_category

theorem issued_stmt {id : StmtId} : program.issued (.stmt id) ↔ ∃ node, program.stmtNode id = .ok node :=
  isOk_category

theorem issued_decl {id : DeclId} : program.issued (.decl id) ↔ ∃ node, program.declNode id = .ok node :=
  isOk_category

theorem issued_directive {id : DirectiveId} :
    program.issued (.node (.directive id)) ↔ ∃ node, program.directiveNode id = .ok node :=
  isOk_category

theorem issued_symbol {symbol : Symbol} :
    program.issued (.symbol symbol) ↔ ∃ bytes, program.text symbol = .ok bytes := by
  refine ⟨fun readable => Checked.exists_of_isOk readable, ?_⟩
  rintro ⟨bytes, read⟩
  simp [issued, read, Except.isOk, Except.toBool]

theorem Extends.nameNode (larger : program.Extends after) {id : NameId} {node : NameNode}
    (found : program.nameNode id = .ok node) : after.nameNode id = .ok node :=
  Slab.get_eq_ok.mpr (larger.names.nodes (Slab.get_eq_ok.mp found))

theorem Extends.issued_term (larger : program.Extends after) (term : Term)
    (issued : program.issued (.term term)) : after.issued (.term term) := by
  cases term with
  | name id =>
    obtain ⟨node, found⟩ := issued_name.mp issued
    exact issued_name.mpr ⟨node, larger.nameNode found⟩
  | type id =>
    obtain ⟨node, found⟩ := issued_type.mp issued
    obtain ⟨now, there, -⟩ := larger.typeNode found
    exact issued_type.mpr ⟨now, there⟩
  | expr id =>
    obtain ⟨node, found⟩ := issued_expr.mp issued
    obtain ⟨now, there, -⟩ := larger.exprNode found
    exact issued_expr.mpr ⟨now, there⟩

/-! ### Names of declarations -/

/-- Declarations have issued names. -/
def NamesIssued (program : Program) : Prop :=
  ∀ ⦃id node⦄, program.declNode id = .ok node → program.issued (.name node.name)

theorem Change.keeps_namesIssued (change : program.Change known after) (larger : program.Extends after)
    (uses : ∀ id, known (.name id) → program.issued (.name id)) (named : program.NamesIssued) :
    after.NamesIssued := by
  intro decl node found
  refine larger.issued_term (.name node.name) ?_
  cases change with
  | decl fresh label _ _ _ _ appended _ made =>
    rw [appendToChain_nodes appended] at made
    rcases Slab.push_cases made (Slab.get_eq_ok.mp found) with present | ⟨-, -, rfl⟩
    · exact named (Slab.get_eq_ok.mpr present)
    · exact label.elim (uses _) fun issued => issued
  | refill _ _ changed =>
    rcases Slab.modify_cases changed (Slab.get_eq_ok.mp found) with present | ⟨-, former, present, rfl⟩
    · exact named (Slab.get_eq_ok.mpr present)
    · have issued := named (Slab.get_eq_ok.mpr present)
      exact issued
  | _ => exact named found

theorem Reaches.keeps_namesIssued (reaches : program.Reaches known after) (canonical : program.Canonical)
    (uses : ∀ id, known (.name id) → program.issued (.name id)) (named : program.NamesIssued) :
    after.NamesIssued := by
  induction reaches with
  | refl => exact named
  | tail earlier change ih =>
    obtain ⟨middle, grown⟩ := Reaches.keeps_canonical earlier canonical
    obtain ⟨-, larger⟩ := change.keeps_canonical middle
    refine change.keeps_namesIssued larger (fun id given => ?_) ih
    exact grown.issued_term (.name id) (uses id given)

theorem namesIssued_shared {sizing : Sizing} {strings : SymbolPool} {exprs : ExprTable} :
    NamesIssued { sizing, strings, exprs } := by
  intro id node found
  simp [declNode, Slab.get, Slab.get?] at found

theorem namesIssued_initial {hash : Bytes → UInt64} {sizing : Sizing}
    (began : initial hash sizing = .ok program) : program.NamesIssued := by
  obtain ⟨exprs, before, seeded, reaches, equal⟩ := initial_reaches (fun _ => False) began
  have canonical : Canonical { sizing, strings := .ofSizing hash sizing, exprs } :=
    ⟨NameTable.canonical_empty, TypeTable.canonical_empty, ExprTable.canonical_initial seeded⟩
  have named := reaches.keeps_namesIssued canonical (fun _ impossible => impossible.elim) namesIssued_shared
  rw [equal]
  exact named

/-! ### Runs -/

/-- A request that names issued handles needs no others. What it makes on the way is issued
when it is used. -/
theorem admits_issued (canonical : program.Canonical) (named : program.NamesIssued) {request : Request}
    (uses : ∀ handle ∈ request.handles, program.issued handle) :
    program.Admits (fun handle => program.issued handle) request where
  uses := uses
  declared found := ⟨issued_decl.mpr ⟨_, found⟩, named found⟩
  pointed given := by
    obtain ⟨-, -, ⟨node, found, -⟩, -⟩ := TypeTable.canonical_eq_ok canonical.types
      (TypeKind.structural_of_isSimple rfl) (by simp [TypeKind.list?]) given
    exact .inr (issued_type.mpr ⟨node, TypeTable.get_eq_ok.mpr (.inr found)⟩)
  applied given := by
    obtain ⟨list, listed, names, census, kept, made, rfl⟩ := templateId_eq_ok.mp given
    obtain ⟨-, -, ⟨_, ⟨node, found, -⟩, -⟩, -⟩ := NameTable.templateId_eq_ok canonical.names kept made
    exact .inr (issued_name.mpr ⟨node, Slab.get_eq_ok.mpr found⟩)
  listed given again := by
    obtain ⟨list, listed, names, census, kept, made, rfl⟩ := templateId_eq_ok.mp given
    obtain ⟨larger, -⟩ := NameTable.templateId_eq_ok canonical.names kept made
    obtain ⟨⟨_, _⟩, kept, equal⟩ := Checked.bind_eq_ok.mp again
    cases equal
    obtain ⟨-, -, read, -⟩ := NameTable.keepTerms_eq_ok larger kept
    exact .inr read

/-- What every request with issued handles keeps, a run of them keeps. -/
theorem run_induction {holds : Program → Prop} (step : ∀ {program request outcome after},
      holds program → (∀ handle ∈ request.handles, program.issued handle) →
      program.respond request = .ok (outcome, after) → holds after)
    {requests : List Request} (start : holds program) (uses : program.usesIssued requests)
    (ran : program.run requests = .ok after) : holds after := by
  induction requests generalizing program with
  | nil =>
    cases ran
    exact start
  | cons request rest ih =>
    obtain ⟨⟨outcome, middle⟩, responded, ran⟩ := Checked.bind_eq_ok.mp ran
    simp only [usesIssued, responded, Bool.and_eq_true, List.all_eq_true] at uses
    exact ih (step start uses.1 responded) uses.2 ran

end CanonIR.Program
