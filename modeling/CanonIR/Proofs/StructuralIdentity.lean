import CanonIR.Proofs.IssuedAnswers

/-! Structural identity. What goes into a new node was issued before it, and so the tree
of every issued term is finite. Texts, lists and nodes are each kept once; a tree leads
back to one term. -/

namespace CanonIR.Program

variable {known : Answer → Prop} {program after : Program} {term : Term}

/-! ### What a change issues -/

/-- The term is made of terms that `program` issued. -/
def MadeOf (program after : Program) (term : Term) : Prop :=
  ∃ head operands, after.layer term = .ok (head, operands) ∧
    ∀ operand ∈ operands, program.issued (.term operand)

theorem issued_names {names : NameTable} {census : Census} {id : NameId}
    (adds : program.names.nodes.Adds names.nodes id)
    (issued : { program with names, census }.issued (.term term)) :
    program.issued (.term term) ∨ term = .name id := by
  cases term with
  | name other =>
    obtain ⟨node, found⟩ := issued_name.mp issued
    rcases adds (Slab.get_eq_ok.mp found) with rfl | ⟨old, present⟩
    · exact .inr rfl
    · exact .inl (issued_name.mpr ⟨old, Slab.get_eq_ok.mpr present⟩)
  | type | expr => exact .inl issued

theorem issued_types {types : TypeTable} {census : Census} {id : TypeId}
    (adds : program.types.nodes.Adds types.nodes id)
    (issued : { program with types, census }.issued (.term term)) :
    program.issued (.term term) ∨ term = .type id := by
  cases term with
  | type other =>
    obtain ⟨node, found⟩ := issued_type.mp issued
    rcases TypeTable.get_eq_ok.mp found with shared | present
    · exact .inl (issued_type.mpr ⟨node, TypeTable.get_eq_ok.mpr (.inl shared)⟩)
    · rcases adds present with rfl | ⟨old, present⟩
      · exact .inr rfl
      · exact .inl (issued_type.mpr ⟨old, TypeTable.get_eq_ok.mpr (.inr present)⟩)
  | name | expr => exact .inl issued

theorem issued_exprs {exprs : ExprTable} {census : Census} {id : ExprId}
    (adds : program.exprs.nodes.Adds exprs.nodes id)
    (issued : { program with exprs, census }.issued (.term term)) :
    program.issued (.term term) ∨ term = .expr id := by
  cases term with
  | expr other =>
    obtain ⟨node, found⟩ := issued_expr.mp issued
    rcases ExprTable.get_eq_ok.mp found with shared | present
    · exact .inl (issued_expr.mpr ⟨node, ExprTable.get_eq_ok.mpr (.inl shared)⟩)
    · rcases adds present with rfl | ⟨old, present⟩
      · exact .inr rfl
      · exact .inl (issued_expr.mpr ⟨old, ExprTable.get_eq_ok.mpr (.inr present)⟩)
  | name | type => exact .inl issued

theorem issued_operands {operands : List Term}
    (uses : ∀ handle ∈ operands.map Answer.term, program.issued handle) :
    ∀ operand ∈ operands, program.issued (.term operand) :=
  fun _ member => uses _ (List.mem_map_of_mem member)

theorem nameLayer_of_isSimple {kind : NameKind} (simple : kind.isSimple)
    (uses : ∀ handle ∈ kind.handles, program.issued handle) :
    ∃ head operands, program.nameLayer kind = .ok (head, operands) ∧
      ∀ operand ∈ operands, program.issued (.term operand) := by
  cases kind with
  | identifier text | operator text | suffix text =>
    obtain ⟨bytes, read⟩ := issued_symbol.mp (uses _ List.mem_cons_self)
    exact ⟨_, _, Checked.bind_eq_ok.mpr ⟨bytes, read, rfl⟩, nofun⟩
  | conversion | typeName | constructor | destructor | qualified =>
    exact ⟨_, _, rfl, issued_operands uses⟩
  | templateId => cases simple

theorem nameLayer_templateId {template : NameId} {list : TermListId} {args : List Term}
    (read : program.termList list = .ok args) :
    program.nameLayer (.templateId template list) = .ok (.name .templateId, .name template :: args) :=
  Checked.bind_eq_ok.mpr ⟨args, read, rfl⟩

theorem typeLayer_of_isSimple {id : TypeId} {kind : TypeKind} (simple : kind.isSimple)
    (uses : ∀ handle ∈ kind.handles, program.issued handle) :
    ∃ head operands, program.typeLayer id kind = .ok (head, operands) ∧
      ∀ operand ∈ operands, program.issued (.term operand) := by
  cases kind with
  | builtin | qualified | product | sum | classType | unionType | enumType | namespaceType => cases simple
  | array element bound => cases bound <;> exact ⟨_, _, rfl, issued_operands uses⟩
  | _ => exact ⟨_, _, rfl, issued_operands uses⟩

/-- The type of a qualified type is issued, since it has a tree. -/
theorem typeLayer_qualifiedWith {qualifiers : Qualifiers} {main id : TypeId} {node : TypeNode}
    (found : program.typeNode main = .ok node) (unfolds : program.Unfolds (.type main)) :
    ∃ head operands,
      program.typeLayer id (node.kind.qualifiedWith qualifiers main) = .ok (head, operands) ∧
        ∀ operand ∈ operands, program.issued (.term operand) := by
  obtain ⟨number, kind⟩ := node
  cases kind with
  | qualified inner unqualified =>
    have read : program.layer (.type main) = .ok (.qualifiedType inner, [.type unqualified]) :=
      Checked.bind_eq_ok.mpr ⟨_, found, rfl⟩
    exact ⟨_, _, rfl, fun operand member => ((unfolds_iff read).mp unfolds operand member).issued⟩
  | _ => exact ⟨_, _, rfl, List.forall_mem_singleton.mpr unfolds.issued⟩

theorem layer_name {kind : NameKind} {id : NameId}
    (shows : program.names.nodes.Shows NameNode.key? kind id) :
    program.layer (.name id) = program.nameLayer kind := by
  obtain ⟨node, present, labelled⟩ := shows
  cases labelled
  exact congrArg (· >>= fun node => program.nameLayer node.kind) (Slab.get_eq_ok.mpr present)

theorem layer_type {kind : TypeKind} {id : TypeId}
    (shows : program.types.nodes.Shows TypeNode.key? kind id) :
    program.layer (.type id) = program.typeLayer id kind := by
  obtain ⟨node, found, rfl⟩ := typeNode_of_shows shows
  exact congrArg (· >>= fun node => program.typeLayer id node.kind) found

theorem layer_expr {id : ExprId} {node : ExprNode} (present : program.exprs.nodes.get? id = some node) :
    program.layer (.expr id) = program.exprLayer id node.kind :=
  congrArg (· >>= fun node : ExprNode => program.exprLayer id node.kind)
    (ExprTable.get_eq_ok.mpr (.inr present))

theorem madeOf_canonicalType (canonical : program.types.Canonical) {kind : TypeKind} {id : TypeId}
    {types : TypeTable} {census : Census} (structural : kind.IsStructural) (unlisted : kind.list? = none)
    (given : program.types.canonical kind program.census = .ok (id, types, census))
    (recalls : program.Recalls { program with types, census })
    (layered : ∃ head operands, program.typeLayer id kind = .ok (head, operands) ∧
      ∀ operand ∈ operands, program.issued (.term operand))
    (issued : { program with types, census }.issued (.term term)) :
    program.issued (.term term) ∨ program.MadeOf { program with types, census } term := by
  refine (issued_types (TypeTable.canonical_adds canonical structural given) issued).imp_right ?_
  rintro rfl
  obtain ⟨-, -, shows, -⟩ := TypeTable.canonical_eq_ok canonical structural
    (fun refers => nomatch unlisted.symm.trans refers) given
  obtain ⟨head, operands, read, made⟩ := layered
  exact ⟨head, operands, (layer_type shows).trans (recalls.typeLayer read), made⟩

/-- A product or a sum is made of the types in its list. -/
theorem madeOf_combined (canonical : program.types.Canonical) {wrap : TypeListId → TypeKind} (head : Head)
    (structural : ∀ list, (wrap list).IsStructural) (wraps : ∀ list, (wrap list).list? = some list)
    (layered : ∀ program id list, typeLayer program id (wrap list) =
      (do return (head, (← program.typeList list).map .type)))
    {members : List TypeId} {list : TypeListId} {listed types : TypeTable} {id : TypeId} {census : Census}
    (uses : ∀ type ∈ members, program.issued (.type type))
    (kept : program.types.keepList members = .ok (list, listed))
    (given : listed.canonical (wrap list) program.census = .ok (id, types, census))
    (issued : { program with types, census }.issued (.term term)) :
    program.issued (.term term) ∨ program.MadeOf { program with types, census } term := by
  obtain ⟨middle, -, -, nodes, -⟩ := TypeTable.keepList_eq_ok canonical kept
  have adds := TypeTable.canonical_adds middle (structural list) given
  rw [nodes] at adds
  refine (issued_types adds issued).imp_right ?_
  rintro rfl
  obtain ⟨-, -, ⟨list, shows, read⟩, -⟩ :=
    TypeTable.combined_eq_ok canonical structural wraps kept given
  refine ⟨head, members.map .type, ?_, List.forall_mem_map.mpr uses⟩
  rw [layer_type shows, layered]
  exact Checked.bind_eq_ok.mpr ⟨members, read, rfl⟩

/-- What is issued by a change is made of what was issued before. -/
theorem Change.madeOf (change : program.Change known after) (identifies : program.Identifies)
    (granted : ∀ handle, known handle → program.issued handle)
    (unfolds : ∀ term, program.issued (.term term) → program.Unfolds term)
    (issued : after.issued (.term term)) :
    program.issued (.term term) ∨ program.MadeOf after term := by
  obtain ⟨-, recalls⟩ := change.keeps_identifies identifies
  obtain ⟨⟨names, types, exprs⟩, -⟩ := identifies
  cases change with
  | strings | region | regionOwner | stmt | blockEnd | directive | decl | refill | specialization
  | base => cases term <;> exact .inl issued
  | terms kept | exprs kept =>
    obtain ⟨_, -, equal⟩ := Checked.bind_eq_ok.mp kept
    cases equal
    exact .inl issued
  | name simple uses given =>
    refine (issued_names (NameTable.canonical_adds names given) issued).imp_right ?_
    rintro rfl
    have unlisted := NameKind.list?_of_isSimple simple
    obtain ⟨-, -, shows, -⟩ := NameTable.canonical_eq_ok names
      (fun refers => nomatch unlisted.symm.trans refers) given
    obtain ⟨head, operands, read, made⟩ :=
      nameLayer_of_isSimple simple fun handle member => granted handle (uses handle member)
    exact ⟨head, operands, (layer_name shows).trans (recalls.nameLayer read), made⟩
  | templateId uses kept given =>
    obtain ⟨middle, -, -, nodes, -⟩ := NameTable.keepTerms_eq_ok names kept
    refine (issued_names (nodes ▸ NameTable.canonical_adds middle given) issued).imp_right ?_
    rintro rfl
    obtain ⟨-, -, ⟨list, shows, read⟩, -⟩ := NameTable.templateId_eq_ok names kept given
    exact ⟨_, _, (layer_name shows).trans (nameLayer_templateId read),
      issued_operands fun handle member => granted handle (uses handle member)⟩
  | simpleType simple uses given =>
    exact madeOf_canonicalType types (TypeKind.structural_of_isSimple simple)
      (TypeKind.list?_of_isSimple simple) given recalls
      (typeLayer_of_isSimple simple fun handle member => granted handle (uses handle member)) issued
  | qualifiedType _ found given =>
    exact madeOf_canonicalType types (TypeKind.structural_qualifiedWith ..)
      (TypeKind.list?_qualifiedWith ..) given recalls
      (typeLayer_qualifiedWith found (unfolds _ (issued_type.mpr ⟨_, found⟩))) issued
  | product uses kept given =>
    refine madeOf_combined types (.type .product) TypeKind.structural_product (fun _ => rfl)
      (fun _ _ _ => rfl) (fun type member => ?_) kept given issued
    exact granted _ (uses _ (List.mem_map_of_mem member))
  | sum uses kept given =>
    refine madeOf_combined types (.type .sum) TypeKind.structural_sum (fun _ => rfl)
      (fun _ _ _ => rfl) (fun type member => ?_) kept given issued
    have listed := List.mem_toFinset.mp (toFinset_ascending _ ▸ List.mem_toFinset.mpr member)
    exact granted _ (uses _ (List.mem_map_of_mem listed))
  | userType owning given =>
    obtain ⟨⟨_, nodes, _⟩, made, equal⟩ := Checked.bind_eq_ok.mp given
    cases equal
    obtain ⟨number, pushed⟩ := TypeTable.push_eq_ok made
    refine (issued_types (Slab.adds_of_push pushed) issued).imp_right ?_
    rintro rfl
    have present : TypeTable.get { program.types with nodes } _ = .ok _ :=
      TypeTable.get_eq_ok.mpr (.inr (Slab.get?_pushed pushed))
    exact ⟨_, _, Checked.bind_eq_ok.mpr ⟨_, present, typeLayer_user (TypeNode.key?_owning owning)⟩, nofun⟩
  | underlyingType found changed =>
    refine .inl ((issued_types (Slab.adds_of_modify changed) issued).elim id ?_)
    rintro rfl
    exact issued_type.mpr ⟨_, TypeTable.get_eq_ok.mpr (.inr found)⟩
  | literal uses given =>
    rcases issued_exprs (ExprTable.literal_adds exprs given) issued with before | rfl
    · exact .inl before
    · obtain ⟨-, -, denotes | ⟨node, present, labelled⟩, -⟩ := ExprTable.literal_eq_ok exprs given
      · obtain ⟨node, shared, -⟩ := exprNode_of_denotes denotes
        exact .inl (issued_expr.mpr ⟨node, shared⟩)
      · obtain ⟨typed, spelled⟩ := List.forall_mem_cons.mp uses
        obtain ⟨bytes, read⟩ := issued_symbol.mp (granted _ (List.forall_mem_singleton.mp spelled))
        have literal := ExprNode.key?_eq_some.mp labelled
        refine .inr ⟨_, _, (layer_expr present).trans (exprLayer_eq_ok.mpr
          (.inl ⟨_, _, bytes, literal, read, rfl, rfl⟩)), ?_⟩
        exact List.forall_mem_singleton.mpr (granted _ typed)
  | expr distinct given =>
    obtain ⟨⟨_, nodes, _⟩, made, equal⟩ := Checked.bind_eq_ok.mp given
    cases equal
    obtain ⟨number, pushed⟩ := ExprTable.push_eq_ok made
    refine (issued_exprs (Slab.adds_of_push pushed) issued).imp_right ?_
    rintro rfl
    exact ⟨_, _, (layer_expr (Slab.get?_pushed pushed)).trans
      (exprLayer_eq_ok.mpr (.inr ⟨distinct, rfl, rfl⟩)), nofun⟩
  | exprType found _ changed =>
    refine .inl ((issued_exprs (Slab.adds_of_modify changed) issued).elim id ?_)
    rintro rfl
    exact issued_expr.mpr ⟨_, ExprTable.get_eq_ok.mpr (.inr found)⟩

/-! ### Runs -/

/-- The tree of every issued term is finite. -/
def Grounded (program : Program) : Prop := ∀ term, program.issued (.term term) → program.Unfolds term

theorem Change.keeps_grounded (change : program.Change known after) (identifies : program.Identifies)
    (granted : ∀ handle, known handle → program.issued handle) (grounded : program.Grounded) :
    after.Grounded := by
  obtain ⟨-, recalls⟩ := change.keeps_identifies identifies
  intro term issued
  rcases change.madeOf identifies granted grounded issued with before | ⟨head, operands, read, made⟩
  · exact recalls.unfolds (grounded term before)
  · refine (unfolds_iff read).mpr fun operand member => ?_
    exact recalls.unfolds (grounded operand (made operand member))

theorem Reaches.keeps_grounded (reaches : program.Reaches known after) (identifies : program.Identifies)
    (granted : ∀ handle, known handle → program.issued handle) (grounded : program.Grounded) :
    after.Grounded := by
  induction reaches with
  | refl => exact grounded
  | tail earlier change ih =>
    refine change.keeps_grounded (Reaches.keeps_identifies earlier identifies) (fun handle given => ?_) ih
    exact Reaches.keeps_issued earlier identifies (granted handle given)

/-- At first there are only leaves. -/
theorem grounded_shared {sizing : Sizing} {strings : SymbolPool} {exprs : ExprTable}
    (none : exprs.nodes = {}) : Grounded { sizing, strings, exprs } := by
  intro term issued
  suffices leaf : layer { sizing, strings, exprs } term = .ok (.leaf term, []) from
    (unfolds_iff leaf).mpr nofun
  cases term with
  | name id =>
    obtain ⟨node, found⟩ := issued_name.mp issued
    simp [nameNode, Slab.get, Slab.get?] at found
  | type id =>
    obtain ⟨node, found⟩ := issued_type.mp issued
    rcases TypeTable.get_eq_ok.mp found with ⟨_, -, rfl⟩ | present
    · exact Checked.bind_eq_ok.mpr ⟨_, found, rfl⟩
    · simp [Slab.get?] at present
  | expr id =>
    obtain ⟨node, found⟩ := issued_expr.mp issued
    rcases ExprTable.get_eq_ok.mp found with shared | present
    · have distinct := sharedExprs_distinct node (List.mem_of_getElem? shared)
      exact Checked.bind_eq_ok.mpr ⟨node, found, exprLayer_eq_ok.mpr (.inr ⟨distinct, rfl, rfl⟩)⟩
    · simp [none, Slab.get?] at present

/-- What is kept where requests name only issued handles. -/
structure Structured (program : Program) : Prop where
  identifies : program.Identifies
  named : program.NamesIssued
  grounded : program.Grounded

theorem structured_initial {hash : Bytes → UInt64} {sizing : Sizing} (built : sizing.Built)
    (began : initial hash sizing = .ok program) : program.Structured where
  identifies := identifies_initial built began
  named := namesIssued_initial began
  grounded := by
    obtain ⟨exprs, before, seeded, reaches, equal⟩ := initial_reaches (fun _ => False) began
    have grounded : before.Grounded :=
      reaches.keeps_grounded (identifies_shared hash built seeded) nofun
        (grounded_shared (ExprTable.nodes_initial seeded))
    have recalls : before.Recalls program := by
      rw [equal]
      exact ⟨⟨.refl _, .refl _, .refl _⟩, fun read => read⟩
    intro term issued
    refine recalls.unfolds (grounded term ?_)
    rw [equal] at issued
    cases term <;> exact issued

theorem Structured.respond (structured : program.Structured) {request : Request}
    {outcome : Except BuildError Answer} {after : Program}
    (uses : ∀ handle ∈ request.handles, program.issued handle)
    (responded : program.respond request = .ok (outcome, after)) : after.Structured := by
  obtain ⟨identifies, named, grounded⟩ := structured
  have reaches := perform_moves (admits_issued identifies.canonical named uses) responded
  exact ⟨reaches.keeps_identifies identifies,
    reaches.keeps_namesIssued identifies.canonical (fun _ issued => issued) named,
    reaches.keeps_grounded identifies (fun _ issued => issued) grounded⟩

/-- After a run of requests that name only issued handles, every name, type and expression
has a whole tree, which looking deeper does not change, and terms with one tree are one
term. What a request hands out is issued from then on. -/
theorem one_term_per_unfolding {hash : Bytes → UInt64} {sizing : Sizing} {start : Program}
    {requests : List Request} (built : sizing.Built) (began : initial hash sizing = .ok start)
    (issued : start.usesIssued requests) (ran : start.run requests = .ok program) :
    (∀ term, program.issued (.term term) →
      ∃ depth tree, ∀ more, depth ≤ more → program.unfold more term = .ok tree) ∧
    (∀ first second depth other tree, program.unfold depth first = .ok tree →
      program.unfold other second = .ok tree → first = second) ∧
    ∀ request answer after, program.respond request = .ok (.ok answer, after) →
      ∀ later last, after.run later = .ok last → last.issued answer := by
  have structured : program.Structured :=
    run_induction (fun structured uses responded => structured.respond uses responded)
      (structured_initial built began) issued ran
  refine ⟨?_, ?_, ?_⟩
  · intro term there
    obtain ⟨depth, tree, reached⟩ := structured.grounded term there
    exact ⟨depth, tree, fun more deeper => unfold_mono deeper reached⟩
  · intro first second depth other tree one two
    exact unfold_inj structured.identifies one two
  · intro request answer after responded later last continued
    exact structured.identifies.answers_stay_issued responded continued

/-- Only one name has the tree of `f<const int[4], 4>`. -/
theorem one_term_per_unfolding_templateId : ∃ start program : Program,
    initial (fun _ => 0) {} = .ok start ∧
    start.run [.intern (.ofString "f"), .intern (.ofString "4"), .identifier (.entry 0),
      .literal ⟨11⟩ (.entry 1), .qualified .const ⟨11⟩, .array ⟨33⟩ (some ⟨8⟩),
      .templateId ⟨0⟩ [.type ⟨34⟩, .expr ⟨8⟩]] = .ok program ∧
    ∃ depth tree, program.unfold depth (.name ⟨1⟩) = .ok tree ∧
      ∀ other term, program.unfold other term = .ok tree → term = .name ⟨1⟩ := by
  have performed : (do
      let start ← initial (fun _ => 0) {}
      let program ← start.run [.intern (.ofString "f"), .intern (.ofString "4"), .identifier (.entry 0),
        .literal ⟨11⟩ (.entry 1), .qualified .const ⟨11⟩, .array ⟨33⟩ (some ⟨8⟩),
        .templateId ⟨0⟩ [.type ⟨34⟩, .expr ⟨8⟩]]
      if start.usesIssued [.intern (.ofString "f"), .intern (.ofString "4"), .identifier (.entry 0),
          .literal ⟨11⟩ (.entry 1), .qualified .const ⟨11⟩, .array ⟨33⟩ (some ⟨8⟩),
          .templateId ⟨0⟩ [.type ⟨34⟩, .expr ⟨8⟩]] ∧ program.issued (.name ⟨1⟩) then
        return ()
      else .error .outOfRange : Checked Unit).isOk := by decide +kernel
  obtain ⟨_, performed⟩ := Checked.exists_of_isOk performed
  obtain ⟨start, began, rest⟩ := Checked.bind_eq_ok.mp performed
  obtain ⟨program, ran, rest⟩ := Checked.bind_eq_ok.mp rest
  split at rest
  next held =>
    obtain ⟨finite, unique, -⟩ := one_term_per_unfolding .default began held.1 ran
    obtain ⟨depth, tree, reached⟩ := finite (.name ⟨1⟩) held.2
    refine ⟨start, program, began, ran, depth, tree, reached depth (Nat.le_refl depth), ?_⟩
    intro other term same
    exact unique term (.name ⟨1⟩) other depth tree same (reached depth (Nat.le_refl depth))
  · cases rest

end CanonIR.Program
