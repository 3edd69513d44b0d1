import CanonIR.Proofs.DeclarationTables
import CanonIR.Proofs.TableGrowth

/-! What a request does to what is there. Most requests leave it alone: nodes stay what
they are, and regions and scopes get more at the end at most. Some fill a field of the
node they name, and some put a declaration behind the others. -/

namespace CanonIR

variable {α β : Type} {program middle after : Program}

namespace Program

/-- Nodes stay where and what they are; directives and members are added at the end. -/
structure Grows (program after : Program) : Prop where
  names : program.names.nodes.Extends after.names.nodes
  types : program.types.nodes.Extends after.types.nodes
  exprs : program.exprs.nodes.Extends after.exprs.nodes
  stmts : program.stmts.Extends after.stmts
  decls : program.decls.nodes.Extends after.decls.nodes
  directives : program.directives.Extends after.directives
  regions : ∀ {id entry}, program.regions.get? id = some entry →
    ∃ added, after.regions.get? id = some { entry with directives := entry.directives ++ added }
  members : ∀ {id region members}, program.scopes.outline? id = some (region, members) →
    ∃ added, after.scopes.outline? id = some (region, members ++ added)

theorem Grows.refl (program : Program) : program.Grows program where
  names := .refl _
  types := .refl _
  exprs := .refl _
  stmts := .refl _
  decls := .refl _
  directives := .refl _
  regions found := ⟨#[], by simpa using found⟩
  members found := ⟨#[], by simpa using found⟩

theorem Grows.trans (earlier : program.Grows middle) (later : middle.Grows after) :
    program.Grows after where
  names := earlier.names.trans later.names
  types := earlier.types.trans later.types
  exprs := earlier.exprs.trans later.exprs
  stmts := earlier.stmts.trans later.stmts
  decls := earlier.decls.trans later.decls
  directives := earlier.directives.trans later.directives
  regions found := by
    obtain ⟨first, there⟩ := earlier.regions found
    obtain ⟨second, now⟩ := later.regions there
    exact ⟨first ++ second, by simpa [Array.append_assoc] using now⟩
  members found := by
    obtain ⟨first, there⟩ := earlier.members found
    obtain ⟨second, now⟩ := later.members there
    exact ⟨first ++ second, by simpa [Array.append_assoc] using now⟩

/-- What is there grows, and the declarations are the same. -/
structure Quiet (program after : Program) : Prop extends program.Grows after where
  undeclared : after.decls = program.decls

theorem Quiet.refl (program : Program) : program.Quiet program := ⟨.refl program, rfl⟩

theorem Quiet.trans (earlier : program.Quiet middle) (later : middle.Quiet after) : program.Quiet after :=
  ⟨earlier.toGrows.trans later.toGrows, later.undeclared.trans earlier.undeclared⟩

end Program

/-- Wherever the edit starts, it is quiet. -/
def Edit.Quiet (edit : Edit α) : Prop := ∀ program : Program, edit.Ends program.Quiet program

def Build.Quiet (build : Build α) : Prop := ∀ program : Program, build.Ends program.Quiet program

theorem Edit.quiet_pure (value : α) : (pure value : Edit α).Quiet := fun program =>
  ends_pure (.refl program) value

theorem Edit.quiet_bind {first : Edit α} {next : α → Edit β} (starts : first.Quiet)
    (goes : ∀ value, (next value).Quiet) : (first >>= next).Quiet := fun program =>
  ends_bind fun performed _ _ rest => (starts program performed).trans (goes _ _ rest)

theorem Build.quiet_edit {edit : Edit α} (quiet : edit.Quiet) : (liftM edit : Build α).Quiet :=
  fun program => ends_edit (quiet program)

namespace Program

/-! ### Quiet requests -/

theorem intern_quiet {bytes : Bytes} : (intern bytes).Quiet := by
  intro program
  apply Build.ends_get_bind
  apply Build.ends_check_bind
  intro outcome _
  cases outcome with
  | error error => exact Build.ends_throw (.refl program) _
  | ok result =>
    intro value after given
    cases given
    exact { Quiet.refl program with }

theorem internText_quiet {text : String} : (internText text).Quiet := by
  intro program symbol after given
  obtain ⟨⟨_, strings⟩, -, equal⟩ := Checked.bind_eq_ok.mp given
  cases equal
  exact { Quiet.refl program with }

theorem nameOf_quiet {kind : NameKind} : (nameOf kind).Quiet := by
  intro program id after given
  obtain ⟨names, census, made, rfl⟩ := nameOf_eq_ok.mp given
  exact { Quiet.refl program with names := NameTable.canonical_extends made }

theorem keepTerms_quiet {terms : List Term} : (keepTerms terms).Quiet := by
  intro program list after given
  obtain ⟨⟨_, names⟩, kept, equal⟩ := Checked.bind_eq_ok.mp given
  cases equal
  exact { Quiet.refl program with names := .of_eq (NameTable.keepTerms_nodes kept) }

theorem templateId_quiet {template : NameId} {args : List Term} : (templateId template args).Quiet :=
  Edit.quiet_bind keepTerms_quiet fun _ => nameOf_quiet

theorem typeOf_quiet {kind : TypeKind} : (typeOf kind).Quiet := by
  intro program id after given
  obtain ⟨types, census, made, rfl⟩ := typeOf_eq_ok.mp given
  exact { Quiet.refl program with types := TypeTable.canonical_extends made }

theorem keepTypes_quiet {types : List TypeId} : (keepTypes types).Quiet := by
  intro program list after given
  obtain ⟨⟨_, types⟩, kept, equal⟩ := Checked.bind_eq_ok.mp given
  cases equal
  exact { Quiet.refl program with types := .of_eq (TypeTable.keepList_nodes kept) }

theorem product_quiet {types : List TypeId} : (product types).Quiet :=
  Edit.quiet_bind keepTypes_quiet fun _ => typeOf_quiet

theorem sum_quiet {types : List TypeId} : (sum types).Quiet :=
  Edit.quiet_bind keepTypes_quiet fun _ => typeOf_quiet

theorem qualified_quiet {qualifiers : Qualifiers} {main : TypeId} : (qualified qualifiers main).Quiet := by
  intro program
  rw [qualified_eq]
  split
  · refine Build.ends_bind (fun given => ?_) fun given => nomatch given
    cases given
    exact .refl program
  · apply Build.ends_get_bind
    exact Build.ends_check_bind fun _ => Build.quiet_edit typeOf_quiet program

theorem addBase_quiet {type base : TypeId} : (addBase type base).Quiet := by
  intro program
  apply Build.ends_get_bind
  apply Build.ends_check_bind
  intro node _
  split
  · exact Build.ends_set { Quiet.refl program with }
  · exact Build.ends_throw (.refl program) _

theorem literal_quiet {type : TypeId} {text : Symbol} : (literal type text).Quiet := by
  intro program id after given
  obtain ⟨exprs, census, made, rfl⟩ := literal_eq_ok.mp given
  exact { Quiet.refl program with exprs := ExprTable.literal_extends made }

theorem exprOf_quiet {kind : ExprKind} {type : Option TypeId} : (exprOf kind type).Quiet := by
  intro program id after given
  obtain ⟨⟨_, exprs, census⟩, made, equal⟩ := Checked.bind_eq_ok.mp given
  cases equal
  exact { Quiet.refl program with exprs := (ExprTable.fresh_enrols made).extends }

theorem keepExprs_quiet {exprs : List ExprId} : (keepExprs exprs).Quiet := by
  intro program list after given
  obtain ⟨⟨_, exprs⟩, kept, equal⟩ := Checked.bind_eq_ok.mp given
  cases equal
  exact { Quiet.refl program with exprs := .of_eq (ExprTable.keepList_nodes kept) }

theorem idExpr_quiet {name : NameId} {decl : Option DeclId} : (idExpr name decl).Quiet := by
  unfold idExpr
  cases decl with
  | none => exact exprOf_quiet
  | some decl =>
    intro program
    apply Edit.ends_get_bind
    apply Edit.ends_check_bind
    intro _ _
    exact exprOf_quiet program

theorem callExpr_quiet {callee : ExprId} {args : List ExprId} : (callExpr callee args).Quiet :=
  Edit.quiet_bind keepExprs_quiet fun _ => exprOf_quiet

theorem newExpr_quiet {type : TypeId} {args : Option (List ExprId)} : (newExpr type args).Quiet := by
  have made : ∀ list : Option ExprListId, Edit.Quiet (do
      let pointer ← typeOf (.pointer type)
      exprOf (.newExpr type list) (some pointer)) :=
    fun _ => Edit.quiet_bind typeOf_quiet fun _ => exprOf_quiet
  cases args with
  | none => exact made none
  | some args => exact Edit.quiet_bind keepExprs_quiet fun _ => made _

theorem paren_quiet {inner : ExprId} : (paren inner).Quiet :=
  fun program => Edit.ends_get_bind (Edit.ends_check_bind fun _ => exprOf_quiet program)

theorem initializerList_quiet {elements : List ExprId} : (initializerList elements).Quiet :=
  Edit.quiet_bind keepExprs_quiet fun _ => exprOf_quiet

theorem stmtOf_quiet {kind : StmtKind} : (stmtOf kind).Quiet := by
  intro program id after given
  obtain ⟨number, census, stmts, -, made, rfl⟩ := stmtOf_eq_ok given
  exact { Quiet.refl program with stmts := Slab.extends_push made }

theorem directiveOf_quiet {region : RegionId} {kind : DirectiveKind} : (directiveOf region kind).Quiet := by
  intro program id after given
  obtain ⟨number, census, directives, regions, -, made, changed, rfl⟩ := directiveOf_eq_ok given
  refine { Quiet.refl program with directives := Slab.extends_push made, regions := ?_ }
  intro other entry found
  rw [Slab.get?_modify changed]
  split
  next same =>
    subst same
    exact ⟨#[id], by simp [found]⟩
  · exact ⟨#[], by simpa using found⟩

theorem usingDirective_quiet {region : RegionId} {nominated : TypeId} :
    (usingDirective region nominated).Quiet := by
  intro program
  apply Build.ends_get_bind
  apply Build.ends_check_bind
  intro node _
  split
  · exact Build.quiet_edit directiveOf_quiet program
  · exact Build.ends_throw (.refl program) _

/-! ### Regions and their owners -/

theorem newRegion_fresh {parent : Option RegionId} {id : RegionId}
    (given : (newRegion parent).run program = .ok (id, after)) :
    program.Quiet after ∧ program.regions.get? id = none := by
  obtain ⟨scope, scopes, depth, regions, opened, -, -, made, rfl⟩ := newRegion_eq_ok given
  refine ⟨{ Quiet.refl program with regions := fun found => ?_, members := fun {other _ _} found => ?_ },
    Slab.fresh_of_push made⟩
  · exact ⟨#[], by simpa using Slab.get?_kept made found⟩
  · have older : other ≠ scope := by
      intro same
      subst same
      simp [ScopeTable.outline?, Slab.fresh_of_push opened] at found
    exact ⟨#[], by simpa [ScopeTable.outline?_push opened, older] using found⟩

theorem newRegion_quiet {parent : Option RegionId} : (newRegion parent).Quiet :=
  fun _ _ _ given => (newRegion_fresh given).1

/-- The owner of a region that was not there before changes nothing that was. -/
theorem Quiet.own (quiet : program.Quiet middle) {region : RegionId} {owner : RegionOwner} {value : Unit}
    (fresh : program.regions.get? region = none)
    (owned : (ownRegion region owner).run middle = .ok (value, after)) : program.Quiet after := by
  obtain ⟨⟨outcome, _⟩, given, equal⟩ := Checked.bind_eq_ok.mp owned
  cases equal
  rcases setRegionOwner_cases given with ⟨-, rfl⟩ | ⟨entry, regions, -, -, changed, -, rfl⟩
  · exact quiet
  · refine { quiet with regions := fun {id _} found => ?_ }
    have apart : id ≠ region := by
      intro same
      subst same
      cases fresh.symm.trans found
    rw [Slab.get?_modify changed, if_neg apart]
    exact quiet.regions found

theorem Quiet.ownType (quiet : program.Quiet middle) {kind : TypeKind} {region : RegionId} {type : TypeId}
    (fresh : program.regions.get? region = none)
    (given : (newOwningType kind region).run middle = .ok (type, after)) : program.Quiet after := by
  obtain ⟨⟨⟨_, types, census⟩, opened⟩, first, given⟩ := Checked.bind_eq_ok.mp given
  obtain ⟨made, rfl⟩ := Edit.run_check.mp first
  obtain ⟨⟨_, _⟩, owned, equal⟩ := Checked.bind_eq_ok.mp given
  cases equal
  have typed : Quiet opened { opened with types, census } :=
    { Quiet.refl opened with types := (TypeTable.fresh_enrols made).extends }
  exact (quiet.trans typed).own fresh owned

theorem newUserType_quiet {kind : RegionId → TypeKind} {parent : RegionId} :
    (newUserType kind parent).Quiet := by
  intro program id after given
  obtain ⟨⟨region, opened⟩, first, given⟩ := Checked.bind_eq_ok.mp given
  obtain ⟨quiet, fresh⟩ := newRegion_fresh first
  exact quiet.ownType fresh given

theorem newBlock_quiet {parent : RegionId} : (newBlock parent).Quiet := by
  intro program id after given
  obtain ⟨⟨region, opened⟩, first, given⟩ := Checked.bind_eq_ok.mp given
  obtain ⟨quiet, fresh⟩ := newRegion_fresh first
  obtain ⟨⟨block, middle⟩, made, given⟩ := Checked.bind_eq_ok.mp given
  obtain ⟨⟨_, _⟩, owned, equal⟩ := Checked.bind_eq_ok.mp given
  cases equal
  exact (quiet.trans (stmtOf_quiet _ made)).own fresh owned

theorem parameterRegion_quiet {region : RegionId} {decl : DeclId} : (parameterRegion region decl).Quiet := by
  intro program parameters after given
  obtain ⟨⟨_, opened⟩, first, given⟩ := Checked.bind_eq_ok.mp given
  obtain ⟨quiet, fresh⟩ := newRegion_fresh first
  obtain ⟨⟨_, _⟩, owned, equal⟩ := Checked.bind_eq_ok.mp given
  cases equal
  exact quiet.own fresh owned

/-! ### Declarations -/

/-- One declaration more, behind the others. What is `listed` with it is added to the
specializations. -/
structure Gains (program after : Program) (id : DeclId) (node : DeclNode)
    (listed : Array (DeclId × DeclId)) : Prop where
  grows : program.Grows after
  pushed : program.decls.nodes.push node = .ok (id, after.decls.nodes)
  listing : after.decls.specializations = program.decls.specializations ++ listed

theorem Quiet.gains (quiet : program.Quiet middle) {id : DeclId} {node : DeclNode}
    {listed : Array (DeclId × DeclId)} (gains : middle.Gains after id node listed) :
    program.Gains after id node listed where
  grows := quiet.toGrows.trans gains.grows
  pushed := quiet.undeclared ▸ gains.pushed
  listing := quiet.undeclared ▸ gains.listing

/-- A declaration that joined its chain becomes the newest. -/
theorem gains_declared {scope : ScopeId} {id : DeclId} {node : DeclNode} {bound scopes : ScopeTable}
    {chains : Slab .chain (Array DeclId)} {joined : DeclTable} {nodes : Slab .decl DeclNode} (census : Census)
    (chained : program.scopes.bind scope node.name node.type (Slab.push #[]) program.decls.chains =
      .ok (node.chain, bound, chains))
    (appended : { program.decls with chains }.appendToChain node.chain id = .ok (node.position, joined))
    (made : joined.nodes.push node = .ok (id, nodes)) (listed : bound.pushMember scope id = .ok scopes) :
    program.Gains { program with decls := { joined with nodes }, scopes, census } id node #[] := by
  obtain ⟨_, longer, -, -, -, rfl⟩ := appendToChain_eq_ok appended
  refine ⟨{ Grows.refl program with decls := Slab.extends_push made, members := ?_ }, made, by simp⟩
  intro other region members found
  rw [ScopeTable.outline?_pushMember listed, ScopeTable.outline?_bind chained,
    ScopeTable.outline?_bind chained]
  split
  next same =>
    subst same
    exact ⟨#[id], by simp [found]⟩
  · exact ⟨#[], by simpa using found⟩

/-- What a declaration was asked for with. -/
structure DeclaredAs (node : DeclNode) (region : RegionId) (name : NameId) (type : TypeId)
    (specifiers : Specifiers) : Prop where
  home : node.home = region
  name : node.name = name
  type : node.type = type
  specifiers : node.specifiers = specifiers

/-- What it holds is made before a declaration joins its chain, from the handle it will
have and the master of the chain. -/
theorem declare_cases {region : RegionId} {name : NameId} {type : TypeId} {specifiers : Specifiers}
    {category : Category} {make : DeclId → Option DeclId → Edit DeclKind} {outcome : Except BuildError DeclId}
    (given : (declare region name type specifiers category make).run.run program = .ok (outcome, after))
    (quiet : ∀ id master, (make id master).Quiet) :
    (∃ error, outcome = .error error) ∧ after = program ∨
      ∃ id master prepared node, outcome = .ok id ∧ (make id master).run program = .ok (node.kind, prepared) ∧
        node.master = master.getD id ∧ DeclaredAs node region name type specifiers ∧
        program.Gains after id node #[] := by
  unfold declare at given
  split at given
  · cases given
    exact .inl ⟨⟨_, rfl⟩, rfl⟩
  obtain ⟨entry, -, given⟩ := Build.run_check_bind.mp (Build.run_get_bind.mp given)
  obtain ⟨agreed, -, given⟩ := Build.run_check_bind.mp (Build.run_get_bind.mp given)
  cases agreed with
  | error error =>
    cases given
    exact .inl ⟨⟨_, rfl⟩, rfl⟩
  | ok master =>
    obtain ⟨id, planned, given⟩ := Build.run_check_bind.mp (Build.run_get_bind.mp given)
    obtain ⟨kind, prepared, made, given⟩ := Build.run_edit_bind.mp given
    obtain ⟨⟨chain, index⟩, first, joined, given⟩ := Build.run_edit_bind.mp given
    obtain ⟨bound, chains, decls, chained, appended, rfl⟩ := joinChain_eq_ok.mp joined
    obtain ⟨number, second, numbered, given⟩ := Build.run_edit_bind.mp given
    obtain ⟨census, -, rfl⟩ := enrollNode_eq_ok.mp numbered
    obtain ⟨last, newest, rfl⟩ := Build.run_edit.mp given
    obtain ⟨nodes, scopes, pushed, listed, rfl⟩ := pushDecl_eq_ok.mp newest
    have prepares := quiet _ _ _ made
    have expected : id = last := by
      rw [(Slab.next_eq_ok.mp planned).1, (Slab.push_eq_ok.mp pushed).1, appendToChain_nodes appended,
        prepares.undeclared]
    subst expected
    let node : DeclNode :=
      ⟨number, name, type, region, specifiers, chain, index, master.getD id, kind⟩
    have gains : prepared.Gains _ id node #[] :=
      gains_declared census chained appended pushed listed
    exact .inr ⟨id, master, prepared, node, rfl, made, rfl, ⟨rfl, rfl, rfl, rfl⟩, prepares.gains gains⟩

theorem parametrized_quiet {region : RegionId} {decl : DeclId} {kind : RegionId → DeclKind} :
    (do return kind (← parameterRegion region decl) : Edit DeclKind).Quiet :=
  Edit.quiet_bind parameterRegion_quiet fun _ => Edit.quiet_pure _

theorem parametrized_eq_ok {region : RegionId} {decl : DeclId} {kind : RegionId → DeclKind} {made : DeclKind}
    (given : (do return kind (← parameterRegion region decl) : Edit DeclKind).run program = .ok (made, after)) :
    ∃ parameters, made = kind parameters := by
  obtain ⟨⟨parameters, _⟩, -, equal⟩ := Checked.bind_eq_ok.mp given
  cases equal
  exact ⟨parameters, rfl⟩

/-- `name` is the template-id of `template` for `args`, which are kept as `list`; what there
is then may grow. -/
def Applied (program after : Program) (template : NameId) (args : List Term) (name : NameId)
    (list : TermListId) : Prop :=
  ∃ named noted, (templateId template args).run program = .ok (name, named) ∧
    (keepTerms args).run named = .ok (list, noted) ∧ noted.Grows after

theorem specialize_cases {home : RegionId} {base : NameId} {args : List Term} {type : TypeId}
    {primary : DeclId} {outcome : Except BuildError DeclId}
    (given : (specialize home base args type primary).run.run program = .ok (outcome, after)) :
    (∃ error, outcome = .error error) ∧ program.Quiet after ∨
      ∃ id node parameters list, outcome = .ok id ∧
        node.kind = .template parameters none primary (some list) ∧
        DeclaredAs node home node.name type .empty ∧ program.Applied after base args node.name list ∧
        program.Gains after id node (if node.isMaster then #[(primary, id)] else #[]) := by
  obtain ⟨name, named, applied, given⟩ := Build.run_edit_bind.mp given
  obtain ⟨list, noted, kept, given⟩ := Build.run_edit_bind.mp given
  have quiet : program.Quiet noted := (templateId_quiet _ applied).trans (keepTerms_quiet _ kept)
  have prepares : ∀ id (_ : Option DeclId), (do
      return .template (← parameterRegion home id) none primary (some list) : Edit DeclKind).Quiet :=
    fun _ _ => parametrized_quiet
  rcases Build.run_bind_cases given with ⟨error, stopped, rfl⟩ | ⟨decl, declared, performed, given⟩
  · rcases declare_cases stopped prepares with ⟨-, rfl⟩ | ⟨_, _, _, _, impossible, -⟩
    · exact .inl ⟨⟨error, rfl⟩, quiet⟩
    · cases impossible
  · rcases declare_cases performed prepares with ⟨⟨_, impossible⟩, -⟩ | ⟨_, _, _, node, same, made, -, asked, gains⟩
    · cases impossible
    cases same
    rw [← asked.name] at applied asked
    obtain ⟨parameters, kind⟩ := parametrized_eq_ok made
    obtain ⟨_, read, given⟩ := Build.run_check_bind.mp (Build.run_get_bind.mp given)
    cases (Slab.get_eq_ok.mp read).symm.trans (Slab.get?_pushed gains.pushed)
    have grows := gains.grows
    have gains := quiet.gains gains
    refine .inr ⟨decl, node, parameters, list, ?_⟩
    split at given
    next leads =>
      cases given
      have listing := gains.listing
      exact ⟨rfl, kind, asked, ⟨named, noted, applied, kept, { grows with }⟩,
        { gains.grows with }, gains.pushed, by simp [leads, DeclTable.listSpecialization, listing]⟩
    next follows =>
      cases given
      exact ⟨rfl, kind, asked, ⟨named, noted, applied, kept, grows⟩,
        by simpa [follows] using gains⟩

theorem declareSpecialization_cases {template : DeclId} {args : List Term} {type : TypeId}
    {outcome : Except BuildError DeclId}
    (given : (declareSpecialization template args type).run.run program = .ok (outcome, after)) :
    (∃ error, outcome = .error error) ∧ program.Quiet after ∨
      ∃ named primary lead id node parameters list, program.decls.nodes.get? template = some named ∧
        (∃ own pattern applied, named.kind = .template own pattern primary applied) ∧
        program.decls.nodes.get? primary = some lead ∧
        outcome = .ok id ∧ node.kind = .template parameters none primary (some list) ∧
        DeclaredAs node lead.home node.name type .empty ∧
        program.Applied after lead.name args node.name list ∧
        program.Gains after id node (if node.isMaster then #[(primary, id)] else #[]) := by
  obtain ⟨named, found, given⟩ := Build.run_check_bind.mp (Build.run_get_bind.mp given)
  split at given
  next own pattern primary applied recorded =>
    have there := Slab.get_eq_ok.mp found
    obtain ⟨lead, leading, given⟩ := Build.run_check_bind.mp given
    have leads := Slab.get_eq_ok.mp leading
    obtain ⟨former, -, given⟩ := Build.run_check_bind.mp given
    split at given
    · obtain ⟨agreed, -, given⟩ := Build.run_check_bind.mp given
      cases agreed with
      | error error =>
        cases given
        exact .inl ⟨⟨error, rfl⟩, .refl program⟩
      | ok master =>
        refine (specialize_cases given).imp_right fun ⟨id, node, parameters, list, rest⟩ => ?_
        exact ⟨named, primary, lead, id, node, parameters, list, there, ⟨own, pattern, applied, recorded⟩,
          leads, rest⟩
    · refine (specialize_cases given).imp_right fun ⟨id, node, parameters, list, rest⟩ => ?_
      exact ⟨named, primary, lead, id, node, parameters, list, there, ⟨own, pattern, applied, recorded⟩,
        leads, rest⟩
  · cases given
    exact .inl ⟨⟨_, rfl⟩, .refl program⟩

/-! ### Effects -/

/-- A parameter lies in the parameter region of a function, and an enumerator in the region of
the enumeration that is its type. -/
def Belongs (program : Program) (home : RegionId) (type : TypeId) : DeclKind → Prop
  | .parameter .. =>
    ∃ function node body, program.declNode function = .ok node ∧ node.kind = .function home body
  | .enumerator _ => ∃ node underlying, program.typeNode type = .ok node ∧ node.kind = .enumType home underlying
  | _ => True

/-- Where a new declaration may stand. A parameter counts those that are there before it. -/
structure Placed (program : Program) (home : RegionId) (type : TypeId) (kind : DeclKind) : Prop where
  belongs : program.Belongs home type kind
  counted : ∀ number default, kind = .parameter number default →
    ∃ region, program.region home = .ok region ∧ program.parameterCount region.scope = .ok number

/-- What a request may do to what is there. A template that is no specialization records
the master of its chain as its primary, a specialization the primary that the named
declaration records, and is declared beside that by a template-id of its name. -/
inductive Effect (program : Program) : Request → Program → Prop where
  | quiet {request : Request} {after : Program} (quiet : program.Quiet after) :
      Effect program request after
  | underlyingType {enumType underlying : TypeId} {number : NodeId} {region : RegionId}
      {nodes : Slab .type TypeNode}
      (found : program.types.nodes.get? enumType = some ⟨number, .enumType region none⟩)
      (changed : program.types.nodes.modify enumType
        ({ · with kind := .enumType region (some underlying) }) = .ok nodes) :
      Effect program (.setUnderlyingType enumType underlying)
        { program with types := { program.types with nodes } }
  | exprType {expr : ExprId} {type : TypeId} {node : ExprNode} {nodes : Slab .expr ExprNode}
      (found : program.exprs.nodes.get? expr = some node) (untyped : node.type = none)
      (changed : program.exprs.nodes.modify expr ({ · with type := some type }) = .ok nodes) :
      Effect program (.setExprType expr type) { program with exprs := { program.exprs with nodes } }
  | regionOwner {region : RegionId} {owner : RegionOwner} {entry : Region}
      {regions : Slab .region Region} (found : program.regions.get? region = some entry)
      (unowned : entry.owner = none)
      (changed : program.regions.modify region ({ · with owner := some owner }) = .ok regions) :
      Effect program (.setRegionOwner region owner) { program with regions }
  | blockEnd {block stmt : StmtId} {node : StmtNode} {region : RegionId} {body : Array StmtId}
      {stmts : Slab .stmt StmtNode} (found : program.stmts.get? block = some node)
      (unfinished : node.kind = .block region body)
      (changed : program.stmts.modify block ({ · with kind := .block region (body.push stmt) }) = .ok stmts) :
      Effect program (.appendToBlock block stmt) { program with stmts }
  | refill {request : Request} {decl : DeclId} {node : DeclNode} {kind : DeclKind}
      {nodes : Slab .decl DeclNode} (found : program.decls.nodes.get? decl = some node)
      (filled : request.Fills decl node.kind kind)
      (changed : program.decls.nodes.modify decl ({ · with kind }) = .ok nodes) :
      Effect program request { program with decls := { program.decls with nodes } }
  | declaration {request : Request} {after : Program} {id : DeclId} {node : DeclNode}
      (plain : node.category ≠ .template) (gains : program.Gains after id node #[])
      (placed : program.Placed node.home node.type node.kind) : Effect program request after
  | template {request : Request} {after : Program} {id : DeclId} {node : DeclNode} {parameters : RegionId}
      (kind : node.kind = .template parameters none node.master none)
      (gains : program.Gains after id node #[]) : Effect program request after
  | specialization {request : Request} {after : Program} {named lead node : DeclNode}
      {template primary id : DeclId} {own parameters : RegionId} {pattern : Option DeclId}
      {former : Option TermListId} {args : List Term} {list : TermListId}
      (found : program.decls.nodes.get? template = some named)
      (recorded : named.kind = .template own pattern primary former)
      (leads : program.decls.nodes.get? primary = some lead) (beside : node.home = lead.home)
      (applied : program.Applied after lead.name args node.name list)
      (kind : node.kind = .template parameters none primary (some list))
      (gains : program.Gains after id node (if node.isMaster then #[(primary, id)] else #[])) :
      Effect program request after

/-- What an effect does to the declarations. -/
theorem Effect.decl_cases {request : Request} (effect : program.Effect request after) :
    after.decls.nodes = program.decls.nodes ∨
    (∃ decl node kind, program.decls.nodes.get? decl = some node ∧ request.Fills decl node.kind kind ∧
      program.decls.nodes.modify decl ({ · with kind }) = .ok after.decls.nodes) ∨
    ∃ id node, program.decls.nodes.push node = .ok (id, after.decls.nodes) ∧
      program.Placed node.home node.type node.kind := by
  cases effect with
  | quiet quiet => exact .inl (congrArg DeclTable.nodes quiet.undeclared)
  | underlyingType | exprType | regionOwner | blockEnd => exact .inl rfl
  | refill found filled changed => exact .inr (.inl ⟨_, _, _, found, filled, changed⟩)
  | declaration _ gains placed => exact .inr (.inr ⟨_, _, gains.pushed, placed⟩)
  | template kind gains | specialization _ _ _ _ _ kind gains =>
    exact .inr (.inr ⟨_, _, gains.pushed, kind ▸ ⟨trivial, nofun⟩⟩)

theorem setUnderlyingType_effect {enumType underlying : TypeId} : (setUnderlyingType enumType underlying).Ends
    (program.Effect (.setUnderlyingType enumType underlying)) program := by
  apply Build.ends_get_bind
  split
  next number region old found =>
    refine Build.ends_settle_bind (.quiet (.refl program)) fun allowed => ?_
    apply Build.ends_check_bind
    intro _ changed
    obtain ⟨rfl, rfl⟩ := fillEmpty_eq_ok.mp allowed
    exact Build.ends_set (.underlyingType found changed)
  · exact Build.ends_throw (.quiet (.refl program)) _

theorem setExprType_effect {expr : ExprId} {type : TypeId} :
    (setExprType expr type).Ends (program.Effect (.setExprType expr type)) program := by
  apply Build.ends_get_bind
  split
  next node found =>
    refine Build.ends_settle_bind (.quiet (.refl program)) fun allowed => ?_
    apply Build.ends_check_bind
    intro _ changed
    obtain ⟨untyped, rfl⟩ := fillEmpty_eq_ok.mp allowed
    exact Build.ends_set (.exprType found untyped changed)
  · exact Build.ends_throw (.quiet (.refl program)) _

theorem setRegionOwner_effect {region : RegionId} {owner : RegionOwner} :
    (setRegionOwner region owner).Ends (program.Effect (.setRegionOwner region owner)) program := by
  intro outcome after given
  rcases setRegionOwner_cases given with ⟨-, rfl⟩ | ⟨entry, regions, found, unowned, changed, -, rfl⟩
  · exact .quiet (.refl after)
  · exact .regionOwner found unowned changed

theorem appendToBlock_effect {block stmt : StmtId} :
    (appendToBlock block stmt).Ends (program.Effect (.appendToBlock block stmt)) program := by
  apply Build.ends_get_bind
  apply Build.ends_check_bind
  intro _ found
  split
  next unfinished =>
    apply Build.ends_check_bind
    intro _ changed
    exact Build.ends_set (.blockEnd (Slab.get_eq_ok.mp found) unfinished changed)
  · exact Build.ends_throw (.quiet (.refl program)) _

theorem refill_effect {request : Request} {decl : DeclId} {change : DeclKind → Except BuildError DeclKind}
    (fills : ∀ {old new}, change old = .ok new → request.Fills decl old new) :
    (refill decl change).Ends (program.Effect request) program := by
  apply Build.ends_get_bind
  apply Build.ends_check_bind
  intro _ found
  refine Build.ends_settle_bind (.quiet (.refl program)) fun allowed => ?_
  apply Build.ends_check_bind
  intro _ changed
  exact Build.ends_set (.refill (Slab.get_eq_ok.mp found) (fills allowed) changed)

theorem setTypeDefinition_effect {decl : DeclId} {type : TypeId} :
    (setTypeDefinition decl type).Ends (program.Effect (.setTypeDefinition decl type)) program := by
  obtain ⟨change, equal, fills⟩ := setTypeDefinition_fills decl type
  rw [equal]
  apply Build.ends_get_bind
  apply Build.ends_check_bind
  intro _ _
  split
  · refine Build.ends_bind (fun given => ?_) fun given => nomatch given
    cases given
    exact .quiet (.refl program)
  · exact refill_effect fills

section Declarations

variable {request : Request} {region : RegionId} {name : NameId} {type : TypeId} {specifiers : Specifiers}

theorem declare_effect {category : Category} {make : DeclId → Option DeclId → Edit DeclKind}
    (quiet : ∀ id master, (make id master).Quiet)
    (fits : ∀ {id master kind prepared}, (make id master).run program = .ok (kind, prepared) →
      kind.category ≠ .template ∧ program.Placed region type kind) :
    (declare region name type specifiers category make).Ends (program.Effect request) program := by
  intro outcome after given
  rcases declare_cases given quiet with ⟨-, rfl⟩ | ⟨id, master, prepared, node, -, made, -, asked, gains⟩
  · exact .quiet (.refl after)
  · obtain ⟨plain, placed⟩ := fits made
    exact .declaration plain gains (asked.home ▸ asked.type ▸ placed)

theorem declareWith_effect {kind : DeclKind} (plain : kind.category ≠ .template)
    (placed : program.Placed region type kind) :
    (declareWith region name type specifiers kind).Ends (program.Effect request) program := by
  refine declare_effect (fun _ _ => Edit.quiet_pure kind) fun given => ?_
  cases given
  exact ⟨plain, placed⟩

theorem declareFunction_effect :
    (declareFunction region name type specifiers).Ends (program.Effect request) program := by
  refine declare_effect (fun _ _ => parametrized_quiet) fun given => ?_
  obtain ⟨parameters, rfl⟩ := parametrized_eq_ok given
  exact ⟨by simp [DeclKind.category], trivial, nofun⟩

theorem declareParameter_effect {function : DeclId} :
    (declareParameter function name type).Ends (program.Effect request) program := by
  apply Build.ends_get_bind
  apply Build.ends_check_bind
  intro owner found
  split
  next parameters body recorded =>
    apply Build.ends_check_bind
    intro entry opened
    apply Build.ends_check_bind
    intro count counted
    apply Build.ends_check_bind
    intro number numbered
    obtain ⟨rfl, -⟩ := position_eq_ok.mp numbered
    refine declareWith_effect (by simp [DeclKind.category]) ⟨⟨function, owner, body, found, recorded⟩, ?_⟩
    rintro _ _ ⟨⟩
    exact ⟨entry, opened, counted⟩
  · exact Build.ends_throw (.quiet (.refl program)) _

theorem declareEnumerator_effect {enumType : TypeId} {value : Option ExprId} :
    (declareEnumerator enumType name value).Ends (program.Effect request) program := by
  apply Build.ends_get_bind
  apply Build.ends_check_bind
  intro node found
  split
  next own underlying recorded =>
    exact declareWith_effect (by simp [DeclKind.category]) ⟨⟨node, underlying, found, recorded⟩, nofun⟩
  · exact Build.ends_throw (.quiet (.refl program)) _

theorem declareTemplate_effect :
    (declareTemplate region name type specifiers).Ends (program.Effect request) program := by
  intro outcome after given
  rcases declare_cases given (fun _ _ => parametrized_quiet) with
    ⟨-, rfl⟩ | ⟨id, master, prepared, node, -, made, mastered, -, gains⟩
  · exact .quiet (.refl after)
  · obtain ⟨parameters, kind⟩ := parametrized_eq_ok made
    rw [← mastered] at kind
    exact .template kind gains

theorem declareSpecialization_effect {template : DeclId} {args : List Term} :
    (declareSpecialization template args type).Ends (program.Effect request) program := by
  intro outcome after given
  rcases declareSpecialization_cases given with
    ⟨-, quiet⟩ | ⟨_, _, _, _, _, _, _, found, ⟨_, _, _, recorded⟩, leads, -, kind, asked, applied, gains⟩
  · exact .quiet quiet
  · exact .specialization found recorded leads asked.home applied kind gains

end Declarations

theorem perform_effect {request : Request} : (perform request).Ends (program.Effect request) program := by
  have answered : ∀ {α : Type} {build : Build α} (answer : α → Answer),
      build.Ends (program.Effect request) program →
        (build >>= fun value => pure (answer value)).Ends (program.Effect request) program :=
    fun _ ends => Build.ends_bind (fun stopped => ends stopped) fun performed =>
      Build.ends_pure (ends performed) _
  have built : ∀ {α : Type} {build : Build α} (answer : α → Answer), build.Quiet →
      (build >>= fun value => pure (answer value)).Ends (program.Effect request) program :=
    fun answer quiet => answered answer fun _ _ given => .quiet (quiet program given)
  have edited : ∀ {α : Type} {edit : Edit α} (answer : α → Answer), edit.Quiet →
      ((liftM edit : Build α) >>= fun value => pure (answer value)).Ends (program.Effect request) program :=
    fun answer quiet => built answer (Build.quiet_edit quiet)
  cases request with
  | intern => exact built _ intern_quiet
  | internText => exact edited _ internText_quiet
  | identifier | operator | suffix | conversion | typeName | constructorName | destructorName
  | qualifiedName => exact edited _ nameOf_quiet
  | templateId => exact edited _ templateId_quiet
  | pointer | reference | rvalueReference | array | functionType | pointerToMember | templateType
  | decltype | namedType => exact edited _ typeOf_quiet
  | qualified => exact built _ qualified_quiet
  | product => exact edited _ product_quiet
  | sum => exact edited _ sum_quiet
  | newClass | newUnion | newEnum | newNamespace => exact edited _ newUserType_quiet
  | setUnderlyingType => exact answered _ setUnderlyingType_effect
  | addBase => exact built _ addBase_quiet
  | literal => exact edited _ literal_quiet
  | idExpr => exact edited _ idExpr_quiet
  | unary | binary | cast | conditional | member | sizeOf | alignOf | deleteExpr | throwExpr =>
    exact edited _ exprOf_quiet
  | call => exact edited _ callExpr_quiet
  | newExpr => exact edited _ newExpr_quiet
  | paren => exact edited _ paren_quiet
  | initializerList => exact edited _ initializerList_quiet
  | setExprType => exact answered _ setExprType_effect
  | newRegion => exact edited _ newRegion_quiet
  | setRegionOwner => exact answered _ setRegionOwner_effect
  | exprStmt | labeled | ifStmt | switchStmt | whileStmt | doStmt | forStmt | forInStmt | breakStmt
  | continueStmt | gotoStmt | returnStmt | declStmt => exact edited _ stmtOf_quiet
  | newBlock => exact edited _ newBlock_quiet
  | appendToBlock => exact answered _ appendToBlock_effect
  | usingDirective => exact built _ usingDirective_quiet
  | usingDeclaration | staticAssert | asm | pragma => exact edited _ directiveOf_quiet
  | declareVar | declareField | declareBitfield | declareAlias | declareType =>
    exact answered _ (declareWith_effect (by simp [DeclKind.category]) ⟨trivial, nofun⟩)
  | declareFunction => exact answered _ declareFunction_effect
  | declareParameter => exact answered _ declareParameter_effect
  | declareEnumerator => exact answered _ declareEnumerator_effect
  | declareTemplate => exact answered _ declareTemplate_effect
  | declareSpecialization => exact answered _ declareSpecialization_effect
  | setTypeDefinition => exact answered _ setTypeDefinition_effect
  | setInitializer decl value =>
    obtain ⟨change, equal, fills⟩ := setInitializer_fills decl value
    rw [perform, equal]
    exact answered _ (refill_effect fills)
  | setAliasee decl type =>
    obtain ⟨change, equal, fills⟩ := setAliasee_fills decl type
    rw [perform, equal]
    exact answered _ (refill_effect fills)
  | setFunctionBody decl body =>
    obtain ⟨change, equal, fills⟩ := setFunctionBody_fills decl body
    rw [perform, equal]
    exact answered _ (refill_effect fills)
  | setTemplatePattern decl pattern =>
    obtain ⟨change, equal, fills⟩ := setTemplatePattern_fills decl pattern
    rw [perform, equal]
    exact answered _ (refill_effect fills)

/-- Every request has an effect of one of these kinds. -/
theorem respond_effect {request : Request} {outcome : Except BuildError Answer}
    (responded : program.respond request = .ok (outcome, after)) : program.Effect request after :=
  perform_effect responded

/-- What every request keeps that is answered, a run of requests keeps. -/
theorem run_keeps {holds : Program → Prop} (step : ∀ {program request outcome after},
      program.respond request = .ok (outcome, after) → holds program → holds after)
    {requests : List Request} (start : holds program) (ran : program.run requests = .ok after) :
    holds after := by
  induction requests generalizing program with
  | nil =>
    cases ran
    exact start
  | cons request rest ih =>
    obtain ⟨⟨outcome, middle⟩, responded, ran⟩ := Checked.bind_eq_ok.mp ran
    exact ih (step responded start) ran

theorem run_effects {holds : Program → Prop} (step : ∀ {program request after},
      program.Effect request after → holds program → holds after)
    {requests : List Request} (start : holds program) (ran : program.run requests = .ok after) :
    holds after :=
  run_keeps (fun responded => step (respond_effect responded)) start ran

/-- A new program has no declarations. -/
theorem decls_initial {hash : Bytes → UInt64} {sizing : Sizing}
    (began : initial hash sizing = .ok program) : program.decls = {} := by
  obtain ⟨exprs, -, began⟩ := Checked.bind_eq_ok.mp began
  obtain ⟨⟨region, middle⟩, opened, began⟩ := Checked.bind_eq_ok.mp began
  obtain ⟨⟨globalNamespace, before⟩, owned, equal⟩ := Checked.bind_eq_ok.mp began
  cases equal
  obtain ⟨quiet, fresh⟩ := newRegion_fresh opened
  exact (quiet.ownType fresh owned).undeclared

end Program

end CanonIR
