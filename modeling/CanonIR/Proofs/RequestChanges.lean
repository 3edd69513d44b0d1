import CanonIR.Proofs.ProgramChanges

/-! Whatever a request does to a program, it does by a sequence of changes, even where it
is turned down in the end. -/

namespace CanonIR

variable {α : Type} {known : Answer → Prop} {program : Program}

namespace Program

/-! ### Edits -/

theorem intern_moves {bytes : Bytes} : (intern bytes).Moves known program := by
  apply Build.get_bind
  apply Build.check_bind
  intro outcome interned
  cases outcome with
  | error error => exact Build.moves_throw _
  | ok result =>
    apply Build.moves_bind (Build.moves_set (Change.strings interned).reaches)
    intro _ _ _
    exact Build.moves_pure _

theorem internText_moves {text : String} : (internText text).Moves known program := by
  intro symbol after given
  obtain ⟨⟨_, strings⟩, interned, equal⟩ := Checked.bind_eq_ok.mp given
  cases equal
  obtain ⟨outcome, interned, rest⟩ := Checked.bind_eq_ok.mp interned
  cases outcome with
  | error error => cases rest
  | ok result =>
    cases rest
    exact (Change.strings interned).reaches

theorem nameOf_eq_ok {kind : NameKind} {id : NameId} {after : Program} :
    (nameOf kind).run program = .ok (id, after) ↔
      ∃ names census, program.names.canonical kind program.census = .ok (id, names, census) ∧
        after = { program with names, census } := by
  apply Checked.bind_eq_ok.trans
  constructor
  · intro ⟨⟨_, names, census⟩, given, equal⟩
    cases equal
    exact ⟨names, census, given, rfl⟩
  · intro ⟨names, census, given, same⟩
    subst same
    exact ⟨_, given, rfl⟩

theorem nameOf_moves {kind : NameKind} (simple : kind.isSimple)
    (uses : ∀ handle ∈ kind.handles, known handle) : (nameOf kind).Moves known program := by
  intro id after given
  obtain ⟨names, census, made, rfl⟩ := nameOf_eq_ok.mp given
  exact (Change.name simple uses made).reaches

theorem keepTerms_moves {terms : List Term} : (keepTerms terms).Moves known program := by
  intro list after given
  obtain ⟨⟨_, names⟩, kept, equal⟩ := Checked.bind_eq_ok.mp given
  cases equal
  exact (Change.terms kept).reaches

theorem templateId_eq_ok {template id : NameId} {args : List Term} {after : Program} :
    (templateId template args).run program = .ok (id, after) ↔
      ∃ list listed names census, program.names.keepTerms args = .ok (list, listed) ∧
        listed.canonical (.templateId template list) program.census = .ok (id, names, census) ∧
        after = { program with names, census } := by
  apply Checked.bind_eq_ok.trans
  constructor
  · intro ⟨⟨list, _⟩, first, second⟩
    obtain ⟨⟨_, listed⟩, kept, equal⟩ := Checked.bind_eq_ok.mp first
    cases equal
    obtain ⟨names, census, given, same⟩ := nameOf_eq_ok.mp second
    exact ⟨list, listed, names, census, kept, given, same⟩
  · intro ⟨list, listed, names, census, kept, given, same⟩
    have first : (keepTerms args).run program = .ok (list, { program with names := listed }) :=
      Checked.bind_eq_ok.mpr ⟨_, kept, rfl⟩
    exact ⟨_, first, nameOf_eq_ok.mpr ⟨names, census, given, same⟩⟩

theorem templateId_moves {template : NameId} {args : List Term}
    (uses : ∀ handle ∈ .name template :: args.map .term, known handle) :
    (templateId template args).Moves known program := by
  intro id after given
  obtain ⟨list, listed, names, census, kept, made, rfl⟩ := templateId_eq_ok.mp given
  exact (Change.templateId uses kept made).reaches

theorem typeOf_eq_ok {kind : TypeKind} {id : TypeId} {after : Program} :
    (typeOf kind).run program = .ok (id, after) ↔
      ∃ types census, program.types.canonical kind program.census = .ok (id, types, census) ∧
        after = { program with types, census } := by
  apply Checked.bind_eq_ok.trans
  constructor
  · intro ⟨⟨_, types, census⟩, given, equal⟩
    cases equal
    exact ⟨types, census, given, rfl⟩
  · intro ⟨types, census, given, same⟩
    subst same
    exact ⟨_, given, rfl⟩

theorem simpleType_moves {kind : TypeKind} (simple : kind.isSimple)
    (uses : ∀ handle ∈ kind.handles, known handle) :
    (typeOf kind).Moves known program := by
  intro id after given
  obtain ⟨types, census, made, rfl⟩ := typeOf_eq_ok.mp given
  exact (Change.simpleType simple uses made).reaches

theorem qualified_eq (qualifiers : Qualifiers) (main : TypeId) : qualified qualifiers main = (do
    if qualifiers.isEmpty then throw .emptyQualifiers
    let node ← (← get).typeNode main
    typeOf (node.kind.qualifiedWith qualifiers main)) := by
  unfold qualified
  split
  · rfl
  · dsimp only
    congr
    funext program
    congr
    funext node
    cases node.kind <;> rfl

theorem qualified_moves {qualifiers : Qualifiers} {main : TypeId} :
    (qualified qualifiers main).Moves known program := by
  rw [qualified_eq]
  split
  · exact Build.moves_bind (Build.moves_throw _) fun given => nomatch given
  next qualifying =>
    apply Build.get_bind
    apply Build.check_bind
    intro _ found
    apply Build.edit_moves
    intro id after given
    obtain ⟨types, census, made, rfl⟩ := typeOf_eq_ok.mp given
    exact (Change.qualifiedType (by simpa using qualifying) found made).reaches

/-- Products and sums alike: a list is kept, and then the type of the list is asked for. -/
theorem combined_eq_ok {wrap : TypeListId → TypeKind} {members : List TypeId} {id : TypeId}
    {after : Program} : (do typeOf (wrap (← keepTypes members)) : Edit TypeId).run program = .ok (id, after) ↔
      ∃ list listed types census, program.types.keepList members = .ok (list, listed) ∧
        listed.canonical (wrap list) program.census = .ok (id, types, census) ∧
        after = { program with types, census } := by
  apply Checked.bind_eq_ok.trans
  constructor
  · intro ⟨⟨list, _⟩, first, second⟩
    obtain ⟨⟨_, listed⟩, kept, equal⟩ := Checked.bind_eq_ok.mp first
    cases equal
    obtain ⟨types, census, given, same⟩ := typeOf_eq_ok.mp second
    exact ⟨list, listed, types, census, kept, given, same⟩
  · intro ⟨list, listed, types, census, kept, given, same⟩
    have first : (keepTypes members).run program = .ok (list, { program with types := listed }) :=
      Checked.bind_eq_ok.mpr ⟨_, kept, rfl⟩
    exact ⟨_, first, typeOf_eq_ok.mpr ⟨types, census, given, same⟩⟩

theorem product_moves {types : List TypeId} (uses : ∀ handle ∈ types.map .type, known handle) :
    (product types).Moves known program := by
  intro id after given
  obtain ⟨list, listed, types, census, kept, made, rfl⟩ := combined_eq_ok.mp given
  exact (Change.product uses kept made).reaches

theorem sum_moves {types : List TypeId} (uses : ∀ handle ∈ types.map .type, known handle) :
    (sum types).Moves known program := by
  intro id after given
  obtain ⟨list, listed, types, census, kept, made, rfl⟩ := combined_eq_ok.mp given
  exact (Change.sum uses kept made).reaches

/-- The depth of a region is decided before the region is made. -/
theorem newRegion_eq (parent : Option RegionId) (program : Program) :
    newRegion parent program = (do
      let id ← program.regions.next
      let (scope, scopes) ← program.scopes.scopes.push { region := id }
      let depth ← parent.elim (pure 0) fun outer => return (← program.regions.get outer).depth + 1
      let (id, regions) ← program.regions.push { parent, scope, depth }
      return (id, { program with regions, scopes := { program.scopes with scopes } })) := by
  cases parent <;> simp [newRegion]

theorem newRegion_eq_ok {parent : Option RegionId} {id : RegionId} {after : Program}
    (given : (newRegion parent).run program = .ok (id, after)) :
    ∃ scope scopes depth regions, program.scopes.scopes.push { region := id } = .ok (scope, scopes) ∧
      (parent = none → depth = 0) ∧
      (∀ outer, parent = some outer →
        ∃ entry, program.regions.get outer = .ok entry ∧ depth = entry.depth + 1) ∧
      program.regions.push { parent, scope, depth } = .ok (id, regions) ∧
      after = { program with regions, scopes := { program.scopes with scopes } } := by
  rw [StateT.run, newRegion_eq] at given
  obtain ⟨planned, reserved, given⟩ := Checked.bind_eq_ok.mp given
  obtain ⟨⟨scope, scopes⟩, opened, given⟩ := Checked.bind_eq_ok.mp given
  obtain ⟨depth, deep, given⟩ := Checked.bind_eq_ok.mp given
  obtain ⟨⟨_, regions⟩, made, equal⟩ := Checked.bind_eq_ok.mp given
  cases equal
  have same : planned = id := by
    rw [(Slab.next_eq_ok.mp reserved).1, (Slab.push_eq_ok.mp made).1]
  subst same
  refine ⟨scope, scopes, depth, regions, opened, ?_, ?_, made, rfl⟩
  · intro same
    subst same
    cases deep
    rfl
  · intro outer same
    subst same
    obtain ⟨entry, found, equal⟩ := Checked.bind_eq_ok.mp deep
    cases equal
    exact ⟨entry, found, rfl⟩

/-- Only the first region has no parent. -/
theorem newRegion_moves {parent : Option RegionId} (first : parent = none → program.regions.size = 0) :
    (newRegion parent).Moves known program := by
  intro id after given
  obtain ⟨scope, scopes, depth, regions, opened, outermost, inside, made, rfl⟩ := newRegion_eq_ok given
  exact (Change.region opened (fun none => ⟨outermost none, first none⟩) inside made).reaches

theorem newRegion_inside_moves {parent : RegionId} : (newRegion (some parent)).Moves known program :=
  newRegion_moves nofun

theorem newRegion_unowned {parent : Option RegionId} {id : RegionId} {after : Program}
    (given : (newRegion parent).run program = .ok (id, after)) :
    ∃ entry, after.regions.get? id = some entry ∧ entry.owner = none ∧ entry.parent = parent := by
  obtain ⟨scope, scopes, depth, regions, -, -, -, made, rfl⟩ := newRegion_eq_ok given
  exact ⟨_, Slab.get?_pushed made, rfl, rfl⟩

theorem setRegionOwner_moves {region : RegionId} {owner : RegionOwner} :
    (setRegionOwner region owner).Moves known program := by
  apply Build.get_bind
  apply Build.check_bind
  intro _ found
  split
  · exact Build.moves_throw _
  next unowned =>
    apply Build.check_bind
    intro _ changed
    exact Build.moves_set (Change.regionOwner found unowned changed).reaches

theorem ownRegion_moves {region : RegionId} {owner : RegionOwner} :
    (ownRegion region owner).Moves known program :=
  Edit.moves_bind setRegionOwner_moves fun _ => Edit.moves_pure _

/-- A region that has an owner keeps it. -/
theorem setRegionOwner_cases {region : RegionId} {owner : RegionOwner} {outcome : Except BuildError Unit}
    {after : Program} (given : (setRegionOwner region owner).run.run program = .ok (outcome, after)) :
    (∃ entry existing, program.regions.get? region = some entry ∧ entry.owner = some existing ∧
        outcome = .error (.regionOwned region existing)) ∧ after = program ∨
      ∃ entry regions, program.regions.get? region = some entry ∧ entry.owner = none ∧
        program.regions.modify region ({ · with owner := some owner }) = .ok regions ∧
        outcome = .ok () ∧ after = { program with regions } := by
  obtain ⟨entry, found, given⟩ := Build.run_check_bind.mp (Build.run_get_bind.mp given)
  split at given
  next existing owned =>
    cases given
    exact .inl ⟨⟨entry, existing, Slab.get_eq_ok.mp found, owned, rfl⟩, rfl⟩
  next unowned =>
    obtain ⟨regions, changed, given⟩ := Build.run_check_bind.mp given
    cases given
    exact .inr ⟨entry, regions, Slab.get_eq_ok.mp found, unowned, changed, rfl, rfl⟩

/-- A region without an owner gets the one that it is given. -/
theorem ownRegion_unowned {region : RegionId} {owner : RegionOwner} {entry : Region} {after : Program}
    (given : (ownRegion region owner).run program = .ok ((), after))
    (found : program.regions.get? region = some entry) (unowned : entry.owner = none) :
    ∃ regions, program.regions.modify region ({ · with owner := some owner }) = .ok regions ∧
      after = { program with regions } := by
  obtain ⟨⟨outcome, _⟩, owned, equal⟩ := Checked.bind_eq_ok.mp given
  cases equal
  rcases setRegionOwner_cases owned with
    ⟨⟨former, existing, present, taken, -⟩, -⟩ | ⟨former, regions, -, -, changed, -, rfl⟩
  · cases found.symm.trans present
    cases unowned.symm.trans taken
  · exact ⟨regions, changed, rfl⟩

theorem owned_of_modify {region : RegionId} {owner : RegionOwner} {regions : Slab .region Region}
    (changed : program.regions.modify region ({ · with owner := some owner }) = .ok regions) :
    Owned { program with regions } region owner := by
  obtain ⟨entry, found, -⟩ := Slab.modify_eq_ok.mp changed
  exact ⟨{ entry with owner := some owner }, by simp [Slab.get?_modify changed, found], rfl⟩

/-- The region of a new type is new itself. Its owner is as well put down before the type is
made, since the handle is known. -/
theorem newOwningType_moves {kind : TypeKind} {region : RegionId} {entry : Region}
    (owning : kind.region? = some region) (bare : kind.additions = [])
    (found : program.regions.get? region = some entry) (unowned : entry.owner = none) :
    (newOwningType kind region).Moves known program := by
  intro type after given
  obtain ⟨⟨⟨_, types, census⟩, program⟩, first, given⟩ := Checked.bind_eq_ok.mp given
  obtain ⟨made, rfl⟩ := Edit.run_check.mp first
  obtain ⟨⟨_, _⟩, owned, equal⟩ := Checked.bind_eq_ok.mp given
  cases equal
  obtain ⟨regions, changed, rfl⟩ := ownRegion_unowned owned found unowned
  have adopted : program.Change known { program with regions } :=
    .regionOwner (Slab.get_eq_ok.mpr found) unowned changed
  have typed : Change known { program with regions } { program with regions, types, census } :=
    .userType owning made (owned_of_modify changed) bare
  exact adopted.reaches.trans typed.reaches

theorem newUserType_moves {kind : RegionId → TypeKind} {parent : RegionId}
    (owning : ∀ region, (kind region).region? = some region)
    (bare : ∀ region, (kind region).additions = []) :
    (newUserType kind parent).Moves known program := by
  apply Edit.moves_bind newRegion_inside_moves
  intro region opened given
  obtain ⟨entry, found, unowned, -⟩ := newRegion_unowned given
  exact newOwningType_moves (owning region) (bare region) found unowned

theorem addBase_moves {type base : TypeId} (uses : known (.type type) ∧ known (.type base)) :
    (addBase type base).Moves known program := by
  apply Build.get_bind
  apply Build.check_bind
  intro _ found
  split
  next extensible => exact Build.moves_set (Change.base found extensible uses).reaches
  · exact Build.moves_throw _

theorem literal_eq_ok {type : TypeId} {text : Symbol} {id : ExprId} {after : Program} :
    (literal type text).run program = .ok (id, after) ↔
      ∃ exprs census, program.exprs.literal type text program.census = .ok (id, exprs, census) ∧
        after = { program with exprs, census } := by
  apply Checked.bind_eq_ok.trans
  constructor
  · intro ⟨⟨_, exprs, census⟩, given, equal⟩
    cases equal
    exact ⟨exprs, census, given, rfl⟩
  · intro ⟨exprs, census, given, same⟩
    subst same
    exact ⟨_, given, rfl⟩

theorem literal_moves {type : TypeId} {text : Symbol}
    (uses : ∀ handle ∈ [.type type, .symbol text], known handle) :
    (literal type text).Moves known program := by
  intro id after given
  obtain ⟨exprs, census, made, rfl⟩ := literal_eq_ok.mp given
  exact (Change.literal uses made).reaches

theorem exprOf_moves {kind : ExprKind} {type : Option TypeId} (distinct : kind.category ≠ .literal)
    (uses : ∃ operands, program.exprOperands kind = .ok operands ∧
      ∀ ref ∈ operands, program.Usable known ref)
    (typed : ∀ given, type = some given → program.Usable known (.type given) ∨ program.Offers given) :
    (exprOf kind type).Moves known program := by
  intro id after given
  obtain ⟨⟨_, exprs, census⟩, made, equal⟩ := Checked.bind_eq_ok.mp given
  cases equal
  exact (Change.expr distinct made uses typed).reaches

/-- What the request names can be used. -/
theorem usable_of_handles {refs : List NodeRef} (uses : ∀ handle ∈ refs.map Answer.node, known handle) :
    ∀ ref ∈ refs, program.Usable known ref :=
  fun _ member => .inl (uses _ (List.mem_map_of_mem member))

theorem keepExprs_moves {exprs : List ExprId} : (keepExprs exprs).Moves known program := by
  intro list after given
  obtain ⟨⟨_, exprs⟩, kept, equal⟩ := Checked.bind_eq_ok.mp given
  cases equal
  exact (Change.exprs kept).reaches

theorem exprList_keepExprs {exprs : List ExprId} {list : ExprListId} {after : Program}
    (given : (keepExprs exprs).run program = .ok (list, after)) : after.exprList list = .ok exprs := by
  obtain ⟨⟨_, table⟩, kept, equal⟩ := Checked.bind_eq_ok.mp given
  cases equal
  obtain ⟨⟨_, lists⟩, pushed, equal⟩ := Checked.bind_eq_ok.mp kept
  cases equal
  exact Slab.get_eq_ok.mpr (Slab.get?_pushed pushed)

theorem idExpr_moves {name : NameId} {decl : Option DeclId}
    (uses : ∀ handle ∈ .name name :: decl.toList.map .decl, known handle) :
    (idExpr name decl).Moves known program := by
  have operands : ∀ program : Program, ∃ operands,
      program.exprOperands (.idExpr name decl) = .ok operands ∧
        ∀ ref ∈ operands, program.Usable known ref :=
    fun _ => ⟨_, rfl, usable_of_handles (by simpa using uses)⟩
  unfold idExpr
  cases decl with
  | none => exact exprOf_moves (by simp [ExprKind.category]) (operands _) nofun
  | some decl =>
    apply Edit.get_bind
    apply Edit.check_bind
    intro node found
    refine exprOf_moves (by simp [ExprKind.category]) (operands _) fun given same => ?_
    exact .inr (.declared found (Option.some.inj same))

theorem callExpr_moves {callee : ExprId} {args : List ExprId}
    (uses : ∀ handle ∈ .expr callee :: args.map .expr, known handle) :
    (callExpr callee args).Moves known program := by
  apply Edit.moves_bind keepExprs_moves
  intro list listed given
  refine exprOf_moves (by simp [ExprKind.category]) ⟨.expr callee :: args.map .expr, ?_, ?_⟩ nofun
  · simp [exprOperands, exprList_keepExprs given]
  · exact usable_of_handles (by simpa using uses)

/-- The type of the expression is asked for right before the expression is made. -/
theorem newExpr_moves {type : TypeId} {args : Option (List ExprId)}
    (uses : ∀ handle ∈ .type type :: (args.getD []).map .expr, known handle)
    (pointed : ∀ {id types census}, program.types.canonical (.pointer type) program.census =
      .ok (id, types, census) → Usable known { program with types, census } (.type id)) :
    (newExpr type args).Moves known program := by
  have made : ∀ (exprs : ExprTable) (list : Option ExprListId),
      exprOperands { program with exprs } (.newExpr type list) =
        .ok (.type type :: (args.getD []).map .expr) →
      Edit.Moves (do
        let pointer ← typeOf (.pointer type)
        exprOf (.newExpr type list) (some pointer)) known { program with exprs } := by
    intro exprs list read
    refine Edit.moves_bind (simpleType_moves rfl ?_) fun given => ?_
    · simpa [TypeKind.handles] using uses (.type type) List.mem_cons_self
    · obtain ⟨types, census, asked, rfl⟩ := typeOf_eq_ok.mp given
      refine exprOf_moves (by simp [ExprKind.category]) ⟨.type type :: (args.getD []).map .expr, ?_, ?_⟩
        fun _ same => ?_
      · exact (exprOperands_congr rfl).trans read
      · exact usable_of_handles (by simpa using uses)
      · cases same
        exact .inl (pointed asked)
  cases args with
  | none => exact made program.exprs none rfl
  | some args =>
    apply Edit.moves_bind keepExprs_moves
    intro list listed given
    obtain ⟨⟨_, exprs⟩, kept, equal⟩ := Checked.bind_eq_ok.mp given
    cases equal
    exact made exprs (some list) (by simp [exprOperands, exprList_keepExprs given])

theorem paren_moves {inner : ExprId} (uses : known (.expr inner)) : (paren inner).Moves known program := by
  apply Edit.get_bind
  apply Edit.check_bind
  intro node found
  refine exprOf_moves (by simp [ExprKind.category]) ⟨_, rfl, ?_⟩ fun given same => ?_
  · simpa [Usable] using .inl uses
  · exact .inr (.inner found same)

theorem initializerList_moves {elements : List ExprId} (uses : ∀ handle ∈ elements.map .expr, known handle) :
    (initializerList elements).Moves known program := by
  apply Edit.moves_bind keepExprs_moves
  intro list listed given
  refine exprOf_moves (by simp [ExprKind.category]) ⟨elements.map .expr, ?_, ?_⟩ nofun
  · simp [exprOperands, exprList_keepExprs given]
  · exact usable_of_handles (by simpa using uses)

theorem fillEmpty_eq_ok {field : String} {node : NodeRef} {old filled : Option α} {value : α} :
    fillEmpty field node old value = .ok filled ↔ old = none ∧ filled = some value := by
  cases old <;> simp [fillEmpty, eq_comm]

theorem setUnderlyingType_moves {enumType underlying : TypeId}
    (uses : known (.type enumType) ∧ known (.type underlying)) :
    (setUnderlyingType enumType underlying).Moves known program := by
  apply Build.get_bind
  split
  next number region old found =>
    apply Build.settle_bind
    intro _ allowed
    apply Build.check_bind
    intro _ changed
    obtain ⟨rfl, rfl⟩ := fillEmpty_eq_ok.mp allowed
    exact Build.moves_set (Change.underlyingType found changed uses).reaches
  · exact Build.moves_throw _

theorem setExprType_moves {expr : ExprId} {type : TypeId}
    (uses : known (.expr expr) ∧ known (.type type)) :
    (setExprType expr type).Moves known program := by
  apply Build.get_bind
  split
  next node found =>
    apply Build.settle_bind
    intro _ allowed
    apply Build.check_bind
    intro _ changed
    obtain ⟨untyped, rfl⟩ := fillEmpty_eq_ok.mp allowed
    exact Build.moves_set (Change.exprType found untyped changed uses).reaches
  · exact Build.moves_throw _

/-- The request names the declaration and what its field is filled with. -/
theorem filled_known {decl : DeclId} {request : Request} {old new : DeclKind}
    (uses : ∀ handle ∈ request.handles, known handle) (filled : request.Fills decl old new) :
    known (.decl decl) ∧ ∀ ref ∈ new.additions, known (.node ref) := by
  cases filled <;> simpa [Request.handles, DeclKind.additions] using uses

theorem refill_moves {request : Request} {decl : DeclId} {change : DeclKind → Except BuildError DeclKind}
    (fills : ∀ {old new}, change old = .ok new → request.Fills decl old new)
    (uses : ∀ handle ∈ request.handles, known handle) : (refill decl change).Moves known program := by
  apply Build.get_bind
  apply Build.check_bind
  intro _ found
  apply Build.settle_bind
  intro _ allowed
  apply Build.check_bind
  intro _ changed
  have filled := fills allowed
  exact Build.moves_set (Change.refill found filled.fills changed (filled_known uses filled)).reaches

theorem filled_eq_ok {field : String} {node : NodeRef} {old : Option α} {value : α}
    {wrap : Option α → DeclKind} {kind : DeclKind} :
    (do return wrap (← fillEmpty field node old value) : Except BuildError DeclKind) = .ok kind ↔
      old = none ∧ kind = wrap (some value) := by
  cases old with
  | none => exact ⟨fun filled => ⟨rfl, (Except.ok.inj filled).symm⟩, fun same => congrArg _ same.2.symm⟩
  | some present => exact ⟨nofun, nofun⟩

/-- The setters of declarations fill one field each; where there is no such field, or
where it was filled before, they are turned down. -/
theorem setInitializer_fills (decl : DeclId) (value : ExprId) :
    ∃ change, setInitializer decl value = refill decl change ∧
      ∀ {old new}, change old = .ok new → (Request.setInitializer decl value).Fills decl old new := by
  unfold setInitializer
  refine ⟨_, rfl, fun {old _} filled => ?_⟩
  cases old with
  | var =>
    obtain ⟨rfl, rfl⟩ := filled_eq_ok.mp filled
    exact .var value
  | field =>
    obtain ⟨rfl, rfl⟩ := filled_eq_ok.mp filled
    exact .field value
  | bitfield width =>
    obtain ⟨rfl, rfl⟩ := filled_eq_ok.mp filled
    exact .bitfield width value
  | parameter position =>
    obtain ⟨rfl, rfl⟩ := filled_eq_ok.mp filled
    exact .parameter position value
  | enumerator =>
    obtain ⟨rfl, rfl⟩ := filled_eq_ok.mp filled
    exact .enumerator value
  | _ => cases filled

theorem setAliasee_fills (decl : DeclId) (type : TypeId) :
    ∃ change, setAliasee decl type = refill decl change ∧
      ∀ {old new}, change old = .ok new → (Request.setAliasee decl type).Fills decl old new := by
  unfold setAliasee
  refine ⟨_, rfl, fun {old _} filled => ?_⟩
  cases old with
  | «alias» =>
    obtain ⟨rfl, rfl⟩ := filled_eq_ok.mp filled
    exact .alias type
  | _ => cases filled

theorem setFunctionBody_fills (decl : DeclId) (body : StmtId) :
    ∃ change, setFunctionBody decl body = refill decl change ∧
      ∀ {old new}, change old = .ok new → (Request.setFunctionBody decl body).Fills decl old new := by
  unfold setFunctionBody
  refine ⟨_, rfl, fun {old _} filled => ?_⟩
  cases old with
  | function parameters =>
    obtain ⟨rfl, rfl⟩ := filled_eq_ok.mp filled
    exact .function parameters body
  | _ => cases filled

theorem setTemplatePattern_fills (decl pattern : DeclId) :
    ∃ change, setTemplatePattern decl pattern = refill decl change ∧
      ∀ {old new}, change old = .ok new → (Request.setTemplatePattern decl pattern).Fills decl old new := by
  unfold setTemplatePattern
  refine ⟨_, rfl, fun {old _} filled => ?_⟩
  cases old with
  | template parameters _ primary args =>
    obtain ⟨rfl, rfl⟩ := filled_eq_ok.mp filled
    exact .template parameters pattern primary args
  | _ => cases filled

/-- What is to be the definition of a type declaration is looked at first. -/
theorem setTypeDefinition_fills (decl : DeclId) (type : TypeId) :
    ∃ change, setTypeDefinition decl type = (do
        let node ← (← get).typeNode type
        if node.kind.region?.isNone then throw (.notAUserType type)
        refill decl change) ∧
      ∀ {old new}, change old = .ok new → (Request.setTypeDefinition decl type).Fills decl old new := by
  unfold setTypeDefinition
  refine ⟨_, rfl, fun {old _} filled => ?_⟩
  cases old with
  | typeDecl =>
    obtain ⟨rfl, rfl⟩ := filled_eq_ok.mp filled
    exact .typeDecl type
  | _ => cases filled

theorem setInitializer_moves {decl : DeclId} {value : ExprId}
    (uses : ∀ handle ∈ (Request.setInitializer decl value).handles, known handle) :
    (setInitializer decl value).Moves known program := by
  obtain ⟨change, equal, fills⟩ := setInitializer_fills decl value
  rw [equal]
  exact refill_moves fills uses

theorem setAliasee_moves {decl : DeclId} {type : TypeId}
    (uses : ∀ handle ∈ (Request.setAliasee decl type).handles, known handle) :
    (setAliasee decl type).Moves known program := by
  obtain ⟨change, equal, fills⟩ := setAliasee_fills decl type
  rw [equal]
  exact refill_moves fills uses

theorem setFunctionBody_moves {decl : DeclId} {body : StmtId}
    (uses : ∀ handle ∈ (Request.setFunctionBody decl body).handles, known handle) :
    (setFunctionBody decl body).Moves known program := by
  obtain ⟨change, equal, fills⟩ := setFunctionBody_fills decl body
  rw [equal]
  exact refill_moves fills uses

theorem setTemplatePattern_moves {decl pattern : DeclId}
    (uses : ∀ handle ∈ (Request.setTemplatePattern decl pattern).handles, known handle) :
    (setTemplatePattern decl pattern).Moves known program := by
  obtain ⟨change, equal, fills⟩ := setTemplatePattern_fills decl pattern
  rw [equal]
  exact refill_moves fills uses

theorem setTypeDefinition_moves {decl : DeclId} {type : TypeId}
    (uses : ∀ handle ∈ (Request.setTypeDefinition decl type).handles, known handle) :
    (setTypeDefinition decl type).Moves known program := by
  obtain ⟨change, equal, fills⟩ := setTypeDefinition_fills decl type
  rw [equal]
  apply Build.get_bind
  apply Build.check_bind
  intro _ _
  split
  · exact Build.moves_bind (Build.moves_throw _) fun given => nomatch given
  · exact refill_moves fills uses

theorem enrollNode_eq_ok {category : Category} {number : NodeId} {after : Program} :
    (enrollNode category).run program = .ok (number, after) ↔
      ∃ census, program.census.enroll category = .ok (number, census) ∧
        after = { program with census } := by
  apply Checked.bind_eq_ok.trans
  constructor
  · intro ⟨⟨_, census⟩, enrolled, equal⟩
    cases equal
    exact ⟨census, enrolled, rfl⟩
  · intro ⟨census, enrolled, same⟩
    subst same
    exact ⟨(number, census), enrolled, rfl⟩

theorem stmtOf_eq_ok {kind : StmtKind} {id : StmtId} {after : Program}
    (given : (stmtOf kind).run program = .ok (id, after)) :
    ∃ number census stmts, program.census.enroll kind.category = .ok (number, census) ∧
      program.stmts.push ⟨number, kind⟩ = .ok (id, stmts) ∧ after = { program with stmts, census } := by
  obtain ⟨⟨number, middle⟩, first, given⟩ := Checked.bind_eq_ok.mp given
  obtain ⟨census, enrolled, rfl⟩ := enrollNode_eq_ok.mp first
  obtain ⟨⟨⟨_, stmts⟩, _⟩, second, equal⟩ := Checked.bind_eq_ok.mp given
  obtain ⟨made, rfl⟩ := Edit.run_check.mp second
  cases equal
  exact ⟨number, census, stmts, enrolled, made, rfl⟩

theorem stmtOf_moves {kind : StmtKind} (regionless : kind.region? = none)
    (uses : ∀ handle ∈ (kind.operands ++ kind.additions).map Answer.node, known handle) :
    (stmtOf kind).Moves known program := by
  intro id after given
  obtain ⟨number, census, stmts, enrolled, made, rfl⟩ := stmtOf_eq_ok given
  refine (Change.stmt enrolled made (fun region own => ?_) (usable_of_handles uses)).reaches
  cases regionless.symm.trans own

/-- As with a type, the owner of the region is as well put down before the block is made. -/
theorem newBlock_moves {parent : RegionId} : (newBlock parent).Moves known program := by
  apply Edit.moves_bind newRegion_inside_moves
  intro region program first
  obtain ⟨entry, found, unowned, -⟩ := newRegion_unowned first
  intro block after given
  obtain ⟨⟨_, _⟩, second, given⟩ := Checked.bind_eq_ok.mp given
  obtain ⟨⟨_, _⟩, owned, equal⟩ := Checked.bind_eq_ok.mp given
  cases equal
  obtain ⟨number, census, stmts, enrolled, made, rfl⟩ := stmtOf_eq_ok second
  obtain ⟨regions, changed, rfl⟩ := ownRegion_unowned owned found unowned
  have adopted : program.Change known { program with regions } :=
    .regionOwner (Slab.get_eq_ok.mpr found) unowned changed
  have blocked : Change known { program with regions } { program with regions, stmts, census } := by
    refine .stmt enrolled made (fun other own => ?_) (by simp [StmtKind.operands, StmtKind.additions])
    cases own
    exact owned_of_modify changed
  exact adopted.reaches.trans blocked.reaches

theorem appendToBlock_moves {block stmt : StmtId} (uses : known (.stmt block) ∧ known (.stmt stmt)) :
    (appendToBlock block stmt).Moves known program := by
  apply Build.get_bind
  apply Build.check_bind
  intro _ found
  split
  next unfinished =>
    apply Build.check_bind
    intro _ changed
    exact Build.moves_set (Change.blockEnd found unfinished changed uses).reaches
  · exact Build.moves_throw _

theorem directiveOf_eq_ok {region : RegionId} {kind : DirectiveKind} {id : DirectiveId} {after : Program}
    (given : (directiveOf region kind).run program = .ok (id, after)) :
    ∃ number census directives regions, program.census.enroll kind.category = .ok (number, census) ∧
      program.directives.push ⟨number, region, kind⟩ = .ok (id, directives) ∧
      program.regions.modify region (fun entry => { entry with directives := entry.directives.push id }) =
        .ok regions ∧ after = { program with directives, regions, census } := by
  obtain ⟨⟨number, middle⟩, first, given⟩ := Checked.bind_eq_ok.mp given
  obtain ⟨census, enrolled, rfl⟩ := enrollNode_eq_ok.mp first
  obtain ⟨⟨⟨_, directives⟩, _⟩, second, given⟩ := Checked.bind_eq_ok.mp given
  obtain ⟨made, rfl⟩ := Edit.run_check.mp second
  obtain ⟨⟨regions, _⟩, third, equal⟩ := Checked.bind_eq_ok.mp given
  obtain ⟨changed, rfl⟩ := Edit.run_check.mp third
  cases equal
  exact ⟨number, census, directives, regions, enrolled, made, changed, rfl⟩

theorem directiveOf_moves {region : RegionId} {kind : DirectiveKind}
    (uses : ∀ handle ∈ kind.operands.map Answer.node, known handle) :
    (directiveOf region kind).Moves known program := by
  intro id after given
  obtain ⟨number, census, directives, regions, enrolled, made, changed, rfl⟩ := directiveOf_eq_ok given
  exact (Change.directive enrolled made changed (usable_of_handles uses)).reaches

theorem usingDirective_moves {region : RegionId} {nominated : TypeId} (uses : known (.type nominated)) :
    (usingDirective region nominated).Moves known program := by
  apply Build.get_bind
  apply Build.check_bind
  intro _ _
  split
  · exact Build.edit_moves (directiveOf_moves (by simpa [DirectiveKind.operands] using uses))
  · exact Build.moves_throw _

/-! ### Declarations -/

theorem joinChain_eq_ok {scope : ScopeId} {name : NameId} {type : TypeId} {decl : DeclId}
    {chain : ChainId} {index : Nat} {after : Program} :
    (joinChain scope name type decl).run program = .ok ((chain, index), after) ↔
      ∃ scopes chains decls,
        program.scopes.bind scope name type (Slab.push #[]) program.decls.chains =
          .ok (chain, scopes, chains) ∧
        { program.decls with chains }.appendToChain chain decl = .ok (index, decls) ∧
        after = { program with scopes, decls } := by
  apply Checked.bind_eq_ok.trans
  constructor
  · intro ⟨⟨_, scopes, chains⟩, chained, given⟩
    obtain ⟨⟨_, decls⟩, appended, equal⟩ := Checked.bind_eq_ok.mp given
    cases equal
    exact ⟨scopes, chains, decls, chained, appended, rfl⟩
  · intro ⟨scopes, chains, decls, chained, appended, same⟩
    subst same
    exact ⟨_, chained, Checked.bind_eq_ok.mpr ⟨_, appended, rfl⟩⟩

theorem pushDecl_eq_ok {scope : ScopeId} {node : DeclNode} {id : DeclId} {after : Program} :
    (pushDecl scope node).run program = .ok (id, after) ↔
      ∃ nodes scopes, program.decls.nodes.push node = .ok (id, nodes) ∧
        program.scopes.pushMember scope id = .ok scopes ∧
        after = { program with decls := { program.decls with nodes }, scopes } := by
  apply Checked.bind_eq_ok.trans
  constructor
  · intro ⟨⟨_, nodes⟩, made, given⟩
    obtain ⟨scopes, listed, equal⟩ := Checked.bind_eq_ok.mp given
    cases equal
    exact ⟨nodes, scopes, made, listed, rfl⟩
  · intro ⟨nodes, scopes, made, listed, same⟩
    subst same
    exact ⟨_, made, Checked.bind_eq_ok.mpr ⟨_, listed, rfl⟩⟩

theorem appendToChain_nodes {table after : DeclTable} {chain : ChainId} {decl : DeclId} {index : Nat}
    (appended : table.appendToChain chain decl = .ok (index, after)) : after.nodes = table.nodes := by
  obtain ⟨_, -, given⟩ := Checked.bind_eq_ok.mp appended
  obtain ⟨_, -, given⟩ := Checked.bind_eq_ok.mp given
  obtain ⟨_, -, equal⟩ := Checked.bind_eq_ok.mp given
  cases equal
  rfl

/-- Regions and scopes that were there still are, and lead to the same declarations. -/
structure KeepsBindings (program after : Program) : Prop where
  names : after.names = program.names
  decls : after.decls = program.decls
  regions : ∀ {id region}, program.region id = .ok region →
    ∃ now, after.region id = .ok now ∧ now.scope = region.scope
  scopes : ∀ {id scope}, program.scope id = .ok scope → after.scope id = .ok scope
  overloads : after.scopes.overloads = program.scopes.overloads

theorem KeepsBindings.refl (program : Program) : program.KeepsBindings program :=
  ⟨rfl, rfl, fun found => ⟨_, found, rfl⟩, id, rfl⟩

theorem KeepsBindings.trans {first second third : Program} (earlier : first.KeepsBindings second)
    (later : second.KeepsBindings third) : first.KeepsBindings third where
  names := later.names.trans earlier.names
  decls := later.decls.trans earlier.decls
  regions found := by
    obtain ⟨middle, between, same⟩ := earlier.regions found
    obtain ⟨now, present, still⟩ := later.regions between
    exact ⟨now, present, still.trans same⟩
  scopes found := later.scopes (earlier.scopes found)
  overloads := later.overloads.trans earlier.overloads

theorem KeepsBindings.findChain? {after : Program} (keeps : program.KeepsBindings after)
    {scope : ScopeId} {name : NameId} {type : TypeId} {chain : Option ChainId}
    (found : program.scopes.findChain? scope name type = .ok chain) :
    after.scopes.findChain? scope name type = .ok chain := by
  obtain ⟨overload, named, rest⟩ := Checked.bind_eq_ok.mp found
  obtain ⟨entry, present, named⟩ := Checked.bind_eq_ok.mp named
  have still : after.scopes.find? scope name = .ok overload :=
    Checked.bind_eq_ok.mpr ⟨entry, keeps.scopes present, named⟩
  refine Checked.bind_eq_ok.mpr ⟨overload, still, ?_⟩
  rw [keeps.overloads]
  exact rest

theorem KeepsBindings.joinedMaster {after : Program} (keeps : program.KeepsBindings after)
    {region : RegionId} {name : NameId} {type : TypeId} {category : Category}
    {outcome : Except BuildError (Option DeclId)}
    (looked : program.joinedMaster region name type category = .ok outcome) :
    after.joinedMaster region name type category = .ok outcome := by
  obtain ⟨entry, here, looked⟩ := Checked.bind_eq_ok.mp looked
  obtain ⟨chain, found, rest⟩ := Checked.bind_eq_ok.mp looked
  obtain ⟨now, present, same⟩ := keeps.regions here
  refine Checked.bind_eq_ok.mpr ⟨now, present, Checked.bind_eq_ok.mpr ⟨chain, ?_, ?_⟩⟩
  · rw [same]
    exact keeps.findChain? found
  · simp only [Program.chain, declNode, keeps.decls]
    exact rest

theorem newRegion_keeps {parent : Option RegionId} {id : RegionId} {after : Program}
    (given : (newRegion parent).run program = .ok (id, after)) : program.KeepsBindings after := by
  obtain ⟨scope, scopes, depth, regions, opened, -, -, made, rfl⟩ := newRegion_eq_ok given
  refine ⟨rfl, rfl, fun {_ region} found => ⟨region, ?_, rfl⟩, fun found => ?_, rfl⟩
  · exact Slab.get_eq_ok.mpr (Slab.get?_kept made (Slab.get_eq_ok.mp found))
  · exact Slab.get_eq_ok.mpr (Slab.get?_kept opened (Slab.get_eq_ok.mp found))

theorem setRegionOwner_keeps {region : RegionId} {owner : RegionOwner}
    {outcome : Except BuildError Unit} {after : Program}
    (given : (setRegionOwner region owner).run.run program = .ok (outcome, after)) :
    program.KeepsBindings after := by
  obtain ⟨entry, -, rest⟩ := Build.run_check_bind.mp given
  split at rest
  · cases rest
    exact .refl _
  · obtain ⟨regions, changed, equal⟩ := Build.run_check_bind.mp rest
    cases equal
    refine ⟨rfl, rfl, fun {id former} found => ?_, id, rfl⟩
    have present := Slab.get_eq_ok.mp found
    simp only [Program.region, Slab.get_eq_ok, Slab.get?_modify changed]
    split
    next same =>
      subst same
      exact ⟨{ former with owner := some owner }, by simp [present], rfl⟩
    · exact ⟨former, present, rfl⟩

theorem ownRegion_keeps {region : RegionId} {owner : RegionOwner} {after : Program}
    (given : (ownRegion region owner).run program = .ok ((), after)) :
    program.KeepsBindings after := by
  obtain ⟨_, owned, equal⟩ := Checked.bind_eq_ok.mp given
  cases equal
  exact setRegionOwner_keeps owned

/-- What a declaration needs beforehand is made without touching other declarations. Its
parameter region is owned by the handle that it will have. -/
structure Prepared (known : Answer → Prop) (program : Program) (home : RegionId) (id : DeclId)
    (master : Option DeclId) (kind : DeclKind) (after : Program) : Prop where
  reaches : program.Reaches known after
  keeps : program.KeepsBindings after
  owned : ∀ parameters, kind.parameters? = some parameters → after.Owned parameters (.decl id) ∧
    ∃ entry, after.regions.get? parameters = some entry ∧ entry.parent = some home
  uses : ∀ ref ∈ kind.operands ++ kind.additions, ref = .decl (master.getD id) ∨ known (.node ref)
  applied : ∀ list, kind.args? = some list → after.Listed known list

def Prepares (known : Answer → Prop) (program : Program) (home : RegionId) (category : Category)
    (make : DeclId → Option DeclId → Edit DeclKind) : Prop :=
  ∀ ⦃id master kind after⦄, (make id master).run program = .ok (kind, after) →
    kind.category = category ∧ program.Prepared known home id master kind after

/-- The master of a chain can be read. -/
theorem issued_joinedMaster {region : RegionId} {name : NameId} {type : TypeId} {category : Category}
    {master : DeclId} (looked : program.joinedMaster region name type category = .ok (.ok (some master))) :
    program.issued (.decl master) := by
  obtain ⟨entry, -, looked⟩ := Checked.bind_eq_ok.mp looked
  obtain ⟨chain, -, looked⟩ := Checked.bind_eq_ok.mp looked
  cases chain with
  | none => cases looked
  | some chain =>
    obtain ⟨members, -, looked⟩ := Checked.bind_eq_ok.mp looked
    cases first : members.head? with
    | none => simp [first] at looked
    | some head =>
      simp only [first] at looked
      obtain ⟨node, found, looked⟩ := Checked.bind_eq_ok.mp looked
      split at looked
      · cases looked
        simp [issued, Program.category, found, Except.isOk, Except.toBool]
      · cases looked

theorem declare_moves {region : RegionId} {name : NameId} {type : TypeId} {specifiers : Specifiers}
    {category : Category} {make : DeclId → Option DeclId → Edit DeclKind}
    (named : known (.name name) ∨ program.issued (.name name))
    (typed : ∀ program : Program, program.Usable known (.type type))
    (prepares : program.Prepares known region category make) :
    (declare region name type specifiers category make).Moves known program := by
  unfold declare
  split
  · exact Build.moves_bind (Build.moves_throw _) fun given => nomatch given
  apply Build.get_bind
  apply Build.check_bind
  intro entry here
  apply Build.get_bind
  apply Build.check_bind
  intro _ looked
  apply Build.settle_bind
  intro master agreed
  subst agreed
  apply Build.get_bind
  apply Build.check_bind
  intro id planned
  apply Build.edit_bind (fun _ _ given => (prepares given).2.reaches)
  intro kind middle prepared
  obtain ⟨rfl, -, keeps, owned, uses, applied⟩ := prepares prepared
  obtain ⟨home, present, same⟩ := keeps.regions here
  intro outcome after given
  obtain ⟨⟨chain, index⟩, first, joined, given⟩ := Build.run_edit_bind.mp given
  obtain ⟨scopes, chains, decls, chained, appended, rfl⟩ := joinChain_eq_ok.mp joined
  obtain ⟨number, second, numbered, given⟩ := Build.run_edit_bind.mp given
  obtain ⟨census, enrolled, rfl⟩ := enrollNode_eq_ok.mp numbered
  obtain ⟨last, pushed, -⟩ := Build.run_edit.mp given
  obtain ⟨nodes, members, made, listed, rfl⟩ := pushDecl_eq_ok.mp pushed
  have expected : id = last := by
    rw [(Slab.next_eq_ok.mp planned).1, (Slab.push_eq_ok.mp made).1, appendToChain_nodes appended,
      keeps.decls]
  subst expected
  rw [← same] at chained listed
  let node : DeclNode :=
    ⟨number, name, type, region, specifiers, chain, index, master.getD id, kind⟩
  have still : known (.name node.name) ∨ middle.issued (.name node.name) :=
    named.imp_right fun there => by
      simpa [issued, Program.category, nameNode, keeps.names] using there
  have usable : ∀ ref ∈ .type node.type :: (node.kind.operands ++ node.kind.additions),
      ref = .decl id ∧ master = none ∨ middle.Usable known ref := by
    refine List.forall_mem_cons.mpr ⟨.inr (typed middle), fun ref member => ?_⟩
    rcases uses ref member with own | given
    · cases master with
      | none => exact .inl ⟨own, rfl⟩
      | some master =>
        have there := issued_joinedMaster looked
        rw [own]
        exact .inr (.inr (by simpa [issued, Program.category, declNode, keeps.decls] using there))
    · exact .inr (.inl given)
  exact (Change.decl node still present (keeps.joinedMaster looked) rfl chained appended enrolled made
    listed owned usable applied).reaches

theorem prepares_pure {region : RegionId} {kind : DeclKind} (plain : kind.parameters? = none)
    (uses : ∀ handle ∈ (kind.operands ++ kind.additions).map Answer.node, known handle) :
    program.Prepares known region kind.category fun _ _ => pure kind := by
  intro id master result after given
  cases given
  refine ⟨rfl, .refl program, .refl program, fun parameters own => ?_, fun ref member => ?_,
    fun list own => ?_⟩
  · cases plain.symm.trans own
  · exact .inr (uses _ (List.mem_map_of_mem member))
  · cases kind <;> cases plain <;> cases own

theorem prepares_parameterRegion {region : RegionId} {kind : DeclId → Option DeclId → RegionId → DeclKind}
    {category : Category} (fits : ∀ id master parameters, (kind id master parameters).category = category ∧
      (kind id master parameters).parameters? = some parameters)
    (uses : ∀ id master parameters,
      ∀ ref ∈ (kind id master parameters).operands ++ (kind id master parameters).additions,
        ref = .decl (master.getD id) ∨ known (.node ref))
    (applied : ∀ id master parameters list, (kind id master parameters).args? = some list →
      program.Listed known list) :
    program.Prepares known region category fun id master => do
      return kind id master (← parameterRegion region id) := by
  intro id master result after given
  obtain ⟨⟨parameters, _⟩, made, equal⟩ := Checked.bind_eq_ok.mp given
  cases equal
  obtain ⟨⟨_, middle⟩, opened, rest⟩ := Checked.bind_eq_ok.mp made
  obtain ⟨⟨_, _⟩, owned, equal⟩ := Checked.bind_eq_ok.mp rest
  cases equal
  have keeps := (newRegion_keeps opened).trans (ownRegion_keeps owned)
  refine ⟨(fits id master parameters).1, (newRegion_inside_moves opened).trans (ownRegion_moves owned), keeps,
    fun own same => ?_, uses id master parameters, fun list same => ?_⟩
  · obtain rfl := Option.some.inj ((fits id master parameters).2.symm.trans same)
    obtain ⟨entry, found, unowned, inside⟩ := newRegion_unowned opened
    obtain ⟨regions, changed, rfl⟩ := ownRegion_unowned owned found unowned
    exact ⟨owned_of_modify changed, { entry with owner := some (.decl id) },
      by simp [Slab.get?_modify changed, found], inside⟩
  · refine (applied id master parameters list same).imp_right fun ⟨terms, read, given⟩ => ?_
    exact ⟨terms, by rwa [termList, keeps.names], given⟩

/-- A type that the request names can be used everywhere. -/
theorem typed_of_known {type : TypeId} (given : known (.type type)) (program : Program) :
    program.Usable known (.type type) :=
  .inl given

theorem declareWith_moves {region : RegionId} {name : NameId} {type : TypeId}
    {specifiers : Specifiers} {kind : DeclKind} (named : known (.name name))
    (typed : ∀ program : Program, program.Usable known (.type type)) (plain : kind.parameters? = none)
    (uses : ∀ handle ∈ (kind.operands ++ kind.additions).map Answer.node, known handle) :
    (declareWith region name type specifiers kind).Moves known program :=
  declare_moves (.inl named) typed (prepares_pure plain uses)

theorem declareFunction_moves {region : RegionId} {name : NameId} {type : TypeId}
    {specifiers : Specifiers} (named : known (.name name)) (typed : known (.type type)) :
    (declareFunction region name type specifiers).Moves known program :=
  declare_moves (.inl named) (typed_of_known typed) <|
    prepares_parameterRegion (fun _ _ _ => ⟨rfl, rfl⟩) (fun _ _ _ => nofun) (fun _ _ _ => nofun)

/-- Every template is made with the master of its chain. -/
theorem declareTemplate_moves {region : RegionId} {name : NameId} {type : TypeId}
    {specifiers : Specifiers} (named : known (.name name)) (typed : known (.type type)) :
    (declareTemplate region name type specifiers).Moves known program :=
  declare_moves (.inl named) (typed_of_known typed) <|
    prepares_parameterRegion (fun _ _ _ => ⟨rfl, rfl⟩)
      (fun _ _ _ _ member => .inl (List.mem_singleton.mp member)) (fun _ _ _ => nofun)

theorem declareParameter_moves {function : DeclId} {name : NameId} {type : TypeId}
    (named : known (.name name)) (typed : known (.type type)) :
    (declareParameter function name type).Moves known program := by
  apply Build.get_bind
  apply Build.check_bind
  intro _ _
  split
  · apply Build.check_bind
    intro _ _
    apply Build.check_bind
    intro _ _
    apply Build.check_bind
    intro _ _
    exact declareWith_moves named (typed_of_known typed) rfl nofun
  · exact Build.moves_throw _

theorem declareEnumerator_moves {enumType : TypeId} {name : NameId} {value : Option ExprId}
    (uses : ∀ handle ∈ .type enumType :: .name name :: value.toList.map .expr, known handle) :
    (declareEnumerator enumType name value).Moves known program := by
  obtain ⟨typed, uses⟩ := List.forall_mem_cons.mp uses
  obtain ⟨named, valued⟩ := List.forall_mem_cons.mp uses
  apply Build.get_bind
  apply Build.check_bind
  intro _ _
  split
  · refine declareWith_moves named (typed_of_known typed) rfl ?_
    simpa [DeclKind.operands, DeclKind.additions] using valued
  · exact Build.moves_throw _

theorem keepTerms_names {terms : List Term} {list : TermListId} {after : Program}
    (given : (keepTerms terms).run program = .ok (list, after)) :
    after.names.nodes = program.names.nodes := by
  obtain ⟨⟨_, names⟩, kept, equal⟩ := Checked.bind_eq_ok.mp given
  obtain ⟨_, -, same⟩ := Checked.bind_eq_ok.mp kept
  cases equal
  cases same
  rfl

/-- What goes into the nodes that a request makes is `known`: the handles it names, and the
template that it specializes with its name. A pointer to a type that it names and the
template-id for a specialization may be new ones. -/
structure Admits (known : Answer → Prop) (program : Program) (request : Request) : Prop where
  uses : ∀ handle ∈ request.handles, known handle
  declared : ∀ {id node}, program.declNode id = .ok node → known (.decl id) ∧ known (.name node.name)
  pointed : ∀ {target id types census},
    program.types.canonical (.pointer target) program.census = .ok (id, types, census) →
    Usable known { program with types, census } (.type id)
  applied : ∀ {template args id after}, (templateId template args).run program = .ok (id, after) →
    after.Usable known (.name id)
  listed : ∀ {template args id after list last},
    (templateId template args).run program = .ok (id, after) →
    (keepTerms args).run after = .ok (list, last) →
    (∀ handle, known handle) ∨ last.termList list = .ok args

/-- What a specialization does once it was found to be compatible. -/
def specialize (home : RegionId) (base : NameId) (args : List Term) (type : TypeId) (primary : DeclId) :
    Build DeclId := do
  let name ← templateId base args
  let argList ← keepTerms args
  let decl ← declare home name type .empty .template fun id _ => do
    return .template (← parameterRegion home id) none primary (some argList)
  if (← (← get).declNode decl).isMaster then
    modify fun program => { program with decls := program.decls.listSpecialization primary decl }
  return decl

theorem specialize_moves {home : RegionId} {base : NameId} {args : List Term} {type : TypeId}
    {primary : DeclId} (uses : ∀ handle ∈ .name base :: args.map .term, known handle)
    (typed : known (.type type)) (led : known (.decl primary))
    (applied : ∀ {id after}, (templateId base args).run program = .ok (id, after) →
      after.Usable known (.name id))
    (listed : ∀ {id after list last}, (templateId base args).run program = .ok (id, after) →
      (keepTerms args).run after = .ok (list, last) →
      (∀ handle, known handle) ∨ last.termList list = .ok args) :
    (specialize home base args type primary).Moves known program := by
  apply Build.edit_bind (templateId_moves uses)
  intro _ _ made
  apply Build.edit_bind keepTerms_moves
  intro _ _ kept
  refine Build.moves_bind ?_ fun _ => Build.get_bind (Build.check_bind fun _ => ?_)
  · refine declare_moves ?_ (typed_of_known typed) <|
      prepares_parameterRegion (fun _ _ _ => ⟨rfl, rfl⟩) (fun _ _ _ ref member => ?_)
        (fun _ _ _ list same => ?_)
    · refine (applied made).imp_right fun there => ?_
      simpa [issued, Program.category, nameNode, keepTerms_names kept] using there
    · rw [List.mem_singleton.mp member]
      exact .inr led
    · cases same
      refine (listed made kept).imp_right fun read => ⟨args, read, fun term member => ?_⟩
      exact uses _ (List.mem_cons_of_mem _ (List.mem_map_of_mem member))
  · split
    · refine Build.moves_bind ?_ fun _ => Build.moves_pure _
      intro outcome after given
      cases given
      exact Change.specialization.reaches
    · exact Build.moves_pure _

theorem declareSpecialization_moves {template : DeclId} {args : List Term} {type : TypeId}
    (admits : program.Admits known (.declareSpecialization template args type)) :
    (declareSpecialization template args type).Moves known program := by
  apply Build.get_bind
  apply Build.check_bind
  intro _ _
  split
  · apply Build.check_bind
    intro primary found
    obtain ⟨led, named⟩ := admits.declared found
    have typed : known (.type type) := admits.uses _ (by simp [Request.handles])
    have uses : ∀ handle ∈ .name primary.name :: args.map .term, known handle := by
      refine List.forall_mem_cons.mpr ⟨named, fun handle member => ?_⟩
      exact admits.uses handle (List.mem_cons_of_mem _ (List.mem_cons_of_mem _ member))
    apply Build.check_bind
    intro _ _
    split
    · exact Build.check_bind fun _ => Build.settle_bind fun _ =>
        specialize_moves uses typed led admits.applied admits.listed
    · exact specialize_moves uses typed led admits.applied admits.listed
  · exact Build.moves_throw _

/-! ### Requests -/

theorem answerName_moves {edit : Edit NameId} (moves : edit.Moves known program) :
    (answerName edit).Moves known program :=
  Build.edit_bind moves fun _ => Build.moves_pure _

theorem answerType_moves {build : Build TypeId} (moves : build.Moves known program) :
    (answerType build).Moves known program :=
  Build.moves_bind moves fun _ => Build.moves_pure _

theorem answerExpr_moves {edit : Edit ExprId} (moves : edit.Moves known program) :
    (answerExpr edit).Moves known program :=
  Build.edit_bind moves fun _ => Build.moves_pure _

theorem answerStmt_moves {edit : Edit StmtId} (moves : edit.Moves known program) :
    (answerStmt edit).Moves known program :=
  Build.edit_bind moves fun _ => Build.moves_pure _

theorem answerDecl_moves {build : Build DeclId} (moves : build.Moves known program) :
    (answerDecl build).Moves known program :=
  Build.moves_bind moves fun _ => Build.moves_pure _

theorem answerDirective_moves {build : Build DirectiveId} (moves : build.Moves known program) :
    (answerDirective build).Moves known program :=
  Build.moves_bind moves fun _ => Build.moves_pure _

theorem answerDone_moves {build : Build Unit} (moves : build.Moves known program) :
    (answerDone build).Moves known program :=
  Build.moves_bind moves fun _ => Build.moves_pure _

/-- A fundamental type is issued in every program. -/
theorem typed_of_fundamental (fundamental : Fundamental) (program : Program) :
    program.Usable known (.type fundamental.typeId) := by
  refine .inr ?_
  cases fundamental <;> rfl

theorem perform_moves {request : Request} (admits : program.Admits known request) :
    (perform request).Moves known program := by
  have uses := admits.uses
  cases request with
  | intern bytes => exact Build.moves_bind intern_moves fun _ => Build.moves_pure _
  | internText text => exact Build.edit_bind internText_moves fun _ => Build.moves_pure _
  | identifier | operator | suffix | conversion | typeName | constructorName | destructorName
  | qualifiedName => exact answerName_moves (nameOf_moves rfl uses)
  | templateId => exact answerName_moves (templateId_moves uses)
  | pointer | reference | rvalueReference | array | functionType | pointerToMember | templateType
  | decltype | namedType => exact answerType_moves (Build.edit_moves (simpleType_moves rfl uses))
  | qualified => exact answerType_moves qualified_moves
  | product => exact answerType_moves (Build.edit_moves (product_moves uses))
  | sum => exact answerType_moves (Build.edit_moves (sum_moves uses))
  | newClass | newUnion | newEnum | newNamespace =>
    exact answerType_moves (Build.edit_moves (newUserType_moves (fun _ => rfl) fun _ => rfl))
  | setUnderlyingType =>
    exact answerDone_moves (setUnderlyingType_moves (by simpa [Request.handles] using uses))
  | addBase => exact answerDone_moves (addBase_moves (by simpa [Request.handles] using uses))
  | literal => exact answerExpr_moves (literal_moves uses)
  | idExpr => exact answerExpr_moves (idExpr_moves uses)
  | unary | binary | conditional | member | sizeOf | alignOf =>
    exact answerExpr_moves (exprOf_moves (by simp [ExprKind.category]) ⟨_, rfl, usable_of_handles uses⟩ nofun)
  | cast kind type operand =>
    refine answerExpr_moves (exprOf_moves (by simp [ExprKind.category])
      ⟨_, rfl, usable_of_handles uses⟩ fun given same => ?_)
    cases same
    exact .inl (.inl (uses _ List.mem_cons_self))
  | deleteExpr | throwExpr =>
    refine answerExpr_moves (exprOf_moves (by simp [ExprKind.category])
      ⟨_, rfl, usable_of_handles (by simpa [Request.handles] using uses)⟩ fun given same => ?_)
    cases same
    exact .inl (typed_of_fundamental .void program)
  | call => exact answerExpr_moves (callExpr_moves uses)
  | newExpr => exact answerExpr_moves (newExpr_moves uses admits.pointed)
  | paren => exact answerExpr_moves (paren_moves (uses _ List.mem_cons_self))
  | initializerList => exact answerExpr_moves (initializerList_moves uses)
  | setExprType => exact answerDone_moves (setExprType_moves (by simpa [Request.handles] using uses))
  | newRegion => exact Build.edit_bind newRegion_inside_moves fun _ => Build.moves_pure _
  | setRegionOwner => exact answerDone_moves setRegionOwner_moves
  | breakStmt | continueStmt => exact answerStmt_moves (stmtOf_moves rfl nofun)
  | exprStmt | labeled | ifStmt | switchStmt | whileStmt | doStmt | forStmt | forInStmt | gotoStmt
  | returnStmt | declStmt =>
    refine answerStmt_moves (stmtOf_moves rfl ?_)
    simpa [Request.handles, StmtKind.operands, StmtKind.additions] using uses
  | newBlock => exact answerStmt_moves newBlock_moves
  | appendToBlock => exact answerDone_moves (appendToBlock_moves (by simpa [Request.handles] using uses))
  | usingDirective =>
    exact answerDirective_moves (usingDirective_moves (uses _ (by simp [Request.handles])))
  | usingDeclaration | staticAssert =>
    refine answerDirective_moves (Build.edit_moves (directiveOf_moves ?_))
    exact List.forall_mem_singleton.mpr (uses _ (by simp [Request.handles]))
  | asm | pragma => exact answerDirective_moves (Build.edit_moves (directiveOf_moves nofun))
  | declareVar | declareField =>
    exact answerDecl_moves (declareWith_moves (uses _ (by simp [Request.handles]))
      (typed_of_known (uses _ (by simp [Request.handles]))) rfl nofun)
  | declareAlias | declareType =>
    exact answerDecl_moves (declareWith_moves (uses _ (by simp [Request.handles]))
      (typed_of_fundamental .typename) rfl nofun)
  | declareBitfield =>
    refine answerDecl_moves (declareWith_moves (uses _ (by simp [Request.handles]))
      (typed_of_known (uses _ (by simp [Request.handles]))) rfl ?_)
    exact List.forall_mem_singleton.mpr (uses _ (by simp [Request.handles]))
  | declareFunction =>
    exact answerDecl_moves (declareFunction_moves (uses _ (by simp [Request.handles]))
      (uses _ (by simp [Request.handles])))
  | declareParameter =>
    exact answerDecl_moves (declareParameter_moves (uses _ (by simp [Request.handles]))
      (uses _ (by simp [Request.handles])))
  | declareEnumerator => exact answerDecl_moves (declareEnumerator_moves uses)
  | declareTemplate =>
    exact answerDecl_moves (declareTemplate_moves (uses _ (by simp [Request.handles]))
      (uses _ (by simp [Request.handles])))
  | declareSpecialization => exact answerDecl_moves (declareSpecialization_moves admits)
  | setTypeDefinition => exact answerDone_moves (setTypeDefinition_moves uses)
  | setInitializer => exact answerDone_moves (setInitializer_moves uses)
  | setAliasee => exact answerDone_moves (setAliasee_moves uses)
  | setFunctionBody => exact answerDone_moves (setFunctionBody_moves uses)
  | setTemplatePattern => exact answerDone_moves (setTemplatePattern_moves uses)

theorem admits_any (request : Request) : program.Admits (fun _ => True) request :=
  ⟨fun _ _ => trivial, fun _ => ⟨trivial, trivial⟩, fun _ => .inl trivial, fun _ => .inl trivial,
    fun _ _ => .inl fun _ => trivial⟩

/-- A request leads nowhere but where changes lead. -/
theorem respond_reaches {request : Request} {outcome : Except BuildError Answer} {after : Program}
    (responded : program.respond request = .ok (outcome, after)) :
    program.Reaches (fun _ => True) after :=
  perform_moves (admits_any request) responded

theorem run_reaches {requests : List Request} {after : Program}
    (ran : program.run requests = .ok after) : program.Reaches (fun _ => True) after := by
  induction requests generalizing program with
  | nil =>
    cases ran
    exact .refl _
  | cons request rest ih =>
    obtain ⟨⟨_, middle⟩, responded, ran⟩ := Checked.bind_eq_ok.mp ran
    exact (respond_reaches responded).trans (ih ran)

/-- A new program comes from one that has nothing but shared nodes. -/
theorem initial_reaches (known : Answer → Prop) {hash : Bytes → UInt64} {sizing : Sizing}
    (began : initial hash sizing = .ok program) :
    ∃ exprs before, ExprTable.initial = .ok exprs ∧
      Reaches known { sizing, strings := .ofSizing hash sizing, exprs } before ∧
      program = { before with globalNamespace := program.globalNamespace } := by
  obtain ⟨exprs, seeded, began⟩ := Checked.bind_eq_ok.mp began
  obtain ⟨⟨region, middle⟩, opened, began⟩ := Checked.bind_eq_ok.mp began
  obtain ⟨⟨globalNamespace, before⟩, owned, equal⟩ := Checked.bind_eq_ok.mp began
  cases equal
  obtain ⟨entry, found, unowned, -⟩ := newRegion_unowned opened
  exact ⟨exprs, before, seeded,
    (newRegion_moves (fun _ => rfl) opened).trans (newOwningType_moves rfl rfl found unowned owned), rfl⟩

end Program

end CanonIR
