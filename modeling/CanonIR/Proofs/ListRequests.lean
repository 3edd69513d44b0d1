import CanonIR.Proofs.SideLists

/-! What one request does to the lists. A request that is granted may put an entry behind a
list that grows. Some requests give a list as a whole, which is kept and which the node that
is made then holds; it reads as it was given. -/

namespace CanonIR

/-- The region that a directive is asked for in. -/
def Request.directiveRegion? : Request → Option RegionId
  | .usingDirective region _ | .usingDeclaration region _ | .staticAssert region .. | .asm region _
  | .pragma region _ => some region
  | _ => none

def Answer.directive? : Answer → Option DirectiveId
  | .node (.directive id) => some id
  | .done | .symbol _ | .node _ | .region _ => none

/-- The entry that a list gets when a request is granted. -/
def SideList.granted : (list : SideList) → Request → Answer → Option list.Entry
  | .bases type, .addBase extended base, _ => if extended = type then some base else none
  | .directives region, request, answer =>
    if request.directiveRegion? = some region then answer.directive? else none
  | .body block, .appendToBlock extended stmt, _ => if extended = block then some stmt else none
  | _, _, _ => none

/-- The entry that a list gets by a request and the reply to it. -/
def SideList.given (list : SideList) : Request × Except BuildError Answer → Option list.Entry
  | (request, .ok answer) => list.granted request answer
  | (_, .error _) => none

/-- What a request gives for a node to hold. The types of a sum are sorted, each once. -/
inductive Request.Stores : Request → ListItems → Prop where
  | templateId {template : NameId} {args : List Term} : Stores (.templateId template args) (.terms args)
  | specialization {template : DeclId} {args : List Term} {type : TypeId} :
      Stores (.declareSpecialization template args type) (.terms args)
  | product {types : List TypeId} : Stores (.product types) (.types types)
  | sum {types members : List TypeId} (ascends : Program.Ascends members)
      (same : ∀ type, type ∈ members ↔ type ∈ types) : Stores (.sum types) (.types members)
  | call {callee : ExprId} {args : List ExprId} : Stores (.call callee args) (.exprs args)
  | newExpr {type : TypeId} {args : List ExprId} : Stores (.newExpr type (some args)) (.exprs args)
  | initializerList {elements : List ExprId} : Stores (.initializerList elements) (.exprs elements)

theorem Request.Stores.unique {request : Request} {items others : ListItems} (one : request.Stores items)
    (two : request.Stores others) : items = others := by
  cases one with
  | sum ascends same =>
    cases two with
    | sum rises alike =>
      refine congrArg ListItems.types (ascends.unique rises ?_)
      ext type
      rw [List.mem_toFinset, List.mem_toFinset, same, alike]
  | _ =>
    cases two
    rfl

/-- Requests that give no list anything. -/
def Request.isSilent : Request → Bool
  | .templateId .. | .declareSpecialization .. | .product _ | .sum _ | .call .. | .newExpr _ (some _)
  | .initializerList _ | .addBase .. | .appendToBlock .. => false
  | request => request.directiveRegion?.isNone

namespace Program

variable {program middle after : Program} {request : Request} {reply : Except BuildError Answer}
  {items : ListItems}

theorem ascending_stores (types : List TypeId) : (Request.sum types).Stores (.types (ascending types)) :=
  .sum (ascends_ascending types) fun _ => mem_ascending

/-! ### Requests without a list -/

theorem perform_silent (silent : request.isSilent) : (perform request).Silent := by
  have built : ∀ {α : Type} {build : Build α} (answer : α → Answer), build.Silent →
      (build >>= fun value => pure (answer value)).Silent :=
    fun _ silent program => Build.ends_bind (fun stopped => silent program stopped) fun performed =>
      Build.ends_pure (silent program performed) _
  have edited : ∀ {α : Type} {edit : Edit α} (answer : α → Answer), edit.Silent →
      ((liftM edit : Build α) >>= fun value => pure (answer value)).Silent :=
    fun answer silent => built answer (Build.silent_edit silent)
  cases request with
  | templateId | declareSpecialization | product | sum | call | initializerList | addBase | appendToBlock
  | usingDirective | usingDeclaration | staticAssert | asm | pragma => cases silent
  | intern => exact built _ intern_silent
  | internText => exact edited _ internText_silent
  | identifier | operator | suffix | conversion | typeName | constructorName | destructorName
  | qualifiedName => exact edited _ (nameOf_silent rfl)
  | pointer | reference | rvalueReference | array | functionType | pointerToMember | templateType
  | decltype | namedType => exact edited _ (simpleType_silent rfl)
  | qualified => exact built _ qualified_silent
  | newClass | newUnion | newEnum | newNamespace => exact edited _ (newUserType_silent fun _ => rfl)
  | setUnderlyingType => exact built _ setUnderlyingType_silent
  | literal => exact edited _ literal_silent
  | idExpr => exact edited _ idExpr_silent
  | unary | binary | cast | conditional | member | sizeOf | alignOf | deleteExpr | throwExpr =>
    exact edited _ (exprOf_silent rfl)
  | newExpr type args =>
    cases args with
    | none => exact edited _ newExpr_silent
    | some args => cases silent
  | paren => exact edited _ paren_silent
  | setExprType => exact built _ setExprType_silent
  | newRegion => exact edited _ newRegion_silent
  | setRegionOwner => exact built _ setRegionOwner_silent
  | exprStmt | labeled | ifStmt | switchStmt | whileStmt | doStmt | forStmt | forInStmt | breakStmt
  | continueStmt | gotoStmt | returnStmt | declStmt => exact edited _ (stmtOf_silent rfl)
  | newBlock => exact edited _ newBlock_silent
  | declareVar | declareField | declareBitfield | declareAlias | declareType =>
    exact built _ (declareWith_silent rfl)
  | declareFunction => exact built _ declareFunction_silent
  | declareParameter => exact built _ declareParameter_silent
  | declareEnumerator => exact built _ declareEnumerator_silent
  | declareTemplate => exact built _ declareTemplate_silent
  | setTypeDefinition => exact built _ setTypeDefinition_silent
  | setInitializer decl value =>
    obtain ⟨change, equal, fills⟩ := setInitializer_fills decl value
    rw [perform, equal]
    exact built _ (refill_silent fun allowed => (fills allowed).fills)
  | setAliasee decl type =>
    obtain ⟨change, equal, fills⟩ := setAliasee_fills decl type
    rw [perform, equal]
    exact built _ (refill_silent fun allowed => (fills allowed).fills)
  | setFunctionBody decl body =>
    obtain ⟨change, equal, fills⟩ := setFunctionBody_fills decl body
    rw [perform, equal]
    exact built _ (refill_silent fun allowed => (fills allowed).fills)
  | setTemplatePattern decl pattern =>
    obtain ⟨change, equal, fills⟩ := setTemplatePattern_fills decl pattern
    rw [perform, equal]
    exact built _ (refill_silent fun allowed => (fills allowed).fills)

/-! ### Lists that are kept as a whole -/

/-- What there is reads as before, and a list that comes into a node reads `items`. -/
structure Notes (items : ListItems) (program after : Program) : Prop where
  entries : ∀ list, after.entries list = program.entries list
  reads : ∀ {list former}, program.listItems list = .ok former → after.listItems list = .ok former
  stored : ∀ {ref list}, after.storedList ref = some list →
    program.storedList ref = some list ∨ after.listItems list = .ok items

theorem Notes.trans (earlier : Notes items program middle) (later : Notes items middle after) :
    Notes items program after where
  entries list := (later.entries list).trans (earlier.entries list)
  reads read := later.reads (earlier.reads read)
  stored held := (later.stored held).elim (fun before => (earlier.stored before).imp_right later.reads) .inr

theorem Stays.notes {new : ListRef → Prop} (stays : Stays new program after)
    (reads : ∀ {list}, new list → program.listItems list = .ok items) : Notes items program after where
  entries := stays.entries
  reads read := (stays.listItems _).trans read
  stored held := (stays.stored held).imp_right fun came => (stays.listItems _).trans (reads came)

theorem listItems_terms {list : TermListId} : program.listItems (.terms list) = .ok items ↔
    ∃ terms, program.termList list = .ok terms ∧ .terms terms = items := by
  simp [listItems, Checked.bind_eq_ok]

theorem listItems_types {list : TypeListId} : program.listItems (.types list) = .ok items ↔
    ∃ types, program.typeList list = .ok types ∧ .types types = items := by
  simp [listItems, Checked.bind_eq_ok]

theorem listItems_exprs {list : ExprListId} : program.listItems (.exprs list) = .ok items ↔
    ∃ exprs, program.exprList list = .ok exprs ∧ .exprs exprs = items := by
  simp [listItems, Checked.bind_eq_ok]

theorem keepTerms_notes (canonical : program.Canonical) {terms : List Term} {list : TermListId}
    (given : (keepTerms terms).run program = .ok (list, after)) :
    Notes items program after ∧ after.listItems (.terms list) = .ok (.terms terms) := by
  obtain ⟨⟨_, names⟩, kept, equal⟩ := Checked.bind_eq_ok.mp given
  cases equal
  obtain ⟨-, larger, read, nodes, -⟩ := NameTable.keepTerms_eq_ok canonical.names kept
  refine ⟨⟨fun list => by cases list <;> rfl, fun {list former} read => ?_, fun {ref list} held => .inl ?_⟩,
    listItems_terms.mpr ⟨terms, read, rfl⟩⟩
  · cases list with
    | terms list =>
      obtain ⟨terms, listed, equal⟩ := listItems_terms.mp read
      exact listItems_terms.mpr ⟨terms, larger.lists listed, equal⟩
    | _ => exact read
  · cases ref with
    | name id =>
      rw [storedList_name] at held ⊢
      rwa [nodes] at held
    | _ => exact held

theorem keepTypes_notes (canonical : program.Canonical) {types : List TypeId} {list : TypeListId}
    (given : (keepTypes types).run program = .ok (list, after)) :
    Notes items program after ∧ after.listItems (.types list) = .ok (.types types) := by
  obtain ⟨⟨_, table⟩, kept, equal⟩ := Checked.bind_eq_ok.mp given
  cases equal
  obtain ⟨-, larger, read, nodes, -⟩ := TypeTable.keepList_eq_ok canonical.types kept
  refine ⟨⟨fun list => ?_, fun {list former} read => ?_, fun {ref list} held => .inl ?_⟩,
    listItems_types.mpr ⟨types, read, rfl⟩⟩
  · cases list with
    | bases type =>
      change table.basesOf type = program.types.basesOf type
      rw [TypeTable.basesOf, TypeTable.basesOf, bases_keepList kept]
    | _ => rfl
  · cases list with
    | types list =>
      obtain ⟨types, listed, equal⟩ := listItems_types.mp read
      exact listItems_types.mpr ⟨types, larger.lists listed, equal⟩
    | _ => exact read
  · cases ref with
    | type id =>
      rw [storedList_type] at held ⊢
      rwa [nodes] at held
    | _ => exact held

theorem keepExprs_notes {exprs : List ExprId} {list : ExprListId}
    (given : (keepExprs exprs).run program = .ok (list, after)) :
    Notes items program after ∧ after.listItems (.exprs list) = .ok (.exprs exprs) := by
  have read := listItems_exprs.mpr ⟨exprs, exprList_keepExprs given, rfl⟩
  obtain ⟨⟨_, table⟩, kept, equal⟩ := Checked.bind_eq_ok.mp given
  cases equal
  obtain ⟨⟨_, lists⟩, pushed, equal⟩ := Checked.bind_eq_ok.mp kept
  cases equal
  refine ⟨⟨fun list => by cases list <;> rfl, fun {list former} read => ?_, fun {ref _} held => .inl ?_⟩, read⟩
  · cases list with
    | exprs list =>
      obtain ⟨exprs, listed, equal⟩ := listItems_exprs.mp read
      have kept := Slab.get?_kept pushed (Slab.get_eq_ok.mp listed)
      exact listItems_exprs.mpr ⟨exprs, Slab.get_eq_ok.mpr kept, equal⟩
    | _ => exact read
  · cases ref <;> exact held

theorem templateId_notes (canonical : program.Canonical) {template : NameId} {args : List Term} :
    (templateId template args).Ends (program.Notes (.terms args)) program :=
  Edit.ends_bind fun kept _ _ given => by
    obtain ⟨notes, read⟩ := keepTerms_notes canonical kept
    refine notes.trans ((nameOf_stays given).notes fun refers => ?_)
    cases refers
    exact read

theorem combined_notes (canonical : program.Canonical) {wrap : TypeListId → TypeKind}
    (structural : ∀ list, (wrap list).IsStructural) (wraps : ∀ list, (wrap list).list? = some list)
    {members : List TypeId} : (do typeOf (wrap (← keepTypes members)) : Edit TypeId).Ends
      (program.Notes (.types members)) program :=
  Edit.ends_bind fun {list _} kept _ _ given => by
    obtain ⟨notes, read⟩ := keepTypes_notes canonical kept
    refine notes.trans ((typeOf_stays (structural list) given).notes fun refers => ?_)
    rw [wraps] at refers
    cases refers
    exact read

/-- A node holds a list that reads `items`. -/
def HoldsList (program : Program) (ref : NodeRef) (items : ListItems) : Prop :=
  ∃ list, program.storedList ref = some list ∧ program.listItems list = .ok items

/-- An expression is made of a list that was kept before. -/
theorem exprOf_kept {exprs : List ExprId} {kind : ExprKind} {type : Option TypeId} {list : ExprListId}
    {id : ExprId} {listed : Program} (kept : (keepExprs exprs).run program = .ok (list, listed))
    (stays : Stays (fun _ => False) listed middle) (lists : kind.list? = some list)
    (given : (exprOf kind type).run middle = .ok (id, after)) :
    Notes (.exprs exprs) program after ∧ after.HoldsList (.expr id) (.exprs exprs) := by
  obtain ⟨notes, read⟩ := keepExprs_notes kept
  rw [← stays.listItems] at read
  have last := exprOf_stays given
  refine ⟨(notes.trans (stays.notes False.elim)).trans (last.notes fun refers => ?_),
    .exprs list, ?_, (last.listItems _).trans read⟩
  · rw [lists] at refers
    cases refers
    exact read
  · obtain ⟨⟨_, exprs, census⟩, made, equal⟩ := Checked.bind_eq_ok.mp given
    cases equal
    obtain ⟨number, nodes, pushed, rfl⟩ := ExprTable.fresh_parts made
    exact storedList_expr.mpr ⟨_, Slab.get?_pushed pushed, congrArg (Option.map _) lists⟩

theorem specialize_notes (canonical : program.Canonical) {home : RegionId} {base : NameId} {args : List Term}
    {type : TypeId} {primary : DeclId} :
    (specialize home base args type primary).Ends (program.Notes (.terms args)) program := by
  refine Build.ends_edit_bind fun {name named} applied => Build.ends_edit_bind fun {list noted} kept => ?_
  have moves : (templateId base args).Moves (fun _ => True) program := templateId_moves fun _ _ => trivial
  have between : named.Canonical := ((moves applied).keeps_canonical canonical).1
  obtain ⟨notes, read⟩ := keepTerms_notes between kept
  replace notes := (templateId_notes canonical applied).trans notes
  have declared : (declare home name type .empty .template fun id _ => do
      return .template (← parameterRegion home id) none primary (some list)).Ends
        (noted.Stays (· = .terms list)) noted := by
    refine declare_stays fun {id _ kind _} made => ⟨(parametrized_silent _ made).mono False.elim, ?_⟩
    obtain ⟨parameters, rfl⟩ := parametrized_eq_ok made
    rintro _ ⟨⟩
    rfl
  have adds : ∀ {last}, noted.Stays (· = .terms list) last → Notes (.terms args) program last :=
    fun stays => notes.trans (stays.notes fun same => same ▸ read)
  refine Build.ends_bind (fun stopped => adds (declared stopped)) fun {decl joined} performed =>
    Build.ends_get_bind (Build.ends_check_bind fun _ => ?_)
  have stays := declared performed
  have listed : joined.Stays (· = .terms list)
      { joined with decls := joined.decls.listSpecialization primary decl } := { Stays.refl joined with }
  split
  · refine Build.ends_bind (fun given => nomatch given) fun given => ?_
    cases given
    exact Build.ends_pure (adds (stays.trans listed)) _
  · exact Build.ends_pure (adds stays) _

/-- What is answered is a declaration that was not there before, so its list is a new one. -/
theorem declareSpecialization_notes (canonical : program.Canonical) {template : DeclId} {args : List Term}
    {type : TypeId} {outcome : Except BuildError DeclId}
    (given : (declareSpecialization template args type).run.run program = .ok (outcome, after)) :
    Notes (.terms args) program after ∧
      ∀ id, outcome = .ok id → after.HoldsList (.decl id) (.terms args) := by
  have notes : Notes (.terms args) program after := by
    have none : Notes (.terms args) program program := (Stays.refl program).notes False.elim
    obtain ⟨named, found, given⟩ := Build.run_check_bind.mp (Build.run_get_bind.mp given)
    split at given
    · obtain ⟨lead, leading, given⟩ := Build.run_check_bind.mp given
      obtain ⟨former, -, given⟩ := Build.run_check_bind.mp given
      split at given
      · obtain ⟨agreed, -, given⟩ := Build.run_check_bind.mp given
        cases agreed with
        | error error =>
          cases given
          exact none
        | ok master => exact specialize_notes canonical given
      · exact specialize_notes canonical given
    · cases given
      exact none
  refine ⟨notes, ?_⟩
  rintro id rfl
  rcases declareSpecialization_cases given with
    ⟨⟨_, impossible⟩, -⟩ | ⟨_, _, _, _, node, _, list, -, -, -, same, kind, -, -, gains⟩
  · cases impossible
  · cases same
    have held : after.storedList (.decl id) = some (.terms list) :=
      storedList_decl.mpr ⟨node, Slab.get?_pushed gains.pushed, by rw [DeclNode.list?, kind]; rfl⟩
    refine ⟨_, held, (notes.stored held).resolve_left fun before => ?_⟩
    obtain ⟨_, present, -⟩ := storedList_decl.mp before
    cases (Slab.fresh_of_push gains.pushed).symm.trans present

/-! ### One request -/

/-- What a request does to the lists: one entry more if it was granted one, and no node holds
a list that it did not give. -/
structure Logs (program : Program) (request : Request) (reply : Except BuildError Answer)
    (after : Program) : Prop where
  entries : ∀ list, after.entries list = program.entries list ++ (list.given (request, reply)).toList
  recorded : ∀ {region} {id : DirectiveId}, (SideList.directives region).given (request, reply) = some id →
    ∃ node, after.directiveNode id = .ok node ∧ node.region = region
  stored : ∀ {ref list}, after.storedList ref = some list →
    program.storedList ref = some list ∨ ∃ items, request.Stores items ∧ after.listItems list = .ok items
  answered : ∀ {answer items}, reply = .ok answer → request.Stores items →
    ∃ ref, answer = .node ref ∧ after.HoldsList ref items

theorem given_none {list : SideList} (ungranted : ∀ {answer}, list.granted request answer = none) :
    list.given (request, reply) = none := by
  cases reply with
  | error => rfl
  | ok => exact ungranted

theorem given_silent (silent : request.isSilent) (list : SideList) : list.given (request, reply) = none := by
  refine given_none ?_
  cases request with
  | templateId | declareSpecialization | product | sum | call | initializerList | addBase | appendToBlock
  | usingDirective | usingDeclaration | staticAssert | asm | pragma => cases silent
  | _ => cases list <;> exact rfl

theorem given_stores (stores : request.Stores items) (list : SideList) :
    list.given (request, reply) = none := by
  refine given_none ?_
  cases stores <;> cases list <;> exact rfl

theorem Stays.logs (stays : Stays (fun _ => False) program after)
    (ungiven : ∀ list : SideList, list.given (request, reply) = none)
    (unstored : ∀ items, ¬ request.Stores items) : program.Logs request reply after where
  entries list := by rw [stays.entries, ungiven, Option.toList_none, List.append_nil]
  recorded given := nomatch (ungiven _).symm.trans given
  stored held := (stays.stored held).imp_right False.elim
  answered _ stores := absurd stores (unstored _)

theorem Notes.logs (notes : Notes items program after) (stores : request.Stores items)
    (answered : ∀ answer, reply = .ok answer → ∃ ref, answer = .node ref ∧ after.HoldsList ref items) :
    program.Logs request reply after where
  entries list := by rw [notes.entries, given_stores stores, Option.toList_none, List.append_nil]
  recorded given := nomatch (given_stores stores _).symm.trans given
  stored held := (notes.stored held).imp_right fun read => ⟨items, stores, read⟩
  answered same again := stores.unique again ▸ answered _ same

theorem Notes.logs_node {ref : NodeRef} (notes : Notes items program after) (stores : request.Stores items)
    (holds : after.HoldsList ref items) : program.Logs request (.ok (.node ref)) after :=
  notes.logs stores fun _ same => by
    cases same
    exact ⟨ref, rfl, holds⟩

/-- A request that was turned down before it did anything. -/
theorem logs_refused {error : BuildError} (unstored : ∀ items, ¬ request.Stores items) :
    program.Logs request (.error error) program :=
  (Stays.refl program).logs (fun _ => rfl) unstored

/-- Whatever is answered, the program is the one that the request led to. -/
theorem run_answer {α : Type} {build : Build α} {answer : α → Answer}
    (given : (build >>= fun value => pure (answer value)).run.run program = .ok (reply, after)) :
    ∃ outcome, build.run.run program = .ok (outcome, after) ∧ reply = outcome.map answer := by
  rcases Build.run_bind_cases given with ⟨error, stopped, rfl⟩ | ⟨value, _, performed, equal⟩
  · exact ⟨.error error, stopped, rfl⟩
  · cases equal
    exact ⟨.ok value, performed, rfl⟩

theorem addBase_logs {type base : TypeId} {outcome : Except BuildError Unit}
    (given : (addBase type base).run.run program = .ok (outcome, after)) :
    program.Logs (.addBase type base) (outcome.map fun _ => .done) after := by
  have unstored : ∀ items, ¬ (Request.addBase type base).Stores items := nofun
  obtain ⟨node, -, given⟩ := Build.run_check_bind.mp (Build.run_get_bind.mp given)
  split at given
  · cases given
    refine ⟨fun list => ?_, nofun, fun {ref _} held => .inl (by cases ref <;> exact held),
      fun _ stores => absurd stores (unstored _)⟩
    cases list with
    | bases other =>
      change (TypeTable.addBase program.types type base).basesOf other = program.types.basesOf other ++
        (if type = other then some base else none).toList
      by_cases same : type = other <;> simp [TypeTable.basesOf, TypeTable.addBase, same]
    | _ => exact (List.append_nil _).symm
  · cases given
    exact logs_refused unstored

theorem appendToBlock_logs {block stmt : StmtId} {outcome : Except BuildError Unit}
    (given : (appendToBlock block stmt).run.run program = .ok (outcome, after)) :
    program.Logs (.appendToBlock block stmt) (outcome.map fun _ => .done) after := by
  have unstored : ∀ items, ¬ (Request.appendToBlock block stmt).Stores items := nofun
  obtain ⟨node, found, given⟩ := Build.run_check_bind.mp (Build.run_get_bind.mp given)
  split at given
  next region body unfinished =>
    obtain ⟨stmts, changed, given⟩ := Build.run_check_bind.mp given
    cases given
    refine ⟨fun list => ?_, nofun, fun {ref _} held => .inl (by cases ref <;> exact held),
      fun _ stores => absurd stores (unstored _)⟩
    cases list with
    | body other =>
      refine Slab.listAt_append changed (fun item present => ?_) other
      cases (Slab.get_eq_ok.mp found).symm.trans present
      rw [unfinished]
      exact Array.toList_push
    | _ => exact (List.append_nil _).symm
  · cases given
    exact logs_refused unstored

theorem directiveOf_logs {region : RegionId} {kind : DirectiveKind} {id : DirectiveId}
    (asked : request.directiveRegion? = some region)
    (given : (directiveOf region kind).run program = .ok (id, after)) :
    program.Logs request (.ok (.node (.directive id))) after := by
  have entered : ∀ other, (SideList.directives other).given (request, .ok (.node (.directive id))) =
      if region = other then some id else none := fun other => by
    simp only [SideList.given, SideList.granted, asked, Option.some.injEq]
    rfl
  obtain ⟨number, census, directives, regions, -, made, changed, rfl⟩ := directiveOf_eq_ok given
  refine ⟨fun list => ?_, fun {other own} given => ?_, fun {ref _} held => .inl (by cases ref <;> exact held),
    fun _ stores => ?_⟩
  · cases list with
    | directives other =>
      rw [entered]
      exact Slab.listAt_append changed (fun _ _ => Array.toList_push) other
    | bases | body =>
      rw [show SideList.given _ (request, _) = none by cases request <;> first | rfl | cases asked]
      exact (List.append_nil _).symm
  · rw [entered] at given
    split at given
    next same =>
      cases given
      subst same
      exact ⟨_, Slab.get_eq_ok.mpr (Slab.get?_pushed made), rfl⟩
    · cases given
  · cases stores <;> cases asked

theorem usingDirective_logs {region : RegionId} {nominated : TypeId} {outcome : Except BuildError DirectiveId}
    (given : (usingDirective region nominated).run.run program = .ok (outcome, after)) :
    program.Logs (.usingDirective region nominated) (outcome.map fun id => .node (.directive id)) after := by
  have unstored : ∀ items, ¬ (Request.usingDirective region nominated).Stores items := nofun
  obtain ⟨node, -, given⟩ := Build.run_check_bind.mp (Build.run_get_bind.mp given)
  split at given
  · obtain ⟨id, made, rfl⟩ := Build.run_edit.mp given
    exact directiveOf_logs rfl made
  · cases given
    exact logs_refused unstored

/-- What a key asks for, the node that has it holds. -/
theorem Bears.holdsList {ref : NodeRef} {template : NameId} {args : List Term}
    (bears : program.Bears (.templateId template args) ref) : program.HoldsList ref (.terms args) := by
  cases bears with
  | templateId found kind listed =>
    refine ⟨_, bind_toOption.mpr ⟨_, found, ?_⟩, listItems_terms.mpr ⟨args, listed, rfl⟩⟩
    rw [NameNode.list?, kind]
    rfl

theorem holdsList_of_combines {wrap : TypeListId → TypeKind} {id : TypeId} {types : List TypeId}
    (wraps : ∀ list, (wrap list).list? = some list) (combines : program.types.Combines wrap types id) :
    program.HoldsList (.type id) (.types types) := by
  obtain ⟨node, list, found, kind, listed⟩ := lists_of_combines combines
  refine ⟨.types list, bind_toOption.mpr ⟨node, found, ?_⟩, listItems_types.mpr ⟨types, listed, rfl⟩⟩
  rw [TypeNode.list?, kind, wraps]
  rfl

theorem respond_logs (canonical : program.Canonical)
    (responded : program.respond request = .ok (reply, after)) : program.Logs request reply after := by
  by_cases silent : request.isSilent
  · refine (perform_silent silent program responded).logs (given_silent silent) fun items stores => ?_
    cases stores <;> cases silent
  obtain ⟨-, larger⟩ := (respond_reaches responded).keeps_canonical canonical
  cases request with
  | templateId template args =>
    obtain ⟨id, _, given, equal⟩ := Build.run_edit_bind.mp responded
    cases equal
    have bears := (provides_respond canonical rfl).bears larger responded
    exact (templateId_notes canonical given).logs_node .templateId bears.holdsList
  | product types =>
    obtain ⟨id, _, given, equal⟩ := Build.run_edit_bind.mp responded
    cases equal
    obtain ⟨_, same, combines⟩ := bears_product.mp ((provides_respond canonical rfl).bears larger responded)
    exact (combined_notes canonical TypeKind.structural_product (fun _ => rfl) given).logs_node .product
      (same ▸ holdsList_of_combines (fun _ => rfl) combines)
  | sum types =>
    obtain ⟨id, _, given, equal⟩ := Build.run_edit_bind.mp responded
    cases equal
    obtain ⟨_, same, combines⟩ := bears_sum.mp ((provides_respond canonical rfl).bears larger responded)
    exact (combined_notes canonical TypeKind.structural_sum (fun _ => rfl) given).logs_node
      (ascending_stores types) (same ▸ holdsList_of_combines (fun _ => rfl) combines)
  | call callee args =>
    obtain ⟨id, _, given, equal⟩ := Build.run_edit_bind.mp responded
    cases equal
    obtain ⟨⟨list, listed⟩, kept, given⟩ := Checked.bind_eq_ok.mp given
    obtain ⟨notes, holds⟩ := exprOf_kept kept (.refl listed) rfl given
    exact notes.logs_node .call holds
  | initializerList elements =>
    obtain ⟨id, _, given, equal⟩ := Build.run_edit_bind.mp responded
    cases equal
    obtain ⟨⟨list, listed⟩, kept, given⟩ := Checked.bind_eq_ok.mp given
    obtain ⟨notes, holds⟩ := exprOf_kept kept (.refl listed) rfl given
    exact notes.logs_node .initializerList holds
  | newExpr type args =>
    cases args with
    | none => exact absurd rfl silent
    | some args =>
      obtain ⟨id, _, given, equal⟩ := Build.run_edit_bind.mp responded
      cases equal
      obtain ⟨⟨list, listed⟩, kept, given⟩ := Checked.bind_eq_ok.mp given
      obtain ⟨⟨pointer, _⟩, pointed, given⟩ := Checked.bind_eq_ok.mp given
      obtain ⟨notes, holds⟩ := exprOf_kept kept (simpleType_silent rfl listed pointed) rfl given
      exact notes.logs_node .newExpr holds
  | declareSpecialization template args type =>
    obtain ⟨outcome, given, rfl⟩ := run_answer responded
    obtain ⟨notes, holds⟩ := declareSpecialization_notes canonical given
    cases outcome with
    | error error => exact notes.logs .specialization nofun
    | ok id => exact notes.logs_node .specialization (holds id rfl)
  | addBase type base =>
    obtain ⟨outcome, given, rfl⟩ := run_answer responded
    exact addBase_logs given
  | appendToBlock block stmt =>
    obtain ⟨outcome, given, rfl⟩ := run_answer responded
    exact appendToBlock_logs given
  | usingDirective region nominated =>
    obtain ⟨outcome, given, rfl⟩ := run_answer responded
    exact usingDirective_logs given
  | usingDeclaration | staticAssert | asm | pragma =>
    obtain ⟨outcome, given, rfl⟩ := run_answer responded
    obtain ⟨id, made, rfl⟩ := Build.run_edit.mp given
    exact directiveOf_logs rfl made
  | _ => exact absurd rfl silent

end Program

end CanonIR
