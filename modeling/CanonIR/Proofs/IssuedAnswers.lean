import CanonIR.Proofs.Unfoldings

/-! Issued answers. What a request hands out is issued in the program after it, and in
every program that later requests lead to. -/

namespace CanonIR

variable {α β : Type} {known : Answer → Prop} {program after : Program} {answer : α → Answer}

namespace Program

/-! ### What a change keeps -/

theorem Change.keeps_identifies (change : program.Change known after) (identifies : program.Identifies) :
    after.Identifies ∧ program.Recalls after := by
  obtain ⟨canonical, larger⟩ := change.keeps_canonical identifies.canonical
  cases change with
  | strings interned =>
    obtain ⟨sound, -, texts⟩ := identifies.sound.intern_eq_ok interned
    exact ⟨⟨canonical, sound⟩, larger, texts⟩
  | _ => exact ⟨⟨canonical, identifies.sound⟩, larger, fun read => read⟩

theorem Change.keeps_stmt (change : program.Change known after) {id : StmtId} {node : StmtNode}
    (found : program.stmtNode id = .ok node) : ∃ now, after.stmtNode id = .ok now := by
  cases change with
  | stmt _ made => exact ⟨node, Slab.get_eq_ok.mpr (Slab.get?_kept made (Slab.get_eq_ok.mp found))⟩
  | blockEnd _ _ changed =>
    obtain ⟨now, present⟩ := Slab.exists_of_modify changed (Slab.get_eq_ok.mp found)
    exact ⟨now, Slab.get_eq_ok.mpr present⟩
  | _ => exact ⟨node, found⟩

theorem Change.keeps_decl (change : program.Change known after) {id : DeclId} {node : DeclNode}
    (found : program.declNode id = .ok node) : ∃ now, after.declNode id = .ok now := by
  cases change with
  | decl _ _ _ _ _ _ appended _ made =>
    rw [declNode, ← appendToChain_nodes appended] at found
    exact ⟨node, Slab.get_eq_ok.mpr (Slab.get?_kept made (Slab.get_eq_ok.mp found))⟩
  | refill _ _ changed =>
    obtain ⟨now, present⟩ := Slab.exists_of_modify changed (Slab.get_eq_ok.mp found)
    exact ⟨now, Slab.get_eq_ok.mpr present⟩
  | _ => exact ⟨node, found⟩

theorem Change.keeps_directive (change : program.Change known after) {id : DirectiveId}
    {node : DirectiveNode} (found : program.directiveNode id = .ok node) :
    ∃ now, after.directiveNode id = .ok now := by
  cases change with
  | directive _ made =>
    exact ⟨node, Slab.get_eq_ok.mpr (Slab.get?_kept made (Slab.get_eq_ok.mp found))⟩
  | _ => exact ⟨node, found⟩

/-- A region stays where it is, and an owner stays. -/
theorem Change.keeps_region (change : program.Change known after) {id : RegionId} {entry : Region}
    (found : program.region id = .ok entry) : ∃ now, after.region id = .ok now ∧
      now.parent = entry.parent ∧ ∀ owner, entry.owner = some owner → now.owner = some owner := by
  have present := Slab.get_eq_ok.mp found
  cases change with
  | region _ _ _ made =>
    exact ⟨entry, Slab.get_eq_ok.mpr (Slab.get?_kept made present), rfl, fun _ owned => owned⟩
  | regionOwner read unowned changed =>
    rcases Slab.get?_modify_cases changed present with same | ⟨rfl, adopted⟩
    · exact ⟨entry, Slab.get_eq_ok.mpr same, rfl, fun _ owned => owned⟩
    · cases read.symm.trans found
      exact ⟨_, Slab.get_eq_ok.mpr adopted, rfl, fun _ owned => nomatch unowned.symm.trans owned⟩
  | directive _ _ changed =>
    rcases Slab.get?_modify_cases changed present with same | ⟨-, longer⟩
    · exact ⟨entry, Slab.get_eq_ok.mpr same, rfl, fun _ owned => owned⟩
    · exact ⟨_, Slab.get_eq_ok.mpr longer, rfl, fun _ owned => owned⟩
  | _ => exact ⟨entry, found, rfl, fun _ owned => owned⟩

theorem Reaches.keeps_region (reaches : program.Reaches known after) {id : RegionId} {entry : Region}
    (found : program.region id = .ok entry) : ∃ now, after.region id = .ok now := by
  induction reaches with
  | refl => exact ⟨entry, found⟩
  | tail _ change ih =>
    obtain ⟨middle, there⟩ := ih
    obtain ⟨now, still, -⟩ := change.keeps_region there
    exact ⟨now, still⟩

/-- What was issued stays issued. -/
theorem Change.keeps_issued (change : program.Change known after) (identifies : program.Identifies)
    {handle : Answer} (issued : program.issued handle) : after.issued handle := by
  obtain ⟨-, recalls⟩ := change.keeps_identifies identifies
  cases handle with
  | done => rfl
  | symbol symbol =>
    obtain ⟨bytes, read⟩ := issued_symbol.mp issued
    exact issued_symbol.mpr ⟨bytes, recalls.texts read⟩
  | region id =>
    obtain ⟨entry, found⟩ := Checked.exists_of_isOk issued
    obtain ⟨now, there, -⟩ := change.keeps_region found
    simp [Program.issued, there, Except.isOk, Except.toBool]
  | node ref =>
    cases ref with
    | name id => exact recalls.larger.issued_term (.name id) issued
    | type id => exact recalls.larger.issued_term (.type id) issued
    | expr id => exact recalls.larger.issued_term (.expr id) issued
    | stmt id =>
      obtain ⟨node, found⟩ := issued_stmt.mp issued
      exact issued_stmt.mpr (change.keeps_stmt found)
    | decl id =>
      obtain ⟨node, found⟩ := issued_decl.mp issued
      exact issued_decl.mpr (change.keeps_decl found)
    | directive id =>
      obtain ⟨node, found⟩ := issued_directive.mp issued
      exact issued_directive.mpr (change.keeps_directive found)

theorem Reaches.keeps_identifies (reaches : program.Reaches known after)
    (identifies : program.Identifies) : after.Identifies := by
  induction reaches with
  | refl => exact identifies
  | tail _ change ih => exact (change.keeps_identifies ih).1

theorem Reaches.keeps_issued (reaches : program.Reaches known after) (identifies : program.Identifies)
    {handle : Answer} (issued : program.issued handle) : after.issued handle := by
  induction reaches with
  | refl => exact issued
  | tail earlier change ih =>
    exact change.keeps_issued (Reaches.keeps_identifies earlier identifies) ih

theorem identifies_shared (hash : Bytes → UInt64) {sizing : Sizing} {exprs : ExprTable}
    (built : sizing.Built) (seeded : ExprTable.initial = .ok exprs) :
    Identifies { sizing, strings := .ofSizing hash sizing, exprs } :=
  ⟨⟨NameTable.canonical_empty, TypeTable.canonical_empty, ExprTable.canonical_initial seeded⟩,
    SymbolPool.sound_ofSizing hash built⟩

theorem identifies_initial {hash : Bytes → UInt64} {sizing : Sizing} (built : sizing.Built)
    (began : initial hash sizing = .ok program) : program.Identifies := by
  obtain ⟨exprs, before, seeded, reaches, equal⟩ := initial_reaches (fun _ => False) began
  obtain ⟨⟨names, types, exprs⟩, sound⟩ := reaches.keeps_identifies (identifies_shared hash built seeded)
  rw [equal]
  exact ⟨⟨names, types, exprs⟩, sound⟩

end Program

/-! ### Programs of steps -/

/-- What the edit gives is issued in the program after it. -/
def Edit.Issues (edit : Edit α) (answer : α → Answer) (program : Program) : Prop :=
  ∀ ⦃value after⦄, edit.run program = .ok (value, after) → after.issued (answer value)

def Build.Issues (build : Build α) (answer : α → Answer) (program : Program) : Prop :=
  ∀ ⦃value after⦄, build.run.run program = .ok (.ok value, after) → after.issued (answer value)

theorem Edit.issues_bind {first : Edit β} {next : β → Edit α}
    (goes : ∀ value middle, (next value).Issues answer middle) : (first >>= next).Issues answer program := by
  intro value after given
  obtain ⟨⟨earlier, middle⟩, -, rest⟩ := Checked.bind_eq_ok.mp given
  exact goes earlier middle rest

namespace Build

theorem issues_throw (error : BuildError) : (throw error : Build α).Issues answer program := by
  intro value after given
  cases given

theorem issues_edit {edit : Edit α} (issues : edit.Issues answer program) :
    (liftM edit : Build α).Issues answer program := by
  intro value after given
  obtain ⟨_, performed, equal⟩ := run_edit.mp given
  cases equal
  exact issues performed

theorem run_bind {first : Build β} {next : β → Build α} {value : α}
    (given : (first >>= next).run.run program = .ok (.ok value, after)) :
    ∃ earlier middle, first.run.run program = .ok (.ok earlier, middle) ∧
      (next earlier).run.run middle = .ok (.ok value, after) := by
  rcases run_bind_cases given with ⟨_, _, impossible⟩ | completed
  · cases impossible
  · exact completed

theorem issues_bind {first : Build β} {next : β → Build α}
    (goes : ∀ value middle, (next value).Issues answer middle) : (first >>= next).Issues answer program := by
  intro value after given
  obtain ⟨earlier, middle, -, rest⟩ := run_bind given
  exact goes earlier middle rest

theorem issues_answer {build : Build α} (issues : build.Issues answer program) :
    (build >>= fun value => pure (answer value)).Issues id program := by
  intro value after given
  obtain ⟨_, middle, performed, rest⟩ := run_bind given
  cases rest
  exact issues performed

end Build

namespace Program

/-! ### Texts -/

theorem intern_issues (identifies : program.Identifies) {bytes : Bytes} :
    (intern bytes).Issues .symbol program := by
  intro symbol after given
  obtain ⟨outcome, interned, given⟩ := Build.run_check_bind.mp given
  cases outcome with
  | error error => cases given
  | ok result =>
    cases given
    obtain ⟨-, read, -⟩ := identifies.sound.intern_eq_ok interned
    exact issued_symbol.mpr ⟨bytes, read⟩

theorem internText_issues (identifies : program.Identifies) {text : String} :
    (internText text).Issues .symbol program := by
  intro symbol after given
  obtain ⟨⟨_, strings⟩, interned, equal⟩ := Checked.bind_eq_ok.mp given
  cases equal
  obtain ⟨outcome, interned, rest⟩ := Checked.bind_eq_ok.mp interned
  cases outcome with
  | error error => cases rest
  | ok result =>
    cases rest
    obtain ⟨-, read, -⟩ := identifies.sound.intern_eq_ok interned
    exact issued_symbol.mpr ⟨_, read⟩

/-! ### Nodes that are never shared -/

theorem exprOf_issues {kind : ExprKind} {type : Option TypeId} :
    (exprOf kind type).Issues .expr program := by
  intro id after given
  obtain ⟨⟨_, exprs, census⟩, fresh, equal⟩ := Checked.bind_eq_ok.mp given
  cases equal
  obtain ⟨⟨_, nodes, _⟩, made, equal⟩ := Checked.bind_eq_ok.mp fresh
  cases equal
  obtain ⟨number, pushed⟩ := ExprTable.push_eq_ok made
  exact issued_expr.mpr ⟨_, ExprTable.get_eq_ok.mpr (.inr (Slab.get?_pushed pushed))⟩

theorem idExpr_issues {name : NameId} {decl : Option DeclId} : (idExpr name decl).Issues .expr program := by
  unfold idExpr
  cases decl with
  | none => exact exprOf_issues
  | some decl =>
    apply Edit.issues_bind
    intro _ _
    apply Edit.issues_bind
    intro _ _
    exact exprOf_issues

theorem newExpr_issues {type : TypeId} {args : Option (List ExprId)} :
    (newExpr type args).Issues .expr program := by
  have made : ∀ {program : Program} (list : Option ExprListId), Edit.Issues (do
      let pointer ← typeOf (.pointer type)
      exprOf (.newExpr type list) (some pointer)) .expr program := fun list =>
    Edit.issues_bind fun _ _ => exprOf_issues
  cases args with
  | none => exact made none
  | some args => exact Edit.issues_bind fun _ _ => made _

theorem stmtOf_issues {kind : StmtKind} : (stmtOf kind).Issues .stmt program := by
  intro id after given
  obtain ⟨number, census, stmts, -, made, rfl⟩ := stmtOf_eq_ok given
  exact isOk_category.mpr ⟨_, Slab.get_eq_ok.mpr (Slab.get?_pushed made)⟩

theorem directiveOf_issues {region : RegionId} {kind : DirectiveKind} :
    (directiveOf region kind).Issues (fun id => .node (.directive id)) program := by
  intro id after given
  obtain ⟨number, census, directives, regions, -, made, -, rfl⟩ := directiveOf_eq_ok given
  exact isOk_category.mpr ⟨_, Slab.get_eq_ok.mpr (Slab.get?_pushed made)⟩

theorem pushDecl_issues {scope : ScopeId} {node : DeclNode} :
    (pushDecl scope node).Issues .decl program := by
  intro id after given
  obtain ⟨nodes, scopes, made, -, rfl⟩ := pushDecl_eq_ok.mp given
  exact isOk_category.mpr ⟨node, Slab.get_eq_ok.mpr (Slab.get?_pushed made)⟩

theorem newRegion_issues {parent : Option RegionId} : (newRegion parent).Issues .region program := by
  intro id after given
  rw [StateT.run, newRegion_eq] at given
  obtain ⟨planned, -, given⟩ := Checked.bind_eq_ok.mp given
  obtain ⟨⟨scope, scopes⟩, -, given⟩ := Checked.bind_eq_ok.mp given
  obtain ⟨depth, -, given⟩ := Checked.bind_eq_ok.mp given
  obtain ⟨⟨_, regions⟩, made, equal⟩ := Checked.bind_eq_ok.mp given
  cases equal
  simp [issued, Program.region, Slab.get_eq_ok.mpr (Slab.get?_pushed made), Except.isOk, Except.toBool]

/-! ### Declarations -/

theorem declare_issues {region : RegionId} {name : NameId} {type : TypeId} {specifiers : Specifiers}
    {category : Category} {make : DeclId → Option DeclId → Edit DeclKind} :
    (declare region name type specifiers category make).Issues .decl program := by
  unfold declare
  split
  · intro _ _ given
    obtain ⟨_, _, thrown, -⟩ := Build.run_bind given
    cases thrown
  -- Only the last step makes the declaration.
  iterate 10
    apply Build.issues_bind
    intro _ _
  exact Build.issues_edit pushDecl_issues

theorem declareParameter_issues {function : DeclId} {name : NameId} {type : TypeId} :
    (declareParameter function name type).Issues .decl program := by
  apply Build.issues_bind
  intro _ _
  apply Build.issues_bind
  intro _ _
  split
  · iterate 3
      apply Build.issues_bind
      intro _ _
    exact declare_issues
  · exact Build.issues_throw _

theorem declareEnumerator_issues {enumType : TypeId} {name : NameId} {value : Option ExprId} :
    (declareEnumerator enumType name value).Issues .decl program := by
  apply Build.issues_bind
  intro _ _
  apply Build.issues_bind
  intro _ _
  split
  · exact declare_issues
  · exact Build.issues_throw _

theorem specialize_issues {home : RegionId} {base : NameId} {args : List Term} {type : TypeId}
    {primary : DeclId} : (specialize home base args type primary).Issues .decl program := by
  apply Build.issues_bind
  intro _ _
  apply Build.issues_bind
  intro _ _ value after given
  obtain ⟨decl, middle, declared, given⟩ := Build.run_bind given
  have issued := declare_issues declared
  obtain ⟨_, _, read, given⟩ := Build.run_bind given
  cases read
  obtain ⟨node, found, given⟩ := Build.run_check_bind.mp given
  split at given
  · cases given
    exact issued
  · cases given
    exact issued

theorem declareSpecialization_issues {template : DeclId} {args : List Term} {type : TypeId} :
    (declareSpecialization template args type).Issues .decl program := by
  apply Build.issues_bind
  intro _ _
  apply Build.issues_bind
  intro _ _
  split
  · apply Build.issues_bind
    intro _ _
    apply Build.issues_bind
    intro _ _
    split
    · apply Build.issues_bind
      intro _ _
      apply Build.issues_bind
      intro _ _
      exact specialize_issues
    · exact specialize_issues
  · exact Build.issues_throw _

/-! ### Nodes that own regions -/

theorem ownRegion_eq_ok {region : RegionId} {owner : RegionOwner} {value : Unit}
    (owned : (ownRegion region owner).run program = .ok (value, after)) :
    ∃ regions, after = { program with regions } := by
  obtain ⟨⟨outcome, _⟩, given, equal⟩ := Checked.bind_eq_ok.mp owned
  cases equal
  obtain ⟨entry, -, given⟩ := Build.run_check_bind.mp given
  split at given
  · cases given
    exact ⟨_, rfl⟩
  · obtain ⟨regions, -, given⟩ := Build.run_check_bind.mp given
    cases given
    exact ⟨regions, rfl⟩

theorem newBlock_issues {parent : RegionId} : (newBlock parent).Issues .stmt program := by
  apply Edit.issues_bind
  intro region middle id after given
  obtain ⟨⟨block, last⟩, made, given⟩ := Checked.bind_eq_ok.mp given
  obtain ⟨⟨_, _⟩, owned, equal⟩ := Checked.bind_eq_ok.mp given
  cases equal
  have issued := stmtOf_issues made
  obtain ⟨regions, rfl⟩ := ownRegion_eq_ok owned
  exact issued

theorem newOwningType_issues {kind : TypeKind} {region : RegionId} :
    (newOwningType kind region).Issues .type program := by
  intro id after given
  obtain ⟨⟨⟨type, types, census⟩, _⟩, fresh, given⟩ := Checked.bind_eq_ok.mp given
  obtain ⟨fresh, rfl⟩ := Edit.run_check.mp fresh
  obtain ⟨⟨_, _⟩, owned, equal⟩ := Checked.bind_eq_ok.mp given
  cases equal
  obtain ⟨⟨_, nodes, _⟩, made, equal⟩ := Checked.bind_eq_ok.mp fresh
  cases equal
  obtain ⟨number, pushed⟩ := TypeTable.push_eq_ok made
  obtain ⟨regions, rfl⟩ := ownRegion_eq_ok owned
  exact issued_type.mpr ⟨_, TypeTable.get_eq_ok.mpr (.inr (Slab.get?_pushed pushed))⟩

/-! ### Requests -/

theorem Bears.issued {key : Key} {ref : NodeRef} (bears : program.Bears key ref) :
    program.issued (.node ref) := by
  cases bears with
  | name found | templateId found => exact issued_name.mpr ⟨_, found⟩
  | type found | product found | sum found => exact issued_type.mpr ⟨_, found⟩
  | literal found => exact issued_expr.mpr ⟨_, found⟩

theorem Provides.exists_node {key : Key} {response : Checked (Except BuildError Answer × Program)}
    {outcome : Except BuildError Answer} (provides : program.Provides key response)
    (responded : response = .ok (outcome, after)) : ∃ ref, outcome = .ok (.node ref) := by
  by_cases known : ∃ former, program.Bears key former
  · obtain ⟨former, bears⟩ := known
    obtain ⟨_, given, -⟩ := provides.known bears
    cases given.symm.trans responded
    exact ⟨former, rfl⟩
  · obtain ⟨made, equal, -⟩ := provides.new (not_exists.mp known) responded
    exact ⟨made, equal⟩

theorem usingDirective_issues {region : RegionId} {nominated : TypeId} :
    (usingDirective region nominated).Issues (fun id => .node (.directive id)) program := by
  apply Build.issues_bind
  intro _ _
  apply Build.issues_bind
  intro _ _
  split
  · exact Build.issues_edit directiveOf_issues
  · exact Build.issues_throw _

theorem qualified_issues {qualifiers : Qualifiers} {main : TypeId}
    (keyless : program.key? (.qualified qualifiers main) = none) :
    (qualified qualifiers main).Issues .type program := by
  intro id after given
  rw [qualified_eq] at given
  split at given
  · obtain ⟨_, _, thrown, -⟩ := Build.run_bind given
    cases thrown
  next qualifying =>
    obtain ⟨node, found, -⟩ := Build.run_check_bind.mp given
    have asked := key?_qualified.mpr ⟨by simpa using qualifying, node, found, rfl⟩
    cases keyless.symm.trans asked

theorem done_issues {build : Build Unit} : (answerDone build).Issues id program := by
  intro answer after given
  obtain ⟨_, _, -, rest⟩ := Build.run_bind given
  cases rest
  rfl

/-- A request for no key is for something new. -/
theorem perform_issues_new (identifies : program.Identifies) {request : Request}
    (keyless : program.key? request = none) : (perform request).Issues id program := by
  cases request with
  | identifier | operator | suffix | conversion | typeName | constructorName | destructorName
  | qualifiedName | templateId | pointer | reference | rvalueReference | array | functionType
  | pointerToMember | templateType | decltype | namedType | product | sum | literal => cases keyless
  | qualified => exact Build.issues_answer (qualified_issues keyless)
  | intern => exact Build.issues_answer (intern_issues identifies)
  | internText => exact Build.issues_answer (Build.issues_edit (internText_issues identifies))
  | newRegion => exact Build.issues_answer (Build.issues_edit newRegion_issues)
  | newClass | newUnion | newEnum | newNamespace =>
    refine Build.issues_answer (Build.issues_edit ?_)
    exact Edit.issues_bind fun _ _ => newOwningType_issues
  | unary | binary | cast | conditional | member | sizeOf | alignOf | deleteExpr | throwExpr =>
    exact Build.issues_answer (Build.issues_edit exprOf_issues)
  | idExpr => exact Build.issues_answer (Build.issues_edit idExpr_issues)
  | newExpr => exact Build.issues_answer (Build.issues_edit newExpr_issues)
  | call | initializerList =>
    exact Build.issues_answer (Build.issues_edit (Edit.issues_bind fun _ _ => exprOf_issues))
  | paren =>
    refine Build.issues_answer (Build.issues_edit (Edit.issues_bind fun _ _ => ?_))
    exact Edit.issues_bind fun _ _ => exprOf_issues
  | exprStmt | labeled | ifStmt | switchStmt | whileStmt | doStmt | forStmt | forInStmt | breakStmt
  | continueStmt | gotoStmt | returnStmt | declStmt =>
    exact Build.issues_answer (Build.issues_edit stmtOf_issues)
  | newBlock => exact Build.issues_answer (Build.issues_edit newBlock_issues)
  | usingDirective => exact Build.issues_answer usingDirective_issues
  | usingDeclaration | staticAssert | asm | pragma =>
    exact Build.issues_answer (Build.issues_edit directiveOf_issues)
  | declareVar | declareField | declareBitfield | declareAlias | declareType | declareFunction
  | declareTemplate => exact Build.issues_answer declare_issues
  | declareParameter => exact Build.issues_answer declareParameter_issues
  | declareEnumerator => exact Build.issues_answer declareEnumerator_issues
  | declareSpecialization => exact Build.issues_answer declareSpecialization_issues
  | setUnderlyingType | addBase | setExprType | setRegionOwner | appendToBlock | setInitializer
  | setAliasee | setFunctionBody | setTypeDefinition | setTemplatePattern => exact done_issues

/-- An answer is issued at once. -/
theorem perform_issues (identifies : program.Identifies) (request : Request) :
    (perform request).Issues id program := by
  cases keyed : program.key? request with
  | none => exact perform_issues_new identifies keyed
  | some key =>
    intro answer after responded
    have provides := provides_respond identifies.canonical keyed
    obtain ⟨ref, equal⟩ := provides.exists_node responded
    cases equal
    obtain ⟨-, larger⟩ := (respond_reaches responded).keeps_canonical identifies.canonical
    exact (provides.bears larger responded).issued

/-- Whatever is handed out is issued from then on, so requests that name only what was
handed out before name only issued handles. -/
theorem Identifies.answers_stay_issued (identifies : program.Identifies) {request : Request}
    {answer : Answer} {later : List Request} {last : Program}
    (responded : program.respond request = .ok (.ok answer, after))
    (continued : after.run later = .ok last) : last.issued answer := by
  have here : after.issued answer := perform_issues identifies request responded
  have kept : after.Identifies := (respond_reaches responded).keeps_identifies identifies
  exact (run_reaches continued).keeps_issued kept here

end Program

end CanonIR
