import CanonIR.Proofs.DeclarationTables
import CanonIR.Proofs.IssuedHandles

/-! Requests that are turned down. Turning a request down undoes nothing, so each has to
be turned down before it changes anything. A specialization is the one that makes a name
before it is declared: what was checked for the old name, or for no name at all, has to
hold for the name that is made. -/

namespace CanonIR

variable {α β : Type} {into : Program → Prop} {program : Program}

/-- Started on `program`, the request is turned down in no other programs than these. -/
def Build.Refuses (build : Build α) (into : Program → Prop) (program : Program) : Prop :=
  ∀ ⦃error after⦄, build.run.run program = .ok (.error error, after) → into after

namespace Build

theorem refuses_pure (value : α) : (pure value : Build α).Refuses into program :=
  fun _ _ given => nomatch given

theorem refuses_set (after : Program) : (set after : Build Unit).Refuses into program :=
  fun _ _ given => nomatch given

theorem refuses_throw (here : into program) (error : BuildError) :
    (throw error : Build α).Refuses into program := by
  intro _ after given
  cases given
  exact here

theorem refuses_edit (edit : Edit α) : (liftM edit : Build α).Refuses into program := by
  intro error after given
  obtain ⟨value, -, impossible⟩ := run_edit.mp given
  cases impossible

theorem refuses_bind {first : Build α} {next : α → Build β} (starts : first.Refuses into program)
    (goes : ∀ {value middle}, first.run.run program = .ok (.ok value, middle) →
      (next value).Refuses into middle) :
    (first >>= next).Refuses into program := by
  intro error after given
  rcases run_bind_cases given with ⟨_, stopped, equal⟩ | ⟨value, middle, performed, rest⟩
  · cases equal
    exact starts stopped
  · exact goes performed rest

theorem refuses_get_bind {next : Program → Build α} (goes : (next program).Refuses into program) :
    (get >>= next).Refuses into program :=
  goes

theorem refuses_edit_bind {edit : Edit α} {next : α → Build β}
    (goes : ∀ {value middle}, edit.run program = .ok (value, middle) → (next value).Refuses into middle) :
    ((liftM edit : Build α) >>= next).Refuses into program := by
  intro error after given
  obtain ⟨value, middle, performed, rest⟩ := run_edit_bind.mp given
  exact goes performed rest

theorem refuses_check_bind {checked : Checked α} {next : α → Build β}
    (goes : ∀ {value}, checked = .ok value → (next value).Refuses into program) :
    ((liftM checked : Build α) >>= next).Refuses into program := by
  intro error after given
  obtain ⟨value, found, rest⟩ := run_check_bind.mp given
  exact goes found rest

theorem refuses_settle_bind {settled : Except BuildError α} {next : α → Build β}
    (fails : ∀ {error}, settled = .error error → into program)
    (goes : ∀ {value}, settled = .ok value → (next value).Refuses into program) :
    ((liftM settled : Build α) >>= next).Refuses into program := by
  cases settled with
  | error error => exact refuses_throw (fails rfl) error
  | ok value => exact goes rfl

theorem refuses_throw_bind (here : into program) (error : BuildError) {next : α → Build β} :
    ((throw error : Build α) >>= next).Refuses into program :=
  refuses_bind (refuses_throw here error) fun given => nomatch given

end Build

namespace Program

/-! ### Requests that check before they change anything -/

section Checks

variable (here : into program)

include here

theorem intern_refuses {bytes : Bytes} : (intern bytes).Refuses into program := by
  apply Build.refuses_get_bind
  apply Build.refuses_check_bind
  intro outcome _
  cases outcome with
  | error error => exact Build.refuses_throw here _
  | ok result => exact Build.refuses_bind (Build.refuses_set _) fun _ => Build.refuses_pure _

theorem qualified_refuses {qualifiers : Qualifiers} {main : TypeId} :
    (qualified qualifiers main).Refuses into program := by
  rw [qualified_eq]
  split
  · exact Build.refuses_throw_bind here _
  · apply Build.refuses_get_bind
    exact Build.refuses_check_bind fun _ => Build.refuses_edit _

theorem setRegionOwner_refuses {region : RegionId} {owner : RegionOwner} :
    (setRegionOwner region owner).Refuses into program := by
  apply Build.refuses_get_bind
  apply Build.refuses_check_bind
  intro _ _
  split
  · exact Build.refuses_throw here _
  · exact Build.refuses_check_bind fun _ => Build.refuses_set _

theorem addBase_refuses {type base : TypeId} : (addBase type base).Refuses into program := by
  apply Build.refuses_get_bind
  apply Build.refuses_check_bind
  intro _ _
  split
  · exact Build.refuses_set _
  · exact Build.refuses_throw here _

theorem setUnderlyingType_refuses {enumType underlying : TypeId} :
    (setUnderlyingType enumType underlying).Refuses into program := by
  apply Build.refuses_get_bind
  split
  · exact Build.refuses_settle_bind (fun _ => here) fun _ =>
      Build.refuses_check_bind fun _ => Build.refuses_set _
  · exact Build.refuses_throw here _

theorem setExprType_refuses {expr : ExprId} {type : TypeId} :
    (setExprType expr type).Refuses into program := by
  apply Build.refuses_get_bind
  split
  · exact Build.refuses_settle_bind (fun _ => here) fun _ =>
      Build.refuses_check_bind fun _ => Build.refuses_set _
  · exact Build.refuses_throw here _

theorem refill_refuses {decl : DeclId} {change : DeclKind → Except BuildError DeclKind} :
    (refill decl change).Refuses into program := by
  apply Build.refuses_get_bind
  apply Build.refuses_check_bind
  intro _ _
  exact Build.refuses_settle_bind (fun _ => here) fun _ =>
    Build.refuses_check_bind fun _ => Build.refuses_set _

theorem setInitializer_refuses {decl : DeclId} {value : ExprId} :
    (setInitializer decl value).Refuses into program := by
  unfold setInitializer
  exact refill_refuses here

theorem setAliasee_refuses {decl : DeclId} {type : TypeId} :
    (setAliasee decl type).Refuses into program := by
  unfold setAliasee
  exact refill_refuses here

theorem setFunctionBody_refuses {decl : DeclId} {body : StmtId} :
    (setFunctionBody decl body).Refuses into program := by
  unfold setFunctionBody
  exact refill_refuses here

theorem setTemplatePattern_refuses {decl pattern : DeclId} :
    (setTemplatePattern decl pattern).Refuses into program := by
  unfold setTemplatePattern
  exact refill_refuses here

theorem setTypeDefinition_refuses {decl : DeclId} {type : TypeId} :
    (setTypeDefinition decl type).Refuses into program := by
  apply Build.refuses_get_bind
  apply Build.refuses_check_bind
  intro _ _
  split
  · exact Build.refuses_throw_bind here _
  · exact refill_refuses here

theorem appendToBlock_refuses {block stmt : StmtId} :
    (appendToBlock block stmt).Refuses into program := by
  apply Build.refuses_get_bind
  apply Build.refuses_check_bind
  intro _ _
  split
  · exact Build.refuses_check_bind fun _ => Build.refuses_set _
  · exact Build.refuses_throw here _

theorem usingDirective_refuses {region : RegionId} {nominated : TypeId} :
    (usingDirective region nominated).Refuses into program := by
  apply Build.refuses_get_bind
  apply Build.refuses_check_bind
  intro _ _
  split
  · exact Build.refuses_edit _
  · exact Build.refuses_throw here _

end Checks

/-! ### Declarations -/

/-- A declaration is turned down for its specifiers or for what was declared before. -/
theorem declare_refuses {region : RegionId} {name : NameId} {type : TypeId} {specifiers : Specifiers}
    {category : Category} {make : DeclId → Option DeclId → Edit DeclKind}
    (conflicting : specifiers.isConflicting → into program)
    (incompatible : ∀ {error}, program.joinedMaster region name type category = .ok (.error error) →
      into program) :
    (declare region name type specifiers category make).Refuses into program := by
  unfold declare
  split
  next conflict => exact Build.refuses_throw_bind (conflicting conflict) _
  · apply Build.refuses_get_bind
    apply Build.refuses_check_bind
    intro _ _
    apply Build.refuses_get_bind
    apply Build.refuses_check_bind
    intro outcome looked
    refine Build.refuses_settle_bind (fun refused => incompatible (refused ▸ looked)) fun _ => ?_
    apply Build.refuses_get_bind
    apply Build.refuses_check_bind
    intro _ _
    exact Build.refuses_edit_bind fun _ => Build.refuses_edit_bind fun _ =>
      Build.refuses_edit_bind fun _ => Build.refuses_edit _

section Declarations

variable (here : into program)

include here

theorem declareWith_refuses {region : RegionId} {name : NameId} {type : TypeId}
    {specifiers : Specifiers} {kind : DeclKind} :
    (declareWith region name type specifiers kind).Refuses into program :=
  declare_refuses (fun _ => here) fun _ => here

theorem declareParameter_refuses {function : DeclId} {name : NameId} {type : TypeId} :
    (declareParameter function name type).Refuses into program := by
  apply Build.refuses_get_bind
  apply Build.refuses_check_bind
  intro _ _
  split
  · apply Build.refuses_check_bind
    intro _ _
    apply Build.refuses_check_bind
    intro _ _
    exact Build.refuses_check_bind fun _ => declareWith_refuses here
  · exact Build.refuses_throw here _

theorem declareEnumerator_refuses {enumType : TypeId} {name : NameId} {value : Option ExprId} :
    (declareEnumerator enumType name value).Refuses into program := by
  apply Build.refuses_get_bind
  apply Build.refuses_check_bind
  intro _ _
  split
  · exact declareWith_refuses here
  · exact Build.refuses_throw here _

end Declarations

/-- The template-id of a specialization is one that was there and was found, or a new one
that nothing is declared by. -/
theorem templateId_former (canonical : program.Canonical) (named : program.NamesIssued)
    {template id : NameId} {args : List Term} {former : Option NameId} {after : Program}
    (searched : program.names.templateId? template args = .ok former)
    (made : (templateId template args).run program = .ok (id, after)) :
    former = some id ∨ ∀ scope type chain, ¬ program.Binds scope id type chain := by
  obtain ⟨list, listed, names, census, kept, given, rfl⟩ := templateId_eq_ok.mp made
  obtain ⟨-, larger, applies, ⟨old, -⟩ | ⟨missing, -⟩⟩ :=
    NameTable.templateId_eq_ok canonical.names kept given
  · exact .inl ((NameTable.templateId?_eq_ok canonical.names searched id).mpr old)
  · refine .inr fun scope type chain binds => ?_
    obtain ⟨decl, node, found, -, rfl, -, -⟩ := binds
    obtain ⟨name, present⟩ := issued_name.mp (named (Slab.get_eq_ok.mpr found))
    exact missing _ (NameTable.applies_former canonical.names larger (Slab.get_eq_ok.mp present) applies)

/-- What was checked before the template-id was made holds of it. -/
theorem templateId_compatible (canonical : program.Canonical) (filed : program.Filed)
    (named : program.NamesIssued) {template id : NameId} {args : List Term} {former : Option NameId}
    {after : Program} {home : RegionId} {type : TypeId} {category : Category}
    (searched : program.names.templateId? template args = .ok former)
    (checked : ∀ name, former = some name →
      ∃ master, program.joinedMaster home name type category = .ok (.ok master))
    (made : (templateId template args).run program = .ok (id, after)) {error : BuildError} :
    program.joinedMaster home id type category ≠ .ok (.error error) := by
  intro refused
  rcases templateId_former canonical named searched made with found | unbound
  · obtain ⟨master, agreed⟩ := checked id found
    rw [agreed] at refused
    cases refused
  · obtain ⟨region, here, -⟩ := Checked.bind_eq_ok.mp refused
    rw [filed.joinedMaster_unbound here (unbound _ _)] at refused
    cases refused

/-- What a specialization does after the check is not turned down any more. -/
theorem specialize_refuses {home : RegionId} {base : NameId} {args : List Term} {type : TypeId}
    {primary : DeclId} (compatible : ∀ {id after}, (templateId base args).run program = .ok (id, after) →
      ∀ {error}, program.joinedMaster home id type .template ≠ .ok (.error error)) :
    (specialize home base args type primary).Refuses into program := by
  apply Build.refuses_edit_bind
  intro name middle made
  apply Build.refuses_edit_bind
  intro list last kept
  have same : last.joinedMaster home name type .template =
      program.joinedMaster home name type .template := by
    obtain ⟨_, _, _, _, -, -, rfl⟩ := templateId_eq_ok.mp made
    obtain ⟨_, -, equal⟩ := Checked.bind_eq_ok.mp kept
    cases equal
    rfl
  refine Build.refuses_bind ?_ fun _ => Build.refuses_get_bind (Build.refuses_check_bind fun _ => ?_)
  · refine declare_refuses (fun conflict => absurd conflict (by decide)) fun refused => ?_
    exact absurd (same.symm.trans refused) (compatible made)
  · split
    · exact Build.refuses_bind (fun _ _ given => nomatch given) fun _ => Build.refuses_pure _
    · exact Build.refuses_pure _

theorem declareSpecialization_refuses (canonical : program.Canonical) (filed : program.Filed)
    (named : program.NamesIssued) (here : into program) {template : DeclId} {args : List Term}
    {type : TypeId} : (declareSpecialization template args type).Refuses into program := by
  apply Build.refuses_get_bind
  apply Build.refuses_check_bind
  intro _ _
  split
  · apply Build.refuses_check_bind
    intro primary _
    apply Build.refuses_check_bind
    intro former searched
    split
    next name =>
      apply Build.refuses_check_bind
      intro outcome looked
      refine Build.refuses_settle_bind (fun _ => here) fun {master} agreed => ?_
      refine specialize_refuses fun made => ?_
      refine templateId_compatible canonical filed named searched (fun other same => ?_) made
      cases same
      exact ⟨master, agreed ▸ looked⟩
    next unknown =>
      refine specialize_refuses fun made => ?_
      exact templateId_compatible canonical filed named searched
        (fun name same => absurd same (unknown name)) made
  · exact Build.refuses_throw here _

/-! ### Runs -/

/-- What is kept where requests name only issued handles. -/
structure Orderly (program : Program) : Prop where
  canonical : program.Canonical
  filed : program.Filed
  named : program.NamesIssued

theorem orderly_initial {hash : Bytes → UInt64} {sizing : Sizing}
    (began : initial hash sizing = .ok program) : program.Orderly where
  canonical := canonical_initial began
  filed := filed_run began (rfl : program.run [] = .ok program)
  named := namesIssued_initial began

theorem Orderly.respond (orderly : program.Orderly) {request : Request}
    {outcome : Except BuildError Answer} {after : Program}
    (uses : ∀ handle ∈ request.handles, program.issued handle)
    (responded : program.respond request = .ok (outcome, after)) : after.Orderly := by
  have reaches := perform_moves (admits_issued orderly.canonical orderly.named uses) responded
  exact ⟨(reaches.keeps_canonical orderly.canonical).1, reaches.keeps_filed orderly.filed,
    reaches.keeps_namesIssued orderly.canonical (fun _ issued => issued) orderly.named⟩

theorem Orderly.perform_refuses (orderly : program.Orderly) (here : into program) (request : Request) :
    (perform request).Refuses into program := by
  have edited : ∀ {α : Type} (edit : Edit α) (answer : α → Answer),
      ((liftM edit : Build α) >>= fun value => pure (answer value)).Refuses into program :=
    fun _ _ => Build.refuses_edit_bind fun _ => Build.refuses_pure _
  have built : ∀ {α : Type} {build : Build α} (answer : α → Answer), build.Refuses into program →
      (build >>= fun value => pure (answer value)).Refuses into program :=
    fun _ refuses => Build.refuses_bind refuses fun _ => Build.refuses_pure _
  cases request with
  | intern => exact built _ (intern_refuses here)
  | internText | newRegion => exact edited _ _
  | identifier | operator | suffix | conversion | typeName | constructorName | destructorName
  | qualifiedName | templateId => exact edited _ _
  | pointer | reference | rvalueReference | array | functionType | pointerToMember | templateType
  | decltype | namedType | product | sum | newClass | newUnion | newEnum | newNamespace =>
    exact built _ (Build.refuses_edit _)
  | qualified => exact built _ (qualified_refuses here)
  | literal | idExpr | unary | binary | cast | conditional | member | sizeOf | alignOf | deleteExpr
  | throwExpr | call | newExpr | paren | initializerList => exact edited _ _
  | exprStmt | labeled | ifStmt | switchStmt | whileStmt | doStmt | forStmt | forInStmt | breakStmt
  | continueStmt | gotoStmt | returnStmt | declStmt | newBlock => exact edited _ _
  | usingDeclaration | staticAssert | asm | pragma => exact built _ (Build.refuses_edit _)
  | usingDirective => exact built _ (usingDirective_refuses here)
  | setUnderlyingType => exact built _ (setUnderlyingType_refuses here)
  | addBase => exact built _ (addBase_refuses here)
  | setExprType => exact built _ (setExprType_refuses here)
  | setRegionOwner => exact built _ (setRegionOwner_refuses here)
  | appendToBlock => exact built _ (appendToBlock_refuses here)
  | declareVar | declareField | declareBitfield | declareAlias | declareType =>
    exact built _ (declareWith_refuses here)
  | declareFunction | declareTemplate =>
    exact built _ (declare_refuses (fun _ => here) fun _ => here)
  | declareParameter => exact built _ (declareParameter_refuses here)
  | declareEnumerator => exact built _ (declareEnumerator_refuses here)
  | declareSpecialization =>
    exact built _ (declareSpecialization_refuses orderly.canonical orderly.filed orderly.named here)
  | setInitializer => exact built _ (setInitializer_refuses here)
  | setAliasee => exact built _ (setAliasee_refuses here)
  | setFunctionBody => exact built _ (setFunctionBody_refuses here)
  | setTemplatePattern => exact built _ (setTemplatePattern_refuses here)
  | setTypeDefinition => exact built _ (setTypeDefinition_refuses here)

/-- After a run of requests that name only issued handles, a request that is turned down
leaves the program as it was. -/
theorem refused_requests_change_nothing {hash : Bytes → UInt64} {sizing : Sizing} {start : Program}
    {requests : List Request} (began : initial hash sizing = .ok start)
    (ran : start.run requests = .ok program) (issued : start.usesIssued requests)
    {request : Request} {error : BuildError} {after : Program}
    (refused : program.respond request = .ok (.error error, after)) : after = program := by
  have orderly : program.Orderly :=
    run_induction (fun orderly uses responded => orderly.respond uses responded)
      (orderly_initial began) issued ran
  exact (orderly.perform_refuses rfl request refused).symm

/-- A specialization whose template-id was declared as a variable. -/
theorem refused_requests_change_nothing_specialization : ∃ start program : Program,
    initial (fun _ => 0) {} = .ok start ∧
    start.run [.intern (.ofString "f"), .identifier (.entry 0), .declareTemplate .global ⟨0⟩ ⟨11⟩ .empty,
      .templateId ⟨0⟩ [.type ⟨11⟩], .declareVar .global ⟨1⟩ ⟨12⟩ .empty] = .ok program ∧
    program.respond (.declareSpecialization ⟨0⟩ [.type ⟨11⟩] ⟨12⟩) =
      .ok (.error (.incompatibleRedeclaration ⟨1⟩ .var .template), program) := by
  have performed : (do
      let requests : List Request := [.intern (.ofString "f"), .identifier (.entry 0),
        .declareTemplate .global ⟨0⟩ ⟨11⟩ .empty, .templateId ⟨0⟩ [.type ⟨11⟩],
        .declareVar .global ⟨1⟩ ⟨12⟩ .empty]
      let start ← initial (fun _ => 0) {}
      let program ← start.run requests
      match ← program.respond (.declareSpecialization ⟨0⟩ [.type ⟨11⟩] ⟨12⟩) with
      | (.error error, _) =>
        if start.usesIssued requests ∧ error = .incompatibleRedeclaration ⟨1⟩ .var .template then
          return program
        else .error .outOfRange
      | _ => .error .outOfRange : Checked Program).isOk := by decide +kernel
  obtain ⟨_, performed⟩ := Checked.exists_of_isOk performed
  obtain ⟨start, began, rest⟩ := Checked.bind_eq_ok.mp performed
  obtain ⟨program, ran, rest⟩ := Checked.bind_eq_ok.mp rest
  obtain ⟨⟨outcome, after⟩, responded, rest⟩ := Checked.bind_eq_ok.mp rest
  split at rest
  next equal =>
    cases equal
    split at rest
    next clash =>
      obtain ⟨issued, rfl⟩ := clash
      have same := refused_requests_change_nothing began ran issued responded
      exact ⟨start, program, began, ran, same ▸ responded⟩
    · cases rest
  · cases rest

end Program

end CanonIR
