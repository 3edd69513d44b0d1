import CanonIR.Proofs.CanonicalNodes
import CanonIR.Proofs.RequestEffects

/-! Fields that are written once. A node is what it was when it was made, but for a few
fields that may be empty then. Such a field is filled by its own request only; what it
holds from then on is never replaced, and a request that comes too late is turned down. -/

namespace CanonIR

/-- A field that may be filled after its node or region was made. -/
inductive Field where
  | underlyingType (enumType : TypeId)
  | exprType (expr : ExprId)
  /-- The initializer of a variable or field, the default of a parameter or the value of an
  enumerator. -/
  | initializer (decl : DeclId)
  | aliasee (decl : DeclId)
  | body (decl : DeclId)
  | definition (decl : DeclId)
  | pattern (decl : DeclId)
  | owner (region : RegionId)

namespace Field

/-- What a field can hold. -/
def Value : Field → Type
  | .underlyingType _ | .exprType _ | .aliasee _ | .definition _ => TypeId
  | .initializer _ => ExprId
  | .body _ => StmtId
  | .pattern _ => DeclId
  | .owner _ => RegionOwner

/-- The reason to turn a request down where the field holds a value. -/
def refusal : (field : Field) → field.Value → BuildError
  | .underlyingType enumType, _ => .alreadySet "underlying type" (.type enumType)
  | .exprType expr, _ => .alreadySet "type" (.expr expr)
  | .initializer decl, _ => .alreadySet "initializer" (.decl decl)
  | .aliasee decl, _ => .alreadySet "aliasee" (.decl decl)
  | .body decl, _ => .alreadySet "body" (.decl decl)
  | .definition decl, _ => .alreadySet "definition" (.decl decl)
  | .pattern decl, _ => .alreadySet "pattern" (.decl decl)
  | .owner region, existing => .regionOwned region existing

end Field

def TypeKind.underlying? : TypeKind → Option TypeId
  | .enumType _ underlying => underlying
  | _ => none

namespace DeclKind

def aliasee? : DeclKind → Option TypeId
  | .alias aliasee => aliasee
  | _ => none

def body? : DeclKind → Option StmtId
  | .function _ body => body
  | _ => none

def definition? : DeclKind → Option TypeId
  | .typeDecl definition => definition
  | _ => none

def pattern? : DeclKind → Option DeclId
  | .template _ pattern _ _ => pattern
  | _ => none

end DeclKind

/-- The field that a request is there to fill, and with what. -/
def Request.filling? : Request → Option ((field : Field) × field.Value)
  | .setUnderlyingType enumType underlying => some ⟨.underlyingType enumType, underlying⟩
  | .setExprType expr type => some ⟨.exprType expr, type⟩
  | .setInitializer decl value => some ⟨.initializer decl, value⟩
  | .setAliasee decl type => some ⟨.aliasee decl, type⟩
  | .setFunctionBody decl body => some ⟨.body decl, body⟩
  | .setTypeDefinition decl type => some ⟨.definition decl, type⟩
  | .setTemplatePattern decl pattern => some ⟨.pattern decl, pattern⟩
  | .setRegionOwner region owner => some ⟨.owner region, owner⟩
  | _ => none

namespace Program

variable {program after : Program} {request : Request}

/-- What a field holds. -/
def held (program : Program) : (field : Field) → Option field.Value
  | .underlyingType enumType => (program.typeNode enumType).toOption.bind (·.kind.underlying?)
  | .exprType expr => (program.exprNode expr).toOption.bind (·.type)
  | .initializer decl => (program.declNode decl).toOption.bind (·.kind.initializer?)
  | .aliasee decl => (program.declNode decl).toOption.bind (·.kind.aliasee?)
  | .body decl => (program.declNode decl).toOption.bind (·.kind.body?)
  | .definition decl => (program.declNode decl).toOption.bind (·.kind.definition?)
  | .pattern decl => (program.declNode decl).toOption.bind (·.kind.pattern?)
  | .owner region => (program.region region).toOption.bind (·.owner)

/-- What a request leaves of the nodes and regions that are there: all of it, but that it
may fill the field it is for, or add to the end of a block, of the directives of a region
or of the members of a scope. -/
structure Preserves (program : Program) (request : Request) (after : Program) : Prop where
  names : ∀ {id node}, program.nameNode id = .ok node → after.nameNode id = .ok node
  types : ∀ {id node}, program.typeNode id = .ok node → after.typeNode id = .ok node ∨
    ∃ region underlying, request = .setUnderlyingType id underlying ∧ node.kind = .enumType region none ∧
      after.typeNode id = .ok { node with kind := .enumType region (some underlying) }
  exprs : ∀ {id node}, program.exprNode id = .ok node → after.exprNode id = .ok node ∨
    ∃ type, request = .setExprType id type ∧ node.type = none ∧
      after.exprNode id = .ok { node with type := some type }
  stmts : ∀ {id node}, program.stmtNode id = .ok node → after.stmtNode id = .ok node ∨
    ∃ stmt region body, request = .appendToBlock id stmt ∧ node.kind = .block region body ∧
      after.stmtNode id = .ok { node with kind := .block region (body.push stmt) }
  decls : ∀ {id node}, program.declNode id = .ok node → after.declNode id = .ok node ∨
    ∃ kind, request.Fills id node.kind kind ∧ after.declNode id = .ok { node with kind }
  directives : ∀ {id node}, program.directiveNode id = .ok node → after.directiveNode id = .ok node
  regions : ∀ {id entry}, program.region id = .ok entry → ∃ owner added,
    after.region id = .ok { entry with owner, directives := entry.directives ++ added } ∧
    (owner = entry.owner ∨
      ∃ given, request = .setRegionOwner id given ∧ entry.owner = none ∧ owner = some given)
  members : ∀ {id entry}, program.scope id = .ok entry → ∃ now added, after.scope id = .ok now ∧
    now.region = entry.region ∧ now.members = entry.members ++ added

theorem typeNode_extends (larger : program.types.nodes.Extends after.types.nodes) {id : TypeId}
    {node : TypeNode} (found : program.typeNode id = .ok node) : after.typeNode id = .ok node :=
  TypeTable.get_eq_ok.mpr ((TypeTable.get_eq_ok.mp found).imp_right fun present => larger present)

theorem exprNode_extends (larger : program.exprs.nodes.Extends after.exprs.nodes) {id : ExprId}
    {node : ExprNode} (found : program.exprNode id = .ok node) : after.exprNode id = .ok node :=
  ExprTable.get_eq_ok.mpr ((ExprTable.get_eq_ok.mp found).imp_right fun present => larger present)

theorem get_extends {α : Type} {table : Table} {slab larger : Slab table α} (extended : slab.Extends larger)
    {handle : Handle table} {item : α} (found : slab.get handle = .ok item) :
    larger.get handle = .ok item :=
  Slab.get_eq_ok.mpr (extended (Slab.get_eq_ok.mp found))

theorem Grows.preserves (grows : program.Grows after) : program.Preserves request after where
  names found := get_extends grows.names found
  types found := .inl (typeNode_extends grows.types found)
  exprs found := .inl (exprNode_extends grows.exprs found)
  stmts found := .inl (get_extends grows.stmts found)
  decls found := .inl (get_extends grows.decls found)
  directives found := get_extends grows.directives found
  regions {id entry} found := by
    obtain ⟨added, there⟩ := grows.regions (Slab.get_eq_ok.mp found)
    exact ⟨entry.owner, added, Slab.get_eq_ok.mpr there, .inl rfl⟩
  members {id entry} found := by
    have outlined : program.scopes.outline? id = some (entry.region, entry.members) := by
      simp [ScopeTable.outline?, Slab.get_eq_ok.mp found]
    obtain ⟨added, there⟩ := grows.members outlined
    obtain ⟨now, present, equal⟩ := Option.map_eq_some_iff.mp there
    obtain ⟨same, longer⟩ := Prod.mk.inj equal
    exact ⟨now, added, Slab.get_eq_ok.mpr present, same, longer⟩

theorem Effect.preserves (effect : program.Effect request after) : program.Preserves request after := by
  have kept : program.Preserves request program := (Grows.refl program).preserves
  cases effect with
  | quiet quiet => exact quiet.toGrows.preserves
  | declaration _ gains | template _ gains | specialization _ _ _ _ _ _ gains => exact gains.grows.preserves
  | underlyingType found changed =>
    refine { kept with types := fun {id node} read => ?_ }
    rcases TypeTable.get_eq_ok.mp read with shared | present
    · exact .inl (TypeTable.get_eq_ok.mpr (.inl shared))
    rcases Slab.get?_modify_cases changed present with same | ⟨rfl, filled⟩
    · exact .inl (TypeTable.get_eq_ok.mpr (.inr same))
    · cases found.symm.trans present
      exact .inr ⟨_, _, rfl, rfl, TypeTable.get_eq_ok.mpr (.inr filled)⟩
  | exprType found untyped changed =>
    refine { kept with exprs := fun {id node} read => ?_ }
    rcases ExprTable.get_eq_ok.mp read with shared | present
    · exact .inl (ExprTable.get_eq_ok.mpr (.inl shared))
    rcases Slab.get?_modify_cases changed present with same | ⟨rfl, filled⟩
    · exact .inl (ExprTable.get_eq_ok.mpr (.inr same))
    · cases found.symm.trans present
      exact .inr ⟨_, rfl, untyped, ExprTable.get_eq_ok.mpr (.inr filled)⟩
  | regionOwner found unowned changed =>
    refine { kept with regions := fun {id entry} read => ?_ }
    rcases Slab.get?_modify_cases changed (Slab.get_eq_ok.mp read) with same | ⟨rfl, filled⟩
    · exact ⟨entry.owner, #[], by simpa [Program.region] using Slab.get_eq_ok.mpr same, .inl rfl⟩
    · cases found.symm.trans (Slab.get_eq_ok.mp read)
      exact ⟨_, #[], by simpa [Program.region] using Slab.get_eq_ok.mpr filled, .inr ⟨_, rfl, unowned, rfl⟩⟩
  | blockEnd found unfinished changed =>
    refine { kept with stmts := fun {id node} read => ?_ }
    rcases Slab.get?_modify_cases changed (Slab.get_eq_ok.mp read) with same | ⟨rfl, longer⟩
    · exact .inl (Slab.get_eq_ok.mpr same)
    · cases found.symm.trans (Slab.get_eq_ok.mp read)
      exact .inr ⟨_, _, _, rfl, unfinished, Slab.get_eq_ok.mpr longer⟩
  | refill found filled changed =>
    refine { kept with decls := fun {id node} read => ?_ }
    rcases Slab.get?_modify_cases changed (Slab.get_eq_ok.mp read) with same | ⟨rfl, refilled⟩
    · exact .inl (Slab.get_eq_ok.mpr same)
    · cases found.symm.trans (Slab.get_eq_ok.mp read)
      exact .inr ⟨_, filled, Slab.get_eq_ok.mpr refilled⟩

/-! ### Categories -/

theorem category_eq_ok {α : Type} {read : Checked α} {category : α → Category} {result : Category} :
    (do return category (← read) : Checked Category) = .ok result ↔
      ∃ node, read = .ok node ∧ category node = result := by
  simp [Checked.bind_eq_ok]

theorem Preserves.category (preserves : program.Preserves request after) {ref : NodeRef} {category : Category}
    (found : program.category ref = .ok category) : after.category ref = .ok category := by
  cases ref with
  | name id =>
    obtain ⟨node, read, rfl⟩ := category_eq_ok.mp found
    exact category_eq_ok.mpr ⟨node, preserves.names read, rfl⟩
  | type id =>
    obtain ⟨node, read, rfl⟩ := category_eq_ok.mp found
    refine category_eq_ok.mpr ?_
    rcases preserves.types read with same | ⟨region, underlying, -, kind, filled⟩
    · exact ⟨node, same, rfl⟩
    · exact ⟨_, filled, by simp [TypeNode.category, kind, TypeKind.category]⟩
  | expr id =>
    obtain ⟨node, read, rfl⟩ := category_eq_ok.mp found
    refine category_eq_ok.mpr ?_
    rcases preserves.exprs read with same | ⟨type, -, -, filled⟩
    · exact ⟨node, same, rfl⟩
    · exact ⟨_, filled, rfl⟩
  | stmt id =>
    obtain ⟨node, read, rfl⟩ := category_eq_ok.mp found
    refine category_eq_ok.mpr ?_
    rcases preserves.stmts read with same | ⟨stmt, region, body, -, kind, longer⟩
    · exact ⟨node, same, rfl⟩
    · exact ⟨_, longer, by simp [StmtNode.category, kind, StmtKind.category]⟩
  | decl id =>
    obtain ⟨node, read, rfl⟩ := category_eq_ok.mp found
    refine category_eq_ok.mpr ?_
    rcases preserves.decls read with same | ⟨kind, filled, refilled⟩
    · exact ⟨node, same, rfl⟩
    · exact ⟨_, refilled, filled.fills.category⟩
  | directive id =>
    obtain ⟨node, read, rfl⟩ := category_eq_ok.mp found
    exact category_eq_ok.mpr ⟨node, preserves.directives read, rfl⟩

/-! ### Held values -/

theorem bind_toOption {α β : Type} {read : Checked α} {field : α → Option β} {value : β} :
    read.toOption.bind field = some value ↔ ∃ item, read = .ok item ∧ field item = some value := by
  cases read <;> simp [Except.toOption]

/-- Filling a field of a declaration replaces no value of another. -/
theorem Preserves.held_decl {β : Type} (preserves : program.Preserves request after) {decl : DeclId}
    {field : DeclKind → Option β} {value : β}
    (kept : ∀ {old new}, old.Fills new → field old = some value → field new = some value)
    (held : (program.declNode decl).toOption.bind (field ·.kind) = some value) :
    (after.declNode decl).toOption.bind (field ·.kind) = some value := by
  obtain ⟨node, read, filled⟩ := bind_toOption.mp held
  refine bind_toOption.mpr ?_
  rcases preserves.decls read with same | ⟨kind, fills, refilled⟩
  · exact ⟨node, same, filled⟩
  · exact ⟨_, refilled, kept fills.fills filled⟩

/-- What a field holds, it holds after every request. -/
theorem Preserves.held (preserves : program.Preserves request after) {field : Field} {value : field.Value}
    (held : program.held field = some value) : after.held field = some value := by
  cases field with
  | underlyingType enumType =>
    obtain ⟨node, read, filled⟩ := bind_toOption.mp held
    refine bind_toOption.mpr ?_
    rcases preserves.types read with same | ⟨region, underlying, -, kind, -⟩
    · exact ⟨node, same, filled⟩
    · simp [kind, TypeKind.underlying?] at filled
  | exprType expr =>
    obtain ⟨node, read, filled⟩ := bind_toOption.mp held
    refine bind_toOption.mpr ?_
    rcases preserves.exprs read with same | ⟨type, -, untyped, -⟩
    · exact ⟨node, same, filled⟩
    · simp [untyped] at filled
  | owner region =>
    obtain ⟨entry, read, owned⟩ := bind_toOption.mp held
    obtain ⟨owner, added, now, same | ⟨given, -, unowned, -⟩⟩ := preserves.regions read
    · exact bind_toOption.mpr ⟨_, now, same.trans owned⟩
    · simp [unowned] at owned
  | initializer decl | aliasee decl | body decl | definition decl | pattern decl =>
    refine preserves.held_decl (fun fills filled => ?_) held
    cases fills <;> first | exact filled | cases filled

theorem held_run {requests : List Request} {field : Field} {value : field.Value}
    (held : program.held field = some value) (ran : program.run requests = .ok after) :
    after.held field = some value :=
  run_effects (fun effect held => effect.preserves.held held) held ran

/-! ### Requests that come too late -/

/-- The request fails and nothing is changed. -/
inductive TooLate (program : Program) (request : Request) (field : Field) (existing : field.Value) : Prop where
  | filled (refused : program.respond request = .ok (.error (field.refusal existing), program))
  -- What is to be a definition is looked at before the declaration is.
  | unfit {decl : DeclId} {type : TypeId} {node : TypeNode} (setter : request = .setTypeDefinition decl type)
      (found : program.typeNode type = .ok node) (unfit : node.kind.region? = none)
      (refused : program.respond request = .ok (.error (.notAUserType type), program))
  | unissued {decl : DeclId} {type : TypeId} {fault : Fault} (setter : request = .setTypeDefinition decl type)
      (missing : program.typeNode type = .error fault) (failed : program.respond request = .error fault)

theorem answerDone_refused {build : Build Unit} {error : BuildError}
    (refused : build.run.run program = .ok (.error error, program)) :
    (answerDone build).run.run program = .ok (.error error, program) :=
  Checked.bind_eq_ok.mpr ⟨_, refused, rfl⟩

/-- A declaration is not refilled where the field holds a value. -/
theorem refill_late {β : Type} {decl : DeclId} (field : DeclKind → Option β) {existing : β}
    {change : DeclKind → Except BuildError DeclKind} {error : BuildError}
    (refuses : ∀ {kind}, field kind = some existing → change kind = .error error)
    (held : (program.declNode decl).toOption.bind (field ·.kind) = some existing) :
    (refill decl change).run.run program = .ok (.error error, program) := by
  obtain ⟨node, read, filled⟩ := bind_toOption.mp held
  refine Build.run_get_bind.mpr (Build.run_check_bind.mpr ⟨node, read, ?_⟩)
  rw [refuses filled]
  rfl

theorem setUnderlyingType_late {enumType underlying existing : TypeId}
    (held : program.held (.underlyingType enumType) = some existing) :
    (setUnderlyingType enumType underlying).run.run program =
      .ok (.error (.alreadySet "underlying type" (.type enumType)), program) := by
  obtain ⟨⟨number, kind⟩, read, filled⟩ := bind_toOption.mp held
  cases kind with
  | enumType region old =>
    cases filled
    rcases TypeTable.get_eq_ok.mp read with ⟨_, -, impossible⟩ | present
    · cases impossible
    · refine Build.run_get_bind.mpr ?_
      simp only [present]
      rfl
  | _ => cases filled

theorem setExprType_late {expr : ExprId} {type existing : TypeId}
    (held : program.held (.exprType expr) = some existing) :
    (setExprType expr type).run.run program = .ok (.error (.alreadySet "type" (.expr expr)), program) := by
  obtain ⟨node, read, filled⟩ := bind_toOption.mp held
  refine Build.run_get_bind.mpr ?_
  split
  next present =>
    cases read.symm.trans (ExprTable.get_eq_ok.mpr (.inr present))
    rw [filled]
    rfl
  · rfl

theorem setRegionOwner_late {region : RegionId} {owner existing : RegionOwner}
    (held : program.held (.owner region) = some existing) :
    (setRegionOwner region owner).run.run program = .ok (.error (.regionOwned region existing), program) := by
  obtain ⟨entry, read, owned⟩ := bind_toOption.mp held
  refine Build.run_get_bind.mpr (Build.run_check_bind.mpr ⟨entry, read, ?_⟩)
  simp only [owned]
  rfl

theorem setInitializer_late {decl : DeclId} {value existing : ExprId}
    (held : program.held (.initializer decl) = some existing) :
    (setInitializer decl value).run.run program =
      .ok (.error (.alreadySet "initializer" (.decl decl)), program) := by
  unfold setInitializer
  refine refill_late DeclKind.initializer? (fun {kind} filled => ?_) held
  cases kind with
  | var | field | bitfield | parameter | enumerator =>
    cases filled
    rfl
  | _ => cases filled

theorem setAliasee_late {decl : DeclId} {type existing : TypeId}
    (held : program.held (.aliasee decl) = some existing) :
    (setAliasee decl type).run.run program = .ok (.error (.alreadySet "aliasee" (.decl decl)), program) := by
  refine refill_late DeclKind.aliasee? (fun {kind} filled => ?_) held
  cases kind with
  | «alias» old =>
    cases filled
    rfl
  | _ => cases filled

theorem setFunctionBody_late {decl : DeclId} {body existing : StmtId}
    (held : program.held (.body decl) = some existing) :
    (setFunctionBody decl body).run.run program =
      .ok (.error (.alreadySet "body" (.decl decl)), program) := by
  refine refill_late DeclKind.body? (fun {kind} filled => ?_) held
  cases kind with
  | function parameters old =>
    cases filled
    rfl
  | _ => cases filled

theorem setTemplatePattern_late {decl pattern existing : DeclId}
    (held : program.held (.pattern decl) = some existing) :
    (setTemplatePattern decl pattern).run.run program =
      .ok (.error (.alreadySet "pattern" (.decl decl)), program) := by
  refine refill_late DeclKind.pattern? (fun {kind} filled => ?_) held
  cases kind with
  | template parameters old primary args =>
    cases filled
    rfl
  | _ => cases filled

theorem setTypeDefinition_late {decl : DeclId} {type existing : TypeId}
    (held : program.held (.definition decl) = some existing) :
    program.TooLate (.setTypeDefinition decl type) (.definition decl) existing := by
  cases looked : program.typeNode type with
  | error fault =>
    refine .unissued rfl looked ?_
    change ((setTypeDefinition decl type).run.run program >>= _) = _
    have failed : (setTypeDefinition decl type).run.run program = .error fault := by
      change ((liftM (program.typeNode type) : Build TypeNode) >>= _).run.run program = _
      rw [looked]
      rfl
    rw [failed, Checked.error_bind]
  | ok found =>
    cases unfit : found.kind.region? with
    | none =>
      refine .unfit rfl looked unfit (answerDone_refused ?_)
      refine Build.run_get_bind.mpr (Build.run_check_bind.mpr ⟨found, looked, ?_⟩)
      simp only [unfit]
      rfl
    | some region =>
      refine .filled (answerDone_refused ?_)
      refine Build.run_get_bind.mpr (Build.run_check_bind.mpr ⟨found, looked, ?_⟩)
      split
      next absent => simp [unfit] at absent
      · refine refill_late DeclKind.definition? (fun {kind} filled => ?_) held
        cases kind with
        | typeDecl old =>
          cases filled
          rfl
        | _ => cases filled

theorem too_late {field : Field} {value existing : field.Value}
    (sets : request.filling? = some ⟨field, value⟩) (held : program.held field = some existing) :
    program.TooLate request field existing := by
  cases request with
  | setUnderlyingType =>
    cases sets
    exact .filled (answerDone_refused (setUnderlyingType_late held))
  | setExprType =>
    cases sets
    exact .filled (answerDone_refused (setExprType_late held))
  | setRegionOwner =>
    cases sets
    exact .filled (answerDone_refused (setRegionOwner_late held))
  | setInitializer =>
    cases sets
    exact .filled (answerDone_refused (setInitializer_late held))
  | setAliasee =>
    cases sets
    exact .filled (answerDone_refused (setAliasee_late held))
  | setFunctionBody =>
    cases sets
    exact .filled (answerDone_refused (setFunctionBody_late held))
  | setTemplatePattern =>
    cases sets
    exact .filled (answerDone_refused (setTemplatePattern_late held))
  | setTypeDefinition =>
    cases sets
    exact setTypeDefinition_late held
  | _ => cases sets

/-- Requests change nothing that is there but the empty fields they are for, and those
once. -/
structure WritesOnce (program : Program) : Prop where
  preserved : ∀ {request outcome after}, program.respond request = .ok (outcome, after) →
    program.Preserves request after
  categories : ∀ {request outcome after ref category}, program.respond request = .ok (outcome, after) →
    program.category ref = .ok category → after.category ref = .ok category
  kept : ∀ {requests after field value}, program.run requests = .ok after →
    program.held field = some value → after.held field = some value
  late : ∀ {request field value existing}, request.filling? = some ⟨field, value⟩ →
    program.held field = some existing → program.TooLate request field existing

/-- That holds of all programs, and so of those that requests lead to. -/
theorem fields_written_once (program : Program) : program.WritesOnce where
  preserved responded := (respond_effect responded).preserves
  categories responded found := (respond_effect responded).preserves.category found
  kept ran held := held_run held ran
  late sets held := too_late sets held

/-- A second initializer is turned down, and the first one stays. -/
theorem fields_written_once_initializer : ∃ start program after : Program,
    initial (fun _ => 0) {} = .ok start ∧
    start.run [.intern (.ofString "x"), .identifier (.entry 0), .declareVar .global ⟨0⟩ ⟨11⟩ .empty,
      .setInitializer ⟨0⟩ ⟨0⟩] = .ok program ∧
    program.held (.initializer ⟨0⟩) = some (⟨0⟩ : ExprId) ∧
    program.respond (.setInitializer ⟨0⟩ ⟨1⟩) =
      .ok (.error (.alreadySet "initializer" (.decl ⟨0⟩)), program) ∧
    program.run [.setInitializer ⟨0⟩ ⟨1⟩, .declareVar .global ⟨0⟩ ⟨11⟩ .empty] = .ok after ∧
    after.held (.initializer ⟨0⟩) = some (⟨0⟩ : ExprId) := by
  have performed : (do
      let start ← initial (fun _ => 0) {}
      let program ← start.run [.intern (.ofString "x"), .identifier (.entry 0),
        .declareVar .global ⟨0⟩ ⟨11⟩ .empty, .setInitializer ⟨0⟩ ⟨0⟩]
      let after ← program.run [.setInitializer ⟨0⟩ ⟨1⟩, .declareVar .global ⟨0⟩ ⟨11⟩ .empty]
      if (← program.declNode ⟨0⟩).kind = .var (some ⟨0⟩) then return after
      else .error .outOfRange : Checked Program).isOk := by decide +kernel
  obtain ⟨_, performed⟩ := Checked.exists_of_isOk performed
  obtain ⟨start, began, rest⟩ := Checked.bind_eq_ok.mp performed
  obtain ⟨program, ran, rest⟩ := Checked.bind_eq_ok.mp rest
  obtain ⟨after, later, rest⟩ := Checked.bind_eq_ok.mp rest
  obtain ⟨node, found, rest⟩ := Checked.bind_eq_ok.mp rest
  split at rest
  next initialized =>
    have held : program.held (.initializer ⟨0⟩) = some (⟨0⟩ : ExprId) :=
      bind_toOption.mpr ⟨node, found, by rw [initialized]; rfl⟩
    have once := fields_written_once program
    have late : program.TooLate (.setInitializer ⟨0⟩ ⟨1⟩) (.initializer ⟨0⟩) (⟨0⟩ : ExprId) :=
      once.late rfl held
    cases late with
    | filled refused => exact ⟨start, program, after, began, ran, held, refused, later, once.kept later held⟩
    | unfit setter => cases setter
    | unissued setter => cases setter
  · cases rest

end Program

end CanonIR
