import CanonIR.Proofs.NodeLinks
import CanonIR.Proofs.SumsAndProducts
import CanonIR.Proofs.WriteOnce

/-! Lists beside the nodes. Some lists grow one entry at a time: the bases of a class, the
directives of a region, the statements of a block. Others are kept as a whole before a node
that holds them is made. Most edits do nothing to either, and there is one law for each of
those. -/

namespace CanonIR

variable {α β : Type}

namespace Slab

variable {table : Table} {slab after : Slab table α} {handle : Handle table} {item : α} {part : α → List β}

/-- What `part` reads off an entry, nothing where there is none. -/
def listAt (slab : Slab table α) (part : α → List β) (handle : Handle table) : List β :=
  match slab.get handle with
  | .ok item => part item
  | .error _ => []

theorem listAt_eq (slab : Slab table α) (part : α → List β) (handle : Handle table) :
    slab.listAt part handle = ((slab.get? handle).map part).getD [] := by
  unfold listAt get
  cases slab.get? handle <;> rfl

theorem listAt_push (pushed : slab.push item = .ok (handle, after)) (empty : part item = [])
    (other : Handle table) : after.listAt part other = slab.listAt part other := by
  rw [listAt_eq, listAt_eq, get?_of_push pushed]
  split
  next same =>
    subst same
    rw [fresh_of_push pushed]
    exact empty
  · rfl

theorem listAt_modify {change : α → α} (changed : slab.modify handle change = .ok after)
    (same : ∀ item, part (change item) = part item) (other : Handle table) :
    after.listAt part other = slab.listAt part other := by
  rw [listAt_eq, listAt_eq, get?_modify changed]
  split
  next equal =>
    subst equal
    cases slab.get? other with
    | none => rfl
    | some item => exact same item
  · rfl

theorem listAt_append {change : α → α} {entry : β} (changed : slab.modify handle change = .ok after)
    (adds : ∀ item, slab.get? handle = some item → part (change item) = part item ++ [entry])
    (other : Handle table) : after.listAt part other =
      slab.listAt part other ++ (if handle = other then some entry else none).toList := by
  rw [listAt_eq, listAt_eq, get?_modify changed]
  split
  next same =>
    subst same
    obtain ⟨item, found, -⟩ := modify_eq_ok.mp changed
    rw [found, if_pos rfl]
    exact adds item found
  next different => rw [if_neg (Ne.symm different), Option.toList_none, List.append_nil]

end Slab

/-- A list that gets its entries one by one. -/
inductive SideList where
  | bases (type : TypeId)
  | directives (region : RegionId)
  | body (block : StmtId)

/-- The entries of a list. -/
def SideList.Entry : SideList → Type
  | .bases _ => TypeId
  | .directives _ => DirectiveId
  | .body _ => StmtId

/-- The handle of a list that is kept as a whole. -/
inductive ListRef where
  | terms (list : TermListId)
  | types (list : TypeListId)
  | exprs (list : ExprListId)
  deriving DecidableEq

inductive ListItems where
  | terms (terms : List Term)
  | types (types : List TypeId)
  | exprs (exprs : List ExprId)
  deriving DecidableEq

def StmtKind.statements : StmtKind → List StmtId
  | .block _ body => body.toList
  | _ => []

def ExprKind.list? : ExprKind → Option ExprListId
  | .call _ args => some args
  | .newExpr _ args => args
  | .initializerList elements => some elements
  | _ => none

def NameNode.list? (node : NameNode) : Option ListRef := node.kind.list?.map .terms

def TypeNode.list? (node : TypeNode) : Option ListRef := node.kind.list?.map .types

def ExprNode.list? (node : ExprNode) : Option ListRef := node.kind.list?.map .exprs

def DeclNode.list? (node : DeclNode) : Option ListRef := node.kind.args?.map .terms

namespace NameTable

theorem canonical_terms {names after : NameTable} {kind : NameKind} {id : NameId} {census counted : Census}
    (given : names.canonical kind census = .ok (id, after, counted)) : after.terms = names.terms := by
  obtain ⟨_, -, equal⟩ := Checked.bind_eq_ok.mp given
  cases equal
  rfl

end NameTable

namespace ExprTable

variable {exprs after : ExprTable} {id : ExprId} {type : TypeId} {census counted : Census}

theorem literal_lists {text : Symbol} (given : exprs.literal type text census = .ok (id, after, counted)) :
    after.lists = exprs.lists := by
  obtain ⟨_, -, equal⟩ := Checked.bind_eq_ok.mp given
  cases equal
  rfl

theorem fresh_parts {kind : ExprKind} {type : Option TypeId}
    (given : exprs.fresh kind type census = .ok (id, after, counted)) :
    ∃ number nodes, exprs.nodes.push ⟨number, kind, type⟩ = .ok (id, nodes) ∧
      after = { exprs with nodes } := by
  obtain ⟨⟨_, nodes, _⟩, made, equal⟩ := Checked.bind_eq_ok.mp given
  cases equal
  obtain ⟨number, pushed⟩ := push_eq_ok made
  exact ⟨number, nodes, pushed, rfl⟩

end ExprTable

namespace Program

variable {program middle after : Program}

/-- The entries of a list, in the order they came. -/
def entries (program : Program) : (list : SideList) → List list.Entry
  | .bases type => program.bases type
  | .directives region => program.regions.listAt (·.directives.toList) region
  | .body block => program.stmts.listAt (·.kind.statements) block

/-- What a list that is kept reads as. -/
def listItems (program : Program) : ListRef → Checked ListItems
  | .terms list => return .terms (← program.termList list)
  | .types list => return .types (← program.typeList list)
  | .exprs list => return .exprs (← program.exprList list)

/-- The list that a node holds. -/
def storedList (program : Program) : NodeRef → Option ListRef
  | .name id => (program.nameNode id).toOption.bind NameNode.list?
  | .type id => (program.typeNode id).toOption.bind TypeNode.list?
  | .expr id => (program.exprNode id).toOption.bind ExprNode.list?
  | .decl id => (program.declNode id).toOption.bind DeclNode.list?
  | .stmt _ | .directive _ => none

section Stored

variable {list : ListRef}

theorem storedList_name {id : NameId} :
    program.storedList (.name id) = some list ↔ program.names.nodes.Shows NameNode.list? list id := by
  simp only [storedList, bind_toOption, nameNode, Slab.get_eq_ok, Slab.Shows]

/-- Shared types are made of no list. -/
theorem storedList_type {id : TypeId} :
    program.storedList (.type id) = some list ↔ program.types.nodes.Shows TypeNode.list? list id := by
  refine bind_toOption.trans (exists_congr fun node => and_congr_left fun held => ?_)
  refine TypeTable.get_eq_ok.trans (or_iff_right ?_)
  rintro ⟨_, -, rfl⟩
  cases held

theorem storedList_expr {id : ExprId} :
    program.storedList (.expr id) = some list ↔ program.exprs.nodes.Shows ExprNode.list? list id := by
  refine bind_toOption.trans (exists_congr fun node => and_congr_left fun held => ?_)
  refine ExprTable.get_eq_ok.trans (or_iff_right fun shared => ?_)
  have unlisted : ∀ node ∈ sharedExprs, node.list? = none := by decide
  cases (unlisted node (List.mem_of_getElem? shared)).symm.trans held

theorem storedList_decl {id : DeclId} :
    program.storedList (.decl id) = some list ↔ program.decls.nodes.Shows DeclNode.list? list id := by
  simp only [storedList, bind_toOption, declNode, Slab.get_eq_ok, Slab.Shows]

end Stored

/-- No list gets an entry, and none reads otherwise. -/
structure Still (program after : Program) : Prop where
  bases : after.types.bases = program.types.bases
  directives : ∀ region, after.entries (.directives region) = program.entries (.directives region)
  bodies : ∀ block, after.entries (.body block) = program.entries (.body block)
  terms : after.names.terms = program.names.terms
  types : after.types.lists = program.types.lists
  exprs : after.exprs.lists = program.exprs.lists

theorem Still.refl (program : Program) : program.Still program :=
  ⟨rfl, fun _ => rfl, fun _ => rfl, rfl, rfl, rfl⟩

/-- Besides, a node holds a list that is `new`, or one that it held before. -/
structure Stays (new : ListRef → Prop) (program after : Program) : Prop extends program.Still after where
  stored : ∀ {ref list}, after.storedList ref = some list → program.storedList ref = some list ∨ new list

namespace Stays

variable {new : ListRef → Prop}

theorem refl (program : Program) : program.Stays new program := ⟨.refl program, .inl⟩

theorem trans (earlier : Stays new program middle) (later : Stays new middle after) :
    Stays new program after where
  bases := later.bases.trans earlier.bases
  directives region := (later.directives region).trans (earlier.directives region)
  bodies block := (later.bodies block).trans (earlier.bodies block)
  terms := later.terms.trans earlier.terms
  types := later.types.trans earlier.types
  exprs := later.exprs.trans earlier.exprs
  stored held := (later.stored held).elim earlier.stored .inr

theorem mono {more : ListRef → Prop} (stays : Stays new program after)
    (implies : ∀ {list}, new list → more list) : Stays more program after :=
  { stays with stored := fun held => (stays.stored held).imp_right implies }

theorem entries (stays : Stays new program after) (list : SideList) :
    after.entries list = program.entries list := by
  cases list with
  | bases type =>
    change after.types.basesOf type = program.types.basesOf type
    rw [TypeTable.basesOf, TypeTable.basesOf, stays.bases]
  | directives region => exact stays.directives region
  | body block => exact stays.bodies block

theorem listItems (stays : Stays new program after) (list : ListRef) :
    after.listItems list = program.listItems list := by
  cases list with
  | terms list => simp only [Program.listItems, termList, NameTable.termList, stays.terms]
  | types list => simp only [Program.listItems, typeList, TypeTable.list, stays.types]
  | exprs list => simp only [Program.listItems, exprList, stays.exprs]

end Stays

end Program

/-- Wherever the edit starts, all lists stay. -/
def Edit.Silent (edit : Edit α) : Prop :=
  ∀ program : Program, edit.Ends (program.Stays fun _ => False) program

def Build.Silent (build : Build α) : Prop :=
  ∀ program : Program, build.Ends (program.Stays fun _ => False) program

theorem Edit.silent_pure (value : α) : (pure value : Edit α).Silent := fun program =>
  ends_pure (.refl program) value

theorem Edit.silent_bind {first : Edit α} {next : α → Edit β} (starts : first.Silent)
    (goes : ∀ value, (next value).Silent) : (first >>= next).Silent := fun program =>
  ends_bind fun performed _ _ rest => (starts program performed).trans (goes _ _ rest)

theorem Build.silent_edit {edit : Edit α} (silent : edit.Silent) : (liftM edit : Build α).Silent :=
  fun program => ends_edit (silent program)

theorem DeclKind.Fills.args? {old new : DeclKind} (filled : old.Fills new) : new.args? = old.args? := by
  cases filled <;> rfl

namespace Program

variable {program after : Program}

/-! ### Texts, names, types and expressions -/

theorem intern_silent {bytes : Bytes} : (intern bytes).Silent := by
  intro program
  apply Build.ends_get_bind
  apply Build.ends_check_bind
  intro outcome _
  cases outcome with
  | error error => exact Build.ends_throw (.refl program) _
  | ok result =>
    intro value after given
    cases given
    exact { Stays.refl program with }

theorem internText_silent {text : String} : (internText text).Silent := by
  intro program symbol after given
  obtain ⟨⟨_, strings⟩, -, equal⟩ := Checked.bind_eq_ok.mp given
  cases equal
  exact { Stays.refl program with }

/-- A new name holds the list that it was asked for with. -/
theorem nameOf_stays {kind : NameKind} :
    (nameOf kind).Ends (program.Stays (kind.list?.map .terms = some ·)) program := by
  intro id after given
  obtain ⟨names, census, made, rfl⟩ := nameOf_eq_ok.mp given
  refine { Still.refl program with terms := NameTable.canonical_terms made, stored := fun {ref _} held => ?_ }
  cases ref with
  | name other =>
    rcases NameTable.canonical_cases made with ⟨rfl, -⟩ | ⟨_, ⟨_, _, -, pushed⟩, -⟩
    · exact .inl held
    · exact ((Slab.shows_push pushed).mp (storedList_name.mp held)).imp storedList_name.mpr And.right
  | _ => exact .inl held

theorem nameOf_silent {kind : NameKind} (unlisted : kind.list? = none) : (nameOf kind).Silent := by
  intro program id after given
  exact (nameOf_stays given).mono fun refers => by simp [unlisted] at refers

theorem typeOf_stays {kind : TypeKind} (structural : kind.IsStructural) :
    (typeOf kind).Ends (program.Stays (kind.list?.map .types = some ·)) program := by
  intro id after given
  obtain ⟨types, census, made, rfl⟩ := typeOf_eq_ok.mp given
  refine { Still.refl program with
    bases := bases_canonical structural made
    types := TypeTable.canonical_lists structural made
    stored := fun {ref _} held => ?_ }
  cases ref with
  | type other =>
    rcases TypeTable.canonical_cases structural.2 made with ⟨rfl, -⟩ | ⟨_, ⟨_, _, -, pushed⟩, -⟩
    · exact .inl held
    · exact ((Slab.shows_push pushed).mp (storedList_type.mp held)).imp storedList_type.mpr And.right
  | _ => exact .inl held

theorem typeOf_silent {kind : TypeKind} (structural : kind.IsStructural) (unlisted : kind.list? = none) :
    (typeOf kind).Silent := by
  intro program id after given
  exact (typeOf_stays structural given).mono fun refers => by simp [unlisted] at refers

theorem simpleType_silent {kind : TypeKind} (simple : kind.isSimple) : (typeOf kind).Silent :=
  typeOf_silent (TypeKind.structural_of_isSimple simple) (TypeKind.list?_of_isSimple simple)

theorem qualified_silent {qualifiers : Qualifiers} {main : TypeId} : (qualified qualifiers main).Silent := by
  intro program
  rw [qualified_eq]
  split
  · refine Build.ends_bind (fun given => ?_) fun given => nomatch given
    cases given
    exact .refl program
  · apply Build.ends_get_bind
    apply Build.ends_check_bind
    intro node _
    exact Build.silent_edit (typeOf_silent (TypeKind.structural_qualifiedWith ..)
      (TypeKind.list?_qualifiedWith ..)) program

theorem exprOf_stays {kind : ExprKind} {type : Option TypeId} :
    (exprOf kind type).Ends (program.Stays (kind.list?.map .exprs = some ·)) program := by
  intro id after given
  obtain ⟨⟨_, exprs, census⟩, made, equal⟩ := Checked.bind_eq_ok.mp given
  cases equal
  obtain ⟨number, nodes, pushed, rfl⟩ := ExprTable.fresh_parts made
  refine { Still.refl program with stored := fun {ref _} held => ?_ }
  cases ref with
  | expr other =>
    exact ((Slab.shows_push pushed).mp (storedList_expr.mp held)).imp storedList_expr.mpr And.right
  | _ => exact .inl held

theorem exprOf_silent {kind : ExprKind} {type : Option TypeId} (unlisted : kind.list? = none) :
    (exprOf kind type).Silent := by
  intro program id after given
  exact (exprOf_stays given).mono fun refers => by simp [unlisted] at refers

theorem literal_silent {type : TypeId} {text : Symbol} : (literal type text).Silent := by
  intro program id after given
  obtain ⟨exprs, census, made, rfl⟩ := literal_eq_ok.mp given
  refine { Still.refl program with
    exprs := ExprTable.literal_lists made
    stored := fun {ref _} held => .inl ?_ }
  cases ref with
  | expr other =>
    rcases ExprTable.literal_cases made with ⟨rfl, -⟩ | ⟨_, ⟨_, _, -, pushed⟩, -⟩
    · exact held
    rcases (Slab.shows_push pushed).mp (storedList_expr.mp held) with former | ⟨-, impossible⟩
    · exact storedList_expr.mpr former
    · cases impossible
  | _ => exact held

theorem idExpr_silent {name : NameId} {decl : Option DeclId} : (idExpr name decl).Silent := by
  unfold idExpr
  cases decl with
  | none => exact exprOf_silent rfl
  | some decl =>
    intro program
    apply Edit.ends_get_bind
    apply Edit.ends_check_bind
    intro _ _
    exact exprOf_silent rfl program

theorem newExpr_silent {type : TypeId} : (newExpr type none).Silent := by
  have made : Edit.Silent (do
      let pointer ← typeOf (.pointer type)
      exprOf (.newExpr type none) (some pointer)) :=
    Edit.silent_bind (simpleType_silent rfl) fun _ => exprOf_silent rfl
  exact made

theorem paren_silent {inner : ExprId} : (paren inner).Silent :=
  fun program => Edit.ends_get_bind (Edit.ends_check_bind fun _ => exprOf_silent rfl program)

/-! ### Regions and statements -/

theorem newRegion_silent {parent : Option RegionId} : (newRegion parent).Silent := by
  intro program id after given
  obtain ⟨scope, scopes, depth, regions, -, -, -, made, rfl⟩ := newRegion_eq_ok given
  exact { Stays.refl program with directives := Slab.listAt_push made rfl }

theorem setRegionOwner_silent {region : RegionId} {owner : RegionOwner} :
    (setRegionOwner region owner).Silent := by
  intro program outcome after given
  rcases setRegionOwner_cases given with ⟨-, rfl⟩ | ⟨entry, regions, -, -, changed, -, rfl⟩
  · exact .refl after
  · exact { Stays.refl program with directives := Slab.listAt_modify changed fun _ => rfl }

theorem ownRegion_silent {region : RegionId} {owner : RegionOwner} : (ownRegion region owner).Silent :=
  Edit.silent_bind setRegionOwner_silent fun _ => Edit.silent_pure _

theorem newOwningType_silent {kind : TypeKind} {region : RegionId} (unlisted : kind.list? = none) :
    (newOwningType kind region).Silent := by
  intro program type after given
  obtain ⟨⟨⟨_, types, census⟩, opened⟩, first, given⟩ := Checked.bind_eq_ok.mp given
  obtain ⟨made, rfl⟩ := Edit.run_check.mp first
  obtain ⟨⟨_, _⟩, owned, equal⟩ := Checked.bind_eq_ok.mp given
  cases equal
  refine Stays.trans ?_ (ownRegion_silent _ owned)
  obtain ⟨⟨_, nodes, _⟩, made, equal⟩ := Checked.bind_eq_ok.mp made
  cases equal
  obtain ⟨number, pushed⟩ := TypeTable.push_eq_ok made
  refine { Still.refl opened with stored := fun {ref _} held => .inl ?_ }
  cases ref with
  | type other =>
    rcases (Slab.shows_push pushed).mp (storedList_type.mp held) with former | ⟨-, impossible⟩
    · exact storedList_type.mpr former
    · simp [TypeNode.list?, unlisted] at impossible
  | _ => exact held

theorem newUserType_silent {kind : RegionId → TypeKind} {parent : RegionId}
    (unlisted : ∀ region, (kind region).list? = none) : (newUserType kind parent).Silent :=
  Edit.silent_bind newRegion_silent fun region => newOwningType_silent (unlisted region)

theorem stmtOf_silent {kind : StmtKind} (empty : kind.statements = []) : (stmtOf kind).Silent := by
  intro program id after given
  obtain ⟨number, census, stmts, -, made, rfl⟩ := stmtOf_eq_ok given
  exact { Stays.refl program with bodies := Slab.listAt_push made empty }

theorem newBlock_silent {parent : RegionId} : (newBlock parent).Silent :=
  Edit.silent_bind newRegion_silent fun _ => Edit.silent_bind (stmtOf_silent rfl) fun _ =>
    Edit.silent_bind ownRegion_silent fun _ => Edit.silent_pure _

/-! ### Fields that are filled -/

theorem setUnderlyingType_silent {enumType underlying : TypeId} :
    (setUnderlyingType enumType underlying).Silent := by
  intro program
  apply Build.ends_get_bind
  split
  next region old found =>
    refine Build.ends_settle_bind (.refl program) fun _ => ?_
    apply Build.ends_check_bind
    intro nodes changed
    refine Build.ends_set { Still.refl program with stored := fun {ref _} held => .inl ?_ }
    cases ref with
    | type other =>
      rw [storedList_type] at held ⊢
      refine (Slab.shows_modify changed fun item present => ?_).mp held
      cases found.symm.trans present
      rfl
    | _ => exact held
  · exact Build.ends_throw (.refl program) _

theorem setExprType_silent {expr : ExprId} {type : TypeId} : (setExprType expr type).Silent := by
  intro program
  apply Build.ends_get_bind
  split
  · refine Build.ends_settle_bind (.refl program) fun _ => ?_
    apply Build.ends_check_bind
    intro nodes changed
    refine Build.ends_set { Still.refl program with stored := fun {ref _} held => .inl ?_ }
    cases ref with
    | expr other =>
      rw [storedList_expr] at held ⊢
      exact (Slab.shows_modify changed fun _ _ => rfl).mp held
    | _ => exact held
  · exact Build.ends_throw (.refl program) _

/-- A template keeps the arguments that it was made for. -/
theorem refill_silent {decl : DeclId} {change : DeclKind → Except BuildError DeclKind}
    (fills : ∀ {old new}, change old = .ok new → old.Fills new) : (refill decl change).Silent := by
  intro program
  apply Build.ends_get_bind
  apply Build.ends_check_bind
  intro former found
  refine Build.ends_settle_bind (.refl program) fun allowed => ?_
  apply Build.ends_check_bind
  intro nodes changed
  refine Build.ends_set { Still.refl program with stored := fun {ref _} held => .inl ?_ }
  cases ref with
  | decl other =>
    rw [storedList_decl] at held ⊢
    refine (Slab.shows_modify changed fun item present => ?_).mp held
    cases (Slab.get_eq_ok.mp found).symm.trans present
    exact congrArg (Option.map _) (fills allowed).args?
  | _ => exact held

theorem setTypeDefinition_silent {decl : DeclId} {type : TypeId} : (setTypeDefinition decl type).Silent := by
  obtain ⟨change, equal, fills⟩ := setTypeDefinition_fills decl type
  rw [equal]
  intro program
  apply Build.ends_get_bind
  apply Build.ends_check_bind
  intro _ _
  split
  · refine Build.ends_bind (fun given => ?_) fun given => nomatch given
    cases given
    exact .refl program
  · exact refill_silent (fun allowed => (fills allowed).fills) program

/-! ### Declarations -/

section Declarations

variable {new : ListRef → Prop} {region : RegionId} {name : NameId} {type : TypeId}
  {specifiers : Specifiers}

theorem parameterRegion_silent {decl : DeclId} : (parameterRegion region decl).Silent :=
  Edit.silent_bind newRegion_silent fun _ => Edit.silent_bind ownRegion_silent fun _ => Edit.silent_pure _

/-- A declaration holds the list that what it is made of holds. -/
theorem declare_stays {category : Category} {make : DeclId → Option DeclId → Edit DeclKind}
    (makes : ∀ {id master kind prepared}, (make id master).run program = .ok (kind, prepared) →
      program.Stays new prepared ∧ ∀ list, kind.args? = some list → new (.terms list)) :
    (declare region name type specifiers category make).Ends (program.Stays new) program := by
  unfold declare
  split
  · refine Build.ends_bind (fun given => ?_) fun given => nomatch given
    cases given
    exact .refl program
  refine Build.ends_get_bind (Build.ends_check_bind fun _ => ?_)
  refine Build.ends_get_bind (Build.ends_check_bind fun _ => ?_)
  refine Build.ends_settle_bind (.refl program) fun _ => Build.ends_get_bind (Build.ends_check_bind fun _ => ?_)
  refine Build.ends_edit_bind fun {kind prepared} made => ?_
  obtain ⟨prepares, holds⟩ := makes made
  refine Build.ends_edit_bind fun {position _} joined => Build.ends_edit_bind fun numbered =>
    Build.ends_edit fun id after newest => ?_
  obtain ⟨bound, chains, decls, -, appended, rfl⟩ := joinChain_eq_ok.mp joined
  obtain ⟨census, -, rfl⟩ := enrollNode_eq_ok.mp numbered
  obtain ⟨nodes, scopes, pushed, -, rfl⟩ := pushDecl_eq_ok.mp newest
  refine prepares.trans { Still.refl prepared with stored := fun {ref _} held => ?_ }
  cases ref with
  | decl other =>
    rcases (Slab.shows_push pushed).mp (storedList_decl.mp held) with former | ⟨-, refers⟩
    · rw [appendToChain_nodes appended] at former
      exact .inl (storedList_decl.mpr former)
    · obtain ⟨list, applied, rfl⟩ := Option.map_eq_some_iff.mp refers
      exact .inr (holds list applied)
  | _ => exact .inl held

theorem declare_silent {category : Category} {make : DeclId → Option DeclId → Edit DeclKind}
    (silent : ∀ id master, (make id master).Silent)
    (bare : ∀ {program : Program} {id master kind prepared},
      (make id master).run program = .ok (kind, prepared) → kind.args? = none) :
    (declare region name type specifiers category make).Silent := fun program =>
  declare_stays fun made => ⟨silent _ _ program made, fun _ applied => nomatch (bare made).symm.trans applied⟩

theorem declareWith_silent {kind : DeclKind} (bare : kind.args? = none) :
    (declareWith region name type specifiers kind).Silent := by
  refine declare_silent (fun _ _ => Edit.silent_pure kind) fun given => ?_
  cases given
  exact bare

theorem parametrized_silent {decl : DeclId} {kind : RegionId → DeclKind} :
    (do return kind (← parameterRegion region decl) : Edit DeclKind).Silent :=
  Edit.silent_bind parameterRegion_silent fun _ => Edit.silent_pure _

theorem declareFunction_silent : (declareFunction region name type specifiers).Silent := by
  refine declare_silent (fun _ _ => parametrized_silent) fun given => ?_
  obtain ⟨parameters, rfl⟩ := parametrized_eq_ok given
  rfl

theorem declareTemplate_silent : (declareTemplate region name type specifiers).Silent := by
  refine declare_silent (fun _ _ => parametrized_silent) fun given => ?_
  obtain ⟨parameters, rfl⟩ := parametrized_eq_ok given
  rfl

theorem declareParameter_silent {function : DeclId} : (declareParameter function name type).Silent := by
  intro program
  apply Build.ends_get_bind
  apply Build.ends_check_bind
  intro _ _
  split
  · refine Build.ends_check_bind fun _ => Build.ends_check_bind fun _ => Build.ends_check_bind fun _ => ?_
    exact declareWith_silent rfl program
  · exact Build.ends_throw (.refl program) _

theorem declareEnumerator_silent {enumType : TypeId} {value : Option ExprId} :
    (declareEnumerator enumType name value).Silent := by
  intro program
  apply Build.ends_get_bind
  apply Build.ends_check_bind
  intro _ _
  split
  · exact declareWith_silent rfl program
  · exact Build.ends_throw (.refl program) _

end Declarations

end Program

end CanonIR
