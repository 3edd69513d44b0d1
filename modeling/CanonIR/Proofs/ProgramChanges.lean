import CanonIR.Proofs.NodeOperands
import CanonIR.Proofs.Storage
import Mathlib.Logic.Relation

/-! What can be done to a program. There are few kinds of change, each with its
condition, and an invariant is proved one change at a time. The handles that go into new
nodes are `known` or were issued a moment ago, and only known nodes are filled; where
nothing is said about handles, all of them are known. `Ends` says where a program of steps
can lead, and `Moves` that it does nothing but changes; their laws follow the steps. -/

namespace CanonIR

variable {α β : Type}

/-- Kinds that are made of handles alone. -/
def TypeKind.isSimple : TypeKind → Bool
  | .pointer _ | .reference _ | .rvalueReference _ | .array .. | .function .. | .pointerToMember ..
  | .template .. | .decltype _ | .named _ => true
  | _ => false

/-- The kind of `main` with more qualifiers, where `kind` is the kind of `main` itself. -/
def TypeKind.qualifiedWith (qualifiers : Qualifiers) (main : TypeId) (kind : TypeKind) : TypeKind :=
  match kind with
  | .qualified inner main => .qualified (qualifiers.union inner) main
  | _ => .qualified qualifiers main

def NameKind.isSimple : NameKind → Bool
  | .templateId .. => false
  | _ => true

/-- A field that was empty is filled. -/
inductive DeclKind.Fills : DeclKind → DeclKind → Prop where
  | var (value : ExprId) : Fills (.var none) (.var (some value))
  | field (value : ExprId) : Fills (.field none) (.field (some value))
  | bitfield (width value : ExprId) : Fills (.bitfield width none) (.bitfield width (some value))
  | parameter (position : Nat) (value : ExprId) :
      Fills (.parameter position none) (.parameter position (some value))
  | enumerator (value : ExprId) : Fills (.enumerator none) (.enumerator (some value))
  | alias (type : TypeId) : Fills (.alias none) (.alias (some type))
  | function (parameters : RegionId) (body : StmtId) :
      Fills (.function parameters none) (.function parameters (some body))
  | typeDecl (type : TypeId) : Fills (.typeDecl none) (.typeDecl (some type))
  | template (parameters : RegionId) (pattern primary : DeclId) (args : Option TermListId) :
      Fills (.template parameters none primary args) (.template parameters (some pattern) primary args)

theorem DeclKind.Fills.category {old new : DeclKind} (filled : old.Fills new) :
    new.category = old.category := by
  cases filled <;> rfl

/-- The request fills a field of the declaration `decl`, which it names. Five kinds of
declarations have an initializer, whatever it is called there. -/
inductive Request.Fills (decl : DeclId) : Request → DeclKind → DeclKind → Prop where
  | var (value : ExprId) : Fills decl (.setInitializer decl value) (.var none) (.var (some value))
  | field (value : ExprId) : Fills decl (.setInitializer decl value) (.field none) (.field (some value))
  | bitfield (width value : ExprId) :
      Fills decl (.setInitializer decl value) (.bitfield width none) (.bitfield width (some value))
  | parameter (position : Nat) (value : ExprId) :
      Fills decl (.setInitializer decl value) (.parameter position none) (.parameter position (some value))
  | enumerator (value : ExprId) :
      Fills decl (.setInitializer decl value) (.enumerator none) (.enumerator (some value))
  | alias (type : TypeId) : Fills decl (.setAliasee decl type) (.alias none) (.alias (some type))
  | function (parameters : RegionId) (body : StmtId) :
      Fills decl (.setFunctionBody decl body) (.function parameters none) (.function parameters (some body))
  | typeDecl (type : TypeId) :
      Fills decl (.setTypeDefinition decl type) (.typeDecl none) (.typeDecl (some type))
  | template (parameters : RegionId) (pattern primary : DeclId) (args : Option TermListId) :
      Fills decl (.setTemplatePattern decl pattern) (.template parameters none primary args)
        (.template parameters (some pattern) primary args)

theorem Request.Fills.fills {decl : DeclId} {request : Request} {old new : DeclKind}
    (filled : request.Fills decl old new) : old.Fills new := by
  cases filled <;> constructor

namespace Program

/-- A node that may go into a new one. -/
def Usable (known : Answer → Prop) (program : Program) (ref : NodeRef) : Prop :=
  known (.node ref) ∨ program.issued (.node ref)

/-- Where a new expression can have its type from: a declaration or another expression. -/
inductive Offers (program : Program) (type : TypeId) : Prop where
  | declared {id : DeclId} {node : DeclNode} (found : program.declNode id = .ok node)
      (same : node.type = type)
  | inner {id : ExprId} {node : ExprNode} (found : program.exprNode id = .ok node)
      (same : node.type = some type)

/-- The terms in the list are `known`. That they can be read is said only where `known` says
anything. -/
def Listed (known : Answer → Prop) (program : Program) (list : TermListId) : Prop :=
  (∀ handle, known handle) ∨
    ∃ terms, program.termList list = .ok terms ∧ ∀ term ∈ terms, known (.term term)

/-- The region has the owner. -/
def Owned (program : Program) (region : RegionId) (owner : RegionOwner) : Prop :=
  ∃ entry, program.regions.get? region = some entry ∧ entry.owner = some owner

inductive Change (known : Answer → Prop) (program : Program) : Program → Prop where
  | strings {bytes : Bytes} {symbol : Symbol} {strings : SymbolPool}
      (interned : program.strings.intern bytes = .ok (.ok (symbol, strings))) :
      Change known program { program with strings }
  | name {kind : NameKind} {id : NameId} {names : NameTable} {census : Census}
      (simple : kind.isSimple) (uses : ∀ handle ∈ kind.handles, known handle)
      (given : program.names.canonical kind program.census = .ok (id, names, census)) :
      Change known program { program with names, census }
  | terms {terms : List Term} {list : TermListId} {names : NameTable}
      (kept : program.names.keepTerms terms = .ok (list, names)) :
      Change known program { program with names }
  -- The list of a template-id is kept right before the name is asked for.
  | templateId {template : NameId} {args : List Term} {list : TermListId} {id : NameId}
      {listed names : NameTable} {census : Census}
      (uses : ∀ handle ∈ .name template :: args.map .term, known handle)
      (kept : program.names.keepTerms args = .ok (list, listed))
      (given : listed.canonical (.templateId template list) program.census = .ok (id, names, census)) :
      Change known program { program with names, census }
  | simpleType {kind : TypeKind} {id : TypeId} {types : TypeTable} {census : Census}
      (simple : kind.isSimple) (uses : ∀ handle ∈ kind.handles, known handle)
      (given : program.types.canonical kind program.census = .ok (id, types, census)) :
      Change known program { program with types, census }
  | qualifiedType {qualifiers : Qualifiers} {main id : TypeId} {node : TypeNode} {types : TypeTable}
      {census : Census} (qualifying : qualifiers.isEmpty = false) (found : program.typeNode main = .ok node)
      (given : program.types.canonical (node.kind.qualifiedWith qualifiers main) program.census =
        .ok (id, types, census)) :
      Change known program { program with types, census }
  | product {members : List TypeId} {list : TypeListId} {id : TypeId} {listed types : TypeTable}
      {census : Census} (uses : ∀ handle ∈ members.map .type, known handle)
      (kept : program.types.keepList members = .ok (list, listed))
      (given : listed.canonical (.product list) program.census = .ok (id, types, census)) :
      Change known program { program with types, census }
  | sum {members : List TypeId} {list : TypeListId} {id : TypeId} {listed types : TypeTable}
      {census : Census} (uses : ∀ handle ∈ members.map .type, known handle)
      (kept : program.types.keepList (members.foldr insertAscending []) = .ok (list, listed))
      (given : listed.canonical (.sum list) program.census = .ok (id, types, census)) :
      Change known program { program with types, census }
  | userType {kind : TypeKind} {region : RegionId} {id : TypeId} {types : TypeTable} {census : Census}
      (owning : kind.region? = some region)
      (given : program.types.fresh kind program.census = .ok (id, types, census))
      (owned : program.Owned region (.type id)) (bare : kind.additions = []) :
      Change known program { program with types, census }
  | base {type base : TypeId} {node : TypeNode} {region : RegionId}
      (found : program.typeNode type = .ok node) (extensible : node.kind = .classType region)
      (uses : known (.type type) ∧ known (.type base)) :
      Change known program { program with types := program.types.addBase type base }
  | underlyingType {enumType underlying : TypeId} {number : NodeId} {region : RegionId}
      {nodes : Slab .type TypeNode}
      (found : program.types.nodes.get? enumType = some ⟨number, .enumType region none⟩)
      (changed : program.types.nodes.modify enumType
        ({ · with kind := .enumType region (some underlying) }) = .ok nodes)
      (uses : known (.type enumType) ∧ known (.type underlying)) :
      Change known program { program with types := { program.types with nodes } }
  | literal {type : TypeId} {text : Symbol} {id : ExprId} {exprs : ExprTable} {census : Census}
      (uses : ∀ handle ∈ [.type type, .symbol text], known handle)
      (given : program.exprs.literal type text program.census = .ok (id, exprs, census)) :
      Change known program { program with exprs, census }
  | expr {kind : ExprKind} {type : Option TypeId} {id : ExprId} {exprs : ExprTable} {census : Census}
      (distinct : kind.category ≠ .literal)
      (given : program.exprs.fresh kind type program.census = .ok (id, exprs, census))
      (uses : ∃ operands, program.exprOperands kind = .ok operands ∧
        ∀ ref ∈ operands, program.Usable known ref)
      (typed : ∀ given, type = some given → program.Usable known (.type given) ∨ program.Offers given) :
      Change known program { program with exprs, census }
  | exprs {members : List ExprId} {list : ExprListId} {exprs : ExprTable}
      (kept : program.exprs.keepList members = .ok (list, exprs)) :
      Change known program { program with exprs }
  | exprType {expr : ExprId} {type : TypeId} {node : ExprNode} {nodes : Slab .expr ExprNode}
      (found : program.exprs.nodes.get? expr = some node) (untyped : node.type = none)
      (changed : program.exprs.nodes.modify expr ({ · with type := some type }) = .ok nodes)
      (uses : known (.expr expr) ∧ known (.type type)) :
      Change known program { program with exprs := { program.exprs with nodes } }
  | region {parent : Option RegionId} {id : RegionId} {scope : ScopeId} {depth : Nat}
      {regions : Slab .region Region} {scopes : Slab .scope Scope}
      (opened : program.scopes.scopes.push { region := id } = .ok (scope, scopes))
      (outermost : parent = none → depth = 0 ∧ program.regions.size = 0)
      (inside : ∀ outer, parent = some outer →
        ∃ entry, program.regions.get outer = .ok entry ∧ depth = entry.depth + 1)
      (made : program.regions.push { parent, scope, depth } = .ok (id, regions)) :
      Change known program { program with regions, scopes := { program.scopes with scopes } }
  | regionOwner {region : RegionId} {owner : RegionOwner} {entry : Region}
      {regions : Slab .region Region} (found : program.regions.get region = .ok entry)
      (unowned : entry.owner = none)
      (changed : program.regions.modify region ({ · with owner := some owner }) = .ok regions) :
      Change known program { program with regions }
  | stmt {kind : StmtKind} {number : NodeId} {id : StmtId} {census : Census}
      {stmts : Slab .stmt StmtNode} (enrolled : program.census.enroll kind.category = .ok (number, census))
      (made : program.stmts.push ⟨number, kind⟩ = .ok (id, stmts))
      (owned : ∀ region, kind.region? = some region → program.Owned region (.stmt id))
      (uses : ∀ ref ∈ kind.operands ++ kind.additions, program.Usable known ref) :
      Change known program { program with stmts, census }
  | blockEnd {block stmt : StmtId} {node : StmtNode} {region : RegionId} {body : Array StmtId}
      {stmts : Slab .stmt StmtNode} (found : program.stmtNode block = .ok node)
      (unfinished : node.kind = .block region body)
      (changed : program.stmts.modify block ({ · with kind := .block region (body.push stmt) }) = .ok stmts)
      (uses : known (.stmt block) ∧ known (.stmt stmt)) :
      Change known program { program with stmts }
  | directive {region : RegionId} {kind : DirectiveKind} {number : NodeId} {id : DirectiveId}
      {census : Census} {directives : Slab .directive DirectiveNode} {regions : Slab .region Region}
      (enrolled : program.census.enroll kind.category = .ok (number, census))
      (made : program.directives.push ⟨number, region, kind⟩ = .ok (id, directives))
      (changed : program.regions.modify region
        (fun entry => { entry with directives := entry.directives.push id }) = .ok regions)
      (uses : ∀ ref ∈ kind.operands, program.Usable known ref) :
      Change known program { program with directives, regions, census }
  -- A name that is not known was made a moment ago. The master is looked up before the
  -- declaration joins its chain.
  | decl {region : Region} {master : Option DeclId} (node : DeclNode) {id : DeclId}
      {chains : Slab .chain (Array DeclId)} {bound scopes : ScopeTable} {joined : DeclTable}
      {nodes : Slab .decl DeclNode} {census : Census}
      (named : known (.name node.name) ∨ program.issued (.name node.name))
      (home : program.region node.home = .ok region)
      (agreed : program.joinedMaster node.home node.name node.type node.category = .ok (.ok master))
      (mastered : node.master = master.getD id)
      (chained : program.scopes.bind region.scope node.name node.type (Slab.push #[])
        program.decls.chains = .ok (node.chain, bound, chains))
      (appended : { program.decls with chains }.appendToChain node.chain id = .ok (node.position, joined))
      (enrolled : program.census.enroll node.category = .ok (node.id, census))
      (made : joined.nodes.push node = .ok (id, nodes))
      (listed : bound.pushMember region.scope id = .ok scopes)
      (owned : ∀ parameters, node.kind.parameters? = some parameters →
        program.Owned parameters (.decl id) ∧
          ∃ entry, program.regions.get? parameters = some entry ∧ entry.parent = some node.home)
      (uses : ∀ ref ∈ .type node.type :: (node.kind.operands ++ node.kind.additions),
        ref = .decl id ∧ master = none ∨ program.Usable known ref)
      (applied : ∀ list, node.kind.args? = some list → program.Listed known list) :
      Change known program { program with decls := { joined with nodes }, scopes, census }
  | refill {decl : DeclId} {node : DeclNode} {kind : DeclKind} {nodes : Slab .decl DeclNode}
      (found : program.declNode decl = .ok node) (filled : node.kind.Fills kind)
      (changed : program.decls.nodes.modify decl ({ · with kind }) = .ok nodes)
      (uses : known (.decl decl) ∧ ∀ ref ∈ kind.additions, known (.node ref)) :
      Change known program { program with decls := { program.decls with nodes } }
  | specialization {primary decl : DeclId} :
      Change known program { program with decls := program.decls.listSpecialization primary decl }

def Reaches (known : Answer → Prop) : Program → Program → Prop := Relation.ReflTransGen (Change known)

variable {known : Answer → Prop}

theorem Reaches.refl (program : Program) : program.Reaches known program :=
  Relation.ReflTransGen.refl

theorem Reaches.trans {first second third : Program} (earlier : first.Reaches known second)
    (later : second.Reaches known third) : first.Reaches known third :=
  Relation.ReflTransGen.trans earlier later

theorem Change.reaches {program after : Program} (change : program.Change known after) :
    program.Reaches known after :=
  Relation.ReflTransGen.single change

end Program

/-! ### Programs of steps -/

/-- Started on `program`, the edit ends nowhere but in such programs. -/
def Edit.Ends (edit : Edit α) (into : Program → Prop) (program : Program) : Prop :=
  ∀ ⦃value after⦄, edit.run program = .ok (value, after) → into after

/-- That holds whether or not the request is turned down. -/
def Build.Ends (build : Build α) (into : Program → Prop) (program : Program) : Prop :=
  Edit.Ends build.run into program

/-- Started on `program`, the edit leads nowhere but where changes lead. -/
def Edit.Moves (edit : Edit α) (known : Answer → Prop) (program : Program) : Prop :=
  ∀ ⦃value after⦄, edit.run program = .ok (value, after) → program.Reaches known after

def Build.Moves (build : Build α) (known : Answer → Prop) (program : Program) : Prop :=
  Edit.Moves build.run known program

variable {known : Answer → Prop} {into : Program → Prop} {program : Program}

namespace Edit

theorem ends_pure (here : into program) (value : α) : (pure value : Edit α).Ends into program := by
  intro result after given
  cases given
  exact here

theorem ends_bind {first : Edit α} {next : α → Edit β}
    (goes : ∀ {value middle}, first.run program = .ok (value, middle) → (next value).Ends into middle) :
    (first >>= next).Ends into program := by
  intro result after given
  obtain ⟨⟨value, middle⟩, performed, rest⟩ := Checked.bind_eq_ok.mp given
  exact goes performed rest

theorem ends_get_bind {next : Program → Edit α} (goes : (next program).Ends into program) :
    (get >>= next).Ends into program :=
  goes

theorem run_check {checked : Checked α} {value : α} {after : Program} :
    (liftM checked : Edit α).run program = .ok (value, after) ↔ checked = .ok value ∧ after = program := by
  apply Checked.bind_eq_ok.trans
  constructor
  · intro ⟨_, given, equal⟩
    cases equal
    exact ⟨given, rfl⟩
  · intro ⟨given, same⟩
    subst same
    exact ⟨value, given, rfl⟩

theorem ends_check_bind {checked : Checked α} {next : α → Edit β}
    (goes : ∀ {value}, checked = .ok value → (next value).Ends into program) :
    ((liftM checked : Edit α) >>= next).Ends into program := by
  apply ends_bind
  intro value middle read
  obtain ⟨found, rfl⟩ := run_check.mp read
  exact goes found

theorem moves_pure (value : α) : (pure value : Edit α).Moves known program :=
  ends_pure (.refl program) value

theorem moves_bind {first : Edit α} {next : α → Edit β} (starts : first.Moves known program)
    (goes : ∀ {value middle}, first.run program = .ok (value, middle) → (next value).Moves known middle) :
    (first >>= next).Moves known program :=
  ends_bind fun performed _ _ rest => (starts performed).trans (goes performed rest)

theorem get_bind {next : Program → Edit α} (goes : (next program).Moves known program) :
    (get >>= next).Moves known program :=
  ends_get_bind goes

theorem check_bind {checked : Checked α} {next : α → Edit β}
    (goes : ∀ {value}, checked = .ok value → (next value).Moves known program) :
    ((liftM checked : Edit α) >>= next).Moves known program :=
  ends_check_bind goes

end Edit

namespace Build

theorem ends_pure (here : into program) (value : α) : (pure value : Build α).Ends into program :=
  Edit.ends_pure here (Except.ok value)

theorem ends_throw (here : into program) (error : BuildError) :
    (throw error : Build α).Ends into program :=
  Edit.ends_pure here (Except.error error)

theorem ends_set {after : Program} (there : into after) : (set after : Build Unit).Ends into program := by
  intro outcome final given
  cases given
  exact there

theorem run_bind_cases {first : Build α} {next : α → Build β} {outcome : Except BuildError β}
    {after : Program} (given : (first >>= next).run.run program = .ok (outcome, after)) :
    (∃ error, first.run.run program = .ok (.error error, after) ∧ outcome = .error error) ∨
      ∃ value middle, first.run.run program = .ok (.ok value, middle) ∧
        (next value).run.run middle = .ok (outcome, after) := by
  obtain ⟨⟨result, middle⟩, performed, rest⟩ := Checked.bind_eq_ok.mp given
  cases result with
  | error error =>
    cases rest
    exact .inl ⟨error, performed, rfl⟩
  | ok value => exact .inr ⟨value, middle, performed, rest⟩

theorem ends_bind {first : Build α} {next : α → Build β}
    (stops : ∀ {error middle}, first.run.run program = .ok (.error error, middle) → into middle)
    (goes : ∀ {value middle}, first.run.run program = .ok (.ok value, middle) →
      (next value).Ends into middle) :
    (first >>= next).Ends into program := by
  intro outcome after given
  rcases run_bind_cases given with ⟨error, stopped, -⟩ | ⟨value, middle, performed, rest⟩
  · exact stops stopped
  · exact goes performed rest

/-- An edit is a request that is never turned down. -/
theorem run_edit {edit : Edit α} {outcome : Except BuildError α} {after : Program} :
    (liftM edit : Build α).run.run program = .ok (outcome, after) ↔
      ∃ value, edit.run program = .ok (value, after) ∧ outcome = .ok value := by
  apply Checked.bind_eq_ok.trans
  constructor
  · intro ⟨⟨value, middle⟩, performed, equal⟩
    cases equal
    exact ⟨value, performed, rfl⟩
  · intro ⟨value, performed, same⟩
    subst same
    exact ⟨(value, after), performed, rfl⟩

theorem run_edit_bind {edit : Edit α} {next : α → Build β} {outcome : Except BuildError β}
    {after : Program} : ((liftM edit : Build α) >>= next).run.run program = .ok (outcome, after) ↔
      ∃ value middle, edit.run program = .ok (value, middle) ∧
        (next value).run.run middle = .ok (outcome, after) := by
  apply Checked.bind_eq_ok.trans
  constructor
  · intro ⟨⟨result, middle⟩, lifted, rest⟩
    obtain ⟨value, performed, rfl⟩ := run_edit.mp lifted
    exact ⟨value, middle, performed, rest⟩
  · intro ⟨value, middle, performed, rest⟩
    exact ⟨(.ok value, middle), run_edit.mpr ⟨value, performed, rfl⟩, rest⟩

theorem run_get_bind {next : Program → Build α} {outcome : Except BuildError α} {after : Program} :
    (get >>= next).run.run program = .ok (outcome, after) ↔
      (next program).run.run program = .ok (outcome, after) :=
  Iff.rfl

theorem run_check_bind {checked : Checked α} {next : α → Build β} {outcome : Except BuildError β}
    {after : Program} : ((liftM checked : Build α) >>= next).run.run program = .ok (outcome, after) ↔
      ∃ value, checked = .ok value ∧ (next value).run.run program = .ok (outcome, after) := by
  cases checked with
  | error fault => exact ⟨(nomatch ·), fun ⟨_, given, _⟩ => nomatch given⟩
  | ok value => exact ⟨fun given => ⟨value, rfl, given⟩, fun ⟨_, rfl, given⟩ => given⟩

theorem ends_edit {edit : Edit α} (ends : edit.Ends into program) :
    (liftM edit : Build α).Ends into program := by
  intro outcome after given
  obtain ⟨value, performed, -⟩ := run_edit.mp given
  exact ends performed

theorem ends_edit_bind {edit : Edit α} {next : α → Build β}
    (goes : ∀ {value middle}, edit.run program = .ok (value, middle) → (next value).Ends into middle) :
    ((liftM edit : Build α) >>= next).Ends into program := by
  intro outcome after given
  obtain ⟨value, middle, performed, rest⟩ := run_edit_bind.mp given
  exact goes performed rest

theorem ends_get_bind {next : Program → Build α} (goes : (next program).Ends into program) :
    (get >>= next).Ends into program :=
  goes

theorem ends_check_bind {checked : Checked α} {next : α → Build β}
    (goes : ∀ {value}, checked = .ok value → (next value).Ends into program) :
    ((liftM checked : Build α) >>= next).Ends into program := by
  intro outcome after given
  obtain ⟨value, found, rest⟩ := run_check_bind.mp given
  exact goes found rest

theorem ends_settle_bind {settled : Except BuildError α} {next : α → Build β} (here : into program)
    (goes : ∀ {value}, settled = .ok value → (next value).Ends into program) :
    ((liftM settled : Build α) >>= next).Ends into program := by
  cases settled with
  | error error => exact ends_throw here error
  | ok value => exact goes rfl

theorem moves_pure (value : α) : (pure value : Build α).Moves known program :=
  ends_pure (.refl program) value

theorem moves_throw (error : BuildError) : (throw error : Build α).Moves known program :=
  ends_throw (.refl program) error

theorem moves_set {after : Program} (reached : program.Reaches known after) :
    (set after : Build Unit).Moves known program :=
  ends_set reached

theorem moves_bind {first : Build α} {next : α → Build β} (starts : first.Moves known program)
    (goes : ∀ {value middle}, first.run.run program = .ok (.ok value, middle) →
      (next value).Moves known middle) :
    (first >>= next).Moves known program :=
  ends_bind (fun stopped => starts stopped)
    fun performed _ _ rest => (starts performed).trans (goes performed rest)

theorem edit_moves {edit : Edit α} (moves : edit.Moves known program) :
    (liftM edit : Build α).Moves known program :=
  ends_edit moves

theorem edit_bind {edit : Edit α} {next : α → Build β} (starts : edit.Moves known program)
    (goes : ∀ {value middle}, edit.run program = .ok (value, middle) → (next value).Moves known middle) :
    ((liftM edit : Build α) >>= next).Moves known program :=
  ends_edit_bind fun performed _ _ rest => (starts performed).trans (goes performed rest)

theorem get_bind {next : Program → Build α} (goes : (next program).Moves known program) :
    (get >>= next).Moves known program :=
  ends_get_bind goes

theorem check_bind {checked : Checked α} {next : α → Build β}
    (goes : ∀ {value}, checked = .ok value → (next value).Moves known program) :
    ((liftM checked : Build α) >>= next).Moves known program :=
  ends_check_bind goes

theorem settle_bind {settled : Except BuildError α} {next : α → Build β}
    (goes : ∀ {value}, settled = .ok value → (next value).Moves known program) :
    ((liftM settled : Build α) >>= next).Moves known program :=
  ends_settle_bind (.refl program) goes

end Build

end CanonIR
