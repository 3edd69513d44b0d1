import CanonIR.Program.Basic

/-! Reading a program. A handle that the program never issued is a fault where it is
looked up. -/

namespace CanonIR.Program

def nameNode (program : Program) (id : NameId) : Checked NameNode := program.names.nodes.get id

def typeNode (program : Program) (id : TypeId) : Checked TypeNode := program.types.get id

def exprNode (program : Program) (id : ExprId) : Checked ExprNode := program.exprs.get id

def stmtNode (program : Program) (id : StmtId) : Checked StmtNode := program.stmts.get id

def declNode (program : Program) (id : DeclId) : Checked DeclNode := program.decls.nodes.get id

def directiveNode (program : Program) (id : DirectiveId) : Checked DirectiveNode :=
  program.directives.get id

def category (program : Program) : NodeRef → Checked Category
  | .name id => return (← program.nameNode id).category
  | .type id => return (← program.typeNode id).category
  | .expr id => return (← program.exprNode id).category
  | .stmt id => return (← program.stmtNode id).category
  | .decl id => return (← program.declNode id).category
  | .directive id => return (← program.directiveNode id).category

/-- How many nodes of a group the program made. -/
def nodeCount (program : Program) : Group → Nat
  | .name => program.names.nodes.size
  | .type => program.types.nodes.size
  | .expr => program.exprs.nodes.size
  | .stmt => program.stmts.size
  | .decl => program.decls.nodes.size
  | .directive => program.directives.size

def typeList (program : Program) (id : TypeListId) : Checked (List TypeId) := program.types.list id

def termList (program : Program) (id : TermListId) : Checked (List Term) :=
  program.names.termList id

def exprList (program : Program) (id : ExprListId) : Checked (List ExprId) :=
  program.exprs.lists.get id

/-- The declarations of a chain, master first. -/
def chain (program : Program) (id : ChainId) : Checked (List DeclId) :=
  return (← program.decls.chains.get id).toList

/-- The specializations of a template, in the order they were made. -/
def specializations (program : Program) (template : DeclId) : Checked (List DeclId) := do
  return program.decls.specializationsOf (← program.declNode template).master

/-- The direct bases of a class, in the order they were given. -/
def bases (program : Program) (type : TypeId) : List TypeId := program.types.basesOf type

def text (program : Program) (symbol : Symbol) : Checked Bytes := program.strings.lookup symbol

def region (program : Program) (id : RegionId) : Checked Region := program.regions.get id

/-- The regions around `id`, innermost first. -/
def ancestors (program : Program) (id : RegionId) : Checked (List RegionId) :=
  CanonIR.ancestors program.regions id

def scope (program : Program) (id : ScopeId) : Checked Scope := program.scopes.scopes.get id

def overload (program : Program) (id : OverloadId) : Checked Overload :=
  program.scopes.overloads.get id

/-- The overload set of `name` in a scope. -/
def scopeLookup (program : Program) (scope : ScopeId) (name : NameId) :
    Checked (Option OverloadId) :=
  program.scopes.find? scope name

/-- The first overload set of `name` in `regions`. -/
def lookupAmong (program : Program) (name : NameId) : List RegionId → Checked (Option OverloadId)
  | [] => .ok none
  | region :: outer => do
    match ← program.scopeLookup (← program.region region).scope name with
    | some overload => return some overload
    | none => program.lookupAmong name outer

/-- The overload set of `name` in the innermost region from `region` outward that
declares it. -/
def lookup (program : Program) (region : RegionId) (name : NameId) :
    Checked (Option OverloadId) := do
  program.lookupAmong name (region :: (← program.ancestors region))

/-- Types and chains of an overload set, in the order of the types. -/
def overloadEntries (program : Program) (id : OverloadId) :
    Checked (List (TypeId × List DeclId)) := do
  (← (← program.overload id).entries.entries).mapM fun entry => do
    return (entry.key, ← program.chain entry.value)

/-- The declarations of an overload set that have a type, master first. -/
def overloadLookup (program : Program) (id : OverloadId) (type : TypeId) :
    Checked (Option (List DeclId)) := do
  match ← (← program.overload id).entries.get? type with
  | none => return none
  | some chain => return some (← program.chain chain)

def binding (program : Program) (scope : ScopeId) (name : NameId) : Checked Binding := do
  match ← program.scopeLookup scope name with
  | none => return .unbound
  | some overload =>
    match ← program.overloadEntries overload with
    | [] => return .unbound
    | [(_, chain)] => return if chain.length = 1 then .declared else .redeclared
    | _ :: _ :: _ => return .overloaded

/-- The region of a block. -/
def blockRegion (program : Program) (block : StmtId) : Checked (Except BuildError RegionId) := do
  match (← program.stmtNode block).kind with
  | .block region _ => return .ok region
  | _ => return .error (.notABlock block)

end CanonIR.Program
