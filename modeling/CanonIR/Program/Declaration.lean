import CanonIR.Program.Binding
import CanonIR.Program.Vocabulary

/-! The kinds of declarations, each with what it needs before it can be bound. -/

namespace CanonIR.Program

/-- A new region in `region` that the declaration `decl` owns. -/
def parameterRegion (region : RegionId) (decl : DeclId) : Edit RegionId := do
  let parameters ← newRegion (some region)
  ownRegion parameters (.decl decl)
  return parameters

/-- A declaration of which all is known beforehand. -/
def declareWith (region : RegionId) (name : NameId) (type : TypeId) (specifiers : Specifiers)
    (kind : DeclKind) : Build DeclId :=
  declare region name type specifiers kind.category fun _ _ => pure kind

/-- Every declaration of a function has a parameter region of its own. -/
def declareFunction (region : RegionId) (name : NameId) (type : TypeId) (specifiers : Specifiers) :
    Build DeclId :=
  declare region name type specifiers .function fun id _ => do
    return .function (← parameterRegion region id) none

/-- How many members of `scope` are parameters. -/
def parameterCount (program : Program) (scope : ScopeId) : Checked Nat := do
  let categories ← (← program.scope scope).members.toList.mapM fun member =>
    return (← program.declNode member).category
  return categories.count .parameter

/-- The next parameter of `function`. -/
def declareParameter (function : DeclId) (name : NameId) (type : TypeId) : Build DeclId := do
  let program ← get
  match (← program.declNode function).kind with
  | .function parameters _ =>
    let count ← program.parameterCount (← program.region parameters).scope
    declareWith parameters name type .empty (.parameter (← position "parameters" count) none)
  | _ => throw (.notAFunction function)

/-- An enumerator is declared in the region of its enumeration, which is its type. -/
def declareEnumerator (enumType : TypeId) (name : NameId) (value : Option ExprId) :
    Build DeclId := do
  match (← (← get).typeNode enumType).kind with
  | .enumType region _ => declareWith region name enumType .empty (.enumerator value)
  | _ => throw (.notAnEnum enumType)

/-- A primary template; its redeclarations go back to the first one. -/
def declareTemplate (region : RegionId) (name : NameId) (type : TypeId) (specifiers : Specifiers) :
    Build DeclId :=
  declare region name type specifiers .template fun id master => do
    return .template (← parameterRegion region id) none (master.getD id) none

/-- A specialization for `args`. It is declared beside the primary template, even where
another specialization of that is given, and named by the template-id. The check comes
before the template-id is made; only one that exists can be declared already. -/
def declareSpecialization (template : DeclId) (args : List Term) (type : TypeId) :
    Build DeclId := do
  let program ← get
  match (← program.declNode template).kind with
  | .template _ _ primary _ =>
    let primaryNode ← program.declNode primary
    if let some name ← program.names.templateId? primaryNode.name args then
      let _ ← ← program.joinedMaster primaryNode.home name type .template
    let name ← templateId primaryNode.name args
    let argList ← keepTerms args
    let decl ← declare primaryNode.home name type .empty .template fun id _ => do
      return .template (← parameterRegion primaryNode.home id) none primary (some argList)
    if (← (← get).declNode decl).isMaster then
      modify fun program => { program with decls := program.decls.listSpecialization primary decl }
    return decl
  | _ => throw (.notATemplate template)

end CanonIR.Program
