import CanonIR.Node.Decl
import CanonIR.Node.Directive
import CanonIR.Node.Expr
import CanonIR.Node.Name
import CanonIR.Node.Stmt
import CanonIR.Program.Error
import CanonIR.Space.Region
import CanonIR.Space.Scope

/-! A program: its texts, its nodes, and the regions they are declared in. It is built
by requests, each of which may be turned down. -/

namespace CanonIR

structure Program where
  sizing : Sizing
  strings : SymbolPool
  census : Census := {}
  names : NameTable := {}
  types : TypeTable := {}
  exprs : ExprTable
  stmts : Slab .stmt StmtNode := {}
  decls : DeclTable := {}
  directives : Slab .directive DirectiveNode := {}
  regions : Slab .region Region := {}
  scopes : ScopeTable := {}
  /-- The type that owns the global region. -/
  globalNamespace : TypeId := Fundamental.void.typeId

/-- A change that is never turned down. -/
abbrev Edit := StateT Program Checked

/-- A request. Turning it down undoes nothing: whatever was changed before stays
changed. -/
abbrev Build := ExceptT BuildError Edit

namespace Program

/-- Gives a new node of `category` its number. -/
def enrollNode (category : Category) : Edit NodeId := fun program => do
  let (node, census) ← program.census.enroll category
  return (node, { program with census })

/-- A new region with an empty scope. -/
def newRegion (parent : Option RegionId) : Edit RegionId := fun program => do
  let id ← program.regions.next
  let (scope, scopes) ← program.scopes.scopes.push { region := id }
  let depth ← match parent with
    | none => pure 0
    | some parent => do pure ((← program.regions.get parent).depth + 1)
  let (id, regions) ← program.regions.push { parent, scope, depth }
  return (id, { program with regions, scopes := { program.scopes with scopes } })

/-- Records what introduces `region`, which can be done once. -/
def setRegionOwner (region : RegionId) (owner : RegionOwner) : Build Unit := do
  let program ← get
  match (← program.regions.get region).owner with
  | some existing => throw (.regionOwned region existing)
  | none =>
    let regions ← program.regions.modify region ({ · with owner := some owner })
    set { program with regions }

/-- Records the owner of a region that was made a moment ago and has none yet. -/
def ownRegion (region : RegionId) (owner : RegionOwner) : Edit Unit := do
  let _ ← (setRegionOwner region owner).run

/-- A new user-defined type that owns `region`. -/
def newOwningType (kind : TypeKind) (region : RegionId) : Edit TypeId := do
  let program ← get
  let (type, types, census) ← program.types.fresh kind program.census
  set { program with types, census }
  ownRegion region (.type type)
  return type

/-- A program with nothing but the global region and the namespace that owns it. -/
def initial (hash : Bytes → UInt64) (sizing : Sizing) : Checked Program := do
  let exprs ← ExprTable.initial
  let start : Program := { sizing, strings := .ofSizing hash sizing, exprs }
  let (region, program) ← (newRegion none).run start
  let (globalNamespace, program) ← (newOwningType (.namespaceType region) region).run program
  return { program with globalNamespace }

end Program

end CanonIR
