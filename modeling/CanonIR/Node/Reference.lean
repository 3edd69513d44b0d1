import CanonIR.Handle
import CanonIR.Node.Category
import CanonIR.Ordered.Code

/-! References to nodes of more than one table. -/

namespace CanonIR

/-- A template argument. -/
inductive Term where
  | name (id : NameId)
  | type (id : TypeId)
  | expr (id : ExprId)
  deriving DecidableEq

inductive NodeRef where
  | name (id : NameId)
  | type (id : TypeId)
  | expr (id : ExprId)
  | stmt (id : StmtId)
  | decl (id : DeclId)
  | directive (id : DirectiveId)
  deriving DecidableEq

/-- What introduces a region: a user-defined type, a declaration with parameters, or a
block. -/
inductive RegionOwner where
  | type (id : TypeId)
  | decl (id : DeclId)
  | stmt (id : StmtId)
  deriving DecidableEq

namespace NodeRef

/-- The variant, then the position. -/
def code : NodeRef → List Nat
  | .name id => [0, id.raw]
  | .type id => [1, id.raw]
  | .expr id => [2, id.raw]
  | .stmt id => [3, id.raw]
  | .decl id => [4, id.raw]
  | .directive id => [5, id.raw]

instance : Ord NodeRef := ⟨fun left right => compareCodes left.code right.code⟩

def raw : NodeRef → Nat
  | .name id => id.raw
  | .type id => id.raw
  | .expr id => id.raw
  | .stmt id => id.raw
  | .decl id => id.raw
  | .directive id => id.raw

/-- The group of nodes referred to. -/
def group : NodeRef → Group
  | .name _ => .name
  | .type _ => .type
  | .expr _ => .expr
  | .stmt _ => .stmt
  | .decl _ => .decl
  | .directive _ => .directive

/-- The node at a position of the table of a group. -/
def ofGroup (raw : Nat) : Group → NodeRef
  | .name => .name ⟨raw⟩
  | .type => .type ⟨raw⟩
  | .expr => .expr ⟨raw⟩
  | .stmt => .stmt ⟨raw⟩
  | .decl => .decl ⟨raw⟩
  | .directive => .directive ⟨raw⟩

def describe : NodeRef → String
  | .name id => s!"Name({id.describe})"
  | .type id => s!"Type({id.describe})"
  | .expr id => s!"Expr({id.describe})"
  | .stmt id => s!"Stmt({id.describe})"
  | .decl id => s!"Decl({id.describe})"
  | .directive id => s!"Directive({id.describe})"

end NodeRef

def Term.toRef : Term → NodeRef
  | .name id => .name id
  | .type id => .type id
  | .expr id => .expr id

/-- Terms are ordered as the nodes they refer to. -/
instance : Ord Term := ⟨fun left right => compareCodes left.toRef.code right.toRef.code⟩

def RegionOwner.toRef : RegionOwner → NodeRef
  | .type id => .type id
  | .decl id => .decl id
  | .stmt id => .stmt id

end CanonIR
