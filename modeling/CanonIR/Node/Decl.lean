import CanonIR.Node.Category
import CanonIR.Node.Flags
import CanonIR.Slab

/-! Declarations. All declarations of one name with one type in one region form a
chain, in the order they were made; the first of them is the master of the others. -/

namespace CanonIR

inductive DeclKind where
  | var (initializer : Option ExprId)
  | field (initializer : Option ExprId)
  | bitfield (width : ExprId) (initializer : Option ExprId)
  | parameter (position : Nat) (default : Option ExprId)
  /-- The parameters are declared in a region of their own. -/
  | function (parameters : RegionId) (body : Option StmtId)
  | alias (aliasee : Option TypeId)
  | enumerator (value : Option ExprId)
  | typeDecl (definition : Option TypeId)
  /-- `primary` is the template that was first declared; only a specialization of it
  has `args`. -/
  | template (parameters : RegionId) (pattern : Option DeclId) (primary : DeclId)
      (args : Option TermListId)
  deriving DecidableEq

namespace DeclKind

def category : DeclKind → Category
  | .var _ => .var
  | .field _ => .field
  | .bitfield .. => .bitfield
  | .parameter .. => .parameter
  | .function .. => .function
  | .alias _ => .alias
  | .enumerator _ => .enumerator
  | .typeDecl _ => .typeDecl
  | .template .. => .template

/-- Initializer, default argument or value of an enumerator. -/
def initializer? : DeclKind → Option ExprId
  | .var initializer | .field initializer | .bitfield _ initializer => initializer
  | .parameter _ default => default
  | .enumerator value => value
  | _ => none

end DeclKind

structure DeclNode where
  id : NodeId
  name : NameId
  type : TypeId
  /-- The region it was made in. -/
  home : RegionId
  specifiers : Specifiers
  chain : ChainId
  /-- Its index in the chain. -/
  position : Nat
  master : DeclId
  kind : DeclKind
  deriving DecidableEq

namespace DeclNode

def category (node : DeclNode) : Category := node.kind.category

def isMaster (node : DeclNode) : Bool := node.position = 0

end DeclNode

structure DeclTable where
  nodes : Slab .decl DeclNode := {}
  chains : Slab .chain (Array DeclId) := {}
  /-- A primary template and a specialization of it, for each specialization, in the
  order they were made. -/
  specializations : Array (DeclId × DeclId) := #[]

namespace DeclTable

/-- Puts `decl` at the end of `chain` and tells its index there. -/
def appendToChain (table : DeclTable) (chain : ChainId) (decl : DeclId) :
    Checked (Nat × DeclTable) := do
  let position ← position "declaration chain" (← table.chains.get chain).size
  return (position, { table with chains := ← table.chains.modify chain (·.push decl) })

def listSpecialization (table : DeclTable) (primary specialization : DeclId) : DeclTable :=
  { table with specializations := table.specializations.push (primary, specialization) }

def specializationsOf (table : DeclTable) (primary : DeclId) : List DeclId :=
  (table.specializations.toList.filter (·.1 = primary)).map Prod.snd

end DeclTable

end CanonIR
