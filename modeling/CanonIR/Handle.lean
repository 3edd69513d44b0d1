import CanonIR.Fault

/-! Handles name entries of append-only tables. A handle carries the table it
belongs to in its type, and nothing but its position at run time. -/

namespace CanonIR

inductive Table where
  | node
  | slot
  | name
  | type
  | expr
  | stmt
  | decl
  | directive
  | region
  | scope
  | overload
  | chain
  | typeList
  | termList
  | exprList
  deriving DecidableEq

/-- How a handle of the table introduces itself. -/
def Table.label : Table → String
  | .node => "NodeId"
  | .slot => "Slot"
  | .name => "NameId"
  | .type => "TypeId"
  | .expr => "ExprId"
  | .stmt => "StmtId"
  | .decl => "DeclId"
  | .directive => "DirectiveId"
  | .region => "RegionId"
  | .scope => "ScopeId"
  | .overload => "OverloadId"
  | .chain => "ChainId"
  | .typeList => "TypeListId"
  | .termList => "TermListId"
  | .exprList => "ExprListId"

/-- Positions below this one are kept for constants that every program shares. -/
def Table.firstFree : Table → Nat
  | .node => 64
  | .type => 32
  | .expr => 8
  | _ => 0

/-- How many of the kept positions name a constant; the rest name nothing. -/
def Table.sharedCount : Table → Nat
  | .node => 64
  | .type => 24
  | .expr => 5
  | _ => 0

structure Handle (table : Table) where
  raw : Nat
  deriving DecidableEq

abbrev NodeId := Handle .node
abbrev Slot := Handle .slot
abbrev NameId := Handle .name
abbrev TypeId := Handle .type
abbrev ExprId := Handle .expr
abbrev StmtId := Handle .stmt
abbrev DeclId := Handle .decl
abbrev DirectiveId := Handle .directive
abbrev RegionId := Handle .region
abbrev ScopeId := Handle .scope
abbrev OverloadId := Handle .overload
abbrev ChainId := Handle .chain
abbrev TypeListId := Handle .typeList
abbrev TermListId := Handle .termList
abbrev ExprListId := Handle .exprList

namespace Handle

variable {table : Table}

/-- The handle at a position that a 32-bit number can hold. -/
def ofIndex (table : Table) (index : Nat) : Checked (Handle table) := do
  return ⟨← position table.label index⟩

def describe (handle : Handle table) : String := s!"{table.label}({handle.raw})"

/-- Handles are ordered by position, so older entries come first. -/
instance : Ord (Handle table) := ⟨fun left right => compareOfLessAndEq left.raw right.raw⟩

/-- Whether the handle names a constant that every program shares. -/
def isShared (handle : Handle table) : Bool := handle.raw < table.sharedCount

end Handle

/-- The outermost region. -/
def RegionId.global : RegionId := ⟨0⟩

end CanonIR
