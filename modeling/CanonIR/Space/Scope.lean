import CanonIR.Ordered.Index

/-! Scopes. A scope maps a name to an overload set and an overload set maps a type to a
chain, so name and type together lead to one chain. -/

namespace CanonIR

structure Scope where
  region : RegionId
  /-- Declarations in the order they were made. -/
  members : Array DeclId := #[]
  overloads : Index NameId OverloadId := {}

/-- All declarations of one name in one scope. -/
structure Overload where
  name : NameId
  scope : ScopeId
  entries : Index TypeId ChainId := {}

/-- How a name is bound in a scope. -/
inductive Binding where
  | unbound
  | declared
  /-- More than once, always with one type. -/
  | redeclared
  /-- With more than one type. -/
  | overloaded
  deriving DecidableEq

def Binding.label : Binding → String
  | .unbound => "unbound"
  | .declared => "declared"
  | .redeclared => "redeclared"
  | .overloaded => "overloaded"

structure ScopeTable where
  scopes : Slab .scope Scope := {}
  overloads : Slab .overload Overload := {}

namespace ScopeTable

def find? (table : ScopeTable) (scope : ScopeId) (name : NameId) : Checked (Option OverloadId) := do
  (← table.scopes.get scope).overloads.get? name

def findChain? (table : ScopeTable) (scope : ScopeId) (name : NameId) (type : TypeId) :
    Checked (Option ChainId) := do
  match ← table.find? scope name with
  | none => return none
  | some overload => (← table.overloads.get overload).entries.get? type

/-- The chain for `name` and `type`; overload set and chain are made as needed. -/
def bind {σ : Type} (table : ScopeTable) (scope : ScopeId) (name : NameId) (type : TypeId)
    (newChain : σ → Checked (ChainId × σ)) (state : σ) : Checked (ChainId × ScopeTable × σ) := do
  let names := (← table.scopes.get scope).overloads
  let ((id, _), names, overloads) ← names.getOrMake name (Slab.push { name, scope }) table.overloads
  let scopes ← table.scopes.modify scope ({ · with overloads := names })
  let types := (← overloads.get id).entries
  let ((chain, _), types, state) ← types.getOrMake type newChain state
  let overloads ← overloads.modify id ({ · with entries := types })
  return (chain, ⟨scopes, overloads⟩, state)

def pushMember (table : ScopeTable) (scope : ScopeId) (decl : DeclId) : Checked ScopeTable := do
  let scopes ← table.scopes.modify scope fun entry =>
    { entry with members := entry.members.push decl }
  return { table with scopes }

/-- The overload sets of a scope, in the order of their names. -/
def overloadsOf (table : ScopeTable) (scope : ScopeId) : Checked (List OverloadId) := do
  return (← (← table.scopes.get scope).overloads.entries).map (·.value)

end ScopeTable

end CanonIR
