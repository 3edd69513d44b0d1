import CanonIR.Program.Query

/-! Declaring. A declaration is bound into the scope of its region: its name selects an
overload set, its type a chain in it, and it becomes the last of that chain and of the
members of the scope. -/

namespace CanonIR.Program

/-- The master of the chain that a declaration would join, which has to be of the same
category. -/
def joinedMaster (program : Program) (region : RegionId) (name : NameId) (type : TypeId)
    (category : Category) : Checked (Except BuildError (Option DeclId)) := do
  let scope := (← program.region region).scope
  match ← program.scopes.findChain? scope name type with
  | none => return .ok none
  | some chain =>
    match (← program.chain chain).head? with
    | none => return .ok none
    | some master =>
      let existing := (← program.declNode master).category
      if existing = category then return .ok (some master)
      else return .error (.incompatibleRedeclaration name existing category)

/-- Joins the chain for `name` and `type` in `scope`; gives the chain and the index in
it. -/
def joinChain (scope : ScopeId) (name : NameId) (type : TypeId) (decl : DeclId) :
    Edit (ChainId × Nat) := fun program => do
  let (chain, scopes, chains) ←
    program.scopes.bind scope name type (Slab.push #[]) program.decls.chains
  let (position, decls) ← { program.decls with chains }.appendToChain chain decl
  return ((chain, position), { program with scopes, decls })

/-- Makes `node` the newest declaration, and a member of `scope`. -/
def pushDecl (scope : ScopeId) (node : DeclNode) : Edit DeclId := fun program => do
  let (id, nodes) ← program.decls.nodes.push node
  let scopes ← program.scopes.pushMember scope id
  return (id, { program with decls := { program.decls with nodes }, scopes })

/-- A new declaration of `name` with `type` in `region`. What it holds is made from its
handle and the master of the chain it joins, before it joins. -/
def declare (region : RegionId) (name : NameId) (type : TypeId) (specifiers : Specifiers)
    (category : Category) (make : DeclId → Option DeclId → Edit DeclKind) : Build DeclId := do
  if specifiers.isConflicting then throw (.conflictingSpecifiers specifiers)
  let scope := (← (← get).region region).scope
  let master ← ← (← get).joinedMaster region name type category
  let id ← (← get).decls.nodes.next
  let kind ← make id master
  let (chain, position) ← joinChain scope name type id
  let node ← enrollNode category
  pushDecl scope
    { id := node, name, type, home := region, specifiers, chain, position
      master := master.getD id, kind }

end CanonIR.Program
