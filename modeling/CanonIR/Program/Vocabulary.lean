import CanonIR.Program.Query

/-! The words of a program: its texts, its names and its types. Asking twice for the
same text, name or structural type gives the same one. -/

namespace CanonIR.Program

/-! ### Texts -/

/-- The symbol of `bytes`. -/
def intern (bytes : Bytes) : Build Symbol := do
  let program ← get
  match ← program.strings.intern bytes with
  | .error error => throw (.intern error)
  | .ok (symbol, strings) =>
    set { program with strings }
    return symbol

/-- The symbol of `text`, for callers that take no refusal. -/
def internText (text : String) : Edit Symbol := fun program => do
  let (symbol, strings) ← program.strings.internOrFault (.ofString text)
  return (symbol, { program with strings })

/-! ### Names -/

/-- The name of this kind. -/
def nameOf (kind : NameKind) : Edit NameId := fun program => do
  let (id, names, census) ← program.names.canonical kind program.census
  return (id, { program with names, census })

def keepTerms (terms : List Term) : Edit TermListId := fun program => do
  let (id, names) ← program.names.keepTerms terms
  return (id, { program with names })

def templateId (template : NameId) (args : List Term) : Edit NameId := do
  nameOf (.templateId template (← keepTerms args))

/-! ### Types -/

/-- The structural type of this kind. -/
def typeOf (kind : TypeKind) : Edit TypeId := fun program => do
  let (id, types, census) ← program.types.canonical kind program.census
  return (id, { program with types, census })

def keepTypes (types : List TypeId) : Edit TypeListId := fun program => do
  let (id, types) ← program.types.keepList types
  return (id, { program with types })

/-- A qualified type. Qualifying twice is qualifying with both. -/
def qualified (qualifiers : Qualifiers) (main : TypeId) : Build TypeId := do
  if qualifiers.isEmpty then throw .emptyQualifiers
  match (← (← get).typeNode main).kind with
  | .qualified inner main => typeOf (.qualified (qualifiers.union inner) main)
  | _ => typeOf (.qualified qualifiers main)

def product (types : List TypeId) : Edit TypeId := do
  typeOf (.product (← keepTypes types))

/-- Puts `type` into an ascending list, unless it is there. -/
def insertAscending (type : TypeId) : List TypeId → List TypeId
  | [] => [type]
  | head :: rest =>
    if type.raw < head.raw then type :: head :: rest
    else if type = head then head :: rest
    else head :: insertAscending type rest

/-- A set of alternatives: neither order nor repetition matters. -/
def sum (types : List TypeId) : Edit TypeId := do
  typeOf (.sum (← keepTypes (types.foldr insertAscending [])))

/-- A new user-defined type whose region lies in `parent`. -/
def newUserType (kind : RegionId → TypeKind) (parent : RegionId) : Edit TypeId := do
  let region ← newRegion (some parent)
  newOwningType (kind region) region

/-- Makes `base` the next direct base of a class. -/
def addBase (type base : TypeId) : Build Unit := do
  let program ← get
  match (← program.typeNode type).kind with
  | .classType _ => set { program with types := program.types.addBase type base }
  | _ => throw (.notAClass type)

end CanonIR.Program
