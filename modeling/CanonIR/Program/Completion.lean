import CanonIR.Program.Query

/-! Fields that are filled after their node was made, each at most once. -/

namespace CanonIR.Program

/-- Writes a field that can be filled once. -/
def fillEmpty {α : Type} (field : String) (node : NodeRef) (old : Option α) (value : α) :
    Except BuildError (Option α) :=
  if old.isSome then .error (.alreadySet field node) else .ok (some value)

/-- The type that an enumeration is represented by. Handles that name no type of the
program are no enumerations. -/
def setUnderlyingType (enumType underlying : TypeId) : Build Unit := do
  let program ← get
  match program.types.nodes.get? enumType with
  | some ⟨_, .enumType region old⟩ =>
    let filled ← fillEmpty "underlying type" (.type enumType) old underlying
    let nodes ← program.types.nodes.modify enumType ({ · with kind := .enumType region filled })
    set { program with types := { program.types with nodes } }
  | _ => throw (.notAnEnum enumType)

/-- The type of an expression. Those that the program did not make are complete. -/
def setExprType (expr : ExprId) (type : TypeId) : Build Unit := do
  let program ← get
  match program.exprs.nodes.get? expr with
  | some node =>
    let filled ← fillEmpty "type" (.expr expr) node.type type
    let nodes ← program.exprs.nodes.modify expr ({ · with type := filled })
    set { program with exprs := { program.exprs with nodes } }
  | none => throw (.alreadySet "type" (.expr expr))

/-- Changes what a declaration holds. -/
def refill (decl : DeclId) (change : DeclKind → Except BuildError DeclKind) : Build Unit := do
  let program ← get
  let kind ← change (← program.declNode decl).kind
  let nodes ← program.decls.nodes.modify decl ({ · with kind })
  set { program with decls := { program.decls with nodes } }

/-- The initializer of a variable or field, the default of a parameter, or the value of
an enumerator. -/
def setInitializer (decl : DeclId) (value : ExprId) : Build Unit :=
  let fill (old : Option ExprId) := fillEmpty "initializer" (.decl decl) old value
  refill decl fun
    | .var old => return .var (← fill old)
    | .field old => return .field (← fill old)
    | .bitfield width old => return .bitfield width (← fill old)
    | .parameter position old => return .parameter position (← fill old)
    | .enumerator old => return .enumerator (← fill old)
    | kind => throw (.noSuchField "initializer" kind.category)

/-- The type that an alias stands for. -/
def setAliasee (decl : DeclId) (type : TypeId) : Build Unit :=
  refill decl fun
    | .alias old => return .alias (← fillEmpty "aliasee" (.decl decl) old type)
    | kind => throw (.noSuchField "aliasee" kind.category)

def setFunctionBody (decl : DeclId) (body : StmtId) : Build Unit :=
  refill decl fun
    | .function parameters old =>
      return .function parameters (← fillEmpty "body" (.decl decl) old body)
    | _ => throw (.notAFunction decl)

/-- The user-defined type that a type declaration introduces. -/
def setTypeDefinition (decl : DeclId) (type : TypeId) : Build Unit := do
  if (← (← get).typeNode type).kind.region?.isNone then throw (.notAUserType type)
  refill decl fun
    | .typeDecl old => return .typeDecl (← fillEmpty "definition" (.decl decl) old type)
    | kind => throw (.noSuchField "definition" kind.category)

/-- The declaration that a template is a pattern for. -/
def setTemplatePattern (decl pattern : DeclId) : Build Unit :=
  refill decl fun
    | .template parameters old primary args =>
      return .template parameters (← fillEmpty "pattern" (.decl decl) old pattern) primary args
    | _ => throw (.notATemplate decl)

end CanonIR.Program
