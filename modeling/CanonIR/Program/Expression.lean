import CanonIR.Program.Vocabulary

/-! Expressions. A literal is made once for its type and spelling, every other
expression anew. Some know their type from the start. -/

namespace CanonIR.Program

def literal (type : TypeId) (text : Symbol) : Edit ExprId := fun program => do
  let (id, exprs, census) ← program.exprs.literal type text program.census
  return (id, { program with exprs, census })

/-- A new expression. -/
def exprOf (kind : ExprKind) (type : Option TypeId) : Edit ExprId := fun program => do
  let (id, exprs, census) ← program.exprs.fresh kind type program.census
  return (id, { program with exprs, census })

def keepExprs (exprs : List ExprId) : Edit ExprListId := fun program => do
  let (id, exprs) ← program.exprs.keepList exprs
  return (id, { program with exprs })

/-- A use of `name` has the type of the declaration it was found to mean. -/
def idExpr (name : NameId) (decl : Option DeclId) : Edit ExprId := do
  let type ← match decl with
    | none => pure none
    | some decl => do pure (some (← (← get).declNode decl).type)
  exprOf (.idExpr name decl) type

def callExpr (callee : ExprId) (args : List ExprId) : Edit ExprId := do
  exprOf (.call callee (← keepExprs args)) none

/-- The expression is a pointer to `type`. -/
def newExpr (type : TypeId) (args : Option (List ExprId)) : Edit ExprId := do
  let args ← match args with
    | none => pure none
    | some args => do pure (some (← keepExprs args))
  let pointer ← typeOf (.pointer type)
  exprOf (.newExpr type args) (some pointer)

def paren (inner : ExprId) : Edit ExprId := do
  exprOf (.paren inner) (← (← get).exprNode inner).type

def initializerList (elements : List ExprId) : Edit ExprId := do
  exprOf (.initializerList (← keepExprs elements)) none

end CanonIR.Program
