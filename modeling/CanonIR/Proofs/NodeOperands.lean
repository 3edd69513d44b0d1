import CanonIR.Proofs.RequestHandles

/-! What nodes are made of. The operands of a node are there from the start and stay; its
additions are in fields that can be filled, or can grow, after the node was made. -/

namespace CanonIR

/-- The region that the parameters are declared in. -/
def DeclKind.parameters? : DeclKind → Option RegionId
  | .function parameters _ | .template parameters .. => some parameters
  | _ => none

def StmtKind.region? : StmtKind → Option RegionId
  | .block region _ => some region
  | _ => none

/-! ### Operands -/

def StmtKind.operands : StmtKind → List NodeRef
  | .exprStmt expr => [.expr expr]
  | .labeled label stmt => [.name label, .stmt stmt]
  | .block .. | .breakStmt | .continueStmt => []
  | .ifStmt condition whenTrue whenFalse =>
    .expr condition :: .stmt whenTrue :: whenFalse.toList.map .stmt
  | .switchStmt condition body | .whileStmt condition body | .doStmt body condition =>
    [.expr condition, .stmt body]
  | .forStmt start condition increment body =>
    start.toList.map .stmt ++ condition.toList.map .expr ++ increment.toList.map .expr ++ [.stmt body]
  | .forInStmt var sequence body => [.decl var, .expr sequence, .stmt body]
  | .gotoStmt label => [.name label]
  | .returnStmt value => value.toList.map .expr
  | .declStmt decl => [.decl decl]

/-- What a declaration is made of, apart from its name, its type, its master and the terms
in a list. -/
def DeclKind.operands : DeclKind → List NodeRef
  | .bitfield width _ => [.expr width]
  | .template _ _ primary _ => [.decl primary]
  | _ => []

/-- The list of the terms that a template is specialized for. -/
def DeclKind.args? : DeclKind → Option TermListId
  | .template _ _ _ args => args
  | _ => none

def DirectiveKind.operands : DirectiveKind → List NodeRef
  | .usingDirective nominated => [.type nominated]
  | .usingDeclaration name => [.name name]
  | .staticAssert condition _ => [.expr condition]
  | .asm _ | .pragma _ => []

namespace Program

/-- What an expression is made of, apart from its type. -/
def exprOperands (program : Program) : ExprKind → Checked (List NodeRef)
  | .literal type _ | .sizeOf type | .alignOf type | .newExpr type none => return [.type type]
  | .bool _ | .nullPointer | .defaultMarker | .deleteMarker => return []
  | .idExpr name decl => return .name name :: decl.toList.map .decl
  | .unary _ operand | .deleteExpr operand _ | .paren operand => return [.expr operand]
  | .binary _ left right => return [.expr left, .expr right]
  | .call callee args => return .expr callee :: (← program.exprList args).map .expr
  | .cast _ type operand => return [.type type, .expr operand]
  | .conditional condition whenTrue whenFalse =>
    return [.expr condition, .expr whenTrue, .expr whenFalse]
  | .member object name _ => return [.expr object, .name name]
  | .newExpr type (some args) => return .type type :: (← program.exprList args).map .expr
  | .initializerList elements => return (← program.exprList elements).map .expr
  | .throwExpr operand => return operand.toList.map .expr

theorem exprOperands_congr {program after : Program} {kind : ExprKind}
    (same : after.exprs.lists = program.exprs.lists) :
    after.exprOperands kind = program.exprOperands kind := by
  cases kind with
  | newExpr type args => cases args <;> simp [exprOperands, exprList, same]
  | _ => simp [exprOperands, exprList, same]

end Program

/-! ### Additions -/

def TypeKind.additions : TypeKind → List NodeRef
  | .enumType _ underlying => underlying.toList.map .type
  | _ => []

def ExprNode.additions (node : ExprNode) : List NodeRef := node.type.toList.map .type

def StmtKind.additions : StmtKind → List NodeRef
  | .block _ body => body.toList.map .stmt
  | _ => []

def DeclKind.additions : DeclKind → List NodeRef
  | .var value | .field value | .bitfield _ value | .parameter _ value | .enumerator value =>
    value.toList.map .expr
  | .function _ body => body.toList.map .stmt
  | .alias type | .typeDecl type => type.toList.map .type
  | .template _ pattern .. => pattern.toList.map .decl

end CanonIR
