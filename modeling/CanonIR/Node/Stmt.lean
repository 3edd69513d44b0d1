import CanonIR.Handle
import CanonIR.Node.Category

/-! Statements. None is ever shared. -/

namespace CanonIR

inductive StmtKind where
  | exprStmt (expr : ExprId)
  | labeled (label : NameId) (stmt : StmtId)
  /-- The body grows statement by statement. -/
  | block (region : RegionId) (body : Array StmtId)
  | ifStmt (condition : ExprId) (whenTrue : StmtId) (whenFalse : Option StmtId)
  | switchStmt (condition : ExprId) (body : StmtId)
  | whileStmt (condition : ExprId) (body : StmtId)
  | doStmt (body : StmtId) (condition : ExprId)
  | forStmt (start : Option StmtId) (condition increment : Option ExprId) (body : StmtId)
  | forInStmt (var : DeclId) (sequence : ExprId) (body : StmtId)
  | breakStmt
  | continueStmt
  | gotoStmt (label : NameId)
  | returnStmt (value : Option ExprId)
  | declStmt (decl : DeclId)
  deriving DecidableEq

def StmtKind.category : StmtKind → Category
  | .exprStmt _ => .exprStmt
  | .labeled .. => .labeled
  | .block .. => .block
  | .ifStmt .. => .ifStmt
  | .switchStmt .. => .switchStmt
  | .whileStmt .. => .whileStmt
  | .doStmt .. => .doStmt
  | .forStmt .. => .forStmt
  | .forInStmt .. => .forInStmt
  | .breakStmt => .breakStmt
  | .continueStmt => .continueStmt
  | .gotoStmt _ => .gotoStmt
  | .returnStmt _ => .returnStmt
  | .declStmt _ => .declStmt

structure StmtNode where
  id : NodeId
  kind : StmtKind
  deriving DecidableEq

def StmtNode.category (node : StmtNode) : Category := node.kind.category

end CanonIR
