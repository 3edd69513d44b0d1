import CanonIR.Handle
import CanonIR.Node.Category
import CanonIR.Text.Symbol

/-! Directives: what a region says without declaring anything. -/

namespace CanonIR

inductive DirectiveKind where
  | usingDirective (nominated : TypeId)
  | usingDeclaration (name : NameId)
  | staticAssert (condition : ExprId) (message : Option Symbol)
  | asm (text : Symbol)
  | pragma (text : Symbol)
  deriving DecidableEq

def DirectiveKind.category : DirectiveKind → Category
  | .usingDirective _ => .usingDirective
  | .usingDeclaration _ => .usingDeclaration
  | .staticAssert .. => .staticAssert
  | .asm _ => .asm
  | .pragma _ => .pragma

structure DirectiveNode where
  id : NodeId
  /-- The region it appears in. -/
  region : RegionId
  kind : DirectiveKind
  deriving DecidableEq

def DirectiveNode.category (node : DirectiveNode) : Category := node.kind.category

end CanonIR
