import CanonIR.Node.Census
import CanonIR.Node.TypeNode
import CanonIR.Text.SymbolPool

/-! Expressions. The truth values, the null pointer and the markers of defaulted and
deleted functions are shared by all programs; equal literals are one node; every other
expression is new. -/

namespace CanonIR

inductive UnaryOp where
  | plus
  | negate
  | not
  | complement
  | deref
  | addressOf
  | preIncrement
  | preDecrement
  | postIncrement
  | postDecrement
  deriving DecidableEq

def UnaryOp.all : List UnaryOp :=
  [.plus, .negate, .not, .complement, .deref, .addressOf, .preIncrement, .preDecrement,
    .postIncrement, .postDecrement]

def UnaryOp.label : UnaryOp → String
  | .plus => "plus"
  | .negate => "negate"
  | .not => "not"
  | .complement => "complement"
  | .deref => "deref"
  | .addressOf => "address_of"
  | .preIncrement => "pre_increment"
  | .preDecrement => "pre_decrement"
  | .postIncrement => "post_increment"
  | .postDecrement => "post_decrement"

inductive BinaryOp where
  | add
  | sub
  | mul
  | div
  | rem
  | shl
  | shr
  | bitAnd
  | bitOr
  | bitXor
  | and
  | or
  | eq
  | ne
  | lt
  | le
  | gt
  | ge
  | spaceship
  | assign
  | comma
  | index
  deriving DecidableEq

def BinaryOp.all : List BinaryOp :=
  [.add, .sub, .mul, .div, .rem, .shl, .shr, .bitAnd, .bitOr, .bitXor, .and, .or, .eq, .ne, .lt,
    .le, .gt, .ge, .spaceship, .assign, .comma, .index]

def BinaryOp.label : BinaryOp → String
  | .add => "add"
  | .sub => "sub"
  | .mul => "mul"
  | .div => "div"
  | .rem => "rem"
  | .shl => "shl"
  | .shr => "shr"
  | .bitAnd => "bit_and"
  | .bitOr => "bit_or"
  | .bitXor => "bit_xor"
  | .and => "and"
  | .or => "or"
  | .eq => "eq"
  | .ne => "ne"
  | .lt => "lt"
  | .le => "le"
  | .gt => "gt"
  | .ge => "ge"
  | .spaceship => "spaceship"
  | .assign => "assign"
  | .comma => "comma"
  | .index => "index"

inductive CastKind where
  | functional
  | static
  | dynamic
  | const
  | reinterpret
  deriving DecidableEq

def CastKind.all : List CastKind :=
  [.functional, .static, .dynamic, .const, .reinterpret]

def CastKind.label : CastKind → String
  | .functional => "functional"
  | .static => "static"
  | .dynamic => "dynamic"
  | .const => "const"
  | .reinterpret => "reinterpret"

inductive ExprKind where
  | literal (type : TypeId) (text : Symbol)
  | bool (value : Bool)
  | nullPointer
  | defaultMarker
  | deleteMarker
  /-- Use of a name, with the declaration it was found to mean. -/
  | idExpr (name : NameId) (decl : Option DeclId)
  | unary (op : UnaryOp) (operand : ExprId)
  | binary (op : BinaryOp) (left right : ExprId)
  | call (callee : ExprId) (args : ExprListId)
  | cast (kind : CastKind) (type : TypeId) (operand : ExprId)
  | conditional (condition whenTrue whenFalse : ExprId)
  | member (object : ExprId) (name : NameId) (arrow : Bool)
  | sizeOf (type : TypeId)
  | alignOf (type : TypeId)
  | newExpr (type : TypeId) (args : Option ExprListId)
  | deleteExpr (operand : ExprId) (array : Bool)
  | paren (inner : ExprId)
  | initializerList (elements : ExprListId)
  | throwExpr (operand : Option ExprId)
  deriving DecidableEq

def ExprKind.category : ExprKind → Category
  | .literal .. => .literal
  | .bool _ => .boolConstant
  | .nullPointer => .nullConstant
  | .defaultMarker => .defaultMarker
  | .deleteMarker => .deleteMarker
  | .idExpr .. => .idExpr
  | .unary .. => .unary
  | .binary .. => .binary
  | .call .. => .call
  | .cast .. => .cast
  | .conditional .. => .conditional
  | .member .. => .member
  | .sizeOf _ => .sizeOf
  | .alignOf _ => .alignOf
  | .newExpr .. => .newExpr
  | .deleteExpr .. => .deleteExpr
  | .paren _ => .paren
  | .initializerList _ => .initializerList
  | .throwExpr _ => .throwExpr

structure ExprNode where
  id : NodeId
  kind : ExprKind
  /-- Set at most once. -/
  type : Option TypeId
  deriving DecidableEq

def ExprNode.category (node : ExprNode) : Category := node.kind.category

/-- The shared expressions, in the order of their handles. Their nodes are numbered
after those of the fundamental types. -/
def sharedExprs : List ExprNode :=
  [⟨⟨24⟩, .bool true, some Fundamental.bool.typeId⟩,
    ⟨⟨25⟩, .bool false, some Fundamental.bool.typeId⟩,
    ⟨⟨26⟩, .nullPointer, some Fundamental.nullPointer.typeId⟩,
    ⟨⟨27⟩, .defaultMarker, none⟩,
    ⟨⟨28⟩, .deleteMarker, none⟩]

/-- What identifies a literal: its type and its spelling. -/
structure LiteralKey where
  type : TypeId
  text : Symbol
  deriving DecidableEq

def LiteralKey.code (key : LiteralKey) : List Nat := key.type.raw :: key.text.code

instance : Ord LiteralKey := ⟨fun left right => compareCodes left.code right.code⟩

structure ExprTable where
  nodes : Slab .expr ExprNode := {}
  literals : Index LiteralKey ExprId := {}
  lists : Slab .exprList (List ExprId) := {}

namespace ExprTable

/-- The spellings of the shared constants lead to them. -/
def initial : Checked ExprTable := do
  let seed (literals : Index LiteralKey ExprId) (type : Fundamental) (word : String) (id : ExprId) :
      Checked (Index LiteralKey ExprId) := do
    let (_, literals, _) ← literals.getOrMake ⟨type.typeId, ← Symbol.ofWord word⟩
      (fun state => .ok (id, state)) ()
    return literals
  let literals ← seed {} .bool "true" ⟨0⟩
  let literals ← seed literals .bool "false" ⟨1⟩
  let literals ← seed literals .nullPointer "nullptr" ⟨2⟩
  return { literals }

def get (table : ExprTable) (id : ExprId) : Checked ExprNode :=
  match sharedExprs[id.raw]? with
  | some node => .ok node
  | none =>
    if id.raw < Table.firstFree .expr then .error (.reservedExpr id.raw) else table.nodes.get id

def push (kind : ExprKind) (type : Option TypeId) (nodes : Slab .expr ExprNode) (census : Census) :
    Checked (ExprId × Slab .expr ExprNode × Census) := do
  let (node, census) ← census.enroll kind.category
  let (id, nodes) ← nodes.push ⟨node, kind, type⟩
  return (id, nodes, census)

/-- The literal of this type and spelling, made on first use. It has its type from the
start. -/
def literal (table : ExprTable) (type : TypeId) (text : Symbol) (census : Census) :
    Checked (ExprId × ExprTable × Census) := do
  let ((id, fresh), literals, nodes, census) ←
    table.literals.getOrMake ⟨type, text⟩
      (fun (nodes, census) => push (.literal type text) (some type) nodes census)
      (table.nodes, census)
  return (id, { table with nodes, literals }, census.countRequest .expr fresh)

/-- A new expression. -/
def fresh (table : ExprTable) (kind : ExprKind) (type : Option TypeId) (census : Census) :
    Checked (ExprId × ExprTable × Census) := do
  let (id, nodes, census) ← push kind type table.nodes census
  return (id, { table with nodes }, census)

def keepList (table : ExprTable) (exprs : List ExprId) : Checked (ExprListId × ExprTable) := do
  let (id, lists) ← table.lists.push exprs
  return (id, { table with lists })

end ExprTable

end CanonIR
