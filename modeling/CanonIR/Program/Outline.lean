import CanonIR.Program.Query

/-! An outline of a node: what it holds, datum by datum, in a form that is the same for
all kinds of nodes. Lists are given with their handle and in full. -/

namespace CanonIR

inductive Datum where
  | number (value : Nat)
  | text (value : String)
  | flag (value : Bool)
  | absent
  | list (items : List Datum)

namespace Datum

def handle {table : Table} (handle : Handle table) : Datum := .number handle.raw

def symbol (symbol : Symbol) : Datum := .number symbol.raw

def option {α : Type} (datum : α → Datum) : Option α → Datum
  | none => .absent
  | some value => datum value

def handle? {table : Table} : Option (Handle table) → Datum := option handle

def ref (ref : NodeRef) : Datum := .list [.text ref.group.label, .number ref.raw]

end Datum

namespace Program

open Datum

variable (program : Program)

def termListData (id : TermListId) : Checked (List Datum) :=
  return [handle id, .list ((← program.termList id).map fun term => ref term.toRef)]

def typeListData (id : TypeListId) : Checked (List Datum) :=
  return [handle id, .list ((← program.typeList id).map handle)]

def exprListDatum (id : ExprListId) : Checked Datum :=
  return .list [handle id, .list ((← program.exprList id).map handle)]

def nameData : NameKind → Checked (List Datum)
  | .identifier text | .operator text | .suffix text => return [symbol text]
  | .conversion type | .typeName type | .constructor type | .destructor type =>
    return [handle type]
  | .qualified scope member => return [handle scope, handle member]
  | .templateId template args => return handle template :: (← program.termListData args)

def typeData : TypeKind → Checked (List Datum)
  | .builtin fundamental => return [.text fundamental.spelling]
  | .pointer type | .reference type | .rvalueReference type => return [handle type]
  | .qualified qualifiers main => return [.number qualifiers.bits.toNat, handle main]
  | .array element bound => return [handle element, handle? bound]
  | .function source target throws linkage =>
    return [handle source, handle target, handle throws, .text linkage.label]
  | .pointerToMember owner member => return [handle owner, handle member]
  | .product types | .sum types => program.typeListData types
  | .template source target => return [handle source, handle target]
  | .decltype expr => return [handle expr]
  | .named name => return [handle name]
  | .classType region | .unionType region | .namespaceType region => return [handle region]
  | .enumType region underlying => return [handle region, handle? underlying]

def exprData : ExprKind → Checked (List Datum)
  | .literal type text => return [handle type, symbol text]
  | .bool value => return [.flag value]
  | .nullPointer | .defaultMarker | .deleteMarker => return []
  | .idExpr name decl => return [handle name, handle? decl]
  | .unary op operand => return [.text op.label, handle operand]
  | .binary op left right => return [.text op.label, handle left, handle right]
  | .call callee args => return [handle callee, ← program.exprListDatum args]
  | .cast kind type operand => return [.text kind.label, handle type, handle operand]
  | .conditional condition whenTrue whenFalse =>
    return [handle condition, handle whenTrue, handle whenFalse]
  | .member object name arrow => return [handle object, handle name, .flag arrow]
  | .sizeOf type | .alignOf type => return [handle type]
  | .newExpr type none => return [handle type, .absent]
  | .newExpr type (some args) => return [handle type, ← program.exprListDatum args]
  | .deleteExpr operand array => return [handle operand, .flag array]
  | .paren inner => return [handle inner]
  | .initializerList elements => return [← program.exprListDatum elements]
  | .throwExpr operand => return [handle? operand]

def stmtData : StmtKind → List Datum
  | .exprStmt expr => [handle expr]
  | .labeled label stmt => [handle label, handle stmt]
  | .block region body => [handle region, .list (body.toList.map handle)]
  | .ifStmt condition whenTrue whenFalse => [handle condition, handle whenTrue, handle? whenFalse]
  | .switchStmt condition body | .whileStmt condition body => [handle condition, handle body]
  | .doStmt body condition => [handle body, handle condition]
  | .forStmt start condition increment body =>
    [handle? start, handle? condition, handle? increment, handle body]
  | .forInStmt var sequence body => [handle var, handle sequence, handle body]
  | .breakStmt | .continueStmt => []
  | .gotoStmt label => [handle label]
  | .returnStmt value => [handle? value]
  | .declStmt decl => [handle decl]

def declData : DeclKind → Checked (List Datum)
  | .var initializer | .field initializer => return [handle? initializer]
  | .bitfield width initializer => return [handle width, handle? initializer]
  | .parameter position default => return [.number position, handle? default]
  | .function parameters body => return [handle parameters, handle? body]
  | .alias aliasee => return [handle? aliasee]
  | .enumerator value => return [handle? value]
  | .typeDecl definition => return [handle? definition]
  | .template parameters pattern primary none =>
    return [handle parameters, handle? pattern, handle primary, .absent]
  | .template parameters pattern primary (some args) =>
    return [handle parameters, handle? pattern, handle primary,
      .list (← program.termListData args)]

def directiveData : DirectiveKind → List Datum
  | .usingDirective nominated => [handle nominated]
  | .usingDeclaration name => [handle name]
  | .staticAssert condition message => [handle condition, option symbol message]
  | .asm text | .pragma text => [symbol text]

end Program

end CanonIR
