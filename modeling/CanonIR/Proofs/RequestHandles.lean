import CanonIR.Program.Request

/-! The handles that a request names, each written as the answer that hands it out. A
handle is issued if the program has an entry for it; what all programs share is issued
from the start. -/

namespace CanonIR

namespace Answer

abbrev name (id : NameId) : Answer := .node (.name id)
abbrev type (id : TypeId) : Answer := .node (.type id)
abbrev expr (id : ExprId) : Answer := .node (.expr id)
abbrev stmt (id : StmtId) : Answer := .node (.stmt id)
abbrev decl (id : DeclId) : Answer := .node (.decl id)
abbrev term (term : Term) : Answer := .node term.toRef
abbrev owner (owner : RegionOwner) : Answer := .node owner.toRef

end Answer

/-- The handles that a name is made of, except for those in a list. -/
def NameKind.handles : NameKind → List Answer
  | .identifier text | .operator text | .suffix text => [.symbol text]
  | .conversion type | .typeName type | .constructor type | .destructor type => [.type type]
  | .qualified scope member => [.type scope, .name member]
  | .templateId template _ => [.name template]

/-- The handles that a structural type is made of, except for those in a list. -/
def TypeKind.handles : TypeKind → List Answer
  | .pointer type | .reference type | .rvalueReference type | .qualified _ type => [.type type]
  | .array element bound => .type element :: bound.toList.map .expr
  | .function source target throws _ => [.type source, .type target, .type throws]
  | .pointerToMember owner member => [.type owner, .type member]
  | .template source target => [.type source, .type target]
  | .decltype expr => [.expr expr]
  | .named name => [.name name]
  | .builtin _ | .product _ | .sum _ | .classType _ | .unionType _ | .enumType ..
  | .namespaceType _ => []

def Request.handles : Request → List Answer
  | .intern _ | .internText _ => []
  | .identifier text | .operator text | .suffix text => [.symbol text]
  | .conversion type | .typeName type | .constructorName type | .destructorName type => [.type type]
  | .qualifiedName scope name => [.type scope, .name name]
  | .templateId template args => .name template :: args.map .term
  | .pointer type | .reference type | .rvalueReference type | .qualified _ type => [.type type]
  | .array element bound => .type element :: bound.toList.map .expr
  | .functionType source target throws _ => [.type source, .type target, .type throws]
  | .pointerToMember owner type => [.type owner, .type type]
  | .product types | .sum types => types.map .type
  | .templateType source target => [.type source, .type target]
  | .decltype expr => [.expr expr]
  | .namedType name => [.name name]
  | .newClass parent | .newUnion parent | .newEnum parent | .newNamespace parent
  | .newRegion parent | .newBlock parent => [.region parent]
  | .setUnderlyingType enumType underlying => [.type enumType, .type underlying]
  | .addBase type base => [.type type, .type base]
  | .literal type text => [.type type, .symbol text]
  | .idExpr name decl => .name name :: decl.toList.map .decl
  | .unary _ operand | .deleteExpr operand _ | .paren operand => [.expr operand]
  | .binary _ left right => [.expr left, .expr right]
  | .call callee args => .expr callee :: args.map .expr
  | .cast _ type operand => [.type type, .expr operand]
  | .conditional condition whenTrue whenFalse =>
    [.expr condition, .expr whenTrue, .expr whenFalse]
  | .member object name _ => [.expr object, .name name]
  | .sizeOf type | .alignOf type => [.type type]
  | .newExpr type args => .type type :: (args.getD []).map .expr
  | .initializerList elements => elements.map .expr
  | .throwExpr operand | .returnStmt operand => operand.toList.map .expr
  | .setExprType expr type => [.expr expr, .type type]
  | .setRegionOwner region owner => [.region region, .owner owner]
  | .exprStmt expr => [.expr expr]
  | .labeled label stmt => [.name label, .stmt stmt]
  | .appendToBlock block stmt => [.stmt block, .stmt stmt]
  | .ifStmt condition whenTrue whenFalse =>
    .expr condition :: .stmt whenTrue :: whenFalse.toList.map .stmt
  | .switchStmt condition body | .whileStmt condition body | .doStmt body condition =>
    [.expr condition, .stmt body]
  | .forStmt start condition increment body =>
    start.toList.map .stmt ++ condition.toList.map .expr ++ increment.toList.map .expr ++ [.stmt body]
  | .forInStmt var sequence body => [.decl var, .expr sequence, .stmt body]
  | .breakStmt | .continueStmt => []
  | .gotoStmt label => [.name label]
  | .declStmt decl => [.decl decl]
  | .usingDirective region nominated => [.region region, .type nominated]
  | .usingDeclaration region name => [.region region, .name name]
  | .staticAssert region condition message =>
    .region region :: .expr condition :: message.toList.map .symbol
  | .asm region text | .pragma region text => [.region region, .symbol text]
  | .declareVar region name type _ | .declareField region name type _
  | .declareFunction region name type _ | .declareTemplate region name type _ =>
    [.region region, .name name, .type type]
  | .declareBitfield region name type width _ =>
    [.region region, .name name, .type type, .expr width]
  | .declareParameter function name type => [.decl function, .name name, .type type]
  | .declareAlias region name _ | .declareType region name _ => [.region region, .name name]
  | .declareEnumerator enumType name value =>
    .type enumType :: .name name :: value.toList.map .expr
  | .declareSpecialization template args type => .decl template :: .type type :: args.map .term
  | .setInitializer decl value => [.decl decl, .expr value]
  | .setAliasee decl type | .setTypeDefinition decl type => [.decl decl, .type type]
  | .setFunctionBody decl body => [.decl decl, .stmt body]
  | .setTemplatePattern decl pattern => [.decl decl, .decl pattern]

namespace Program

/-- Whether the program has an entry for what was handed out. -/
def issued (program : Program) : Answer → Bool
  | .done => true
  | .symbol symbol => (program.text symbol).isOk
  | .node ref => (program.category ref).isOk
  | .region id => (program.region id).isOk

/-- Whether every request of a run names only handles that were issued before it. -/
def usesIssued (program : Program) : List Request → Bool
  | [] => true
  | request :: rest =>
    request.handles.all program.issued &&
      match program.respond request with
      | .ok (_, after) => after.usesIssued rest
      | .error _ => true

end Program

end CanonIR
