import CanonIR.Program.Body
import CanonIR.Program.Completion
import CanonIR.Program.Declaration
import CanonIR.Program.Expression

/-! Every request that can change a program, and what carrying it out means. A run is a
list of requests. -/

namespace CanonIR

inductive Request where
  -- Texts
  | intern (bytes : Bytes)
  | internText (text : String)
  -- Names
  | identifier (text : Symbol)
  | operator (text : Symbol)
  | suffix (text : Symbol)
  | conversion (target : TypeId)
  | typeName (type : TypeId)
  | constructorName (type : TypeId)
  | destructorName (type : TypeId)
  | qualifiedName (scope : TypeId) (member : NameId)
  | templateId (template : NameId) (args : List Term)
  -- Types
  | pointer (target : TypeId)
  | reference (target : TypeId)
  | rvalueReference (target : TypeId)
  | qualified (qualifiers : Qualifiers) (main : TypeId)
  | array (element : TypeId) (bound : Option ExprId)
  | functionType (source target throws : TypeId) (linkage : Linkage)
  | pointerToMember (owner member : TypeId)
  | product (types : List TypeId)
  | sum (types : List TypeId)
  | templateType (source target : TypeId)
  | decltype (expr : ExprId)
  | namedType (name : NameId)
  | newClass (parent : RegionId)
  | newUnion (parent : RegionId)
  | newEnum (parent : RegionId)
  | newNamespace (parent : RegionId)
  | setUnderlyingType (enumType underlying : TypeId)
  | addBase (type base : TypeId)
  -- Expressions
  | literal (type : TypeId) (text : Symbol)
  | idExpr (name : NameId) (decl : Option DeclId)
  | unary (op : UnaryOp) (operand : ExprId)
  | binary (op : BinaryOp) (left right : ExprId)
  | call (callee : ExprId) (args : List ExprId)
  | cast (kind : CastKind) (type : TypeId) (operand : ExprId)
  | conditional (condition whenTrue whenFalse : ExprId)
  | member (object : ExprId) (name : NameId) (arrow : Bool)
  | sizeOf (type : TypeId)
  | alignOf (type : TypeId)
  | newExpr (type : TypeId) (args : Option (List ExprId))
  | deleteExpr (operand : ExprId) (array : Bool)
  | paren (inner : ExprId)
  | initializerList (elements : List ExprId)
  | throwExpr (operand : Option ExprId)
  | setExprType (expr : ExprId) (type : TypeId)
  -- Regions
  | newRegion (parent : RegionId)
  | setRegionOwner (region : RegionId) (owner : RegionOwner)
  -- Statements
  | exprStmt (expr : ExprId)
  | labeled (label : NameId) (stmt : StmtId)
  | newBlock (parent : RegionId)
  | appendToBlock (block stmt : StmtId)
  | ifStmt (condition : ExprId) (whenTrue : StmtId) (whenFalse : Option StmtId)
  | switchStmt (condition : ExprId) (body : StmtId)
  | whileStmt (condition : ExprId) (body : StmtId)
  | doStmt (body : StmtId) (condition : ExprId)
  | forStmt (start : Option StmtId) (condition increment : Option ExprId) (body : StmtId)
  | forInStmt (var : DeclId) (sequence : ExprId) (body : StmtId)
  | breakStmt
  | continueStmt
  | gotoStmt (label : NameId)
  | returnStmt (value : Option ExprId)
  | declStmt (decl : DeclId)
  -- Directives
  | usingDirective (region : RegionId) (nominated : TypeId)
  | usingDeclaration (region : RegionId) (name : NameId)
  | staticAssert (region : RegionId) (condition : ExprId) (message : Option Symbol)
  | asm (region : RegionId) (text : Symbol)
  | pragma (region : RegionId) (text : Symbol)
  -- Declarations
  | declareVar (region : RegionId) (name : NameId) (type : TypeId) (specifiers : Specifiers)
  | declareField (region : RegionId) (name : NameId) (type : TypeId) (specifiers : Specifiers)
  | declareBitfield (region : RegionId) (name : NameId) (type : TypeId) (width : ExprId)
      (specifiers : Specifiers)
  | declareFunction (region : RegionId) (name : NameId) (type : TypeId) (specifiers : Specifiers)
  | declareParameter (function : DeclId) (name : NameId) (type : TypeId)
  | declareAlias (region : RegionId) (name : NameId) (specifiers : Specifiers)
  | declareEnumerator (enumType : TypeId) (name : NameId) (value : Option ExprId)
  | declareType (region : RegionId) (name : NameId) (specifiers : Specifiers)
  | declareTemplate (region : RegionId) (name : NameId) (type : TypeId) (specifiers : Specifiers)
  | declareSpecialization (template : DeclId) (args : List Term) (type : TypeId)
  | setInitializer (decl : DeclId) (value : ExprId)
  | setAliasee (decl : DeclId) (type : TypeId)
  | setFunctionBody (decl : DeclId) (body : StmtId)
  | setTypeDefinition (decl : DeclId) (type : TypeId)
  | setTemplatePattern (decl pattern : DeclId)

/-- What a request that was carried out gives back. -/
inductive Answer where
  | done
  | symbol (symbol : Symbol)
  | node (node : NodeRef)
  | region (region : RegionId)

namespace Program

def answerName (request : Edit NameId) : Build Answer := return .node (.name (← request))
def answerType (request : Build TypeId) : Build Answer := return .node (.type (← request))
def answerExpr (request : Edit ExprId) : Build Answer := return .node (.expr (← request))
def answerStmt (request : Edit StmtId) : Build Answer := return .node (.stmt (← request))
def answerDecl (request : Build DeclId) : Build Answer := return .node (.decl (← request))
def answerDirective (request : Build DirectiveId) : Build Answer :=
  return .node (.directive (← request))
def answerDone (request : Build Unit) : Build Answer := do request; return .done

/-- Carries out a request. -/
def perform : Request → Build Answer
  | .intern bytes => return .symbol (← intern bytes)
  | .internText text => return .symbol (← internText text)
  | .identifier text => answerName (nameOf (.identifier text))
  | .operator text => answerName (nameOf (.operator text))
  | .suffix text => answerName (nameOf (.suffix text))
  | .conversion target => answerName (nameOf (.conversion target))
  | .typeName type => answerName (nameOf (.typeName type))
  | .constructorName type => answerName (nameOf (.constructor type))
  | .destructorName type => answerName (nameOf (.destructor type))
  | .qualifiedName scope member => answerName (nameOf (.qualified scope member))
  | .templateId template args => answerName (templateId template args)
  | .pointer target => answerType (typeOf (.pointer target))
  | .reference target => answerType (typeOf (.reference target))
  | .rvalueReference target => answerType (typeOf (.rvalueReference target))
  | .qualified qualifiers main => answerType (qualified qualifiers main)
  | .array element bound => answerType (typeOf (.array element bound))
  | .functionType source target throws linkage =>
    answerType (typeOf (.function source target throws linkage))
  | .pointerToMember owner member => answerType (typeOf (.pointerToMember owner member))
  | .product types => answerType (product types)
  | .sum types => answerType (sum types)
  | .templateType source target => answerType (typeOf (.template source target))
  | .decltype expr => answerType (typeOf (.decltype expr))
  | .namedType name => answerType (typeOf (.named name))
  | .newClass parent => answerType (newUserType .classType parent)
  | .newUnion parent => answerType (newUserType .unionType parent)
  | .newEnum parent => answerType (newUserType (.enumType · none) parent)
  | .newNamespace parent => answerType (newUserType .namespaceType parent)
  | .setUnderlyingType enumType underlying => answerDone (setUnderlyingType enumType underlying)
  | .addBase type base => answerDone (addBase type base)
  | .literal type text => answerExpr (literal type text)
  | .idExpr name decl => answerExpr (idExpr name decl)
  | .unary op operand => answerExpr (exprOf (.unary op operand) none)
  | .binary op left right => answerExpr (exprOf (.binary op left right) none)
  | .call callee args => answerExpr (callExpr callee args)
  | .cast kind type operand => answerExpr (exprOf (.cast kind type operand) (some type))
  | .conditional condition whenTrue whenFalse =>
    answerExpr (exprOf (.conditional condition whenTrue whenFalse) none)
  | .member object name arrow => answerExpr (exprOf (.member object name arrow) none)
  | .sizeOf type => answerExpr (exprOf (.sizeOf type) none)
  | .alignOf type => answerExpr (exprOf (.alignOf type) none)
  | .newExpr type args => answerExpr (newExpr type args)
  | .deleteExpr operand array =>
    answerExpr (exprOf (.deleteExpr operand array) (some Fundamental.void.typeId))
  | .paren inner => answerExpr (paren inner)
  | .initializerList elements => answerExpr (initializerList elements)
  | .throwExpr operand => answerExpr (exprOf (.throwExpr operand) (some Fundamental.void.typeId))
  | .setExprType expr type => answerDone (setExprType expr type)
  | .newRegion parent => return .region (← newRegion (some parent))
  | .setRegionOwner region owner => answerDone (setRegionOwner region owner)
  | .exprStmt expr => answerStmt (stmtOf (.exprStmt expr))
  | .labeled label stmt => answerStmt (stmtOf (.labeled label stmt))
  | .newBlock parent => answerStmt (newBlock parent)
  | .appendToBlock block stmt => answerDone (appendToBlock block stmt)
  | .ifStmt condition whenTrue whenFalse =>
    answerStmt (stmtOf (.ifStmt condition whenTrue whenFalse))
  | .switchStmt condition body => answerStmt (stmtOf (.switchStmt condition body))
  | .whileStmt condition body => answerStmt (stmtOf (.whileStmt condition body))
  | .doStmt body condition => answerStmt (stmtOf (.doStmt body condition))
  | .forStmt start condition increment body =>
    answerStmt (stmtOf (.forStmt start condition increment body))
  | .forInStmt var sequence body => answerStmt (stmtOf (.forInStmt var sequence body))
  | .breakStmt => answerStmt (stmtOf .breakStmt)
  | .continueStmt => answerStmt (stmtOf .continueStmt)
  | .gotoStmt label => answerStmt (stmtOf (.gotoStmt label))
  | .returnStmt value => answerStmt (stmtOf (.returnStmt value))
  | .declStmt decl => answerStmt (stmtOf (.declStmt decl))
  | .usingDirective region nominated => answerDirective (usingDirective region nominated)
  | .usingDeclaration region name => answerDirective (directiveOf region (.usingDeclaration name))
  | .staticAssert region condition message =>
    answerDirective (directiveOf region (.staticAssert condition message))
  | .asm region text => answerDirective (directiveOf region (.asm text))
  | .pragma region text => answerDirective (directiveOf region (.pragma text))
  | .declareVar region name type specifiers =>
    answerDecl (declareWith region name type specifiers (.var none))
  | .declareField region name type specifiers =>
    answerDecl (declareWith region name type specifiers (.field none))
  | .declareBitfield region name type width specifiers =>
    answerDecl (declareWith region name type specifiers (.bitfield width none))
  | .declareFunction region name type specifiers =>
    answerDecl (declareFunction region name type specifiers)
  | .declareParameter function name type => answerDecl (declareParameter function name type)
  | .declareAlias region name specifiers =>
    answerDecl (declareWith region name Fundamental.typename.typeId specifiers (.alias none))
  | .declareEnumerator enumType name value => answerDecl (declareEnumerator enumType name value)
  | .declareType region name specifiers =>
    answerDecl (declareWith region name Fundamental.typename.typeId specifiers (.typeDecl none))
  | .declareTemplate region name type specifiers =>
    answerDecl (declareTemplate region name type specifiers)
  | .declareSpecialization template args type =>
    answerDecl (declareSpecialization template args type)
  | .setInitializer decl value => answerDone (setInitializer decl value)
  | .setAliasee decl type => answerDone (setAliasee decl type)
  | .setFunctionBody decl body => answerDone (setFunctionBody decl body)
  | .setTypeDefinition decl type => answerDone (setTypeDefinition decl type)
  | .setTemplatePattern decl pattern => answerDone (setTemplatePattern decl pattern)

/-- The answer to a request, or the reason it was turned down, and the program after. -/
def respond (program : Program) (request : Request) :
    Checked (Except BuildError Answer × Program) :=
  (perform request).run.run program

/-- The program after a run of requests, whether or not they were turned down. -/
def run (program : Program) : List Request → Checked Program
  | [] => .ok program
  | request :: rest => do (← program.respond request).2.run rest

end Program

end CanonIR
