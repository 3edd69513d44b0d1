/-! What kinds of nodes there are, and which table keeps each. -/

namespace CanonIR

/-- The six tables of nodes. -/
inductive Group where
  | name
  | type
  | expr
  | stmt
  | decl
  | directive
  deriving DecidableEq

namespace Group

def all : List Group := [.name, .type, .expr, .stmt, .decl, .directive]

def index : Group → Fin 6
  | .name => 0
  | .type => 1
  | .expr => 2
  | .stmt => 3
  | .decl => 4
  | .directive => 5

def label : Group → String
  | .name => "name"
  | .type => "type"
  | .expr => "expr"
  | .stmt => "stmt"
  | .decl => "decl"
  | .directive => "directive"

end Group

inductive Category where
  | identifier
  | operator
  | suffix
  | conversion
  | typeName
  | constructor
  | destructor
  | qualifiedName
  | templateId
  | builtin
  | pointer
  | reference
  | rvalueReference
  | qualifiedType
  | array
  | functionType
  | pointerToMember
  | product
  | sum
  | templateType
  | decltype
  | namedType
  | classType
  | unionType
  | enumType
  | namespaceType
  | literal
  | boolConstant
  | nullConstant
  | defaultMarker
  | deleteMarker
  | idExpr
  | unary
  | binary
  | call
  | cast
  | conditional
  | member
  | sizeOf
  | alignOf
  | newExpr
  | deleteExpr
  | paren
  | initializerList
  | throwExpr
  | exprStmt
  | labeled
  | block
  | ifStmt
  | switchStmt
  | whileStmt
  | doStmt
  | forStmt
  | forInStmt
  | breakStmt
  | continueStmt
  | gotoStmt
  | returnStmt
  | declStmt
  | var
  | field
  | bitfield
  | parameter
  | function
  | alias
  | enumerator
  | typeDecl
  | template
  | usingDirective
  | usingDeclaration
  | staticAssert
  | asm
  | pragma
  deriving DecidableEq

namespace Category

/-- Every category, in the order of the codes. -/
def all : List Category :=
  [.identifier, .operator, .suffix, .conversion, .typeName, .constructor, .destructor,
    .qualifiedName, .templateId, .builtin, .pointer, .reference, .rvalueReference, .qualifiedType,
    .array, .functionType, .pointerToMember, .product, .sum, .templateType, .decltype, .namedType,
    .classType, .unionType, .enumType, .namespaceType, .literal, .boolConstant, .nullConstant,
    .defaultMarker, .deleteMarker, .idExpr, .unary, .binary, .call, .cast, .conditional, .member,
    .sizeOf, .alignOf, .newExpr, .deleteExpr, .paren, .initializerList, .throwExpr, .exprStmt,
    .labeled, .block, .ifStmt, .switchStmt, .whileStmt, .doStmt, .forStmt, .forInStmt, .breakStmt,
    .continueStmt, .gotoStmt, .returnStmt, .declStmt, .var, .field, .bitfield, .parameter,
    .function, .alias, .enumerator, .typeDecl, .template, .usingDirective, .usingDeclaration,
    .staticAssert, .asm, .pragma]

/-- The number of a category. Each group has a range of numbers to itself. -/
def code : Category → Fin 256
  | .identifier => 0
  | .operator => 1
  | .suffix => 2
  | .conversion => 3
  | .typeName => 4
  | .constructor => 5
  | .destructor => 6
  | .qualifiedName => 7
  | .templateId => 8
  | .builtin => 16
  | .pointer => 17
  | .reference => 18
  | .rvalueReference => 19
  | .qualifiedType => 20
  | .array => 21
  | .functionType => 22
  | .pointerToMember => 23
  | .product => 24
  | .sum => 25
  | .templateType => 26
  | .decltype => 27
  | .namedType => 28
  | .classType => 29
  | .unionType => 30
  | .enumType => 31
  | .namespaceType => 32
  | .literal => 48
  | .boolConstant => 49
  | .nullConstant => 50
  | .defaultMarker => 51
  | .deleteMarker => 52
  | .idExpr => 53
  | .unary => 54
  | .binary => 55
  | .call => 56
  | .cast => 57
  | .conditional => 58
  | .member => 59
  | .sizeOf => 60
  | .alignOf => 61
  | .newExpr => 62
  | .deleteExpr => 63
  | .paren => 64
  | .initializerList => 65
  | .throwExpr => 66
  | .exprStmt => 112
  | .labeled => 113
  | .block => 114
  | .ifStmt => 115
  | .switchStmt => 116
  | .whileStmt => 117
  | .doStmt => 118
  | .forStmt => 119
  | .forInStmt => 120
  | .breakStmt => 121
  | .continueStmt => 122
  | .gotoStmt => 123
  | .returnStmt => 124
  | .declStmt => 125
  | .var => 144
  | .field => 145
  | .bitfield => 146
  | .parameter => 147
  | .function => 148
  | .alias => 149
  | .enumerator => 150
  | .typeDecl => 151
  | .template => 152
  | .usingDirective => 176
  | .usingDeclaration => 177
  | .staticAssert => 178
  | .asm => 179
  | .pragma => 180

/-- The table that keeps nodes of this category: the ranges of codes are consecutive. -/
def group (category : Category) : Group :=
  let code := category.code
  if code < 16 then .name
  else if code < 48 then .type
  else if code < 112 then .expr
  else if code < 144 then .stmt
  else if code < 176 then .decl
  else .directive

/-- Whether equal nodes of this category are one node. User-defined types are distinct
even where they look alike. -/
def isCanonical (category : Category) : Bool :=
  match category.group with
  | .name => true
  | .type => category ∉ [classType, unionType, enumType, namespaceType]
  | .expr => category = literal
  | .stmt | .decl | .directive => false

def label : Category → String
  | .identifier => "identifier"
  | .operator => "operator"
  | .suffix => "suffix"
  | .conversion => "conversion"
  | .typeName => "type_name"
  | .constructor => "constructor"
  | .destructor => "destructor"
  | .qualifiedName => "qualified_name"
  | .templateId => "template_id"
  | .builtin => "builtin"
  | .pointer => "pointer"
  | .reference => "reference"
  | .rvalueReference => "rvalue_reference"
  | .qualifiedType => "qualified_type"
  | .array => "array"
  | .functionType => "function_type"
  | .pointerToMember => "pointer_to_member"
  | .product => "product"
  | .sum => "sum"
  | .templateType => "template_type"
  | .decltype => "decltype"
  | .namedType => "named_type"
  | .classType => "class"
  | .unionType => "union"
  | .enumType => "enum"
  | .namespaceType => "namespace"
  | .literal => "literal"
  | .boolConstant => "bool"
  | .nullConstant => "nullptr"
  | .defaultMarker => "default_marker"
  | .deleteMarker => "delete_marker"
  | .idExpr => "id_expr"
  | .unary => "unary"
  | .binary => "binary"
  | .call => "call"
  | .cast => "cast"
  | .conditional => "conditional"
  | .member => "member"
  | .sizeOf => "sizeof"
  | .alignOf => "alignof"
  | .newExpr => "new"
  | .deleteExpr => "delete"
  | .paren => "paren"
  | .initializerList => "initializer_list"
  | .throwExpr => "throw"
  | .exprStmt => "expr_stmt"
  | .labeled => "labeled"
  | .block => "block"
  | .ifStmt => "if"
  | .switchStmt => "switch"
  | .whileStmt => "while"
  | .doStmt => "do"
  | .forStmt => "for"
  | .forInStmt => "for_in"
  | .breakStmt => "break"
  | .continueStmt => "continue"
  | .gotoStmt => "goto"
  | .returnStmt => "return"
  | .declStmt => "decl_stmt"
  | .var => "var"
  | .field => "field"
  | .bitfield => "bitfield"
  | .parameter => "parameter"
  | .function => "function"
  | .alias => "alias"
  | .enumerator => "enumerator"
  | .typeDecl => "typedecl"
  | .template => "template"
  | .usingDirective => "using_directive"
  | .usingDeclaration => "using_declaration"
  | .staticAssert => "static_assert"
  | .asm => "asm"
  | .pragma => "pragma"

end Category

end CanonIR
