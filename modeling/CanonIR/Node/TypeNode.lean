import CanonIR.Node.Census
import CanonIR.Node.Flags
import CanonIR.Ordered.Code
import CanonIR.Ordered.Index
import CanonIR.Ordered.Sequences

/-! Types. Fundamental types are shared by all programs. Structural types are one node
where they are equal; classes, unions, enumerations and namespaces never are. -/

namespace CanonIR

inductive Fundamental where
  | void
  | bool
  | char
  | signedChar
  | unsignedChar
  | wideChar
  | char8
  | char16
  | char32
  | short
  | unsignedShort
  | int
  | unsignedInt
  | long
  | unsignedLong
  | longLong
  | unsignedLongLong
  | float
  | double
  | longDouble
  | nullPointer
  | auto
  | ellipsis
  | typename
  deriving DecidableEq

namespace Fundamental

/-- Every fundamental type, in the order of their handles. -/
def all : List Fundamental :=
  [.void, .bool, .char, .signedChar, .unsignedChar, .wideChar, .char8, .char16, .char32, .short,
    .unsignedShort, .int, .unsignedInt, .long, .unsignedLong, .longLong, .unsignedLongLong, .float,
    .double, .longDouble, .nullPointer, .auto, .ellipsis, .typename]

def index (fundamental : Fundamental) : Nat := all.idxOf fundamental

def typeId (fundamental : Fundamental) : TypeId := ⟨fundamental.index⟩

def spelling : Fundamental → String
  | .void => "void"
  | .bool => "bool"
  | .char => "char"
  | .signedChar => "signed char"
  | .unsignedChar => "unsigned char"
  | .wideChar => "wchar_t"
  | .char8 => "char8_t"
  | .char16 => "char16_t"
  | .char32 => "char32_t"
  | .short => "short"
  | .unsignedShort => "unsigned short"
  | .int => "int"
  | .unsignedInt => "unsigned int"
  | .long => "long"
  | .unsignedLong => "unsigned long"
  | .longLong => "long long"
  | .unsignedLongLong => "unsigned long long"
  | .float => "float"
  | .double => "double"
  | .longDouble => "long double"
  | .nullPointer => "decltype(nullptr)"
  | .auto => "auto"
  | .ellipsis => "..."
  | .typename => "typename"

end Fundamental

inductive Linkage where
  | cxx
  | c
  deriving DecidableEq

def Linkage.all : List Linkage := [.cxx, .c]

def Linkage.label : Linkage → String
  | .cxx => "cxx"
  | .c => "c"

inductive TypeKind where
  | builtin (fundamental : Fundamental)
  | pointer (target : TypeId)
  | reference (target : TypeId)
  | rvalueReference (target : TypeId)
  /-- `main` is not itself qualified. -/
  | qualified (qualifiers : Qualifiers) (main : TypeId)
  | array (element : TypeId) (bound : Option ExprId)
  /-- From a product of parameters; `throws` is a sum, empty if nothing is thrown. -/
  | function (source target throws : TypeId) (linkage : Linkage)
  | pointerToMember (owner member : TypeId)
  | product (types : TypeListId)
  | sum (types : TypeListId)
  | template (source target : TypeId)
  | decltype (expr : ExprId)
  /-- Known by name only. -/
  | named (name : NameId)
  | classType (region : RegionId)
  | unionType (region : RegionId)
  | enumType (region : RegionId) (underlying : Option TypeId)
  | namespaceType (region : RegionId)
  deriving DecidableEq

namespace TypeKind

def category : TypeKind → Category
  | .builtin _ => .builtin
  | .pointer _ => .pointer
  | .reference _ => .reference
  | .rvalueReference _ => .rvalueReference
  | .qualified .. => .qualifiedType
  | .array .. => .array
  | .function .. => .functionType
  | .pointerToMember .. => .pointerToMember
  | .product _ => .product
  | .sum _ => .sum
  | .template .. => .templateType
  | .decltype _ => .decltype
  | .named _ => .namedType
  | .classType _ => .classType
  | .unionType _ => .unionType
  | .enumType .. => .enumType
  | .namespaceType _ => .namespaceType

def code : TypeKind → List Nat
  | .builtin fundamental => [0, fundamental.index]
  | .pointer target => [1, target.raw]
  | .reference target => [2, target.raw]
  | .rvalueReference target => [3, target.raw]
  | .qualified qualifiers main => [4, qualifiers.bits.toNat, main.raw]
  | .array element bound => [5, element.raw, optionCode (bound.map Handle.raw)]
  | .function source target throws linkage =>
    [6, source.raw, target.raw, throws.raw, if linkage = .cxx then 0 else 1]
  | .pointerToMember owner member => [7, owner.raw, member.raw]
  | .product types => [8, types.raw]
  | .sum types => [9, types.raw]
  | .template source target => [10, source.raw, target.raw]
  | .decltype expr => [11, expr.raw]
  | .named name => [12, name.raw]
  | .classType region => [13, region.raw]
  | .unionType region => [14, region.raw]
  | .enumType region underlying => [15, region.raw, optionCode (underlying.map Handle.raw)]
  | .namespaceType region => [16, region.raw]

instance : Ord TypeKind := ⟨fun left right => compareCodes left.code right.code⟩

/-- The region that a user-defined type owns. -/
def region? : TypeKind → Option RegionId
  | .classType region | .unionType region | .enumType region _ | .namespaceType region =>
    some region
  | _ => none

end TypeKind

structure TypeNode where
  id : NodeId
  kind : TypeKind
  deriving DecidableEq

def TypeNode.category (node : TypeNode) : Category := node.kind.category

structure TypeTable where
  nodes : Slab .type TypeNode := {}
  index : Index TypeKind TypeId := {}
  lists : Sequences TypeId := .initial
  /-- A class and a base of it, for each base, in the order they were given. -/
  bases : Array (TypeId × TypeId) := #[]

namespace TypeTable

def get (table : TypeTable) (id : TypeId) : Checked TypeNode :=
  match Fundamental.all[id.raw]? with
  | some fundamental => .ok ⟨⟨id.raw⟩, .builtin fundamental⟩
  | none =>
    if id.raw < Table.firstFree .type then .error (.reservedType id.raw) else table.nodes.get id

def push (kind : TypeKind) (nodes : Slab .type TypeNode) (census : Census) :
    Checked (TypeId × Slab .type TypeNode × Census) := do
  let (node, census) ← census.enroll kind.category
  let (id, nodes) ← nodes.push ⟨node, kind⟩
  return (id, nodes, census)

/-- The type of this kind, made on first use. -/
def canonical (table : TypeTable) (kind : TypeKind) (census : Census) :
    Checked (TypeId × TypeTable × Census) :=
  match kind with
  | .builtin fundamental => .ok (fundamental.typeId, table, census)
  | _ => do
    let ((id, fresh), index, nodes, census) ←
      table.index.getOrMake kind (fun (nodes, census) => push kind nodes census)
        (table.nodes, census)
    return (id, { table with nodes, index }, census.countRequest .type fresh)

/-- A new type that no other request will get. -/
def fresh (table : TypeTable) (kind : TypeKind) (census : Census) :
    Checked (TypeId × TypeTable × Census) := do
  let (id, nodes, census) ← push kind table.nodes census
  return (id, { table with nodes }, census)

def keepList (table : TypeTable) (types : List TypeId) : Checked (TypeListId × TypeTable) := do
  let ((slot, _), lists) ← table.lists.intern types
  return (⟨slot.raw⟩, { table with lists })

def list (table : TypeTable) (id : TypeListId) : Checked (List TypeId) := table.lists.get ⟨id.raw⟩

def addBase (table : TypeTable) (type base : TypeId) : TypeTable :=
  { table with bases := table.bases.push (type, base) }

def basesOf (table : TypeTable) (type : TypeId) : List TypeId :=
  (table.bases.toList.filter (·.1 = type)).map Prod.snd

end TypeTable

end CanonIR
