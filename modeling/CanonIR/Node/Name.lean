import CanonIR.Node.Census
import CanonIR.Node.Reference
import CanonIR.Ordered.Index
import CanonIR.Ordered.Sequences
import CanonIR.Text.Symbol

/-! Names. Equal names are one node. -/

namespace CanonIR

inductive NameKind where
  | identifier (text : Symbol)
  | operator (text : Symbol)
  /-- The suffix of a user-defined literal. -/
  | suffix (text : Symbol)
  | conversion (target : TypeId)
  | typeName (type : TypeId)
  | constructor (type : TypeId)
  | destructor (type : TypeId)
  | qualified (scope : TypeId) (member : NameId)
  | templateId (template : NameId) (args : TermListId)
  deriving DecidableEq

namespace NameKind

def category : NameKind → Category
  | .identifier _ => .identifier
  | .operator _ => .operator
  | .suffix _ => .suffix
  | .conversion _ => .conversion
  | .typeName _ => .typeName
  | .constructor _ => .constructor
  | .destructor _ => .destructor
  | .qualified .. => .qualifiedName
  | .templateId .. => .templateId

def code : NameKind → List Nat
  | .identifier text => 0 :: text.code
  | .operator text => 1 :: text.code
  | .suffix text => 2 :: text.code
  | .conversion target => [3, target.raw]
  | .typeName type => [4, type.raw]
  | .constructor type => [5, type.raw]
  | .destructor type => [6, type.raw]
  | .qualified scope member => [7, scope.raw, member.raw]
  | .templateId template args => [8, template.raw, args.raw]

instance : Ord NameKind := ⟨fun left right => compareCodes left.code right.code⟩

end NameKind

structure NameNode where
  id : NodeId
  kind : NameKind
  deriving DecidableEq

def NameNode.category (node : NameNode) : Category := node.kind.category

structure NameTable where
  nodes : Slab .name NameNode := {}
  index : Index NameKind NameId := {}
  terms : Sequences Term := .initial

namespace NameTable

/-- The name of this kind, made on first use. -/
def canonical (table : NameTable) (kind : NameKind) (census : Census) :
    Checked (NameId × NameTable × Census) := do
  let make : Slab .name NameNode × Census → Checked (NameId × Slab .name NameNode × Census) :=
    fun (nodes, census) => do
      let (node, census) ← census.enroll kind.category
      let (id, nodes) ← nodes.push ⟨node, kind⟩
      return (id, nodes, census)
  let ((id, fresh), index, nodes, census) ← table.index.getOrMake kind make (table.nodes, census)
  return (id, { table with nodes, index }, census.countRequest .name fresh)

def keepTerms (table : NameTable) (terms : List Term) : Checked (TermListId × NameTable) := do
  let ((slot, _), terms) ← table.terms.intern terms
  return (⟨slot.raw⟩, { table with terms })

/-- The template-id that names `template` applied to `args`, if there is one already. -/
def templateId? (table : NameTable) (template : NameId) (args : List Term) :
    Checked (Option NameId) := do
  match ← table.terms.find? args with
  | none => return none
  | some slot => table.index.get? (.templateId template ⟨slot.raw⟩)

def termList (table : NameTable) (id : TermListId) : Checked (List Term) :=
  table.terms.get ⟨id.raw⟩

end NameTable

end CanonIR
