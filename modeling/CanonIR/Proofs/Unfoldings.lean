import CanonIR.Proofs.IssuedHandles
import CanonIR.Proofs.PoolRuns

/-! Unfoldings. A name, a type or a literal is made of others; writing these out instead
of their handles, and texts instead of their symbols, gives a tree. What is not made of
others, or has an identity of its own, is a leaf. Where equal nodes are one node, terms
with one tree are one term. -/

namespace CanonIR

/-- What a term is, apart from what it is made of. -/
inductive Head where
  /-- Known by handle only. -/
  | leaf (term : Term)
  | name (category : Category)
  | spelledName (category : Category) (text : Bytes)
  | type (category : Category)
  | qualifiedType (qualifiers : Qualifiers)
  | functionType (linkage : Linkage)
  | literal (text : Bytes)

/-- What can be told of a term by its head alone. -/
def Head.sort : Head → Group × Option Category
  | .leaf term => (term.toRef.group, none)
  | .name category | .spelledName category _ => (.name, some category)
  | .type category => (.type, some category)
  | .qualifiedType _ => (.type, some .qualifiedType)
  | .functionType _ => (.type, some .functionType)
  | .literal _ => (.expr, some .literal)

inductive Unfolding where
  | node (head : Head) (parts : List Unfolding)

namespace Program

variable {program : Program} {head : Head} {operands : List Term} {first second : Term}
  {tree other : Unfolding} {depth : Nat}

def nameLayer (program : Program) (kind : NameKind) : Checked (Head × List Term) :=
  match kind with
  | .identifier text | .operator text | .suffix text =>
    return (.spelledName kind.category (← program.text text), [])
  | .conversion type | .typeName type | .constructor type | .destructor type =>
    return (.name kind.category, [.type type])
  | .qualified scope member => return (.name kind.category, [.type scope, .name member])
  | .templateId template args =>
    return (.name kind.category, .name template :: (← program.termList args))

/-- Fundamental and user-defined types are leaves. -/
def typeLayer (program : Program) (id : TypeId) (kind : TypeKind) : Checked (Head × List Term) :=
  match kind with
  | .builtin _ | .classType _ | .unionType _ | .enumType .. | .namespaceType _ =>
    return (.leaf (.type id), [])
  | .pointer type | .reference type | .rvalueReference type =>
    return (.type kind.category, [.type type])
  | .qualified qualifiers main => return (.qualifiedType qualifiers, [.type main])
  | .array element bound => return (.type kind.category, .type element :: bound.toList.map .expr)
  | .function source target throws linkage =>
    return (.functionType linkage, [.type source, .type target, .type throws])
  | .pointerToMember owner member => return (.type kind.category, [.type owner, .type member])
  | .product types | .sum types => return (.type kind.category, (← program.typeList types).map .type)
  | .template source target => return (.type kind.category, [.type source, .type target])
  | .decltype expr => return (.type kind.category, [.expr expr])
  | .named name => return (.type kind.category, [.name name])

/-- All expressions but literals are leaves. -/
def exprLayer (program : Program) (id : ExprId) (kind : ExprKind) : Checked (Head × List Term) :=
  match kind with
  | .literal type text => return (.literal (← program.text text), [.type type])
  | _ => return (.leaf (.expr id), [])

/-- What a term is, and what it is made of. -/
def layer (program : Program) : Term → Checked (Head × List Term)
  | .name id => do program.nameLayer (← program.nameNode id).kind
  | .type id => do program.typeLayer id (← program.typeNode id).kind
  | .expr id => do program.exprLayer id (← program.exprNode id).kind

/-- The whole tree of a term, if it is not deeper than `depth`. -/
def unfold (program : Program) : Nat → Term → Checked Unfolding
  | 0, _ => .error .endlessWalk
  | depth + 1, term => do
    let (head, operands) ← program.layer term
    return .node head (← operands.mapM (program.unfold depth))

theorem unfold_eq_ok : program.unfold (depth + 1) first = .ok tree ↔
    ∃ head operands parts, program.layer first = .ok (head, operands) ∧
      List.Forall₂ (fun operand part => program.unfold depth operand = .ok part) operands parts ∧
      tree = .node head parts := by
  simp only [unfold, Checked.bind_eq_ok, Checked.mapM_eq_ok, Prod.exists, Checked.pure_eq_ok,
    Except.ok.injEq]
  constructor
  · rintro ⟨head, operands, read, parts, each, rfl⟩
    exact ⟨head, operands, parts, read, each, rfl⟩
  · rintro ⟨head, operands, parts, read, each, rfl⟩
    exact ⟨head, operands, read, parts, each, rfl⟩

/-- A tree that is reached is the whole tree. -/
theorem unfold_mono {more : Nat} (deeper : depth ≤ more) (reached : program.unfold depth first = .ok tree) :
    program.unfold more first = .ok tree := by
  induction depth generalizing more first tree with
  | zero => cases reached
  | succ depth ih =>
    obtain ⟨more, rfl⟩ := Nat.exists_eq_succ_of_ne_zero (show more ≠ 0 by omega)
    obtain ⟨head, operands, parts, read, each, rfl⟩ := unfold_eq_ok.mp reached
    refine unfold_eq_ok.mpr ⟨head, operands, parts, read, each.imp fun _ _ part => ?_, rfl⟩
    exact ih (by omega) part

/-! ### One term for one tree -/

/-- Texts and lists are known by what they stand for, and nodes by their kind. -/
structure Identifies (program : Program) : Prop where
  canonical : program.Canonical
  sound : program.strings.Sound

section Names

variable {kind same : NameKind} (one : program.nameLayer kind = .ok (head, operands))

include one

theorem sort_nameLayer : head.sort = (.name, some kind.category) := by
  cases kind with
  | identifier | operator | suffix | templateId =>
    obtain ⟨_, -, equal⟩ := Checked.bind_eq_ok.mp one
    cases equal
    rfl
  | conversion | typeName | constructor | destructor | qualified =>
    cases one
    rfl

theorem nameLayer_inj (identifies : program.Identifies)
    (two : program.nameLayer same = .ok (head, operands)) : kind = same := by
  have category : kind.category = same.category := by
    have sorts := (sort_nameLayer one).symm.trans (sort_nameLayer two)
    simpa using sorts
  have texts : ∀ {left right bytes}, program.text left = .ok bytes → program.text right = .ok bytes →
      left = right := identifies.sound.lookup_inj
  have lists : ∀ {left right terms}, program.termList left = .ok terms →
      program.termList right = .ok terms → left = right :=
    NameTable.termList_inj identifies.canonical.names
  cases kind <;> cases same <;> try cases category
  all_goals
    simp only [nameLayer, Checked.bind_eq_ok, Checked.pure_eq_ok, Except.ok.injEq, Prod.mk.injEq] at one two
    grind

end Names

section Types

variable {id other : TypeId} {kind same : TypeKind}
  (one : program.typeLayer id kind = .ok (head, operands))

include one

theorem sort_typeLayer : head = .leaf (.type id) ∨
    head.sort = (.type, some kind.category) ∧ kind.IsStructural := by
  cases kind with
  | builtin | classType | unionType | enumType | namespaceType =>
    cases one
    exact .inl rfl
  | product | sum =>
    obtain ⟨_, -, equal⟩ := Checked.bind_eq_ok.mp one
    cases equal
    exact .inr ⟨rfl, rfl, nofun⟩
  | _ =>
    cases one
    exact .inr ⟨rfl, rfl, nofun⟩

theorem typeLayer_inj (identifies : program.Identifies) (inner : ∀ term, head ≠ .leaf term)
    (two : program.typeLayer other same = .ok (head, operands)) : kind = same := by
  have category : kind.category = same.category := by
    have first := (sort_typeLayer one).resolve_left (inner _)
    have second := (sort_typeLayer two).resolve_left (inner _)
    simpa using first.1.symm.trans second.1
  have lists : ∀ {left right one two}, program.typeList left = .ok one →
      program.typeList right = .ok two → one.map Term.type = two.map Term.type → left = right := by
    intro left right one two first second equal
    have same : one = two := (List.map_inj_right (fun _ _ => Term.type.inj)).mp equal
    exact TypeTable.list_inj identifies.canonical.types first (same ▸ second)
  have bounds : ∀ {left right : Option ExprId}, left.toList.map Term.expr = right.toList.map Term.expr →
      left = right := by
    intro left right equal
    cases left <;> cases right <;> simp_all
  cases kind <;> cases same <;> try cases category
  all_goals
    simp only [typeLayer, Checked.bind_eq_ok, Checked.pure_eq_ok, Except.ok.injEq, Prod.mk.injEq] at one two
    grind

end Types

theorem typeLayer_user {id : TypeId} {node : TypeNode} (user : node.key? = none) :
    program.typeLayer id node.kind = .ok (.leaf (.type id), []) := by
  obtain ⟨number, kind⟩ := node
  cases kind with
  | builtin | classType | unionType | enumType | namespaceType => rfl
  | _ => cases user

theorem exprLayer_eq_ok {id : ExprId} {kind : ExprKind} :
    program.exprLayer id kind = .ok (head, operands) ↔
      (∃ type text bytes, kind = .literal type text ∧ program.text text = .ok bytes ∧
        head = .literal bytes ∧ operands = [.type type]) ∨
      kind.category ≠ .literal ∧ head = .leaf (.expr id) ∧ operands = [] := by
  cases kind with
  | literal type text =>
    simp only [exprLayer, Checked.bind_eq_ok, Checked.pure_eq_ok, Except.ok.injEq, Prod.mk.injEq]
    constructor
    · rintro ⟨bytes, read, rfl, rfl⟩
      exact .inl ⟨type, text, bytes, rfl, read, rfl, rfl⟩
    · rintro (⟨_, _, bytes, equal, read, rfl, rfl⟩ | ⟨distinct, -⟩)
      · cases equal
        exact ⟨bytes, read, rfl, rfl⟩
      · exact absurd rfl distinct
  | _ =>
    constructor
    · intro read
      cases read
      exact .inr ⟨nofun, rfl, rfl⟩
    · rintro (⟨_, _, _, equal, -⟩ | ⟨-, rfl, rfl⟩)
      · cases equal
      · rfl

theorem group_layer {term : Term} (read : program.layer term = .ok (head, operands)) :
    head.sort.1 = term.toRef.group := by
  cases term with
  | name id =>
    obtain ⟨node, -, read⟩ := Checked.bind_eq_ok.mp read
    rw [sort_nameLayer read]
    rfl
  | type id =>
    obtain ⟨node, -, read⟩ := Checked.bind_eq_ok.mp read
    rcases sort_typeLayer read with rfl | ⟨sort, -⟩
    · rfl
    · rw [sort]
      rfl
  | expr id =>
    obtain ⟨node, -, read⟩ := Checked.bind_eq_ok.mp read
    rcases exprLayer_eq_ok.mp read with ⟨_, _, _, -, -, rfl, -⟩ | ⟨-, rfl, -⟩ <;> rfl

/-- A term is known by its head and by what it is made of. -/
theorem layer_inj (identifies : program.Identifies) (one : program.layer first = .ok (head, operands))
    (two : program.layer second = .ok (head, operands)) : first = second := by
  have groups : first.toRef.group = second.toRef.group := (group_layer one).symm.trans (group_layer two)
  have unique := identifies.canonical.oneNodePerKey
  cases first <;> cases second <;> try cases groups
  case name.name =>
    obtain ⟨node, found, one⟩ := Checked.bind_eq_ok.mp one
    obtain ⟨other, there, two⟩ := Checked.bind_eq_ok.mp two
    have kinds := nameLayer_inj one identifies two
    exact congrArg _ (unique.names (Slab.get_eq_ok.mp found) (Slab.get_eq_ok.mp there) kinds)
  case type.type =>
    obtain ⟨node, found, one⟩ := Checked.bind_eq_ok.mp one
    obtain ⟨other, there, two⟩ := Checked.bind_eq_ok.mp two
    rcases sort_typeLayer one with rfl | ⟨sort, structural⟩
    · rcases sort_typeLayer two with equal | ⟨sort, -⟩
      · exact Head.leaf.inj equal
      · cases congrArg Prod.snd sort
    · have inner : ∀ term, head ≠ .leaf term := by
        rintro term rfl
        cases congrArg Prod.snd sort
      have kinds := typeLayer_inj one identifies inner two
      have present := get?_of_typeNode structural found
      have also := get?_of_typeNode (kinds ▸ structural) there
      exact congrArg _ (unique.types present also structural.1 kinds)
  case expr.expr =>
    obtain ⟨node, found, one⟩ := Checked.bind_eq_ok.mp one
    obtain ⟨other, there, two⟩ := Checked.bind_eq_ok.mp two
    rcases exprLayer_eq_ok.mp one with ⟨type, text, bytes, literal, read, rfl, rfl⟩ | ⟨-, rfl, rfl⟩
    · rcases exprLayer_eq_ok.mp two with ⟨same, also, _, kind, again, equal, typed⟩ | ⟨-, equal, -⟩
      · cases equal
        cases typed
        cases identifies.sound.lookup_inj read again
        exact congrArg _ (unique.literals (get?_of_exprNode found literal) (get?_of_exprNode there kind)
          literal kind)
      · cases equal
    · rcases exprLayer_eq_ok.mp two with ⟨_, _, _, -, -, equal, -⟩ | ⟨-, equal, -⟩
      · cases equal
      · exact Head.leaf.inj equal

theorem leftUnique_unfold (identifies : program.Identifies) (depth : Nat) :
    Relator.LeftUnique fun term tree => program.unfold depth term = .ok tree := by
  induction depth with
  | zero => exact nofun
  | succ depth ih =>
    intro first tree second one two
    obtain ⟨head, operands, parts, read, each, rfl⟩ := unfold_eq_ok.mp one
    obtain ⟨_, others, _, again, also, equal⟩ := unfold_eq_ok.mp two
    cases equal
    obtain rfl : operands = others := List.left_unique_forall₂' ih each also
    exact layer_inj identifies read again

/-- Terms with one tree are one term, however deep it was looked for. -/
theorem unfold_inj (identifies : program.Identifies) {other : Nat}
    (one : program.unfold depth first = .ok tree) (two : program.unfold other second = .ok tree) :
    first = second :=
  leftUnique_unfold identifies (max depth other) (unfold_mono (Nat.le_max_left ..) one)
    (unfold_mono (Nat.le_max_right ..) two)

/-! ### Finite trees -/

/-- The whole tree is reached at some depth. -/
def Unfolds (program : Program) (term : Term) : Prop :=
  ∃ depth tree, program.unfold depth term = .ok tree

theorem issued_of_layer {term : Term} (read : program.layer term = .ok (head, operands)) :
    program.issued (.term term) := by
  cases term with
  | name id =>
    obtain ⟨node, found, -⟩ := Checked.bind_eq_ok.mp read
    exact issued_name.mpr ⟨node, found⟩
  | type id =>
    obtain ⟨node, found, -⟩ := Checked.bind_eq_ok.mp read
    exact issued_type.mpr ⟨node, found⟩
  | expr id =>
    obtain ⟨node, found, -⟩ := Checked.bind_eq_ok.mp read
    exact issued_expr.mpr ⟨node, found⟩

theorem Unfolds.issued {term : Term} (unfolds : program.Unfolds term) : program.issued (.term term) := by
  obtain ⟨depth, tree, reached⟩ := unfolds
  cases depth with
  | zero => cases reached
  | succ depth =>
    obtain ⟨_, _, _, read, -⟩ := unfold_eq_ok.mp reached
    exact issued_of_layer read

/-- The trees of finitely many terms are all reached at one depth. -/
theorem exists_depth (each : ∀ operand ∈ operands, program.Unfolds operand) :
    ∃ depth parts,
      List.Forall₂ (fun operand part => program.unfold depth operand = .ok part) operands parts := by
  induction operands with
  | nil => exact ⟨0, [], .nil⟩
  | cons operand rest ih =>
    obtain ⟨⟨depth, tree, reached⟩, others⟩ := List.forall_mem_cons.mp each
    obtain ⟨more, parts, below⟩ := ih others
    refine ⟨max depth more, tree :: parts, .cons (unfold_mono (Nat.le_max_left ..) reached) ?_⟩
    exact below.imp fun _ _ reached => unfold_mono (Nat.le_max_right ..) reached

theorem unfolds_iff {term : Term} (read : program.layer term = .ok (head, operands)) :
    program.Unfolds term ↔ ∀ operand ∈ operands, program.Unfolds operand := by
  constructor
  · rintro ⟨_ | depth, tree, reached⟩
    · cases reached
    · obtain ⟨_, _, parts, again, each, -⟩ := unfold_eq_ok.mp reached
      cases read.symm.trans again
      have found := each.imp fun operand part reached =>
        And.intro (show program.Unfolds operand from ⟨depth, part, reached⟩) reached
      exact ((List.forall₂_and_left ..).mp found).1
  · intro each
    obtain ⟨depth, parts, below⟩ := exists_depth each
    exact ⟨depth + 1, _, unfold_eq_ok.mpr ⟨head, operands, parts, read, below, rfl⟩⟩

/-! ### Trees are kept -/

/-- What `program` can read, with texts, `after` reads as well. -/
structure Recalls (program after : Program) : Prop where
  larger : program.Extends after
  texts : ∀ {symbol bytes}, program.text symbol = .ok bytes → after.text symbol = .ok bytes

namespace Recalls

variable {after : Program} (recalls : program.Recalls after)

include recalls

theorem nameLayer {kind : NameKind} (read : program.nameLayer kind = .ok (head, operands)) :
    after.nameLayer kind = .ok (head, operands) := by
  cases kind with
  | identifier | operator | suffix =>
    obtain ⟨bytes, spelled, equal⟩ := Checked.bind_eq_ok.mp read
    exact Checked.bind_eq_ok.mpr ⟨bytes, recalls.texts spelled, equal⟩
  | templateId =>
    obtain ⟨args, listed, equal⟩ := Checked.bind_eq_ok.mp read
    exact Checked.bind_eq_ok.mpr ⟨args, recalls.larger.names.lists listed, equal⟩
  | _ => exact read

theorem typeLayer {id : TypeId} {kind : TypeKind}
    (read : program.typeLayer id kind = .ok (head, operands)) :
    after.typeLayer id kind = .ok (head, operands) := by
  cases kind with
  | product | sum =>
    obtain ⟨members, listed, equal⟩ := Checked.bind_eq_ok.mp read
    exact Checked.bind_eq_ok.mpr ⟨members, recalls.larger.types.lists listed, equal⟩
  | _ => exact read

theorem layer {term : Term} (read : program.layer term = .ok (head, operands)) :
    after.layer term = .ok (head, operands) := by
  cases term with
  | name id =>
    obtain ⟨node, found, read⟩ := Checked.bind_eq_ok.mp read
    exact Checked.bind_eq_ok.mpr ⟨node, recalls.larger.nameNode found, recalls.nameLayer read⟩
  | type id =>
    obtain ⟨node, found, read⟩ := Checked.bind_eq_ok.mp read
    obtain ⟨now, there, rfl | ⟨user, remains⟩⟩ := recalls.larger.typeNode found
    · exact Checked.bind_eq_ok.mpr ⟨now, there, recalls.typeLayer read⟩
    · cases (typeLayer_user user).symm.trans read
      exact Checked.bind_eq_ok.mpr ⟨now, there, typeLayer_user remains⟩
  | expr id =>
    obtain ⟨node, found, read⟩ := Checked.bind_eq_ok.mp read
    obtain ⟨now, there, kind, -⟩ := recalls.larger.exprNode found
    refine Checked.bind_eq_ok.mpr ⟨now, there, ?_⟩
    rw [kind]
    rcases exprLayer_eq_ok.mp read with ⟨type, text, bytes, literal, spelled, rest⟩ | distinct
    · exact exprLayer_eq_ok.mpr (.inl ⟨type, text, bytes, literal, recalls.texts spelled, rest⟩)
    · exact exprLayer_eq_ok.mpr (.inr distinct)

theorem unfold {term : Term} (reached : program.unfold depth term = .ok tree) :
    after.unfold depth term = .ok tree := by
  induction depth generalizing term tree with
  | zero => cases reached
  | succ depth ih =>
    obtain ⟨head, operands, parts, read, each, rfl⟩ := unfold_eq_ok.mp reached
    exact unfold_eq_ok.mpr
      ⟨head, operands, parts, recalls.layer read, each.imp fun _ _ part => ih part, rfl⟩

theorem unfolds {term : Term} (unfolds : program.Unfolds term) : after.Unfolds term := by
  obtain ⟨depth, tree, reached⟩ := unfolds
  exact ⟨depth, tree, recalls.unfold reached⟩

end Recalls

end Program

end CanonIR
