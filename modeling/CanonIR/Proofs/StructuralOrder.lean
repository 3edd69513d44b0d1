import CanonIR.Ordered.Sequences
import CanonIR.Proofs.KeyOrder

/-! The orders of structural keys, without their codes. Variants come in the order in which
they are declared, and within one variant the first field that differs decides. Keys, and
sequences of keys, are thereby put into one line, where only equal ones share a place. -/

namespace CanonIR

variable {κ : Type}

/-! ### Variants and fields -/

def Symbol.fieldwise (left right : Symbol) : Ordering :=
  (compare left.ctorIdx right.ctorIdx).then <|
    match left, right with
    | .entry left, .entry right | .word left, .word right => compare left right
    | _, _ => .eq

def NodeRef.fieldwise (left right : NodeRef) : Ordering :=
  (compare left.ctorIdx right.ctorIdx).then <|
    match left, right with
    | .name left, .name right => compare left right
    | .type left, .type right => compare left right
    | .expr left, .expr right => compare left right
    | .stmt left, .stmt right => compare left right
    | .decl left, .decl right => compare left right
    | .directive left, .directive right => compare left right
    | _, _ => .eq

def Term.fieldwise (left right : Term) : Ordering :=
  (compare left.ctorIdx right.ctorIdx).then <|
    match left, right with
    | .name left, .name right => compare left right
    | .type left, .type right => compare left right
    | .expr left, .expr right => compare left right
    | _, _ => .eq

def LiteralKey.fieldwise (left right : LiteralKey) : Ordering :=
  (compare left.type right.type).then (left.text.fieldwise right.text)

def NameKind.fieldwise (left right : NameKind) : Ordering :=
  (compare left.ctorIdx right.ctorIdx).then <|
    match left, right with
    | .identifier left, .identifier right
    | .operator left, .operator right
    | .suffix left, .suffix right => left.fieldwise right
    | .conversion left, .conversion right
    | .typeName left, .typeName right
    | .constructor left, .constructor right
    | .destructor left, .destructor right => compare left right
    | .qualified scope member, .qualified otherScope otherMember =>
      (compare scope otherScope).then (compare member otherMember)
    | .templateId template args, .templateId otherTemplate otherArgs =>
      (compare template otherTemplate).then (compare args otherArgs)
    | _, _ => .eq

/-- A missing bound, and a missing underlying type, come before every one that is there.
Qualifiers are compared by their bits. -/
def TypeKind.fieldwise (left right : TypeKind) : Ordering :=
  (compare left.ctorIdx right.ctorIdx).then <|
    match left, right with
    | .builtin left, .builtin right => compare left.ctorIdx right.ctorIdx
    | .pointer left, .pointer right
    | .reference left, .reference right
    | .rvalueReference left, .rvalueReference right => compare left right
    | .qualified qualifiers main, .qualified otherQualifiers otherMain =>
      (compare qualifiers.bits.toNat otherQualifiers.bits.toNat).then (compare main otherMain)
    | .array element bound, .array otherElement otherBound =>
      (compare element otherElement).then (compare bound otherBound)
    | .function source target throws linkage,
      .function otherSource otherTarget otherThrows otherLinkage =>
      (compare source otherSource).then <| (compare target otherTarget).then <|
        (compare throws otherThrows).then (compare linkage.ctorIdx otherLinkage.ctorIdx)
    | .pointerToMember owner member, .pointerToMember otherOwner otherMember =>
      (compare owner otherOwner).then (compare member otherMember)
    | .product left, .product right
    | .sum left, .sum right => compare left right
    | .template source target, .template otherSource otherTarget =>
      (compare source otherSource).then (compare target otherTarget)
    | .decltype left, .decltype right => compare left right
    | .named left, .named right => compare left right
    | .classType left, .classType right
    | .unionType left, .unionType right
    | .namespaceType left, .namespaceType right => compare left right
    | .enumType region underlying, .enumType otherRegion otherUnderlying =>
      (compare region otherRegion).then (compare underlying otherUnderlying)
    | _, _ => .eq

/-! ### Codes -/

theorem compareCodes_nil : compareCodes [] [] = .eq := rfl

theorem compareCodes_cons {first second : Nat} {left right : List Nat} :
    compareCodes (first :: left) (second :: right) =
      (compare first second).then (compareCodes left right) :=
  List.compareLex_cons_cons

theorem compare_optionCode {table : Table} (left right : Option (Handle table)) :
    compare (optionCode (left.map Handle.raw)) (optionCode (right.map Handle.raw)) =
      compare left right := by
  cases left with
  | none =>
    cases right with
    | none => rfl
    | some right => exact Nat.compare_eq_lt.mpr (Nat.succ_pos _)
  | some left =>
    cases right with
    | none => exact Nat.compare_eq_gt.mpr (Nat.succ_pos _)
    | some right =>
      change compare (left.raw + 1) (right.raw + 1) = compare left.raw right.raw
      simp [Nat.compare_eq_ite_lt]

theorem Fundamental.index_eq (fundamental : Fundamental) : fundamental.index = fundamental.ctorIdx := by
  cases fundamental <;> rfl

theorem Linkage.code_eq (linkage : Linkage) : (if linkage = .cxx then 0 else 1) = linkage.ctorIdx := by
  cases linkage <;> rfl

theorem Symbol.compare_code (left right : Symbol) :
    compareCodes left.code right.code = left.fieldwise right := by
  cases left <;> cases right
  case entry.entry | word.word =>
    simp only [code, fieldwise, compareCodes_cons, compareCodes_nil, Ordering.then_eq]
    rfl
  all_goals rfl

theorem Symbol.fieldwise_entry (left right : Nat) :
    (entry left).fieldwise (entry right) = compare left right := rfl

theorem Symbol.fieldwise_word (left right : Nat) :
    (word left).fieldwise (word right) = compare left right := rfl

theorem Symbol.ofRaw_entry {raw : Nat} (some : raw ≠ 0) (stored : raw < wordBase) :
    ofRaw raw = entry (raw - 1) := by
  rw [ofRaw, if_neg some, if_pos stored]

theorem Symbol.ofRaw_word {raw : Nat} (high : wordBase ≤ raw) : ofRaw raw = word (raw - wordBase) := by
  have some : raw ≠ 0 := Nat.ne_of_gt (Nat.lt_of_lt_of_le (by decide) high)
  rw [ofRaw, if_neg some, if_neg (Nat.not_lt_of_le high)]

theorem Symbol.fieldwise_of_lt {left right : Nat} (smaller : left < right) :
    (ofRaw left).fieldwise (ofRaw right) = .lt := by
  have some : right ≠ 0 := by omega
  rcases Nat.lt_or_ge right wordBase with stored | high
  · rw [ofRaw_entry some stored]
    by_cases empty : left = 0
    · rw [ofRaw, if_pos empty]
      rfl
    · rw [ofRaw_entry empty (Nat.lt_trans smaller stored), fieldwise_entry, Nat.compare_eq_lt]
      omega
  · rw [ofRaw_word high]
    rcases Nat.lt_or_ge left wordBase with lower | upper
    · by_cases empty : left = 0
      · rw [ofRaw, if_pos empty]
        rfl
      · rw [ofRaw_entry empty lower]
        rfl
    · rw [ofRaw_word upper, fieldwise_word, Nat.compare_eq_lt]
      omega

theorem Symbol.fieldwise_ofRaw (left right : Nat) :
    (ofRaw left).fieldwise (ofRaw right) = compare left right := by
  rcases Nat.lt_trichotomy left right with smaller | rfl | larger
  · rw [fieldwise_of_lt smaller, Nat.compare_eq_lt.mpr smaller]
  · rw [← compare_code, Nat.compare_eq_eq.mpr rfl]
    exact Std.ReflOrd.compare_self (α := List Nat)
  · have turned : (ofRaw left).fieldwise (ofRaw right) =
        ((ofRaw right).fieldwise (ofRaw left)).swap := by
      rw [← compare_code, ← compare_code]
      exact Std.OrientedOrd.eq_swap (α := List Nat)
    rw [turned, fieldwise_of_lt larger, Nat.compare_eq_gt.mpr larger]
    rfl

theorem NodeRef.compare_eq (left right : NodeRef) : compare left right = left.fieldwise right := by
  change compareCodes left.code right.code = _
  cases left <;> cases right
  case name.name | type.type | expr.expr | stmt.stmt | decl.decl | directive.directive =>
    simp only [code, fieldwise, compareCodes_cons, compareCodes_nil, Ordering.then_eq]
    rfl
  all_goals rfl

theorem Term.compare_eq (left right : Term) : compare left right = left.fieldwise right := by
  change compare left.toRef right.toRef = _
  rw [NodeRef.compare_eq]
  cases left <;> cases right <;> rfl

theorem LiteralKey.compare_eq (left right : LiteralKey) :
    compare left right = left.fieldwise right := by
  change compareCodes left.code right.code = _
  rw [code, code, compareCodes_cons, Symbol.compare_code]
  rfl

theorem NameKind.compare_eq (left right : NameKind) : compare left right = left.fieldwise right := by
  change compareCodes left.code right.code = _
  cases left <;> cases right
  case identifier.identifier | operator.operator | suffix.suffix =>
    simp only [code, fieldwise, compareCodes_cons, Symbol.compare_code]
    rfl
  case conversion.conversion | typeName.typeName | constructor.constructor
      | destructor.destructor | qualified.qualified | templateId.templateId =>
    simp only [code, fieldwise, compareCodes_cons, compareCodes_nil, Ordering.then_eq]
    rfl
  all_goals rfl

theorem TypeKind.compare_eq (left right : TypeKind) : compare left right = left.fieldwise right := by
  change compareCodes left.code right.code = _
  cases left <;> cases right
  case builtin.builtin left right =>
    simp only [code, fieldwise, compareCodes_cons, compareCodes_nil, Ordering.then_eq,
      Fundamental.index_eq]
    rfl
  case array.array | enumType.enumType =>
    simp only [code, fieldwise, compareCodes_cons, compareCodes_nil, Ordering.then_eq,
      compare_optionCode]
    rfl
  case function.function =>
    simp only [code, fieldwise, compareCodes_cons, compareCodes_nil, Ordering.then_eq,
      Linkage.code_eq]
    rfl
  case pointer.pointer | reference.reference | rvalueReference.rvalueReference
      | qualified.qualified | pointerToMember.pointerToMember | product.product | sum.sum
      | template.template | decltype.decltype | named.named | classType.classType
      | unionType.unionType | namespaceType.namespaceType =>
    simp only [code, fieldwise, compareCodes_cons, compareCodes_nil, Ordering.then_eq]
    rfl
  all_goals rfl

/-! ### Strict total orders -/

/-- A comparison that puts all values into one line. -/
structure StrictTotal (order : κ → κ → Ordering) : Prop where
  equal_iff : ∀ left right, order left right = .eq ↔ left = right
  reversed : ∀ left right, order right left = (order left right).swap
  ascends : ∀ first second third, order first second = .lt → order second third = .lt →
    order first third = .lt

theorem strictTotal_of_lawful (order : κ → κ → Ordering) [Std.TransCmp order]
    [Std.LawfulEqCmp order] : StrictTotal order where
  equal_iff _ _ := Std.LawfulEqCmp.compare_eq_iff_eq
  reversed _ _ := Std.OrientedCmp.eq_swap
  ascends _ _ _ := Std.TransCmp.lt_trans

/-- Of two lists, the first difference decides, and a proper beginning comes first. -/
theorem compareLex_eq_lt {order : κ → κ → Ordering} [Std.LawfulEqCmp order] {left right : List κ} :
    List.compareLex order left right = .lt ↔
      List.Lex (fun first second => order first second = .lt) left right := by
  induction left generalizing right with
  | nil =>
    cases right with
    | nil => exact ⟨nofun, nofun⟩
    | cons head rest => exact ⟨fun _ => .nil, fun _ => rfl⟩
  | cons first left ih =>
    cases right with
    | nil => exact ⟨nofun, nofun⟩
    | cons second right =>
      rw [List.compareLex_cons_cons, Ordering.then_eq_lt, ih]
      constructor
      · intro decided
        rcases decided with smaller | ⟨same, later⟩
        · exact .rel smaller
        · cases Std.LawfulEqCmp.eq_of_compare same
          exact .cons later
      · intro lex
        cases lex with
        | rel smaller => exact .inl smaller
        | cons later => exact .inr ⟨Std.ReflCmp.compare_self, later⟩

/-- How the stores compare keys of one kind: an index goes by variant and fields, a store of
sequences by the first difference. -/
structure LawfulKeys [Ord κ] (fieldwise : κ → κ → Ordering) : Prop where
  asked : ∀ {ν : Type} (key : κ) (entry : IndexEntry κ ν),
    (Index.ask key entry ()).1 = fieldwise key entry.key
  keys : StrictTotal fieldwise
  lexicographic : ∀ items kept : List κ, (Sequences.ask items kept ()).1 = .lt ↔
    List.Lex (fun first second => fieldwise first second = .lt) items kept
  sequences : StrictTotal fun items kept : List κ => (Sequences.ask items kept ()).1

theorem lawfulKeys [Ord κ] [Std.TransOrd κ] [Std.LawfulEqOrd κ] {fieldwise : κ → κ → Ordering}
    (fields : ∀ left right : κ, compare left right = fieldwise left right) :
    LawfulKeys fieldwise := by
  have same : fieldwise = compare := by
    funext left right
    exact (fields left right).symm
  subst same
  exact {
    asked := fun _ _ => rfl
    keys := strictTotal_of_lawful compare
    lexicographic := fun _ _ => compareLex_eq_lt
    sequences := strictTotal_of_lawful (List.compareLex compare) }

/-- Every kind of key that a store sorts by goes by variant and fields, and no two different
keys, and no two different sequences of keys, are taken for one. A handle is its position,
and symbols come in the order of their numbers. -/
theorem structural_keys_strictly_ordered :
    LawfulKeys TypeKind.fieldwise ∧ LawfulKeys NameKind.fieldwise ∧ LawfulKeys Term.fieldwise ∧
      LawfulKeys NodeRef.fieldwise ∧ LawfulKeys LiteralKey.fieldwise ∧
      (∀ table, LawfulKeys fun left right : Handle table => compare left.raw right.raw) ∧
      ∀ left right, (Symbol.ofRaw left).fieldwise (Symbol.ofRaw right) = compare left right :=
  ⟨lawfulKeys TypeKind.compare_eq, lawfulKeys NameKind.compare_eq, lawfulKeys Term.compare_eq,
    lawfulKeys NodeRef.compare_eq, lawfulKeys LiteralKey.compare_eq,
    fun _ => lawfulKeys fun _ _ => rfl, Symbol.fieldwise_ofRaw⟩

end CanonIR
