import CanonIR.Node.Expr
import CanonIR.Node.Name

/-! The orders of structural keys. Keys are compared through their codes, and different
keys have different codes: so each order is total, and calls only equal keys equal. -/

namespace CanonIR

variable {κ : Type}

theorem lawfulEq_of_code {code : κ → List Nat}
    (injective : ∀ {left right}, code left = code right → left = right) :
    Std.LawfulEqCmp (compareOn code) where
  compare_self := Std.ReflCmp.compare_self
  eq_of_compare same := injective (Std.LawfulEqCmp.eq_of_compare same)

namespace Handle

variable {table : Table}

theorem raw_inj {left right : Handle table} : left.raw = right.raw ↔ left = right := by
  cases left
  cases right
  simp

instance : Std.TransOrd (Handle table) := inferInstanceAs (Std.TransCmp (compareOn Handle.raw))

instance : Std.LawfulEqOrd (Handle table) where
  compare_self := Std.ReflOrd.compare_self
  eq_of_compare same := raw_inj.mp (Std.LawfulEqOrd.eq_of_compare (α := Nat) same)

end Handle

theorem optionCode_inj {left right : Option Nat} : optionCode left = optionCode right ↔ left = right := by
  cases left <;> cases right <;> simp [optionCode]

theorem optionCode_raw_inj {table : Table} {left right : Option (Handle table)} :
    optionCode (left.map Handle.raw) = optionCode (right.map Handle.raw) ↔ left = right := by
  rw [optionCode_inj]
  cases left <;> cases right <;> simp [Handle.raw_inj]

theorem Symbol.code_inj {left right : Symbol} : left.code = right.code ↔ left = right := by
  cases left <;> cases right <;> simp [Symbol.code]

theorem NodeRef.code_inj {left right : NodeRef} : left.code = right.code ↔ left = right := by
  cases left <;> cases right <;> simp [NodeRef.code, Handle.raw_inj]

theorem Term.toRef_inj {left right : Term} : left.toRef = right.toRef ↔ left = right := by
  cases left <;> cases right <;> simp [Term.toRef]

theorem NameKind.code_inj {left right : NameKind} : left.code = right.code ↔ left = right := by
  cases left <;> cases right <;> simp [NameKind.code, Symbol.code_inj, Handle.raw_inj]

theorem LiteralKey.code_inj {left right : LiteralKey} : left.code = right.code ↔ left = right := by
  cases left
  cases right
  simp [LiteralKey.code, Symbol.code_inj, Handle.raw_inj]

theorem Fundamental.getElem?_index (fundamental : Fundamental) :
    Fundamental.all[fundamental.index]? = some fundamental := by
  cases fundamental <;> rfl

theorem Fundamental.index_inj {left right : Fundamental} : left.index = right.index ↔ left = right := by
  refine ⟨fun same => ?_, fun same => same ▸ rfl⟩
  have equal := left.getElem?_index
  rw [same, right.getElem?_index] at equal
  exact (Option.some.inj equal).symm

theorem Qualifiers.bits_inj {left right : Qualifiers} :
    left.bits.toNat = right.bits.toNat ↔ left = right := by
  cases left
  cases right
  simp [UInt8.toNat_inj]

theorem Linkage.code_inj {left right : Linkage} :
    ((if left = .cxx then 0 else 1) = if right = .cxx then 0 else 1) ↔ left = right := by
  cases left <;> cases right <;> simp

theorem TypeKind.code_inj {left right : TypeKind} : left.code = right.code ↔ left = right := by
  cases left <;> cases right <;>
    simp [TypeKind.code, Handle.raw_inj, optionCode_raw_inj, Fundamental.index_inj, Qualifiers.bits_inj,
      Linkage.code_inj]

instance : Std.TransOrd NodeRef := inferInstanceAs (Std.TransCmp (compareOn NodeRef.code))

instance : Std.LawfulEqOrd NodeRef := lawfulEq_of_code NodeRef.code_inj.mp

instance : Std.TransOrd Term :=
  inferInstanceAs (Std.TransCmp (compareOn fun term : Term => term.toRef.code))

instance : Std.LawfulEqOrd Term :=
  lawfulEq_of_code fun same => Term.toRef_inj.mp (NodeRef.code_inj.mp same)

instance : Std.TransOrd NameKind := inferInstanceAs (Std.TransCmp (compareOn NameKind.code))

instance : Std.LawfulEqOrd NameKind := lawfulEq_of_code NameKind.code_inj.mp

instance : Std.TransOrd LiteralKey := inferInstanceAs (Std.TransCmp (compareOn LiteralKey.code))

instance : Std.LawfulEqOrd LiteralKey := lawfulEq_of_code LiteralKey.code_inj.mp

instance : Std.TransOrd TypeKind := inferInstanceAs (Std.TransCmp (compareOn TypeKind.code))

instance : Std.LawfulEqOrd TypeKind := lawfulEq_of_code TypeKind.code_inj.mp

end CanonIR
