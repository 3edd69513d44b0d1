/-! Structural keys are compared through code words: the number of the variant, then
its fields in order. -/

namespace CanonIR

/-- Decides at the first difference; a proper beginning comes first. -/
def compareCodes (left right : List Nat) : Ordering :=
  List.compareLex (fun a b => compareOfLessAndEq a b) left right

/-- An absent field comes before every present one. -/
def optionCode : Option Nat → Nat
  | none => 0
  | some field => field + 1

end CanonIR
