import CanonIR.Text.Error

/-! A fault ends a run: nothing after it is carried out. Errors that a caller can
answer are kept apart and leave the run going. -/

namespace CanonIR

inductive Fault where
  /-- A handle names no entry of the table it was read in. -/
  | outOfRange
  | reservedType (raw : Nat)
  | reservedExpr (raw : Nat)
  /-- A table of `what` would need a position that no handle can hold. -/
  | capacity (what : String) (count : Nat)
  | nodeIdsExhausted
  | notReservedWord (text : String)
  /-- A caller that takes no refusal met one. -/
  | refused (error : InternError)
  /-- A walk took more steps than its table has entries, so it met one of them
  twice and would go round for ever. -/
  | endlessWalk
  deriving DecidableEq

abbrev Checked := Except Fault

/-- The text a fault leaves behind. Reading past a table leaves none. -/
def Fault.message? : Fault → Option String
  | .outOfRange => none
  | .reservedType raw => some s!"TypeId({raw}) is in the reserved type range"
  | .reservedExpr raw => some s!"ExprId({raw}) is in the reserved expression range"
  | .capacity what count => some s!"{what} exceeded u32::MAX entries ({count})"
  | .nodeIdsExhausted => some "node ids exhausted"
  | .notReservedWord text => some s!"`{text}` is not a reserved word"
  | .refused error => some error.message
  | .endlessWalk => none

/-- Positions run up to the largest 32-bit number. -/
def positionLimit : Nat := 4294967296

/-- `count` as a position in a table of `what`. -/
def position (what : String) (count : Nat) : Checked Nat :=
  if count < positionLimit then .ok count else .error (.capacity what count)

/-- The entry at `index`, where a missing one is a fault. -/
def fetch {α : Type} (items : Array α) (index : Nat) : Checked α :=
  match items[index]? with
  | some item => .ok item
  | none => .error .outOfRange

end CanonIR
