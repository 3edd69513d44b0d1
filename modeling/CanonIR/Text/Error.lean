/-! Why text could not be stored. -/

namespace CanonIR

/-- A refusal by the byte arena. -/
inductive ArenaError where
  | poolAllocation (size : Nat)
  /-- The length does not fit the header that every stored string carries. -/
  | oversized (length : Nat)
  deriving DecidableEq

/-- A refusal by the string pool. -/
inductive InternError where
  | arena (error : ArenaError)
  | overflow (count : Nat)
  deriving DecidableEq

def ArenaError.label : ArenaError → String
  | .poolAllocation _ => "PoolAllocation"
  | .oversized _ => "Oversized"

def ArenaError.message : ArenaError → String
  | .poolAllocation size => s!"could not allocate an arena pool of {size} bytes"
  | .oversized length => s!"string of {length} bytes exceeds the arena's length header"

def InternError.label : InternError → String
  | .arena _ => "Arena"
  | .overflow _ => "Overflow"

/-- An arena's refusal is passed on in the arena's own words. -/
def InternError.message : InternError → String
  | .arena error => error.message
  | .overflow count => s!"string pool overflow: {count} strings already interned"

end CanonIR
