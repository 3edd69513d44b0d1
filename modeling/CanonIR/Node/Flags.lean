/-! Sets of flags, held as bits. A bit without a name is kept, and shown as a number. -/

namespace CanonIR

/-- The named flags contained in `bits`, in the order of `names`, then what is left as
a hexadecimal number. No two names share a bit. -/
def flagTexts (names : List (String × Nat)) (bits : Nat) : List String :=
  let present := names.filter fun (_, flag) => bits &&& flag = flag
  let rest := present.foldl (fun rest (_, flag) => rest - flag) bits
  present.map Prod.fst ++
    (if rest = 0 then [] else ["0x" ++ String.ofList (Nat.toDigits 16 rest)])

/-- A set of flags in words, as `Label(A | B | 0x20)`. -/
def describeFlags (label : String) (names : List (String × Nat)) (bits : Nat) : String :=
  let inner := match flagTexts names bits with
    | [] => "0x0"
    | texts => " | ".intercalate texts
  s!"{label}({inner})"

/-- The qualifiers of a type. -/
structure Qualifiers where
  bits : UInt8
  deriving DecidableEq

namespace Qualifiers

def const : Qualifiers := ⟨1⟩
def volatile : Qualifiers := ⟨2⟩
def restrict : Qualifiers := ⟨4⟩

def union (left right : Qualifiers) : Qualifiers := ⟨left.bits ||| right.bits⟩

def contains (qualifiers other : Qualifiers) : Bool := qualifiers.bits &&& other.bits = other.bits

def intersects (qualifiers other : Qualifiers) : Bool := qualifiers.bits &&& other.bits ≠ 0

def isEmpty (qualifiers : Qualifiers) : Bool := qualifiers.bits = 0

def names : List (String × Nat) :=
  [("CONST", const.bits.toNat), ("VOLATILE", volatile.bits.toNat),
    ("RESTRICT", restrict.bits.toNat)]

/-- Whether every bit has a name. -/
def isKnown (qualifiers : Qualifiers) : Bool :=
  (const.union (volatile.union restrict)).contains qualifiers

def describe (qualifiers : Qualifiers) : String :=
  describeFlags "Qualifiers" names qualifiers.bits.toNat

instance : Ord Qualifiers :=
  ⟨fun left right => compareOfLessAndEq left.bits.toNat right.bits.toNat⟩

end Qualifiers

/-- A single specifier of a declaration. -/
inductive Specifier where
  | register
  | static
  | external
  | mutable
  | threadLocal
  | inline
  | virtual
  | explicit
  | pureVirtual
  | publicAccess
  | protectedAccess
  | privateAccess
  | friend
  | typedef
  | constexpr
  | consteval
  | exported
  deriving DecidableEq

namespace Specifier

def all : List Specifier :=
  [.register, .static, .external, .mutable, .threadLocal, .inline, .virtual, .explicit,
    .pureVirtual, .publicAccess, .protectedAccess, .privateAccess, .friend, .typedef,
    .constexpr, .consteval, .exported]

/-- The bit of a specifier: storage, function, access and other ones have a byte each. -/
def bits : Specifier → UInt32
  | .register => 0x1
  | .static => 0x2
  | .external => 0x4
  | .mutable => 0x8
  | .threadLocal => 0x10
  | .inline => 0x100
  | .virtual => 0x200
  | .explicit => 0x400
  | .pureVirtual => 0x800
  | .publicAccess => 0x10000
  | .protectedAccess => 0x20000
  | .privateAccess => 0x40000
  | .friend => 0x1000000
  | .typedef => 0x2000000
  | .constexpr => 0x4000000
  | .consteval => 0x8000000
  | .exported => 0x10000000

def label : Specifier → String
  | .register => "REGISTER"
  | .static => "STATIC"
  | .external => "EXTERN"
  | .mutable => "MUTABLE"
  | .threadLocal => "THREAD_LOCAL"
  | .inline => "INLINE"
  | .virtual => "VIRTUAL"
  | .explicit => "EXPLICIT"
  | .pureVirtual => "PURE"
  | .publicAccess => "PUBLIC"
  | .protectedAccess => "PROTECTED"
  | .privateAccess => "PRIVATE"
  | .friend => "FRIEND"
  | .typedef => "TYPEDEF"
  | .constexpr => "CONSTEXPR"
  | .consteval => "CONSTEVAL"
  | .exported => "EXPORT"

/-- Storage classes exclude each other. -/
def storage : List Specifier := [.register, .static, .external, .mutable]

/-- Access levels exclude each other. -/
def access : List Specifier := [.publicAccess, .protectedAccess, .privateAccess]

end Specifier

/-- The specifiers of a declaration. -/
structure Specifiers where
  bits : UInt32
  deriving DecidableEq

namespace Specifiers

def empty : Specifiers := ⟨0⟩

def ofList (specifiers : List Specifier) : Specifiers :=
  ⟨specifiers.foldl (fun bits specifier => bits ||| specifier.bits) 0⟩

def has (specifiers : Specifiers) (specifier : Specifier) : Bool :=
  specifiers.bits &&& specifier.bits ≠ 0

/-- The part of the set that lies in `mask`. -/
def restrict (specifiers mask : Specifiers) : Specifiers := ⟨specifiers.bits &&& mask.bits⟩

/-- The part of the set whose bits have a name. -/
def named (specifiers : Specifiers) : Specifiers := specifiers.restrict (.ofList Specifier.all)

/-- The access level, if one was given. -/
def access? (specifiers : Specifiers) : Option Specifiers :=
  let access := specifiers.restrict (.ofList Specifier.access)
  if access = empty then none else some access

/-- Combinations that no declaration can carry. -/
def isConflicting (specifiers : Specifiers) : Bool :=
  1 < Specifier.storage.countP specifiers.has ||
  (specifiers.has .threadLocal && (specifiers.has .register || specifiers.has .mutable)) ||
  1 < Specifier.access.countP specifiers.has ||
  (specifiers.has .constexpr && specifiers.has .consteval) ||
  (specifiers.has .pureVirtual && !specifiers.has .virtual)

def describe (specifiers : Specifiers) : String :=
  describeFlags "Specifiers" (Specifier.all.map fun flag => (flag.label, flag.bits.toNat))
    specifiers.bits.toNat

end Specifiers

end CanonIR
