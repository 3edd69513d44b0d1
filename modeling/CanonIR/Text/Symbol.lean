import CanonIR.Fault

/-! A symbol stands for a text. It is the empty text, a text that a pool has stored,
or a reserved word; the last are the same for every pool. -/

namespace CanonIR

inductive Symbol where
  | empty
  /-- The text that a pool stored as its `index`-th. -/
  | entry (index : Nat)
  | word (index : Nat)
  deriving DecidableEq

namespace Symbol

/-- Words are numbered from here on, and stored texts lie below. -/
def wordBase : Nat := 2147483648

/-- As many texts as a pool can hold. -/
def maxEntries : Nat := wordBase - 1

/-- The number a symbol is passed around as. -/
def raw : Symbol → Nat
  | .empty => 0
  | .entry index => index + 1
  | .word index => wordBase + index

def ofRaw (raw : Nat) : Symbol :=
  if raw = 0 then .empty
  else if raw < wordBase then .entry (raw - 1)
  else .word (raw - wordBase)

/-- Symbols are ordered by kind, then by index, which is the order of their numbers. -/
def code : Symbol → List Nat
  | .empty => [0, 0]
  | .entry index => [1, index]
  | .word index => [2, index]

def isEmpty : Symbol → Bool
  | .empty => true
  | _ => false

def isWord : Symbol → Bool
  | .word _ => true
  | _ => false

def describe : Symbol → String
  | .empty => "Symbol::EMPTY"
  | .entry index => s!"Symbol(entry={index})"
  | .word index => s!"Symbol(word={index})"

end Symbol

end CanonIR
