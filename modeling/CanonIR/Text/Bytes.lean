/-! Text is kept as bytes: a name read from a file need not be well encoded. -/

namespace CanonIR

abbrev Bytes := List UInt8

namespace Bytes

def ofString (text : String) : Bytes := text.toUTF8.toList

/-- The text that `bytes` encode, if they are well-formed UTF-8. -/
def text? (bytes : Bytes) : Option String := String.fromUTF8? ⟨bytes.toArray⟩

/-- Byte order: the first difference decides, and a proper beginning comes first. -/
def order (left right : Bytes) : Ordering :=
  List.compareLex (fun a b => compareOfLessAndEq a b) left right

/-- A multiplicative mix of all bytes. Any function would serve the string pool;
this one spreads short names well. -/
def mix (bytes : Bytes) : UInt64 :=
  bytes.foldl (fun acc byte => (acc ^^^ byte.toUInt64) * 1099511628211) 14695981039346656037

end Bytes

end CanonIR
