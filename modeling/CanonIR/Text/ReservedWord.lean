import CanonIR.Text.Bytes

/-! The words of the represented language that need no storage. The table is in byte
order, so a word is found by halving it. -/

namespace CanonIR

/-- The first position of `low .. high` where `before` fails, provided that it holds up
to some position and fails from there on. -/
def boundary (before : Nat → Bool) (low high : Nat) : Nat :=
  if low < high then
    let middle := low + (high - low) / 2
    if before middle then boundary before (middle + 1) high else boundary before low middle
  else low
termination_by high - low

namespace ReservedWord

/-- Every reserved word, in byte order. -/
def table : Array String :=
  #["alignas", "alignof", "asm", "auto", "bool", "break", "case", "catch", "char", "char16_t",
  "char32_t", "char8_t", "class", "co_await", "co_return", "co_yield", "concept", "const",
  "const_cast", "consteval", "constexpr", "constinit", "continue", "decltype", "default",
  "delete", "do", "double", "dynamic_cast", "else", "enum", "explicit", "export", "extern",
  "false", "float", "for", "friend", "goto", "if", "inline", "int", "long", "mutable",
  "namespace", "new", "noexcept", "nullptr", "operator", "private", "protected", "public",
  "register", "reinterpret_cast", "requires", "restrict", "return", "short", "signed", "sizeof",
  "static", "static_assert", "static_cast", "struct", "switch", "template", "this",
  "thread_local", "throw", "true", "try", "typedef", "typeid", "typename", "union", "unsigned",
  "using", "virtual", "void", "volatile", "wchar_t", "while"]

/-- The bytes of the word at `index`. -/
def bytes? (index : Nat) : Option Bytes := table[index]?.map Bytes.ofString

/-- Whether the word at `index` comes before `text`. -/
def precedes (text : Bytes) (index : Nat) : Bool :=
  match bytes? index with
  | some word => word.order text == .lt
  | none => false

/-- The position of `text` in the table. -/
def find? (text : Bytes) : Option Nat :=
  let index := boundary (precedes text) 0 table.size
  if bytes? index = some text then some index else none

end ReservedWord

end CanonIR
