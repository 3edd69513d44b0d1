import CanonIR.Proofs.PoolInterning

/-! There are several ways to ask whether a text is a reserved word: halving the table,
interning the text, asking a pool for its symbol, asking for the word outright. All of them
answer as a scan of the table would, whatever the text and whatever a pool has stored. -/

namespace CanonIR

namespace Bytes

theorem toList_loop (bytes : ByteArray) (index : Nat) (read : List UInt8) :
    ByteArray.toList.loop bytes index read = read.reverse ++ bytes.data.toList.drop index := by
  fun_induction ByteArray.toList.loop bytes index read with
  | case1 index read inside ih =>
    have present : index < bytes.data.toList.length := by simpa using inside
    rw [ih, List.drop_eq_getElem_cons present]
    simp [ByteArray.get!, inside]
  | case2 index read outside =>
    rw [List.drop_eq_nil_of_le (by simpa using Nat.le_of_not_lt outside)]
    simp

theorem ofString_eq (text : String) : ofString text = text.toUTF8.data.toList := by
  simp [ofString, ByteArray.toList, toList_loop]

theorem ofString_inj {first second : String} : ofString first = ofString second ↔ first = second := by
  rw [ofString_eq, ofString_eq, Array.toList_inj, ← ByteArray.ext_iff]
  exact String.toByteArray_inj

end Bytes

namespace ReservedWord

variable {text : Bytes} {index : Nat}

theorem words_distinct : words.Nodup :=
  words_ascend.imp fun before => by
    rintro rfl
    simp [Bytes.order_self] at before

/-- Halving the table finds what a scan from its beginning finds. -/
theorem find?_eq_idxOf? (text : Bytes) : find? text = words.idxOf? text := by
  apply Option.ext
  intro index
  rw [find?_eq_some, bytes?_eq, SymbolPool.idxOf?_eq_some words_distinct]

theorem bytes?_eq_ofString {spelling : String} :
    bytes? index = some (.ofString spelling) ↔ table[index]? = some spelling := by
  simp [bytes?, Bytes.ofString_inj]

theorem ne_nil_of_bytes? (found : bytes? index = some text) : text ≠ [] := by
  rintro rfl
  rw [bytes?_eq] at found
  exact nil_notMem_words (List.mem_of_getElem? found)

end ReservedWord

namespace SymbolPool

variable {pool after : SymbolPool} {text : Bytes} {index : Nat}

/-- Only a reserved word is interned as one, and it leaves the pool alone. -/
theorem intern_eq_word :
    pool.intern text = .ok (.ok (.word index, after)) ↔
      ReservedWord.bytes? index = some text ∧ after = pool := by
  constructor
  · intro interned
    simp only [intern] at interned
    split at interned
    · cases interned
    split at interned
    · next word found =>
      cases interned
      exact ⟨ReservedWord.find?_eq_some.mp found, rfl⟩
    · obtain ⟨result, -, rest⟩ := Checked.bind_eq_ok.mp interned
      -- Past the table, every symbol handed out is that of a stored text.
      cases result with
      | found entry => cases rest
      | absent tail =>
        simp only at rest
        split at rest
        · cases rest
        obtain ⟨added, -, rest⟩ := Checked.bind_eq_ok.mp rest
        cases added <;> cases rest
  · rintro ⟨isWord, rfl⟩
    simp [intern, ReservedWord.ne_nil_of_bytes? isWord, ReservedWord.find?_eq_some.mpr isWord]

theorem internOrFault_eq_word :
    pool.internOrFault text = .ok (.word index, after) ↔
      ReservedWord.bytes? index = some text ∧ after = pool := by
  rw [← intern_eq_word]
  constructor
  · intro interned
    obtain ⟨result, performed, rest⟩ := Checked.bind_eq_ok.mp interned
    cases result with
    | ok symbol =>
      cases rest
      exact performed
    | error refusal => cases rest
  · intro performed
    simp [internOrFault, performed]

theorem get?_eq_word :
    pool.get? text = .ok (some (.word index)) ↔ ReservedWord.bytes? index = some text := by
  constructor
  · intro asked
    simp only [SymbolPool.get?] at asked
    split at asked
    · cases asked
    split at asked
    · next word found =>
      cases asked
      exact ReservedWord.find?_eq_some.mp found
    · obtain ⟨result, -, rest⟩ := Checked.bind_eq_ok.mp asked
      cases result <;> cases rest
  · intro isWord
    simp [SymbolPool.get?, ReservedWord.ne_nil_of_bytes? isWord, ReservedWord.find?_eq_some.mpr isWord]

theorem lookup_word_eq_ok :
    pool.lookup (.word index) = .ok text ↔ ReservedWord.bytes? index = some text := by
  cases found : ReservedWord.bytes? index <;> simp [lookup, found]

end SymbolPool

namespace Symbol

variable {spelling : String} {symbol : Symbol}

theorem ofWord?_eq_some :
    ofWord? spelling = some symbol ↔
      ∃ index, ReservedWord.table[index]? = some spelling ∧ symbol = .word index := by
  simp only [ofWord?, Option.map_eq_some_iff, ReservedWord.find?_eq_some,
    ReservedWord.bytes?_eq_ofString, @eq_comm _ symbol]

/-- A text that has to be a word is one, or the fault names it. -/
theorem ofWord_eq_ok :
    ofWord spelling = .ok symbol ↔
      ∃ index, ReservedWord.table[index]? = some spelling ∧ symbol = .word index := by
  rw [← ofWord?_eq_some]
  cases found : ofWord? spelling <;> simp [ofWord, found]

theorem ofWord_eq_error :
    ofWord spelling = .error (.notReservedWord spelling) ↔
      ∀ index : Nat, ReservedWord.table[index]? ≠ some spelling := by
  have absent : ofWord? spelling = none ↔
      ∀ index : Nat, ReservedWord.table[index]? ≠ some spelling := by
    rw [ofWord?, Option.map_eq_none_iff, Option.eq_none_iff_forall_ne_some]
    simp only [ne_eq, ReservedWord.find?_eq_some, ReservedWord.bytes?_eq_ofString]
  rw [← absent]
  cases found : ofWord? spelling <;> simp [ofWord, found]

end Symbol

namespace ReservedWord

/-- Whichever way the table is asked for `text`, the answer is where it stands. -/
structure FoundWherePlaced (text : Bytes) : Prop where
  found : ∀ index, find? text = some index ↔ bytes? index = some text
  missed : find? text = none ↔ ∀ index, bytes? index ≠ some text
  scanned : find? text = words.idxOf? text
  interned : ∀ (pool after : SymbolPool) index,
    pool.intern text = .ok (.ok (.word index, after)) ↔ bytes? index = some text ∧ after = pool
  internedOrFault : ∀ (pool after : SymbolPool) index,
    pool.internOrFault text = .ok (.word index, after) ↔ bytes? index = some text ∧ after = pool
  asked : ∀ (pool : SymbolPool) index,
    pool.get? text = .ok (some (.word index)) ↔ bytes? index = some text
  read : ∀ (pool : SymbolPool) index,
    pool.lookup (.word index) = .ok text ↔ bytes? index = some text
  spelled : ∀ spelling, Bytes.ofString spelling = text → ∀ symbol,
    (Symbol.ofWord? spelling = some symbol ↔ ∃ index, bytes? index = some text ∧ symbol = .word index) ∧
    (Symbol.ofWord spelling = .ok symbol ↔ ∃ index, bytes? index = some text ∧ symbol = .word index)
  refused : ∀ spelling, Bytes.ofString spelling = text →
    (Symbol.ofWord spelling = .error (.notReservedWord spelling) ↔ find? text = none)

/-- Every text is found among the reserved words exactly where it stands, by every way of asking
and from every pool; a text that is no word is never taken for one. -/
theorem words_found_exactly (text : Bytes) : FoundWherePlaced text where
  found _ := find?_eq_some
  missed := by simp [Option.eq_none_iff_forall_ne_some, find?_eq_some]
  scanned := find?_eq_idxOf? text
  interned _ _ _ := SymbolPool.intern_eq_word
  internedOrFault _ _ _ := SymbolPool.internOrFault_eq_word
  asked _ _ := SymbolPool.get?_eq_word
  read _ _ := SymbolPool.lookup_word_eq_ok
  spelled := by
    rintro spelling rfl symbol
    simp only [bytes?_eq_ofString]
    exact ⟨Symbol.ofWord?_eq_some, Symbol.ofWord_eq_ok⟩
  refused := by
    rintro spelling rfl
    simp [Symbol.ofWord_eq_error, Option.eq_none_iff_forall_ne_some, find?_eq_some,
      bytes?_eq_ofString]

end ReservedWord

end CanonIR
