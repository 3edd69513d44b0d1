import CanonIR.Proofs.ArenaPlacement
import CanonIR.Proofs.PoolChains
import CanonIR.Proofs.ReservedWords
import Mathlib.Data.List.Nodup

/-! A pool stands for the list of the texts that it stored, oldest first. Where the hash
puts a text decides which chain is walked and never what is found. -/

namespace CanonIR

/-- A text that a pool stores: it is not empty, and it is no reserved word. -/
def Bytes.IsPlain (text : Bytes) : Prop := text ≠ [] ∧ text ∉ ReservedWord.words

instance (text : Bytes) : Decidable text.IsPlain := inferInstanceAs (Decidable (_ ∧ _))

namespace SymbolPool

variable {pool : SymbolPool} {texts : List Bytes} {bytes : Bytes} {index : Nat}

/-- The pool stands for `texts`. -/
structure Keeps (pool : SymbolPool) (texts : List Bytes) : Prop where
  ready : pool.arena.Ready
  strings : pool.arena.strings = texts.length
  size : pool.entries.size = texts.length
  entry : ∀ index text, texts[index]? = some text → ∃ stored,
    contentAt pool.entries index = some (stored, pool.hash text) ∧ pool.arena.Holds stored text
  linked : Linked pool.entries pool.buckets texts.length
  wide : 0 < pool.buckets.size
  distinct : texts.Nodup
  plain : ∀ text ∈ texts, text.IsPlain

theorem keeps_ofSizing (hash : Bytes → UInt64) {sizing : Sizing}
    (ordinary : sizing.poolSize ≤ 1073741824) (wide : 0 < sizing.bucketCount) :
    (ofSizing hash sizing).Keeps [] := by
  refine ⟨TextArena.ready_ofSizing ordinary, rfl, rfl, ?_, ?_, by simpa [ofSizing] using wide,
    List.nodup_nil, ?_⟩
  · simp
  · intro bucket inside
    simp only [ofSizing, Array.size_replicate] at inside
    exact ⟨none, by simp [ofSizing, inside], rfl⟩
  · simp

theorem fetch_of_contentAt {entries : Array PoolEntry} {content : Stored × UInt64}
    (found : contentAt entries index = some content) :
    ∃ entry, fetch entries index = .ok entry ∧ entry.text = content.1 ∧ entry.hash = content.2 := by
  obtain ⟨entry, present, rfl⟩ := Option.map_eq_some_iff.mp found
  exact ⟨entry, fetch_eq_ok.mpr present, rfl, rfl⟩

/-- A walk along a chain stops at the text, or at the end of the chain. -/
theorem Keeps.searchFrom (keeps : pool.Keeps texts) (bytes : Bytes) (tail : Option Nat)
    {indices : List Nat} {cursor : Option Nat} {fuel : Nat}
    (chain : Chain (links pool.entries) cursor indices)
    (known : ∀ index ∈ indices, index < texts.length) (enough : indices.length ≤ fuel) :
    pool.searchFrom bytes (pool.hash bytes) fuel tail cursor =
      .ok (match indices.find? fun index => texts[index]? = some bytes with
        | some index => .found index
        | none => .absent (indices.getLast?.or tail)) := by
  induction indices generalizing cursor tail fuel with
  | nil =>
    obtain rfl : cursor = none := chain
    cases fuel <;> rfl
  | cons index rest ih =>
    obtain ⟨rfl, onward, link, chain⟩ := chain
    cases fuel with
    | zero => simp at enough
    | succ fuel =>
      have inside : index < texts.length := known index (by simp)
      have present : texts[index]? = some texts[index] := List.getElem?_eq_getElem inside
      generalize texts[index] = text at present
      obtain ⟨stored, content, holds⟩ := keeps.entry index text present
      obtain ⟨entry, fetched, rfl, hash⟩ := fetch_of_contentAt content
      have next : entry.next = onward := by
        simpa [links, fetch_eq_ok.mp fetched] using link
      have last : (index :: rest).getLast?.or tail = rest.getLast?.or (some index) := by
        rw [List.getLast?_cons]
        cases rest.getLast? <;> rfl
      have walk : pool.searchFrom bytes (pool.hash bytes) fuel (some index) onward = _ :=
        ih _ chain (fun other member => known other (by simp [member]))
          (Nat.le_of_succ_le_succ enough)
      simp only [SymbolPool.searchFrom, fetched, Checked.ok_bind, hash, next, holds.read, walk,
        List.find?_cons, present, Option.some.injEq, last]
      by_cases equal : text = bytes
      · simp [equal]
      · by_cases collision : pool.hash text = pool.hash bytes <;> simp [equal, collision]

/-- The stored texts among which a text has to be, in the order of its chain. -/
def chainOf (pool : SymbolPool) (bytes : Bytes) : List Nat :=
  members pool.entries pool.buckets.size pool.size (bucketOf (pool.hash bytes) pool.buckets.size)

theorem Keeps.search (keeps : pool.Keeps texts) (bytes : Bytes) :
    pool.search bytes (pool.hash bytes) =
      .ok (match (pool.chainOf bytes).find? fun index => texts[index]? = some bytes with
        | some index => .found index
        | none => .absent (pool.chainOf bytes).getLast?) := by
  have size : pool.size = texts.length := keeps.size
  obtain ⟨head, present, chain⟩ := keeps.linked _ (bucketOf_lt keeps.wide)
  have chain : Chain (links pool.entries) head (pool.chainOf bytes) := by
    rwa [chainOf, size]
  have known : ∀ index ∈ pool.chainOf bytes, index < texts.length := by
    intro index member
    exact size ▸ (mem_members.mp member).1
  have walk := keeps.searchFrom bytes none chain known (members_length_le _ _ _ _)
  have fetched : fetch pool.buckets (bucketOf (pool.hash bytes) pool.bucketCount) = .ok head :=
    fetch_eq_ok.mpr present
  simp only [SymbolPool.search, fetched, Checked.ok_bind, walk, Option.or_none]

theorem Keeps.mem_chainOf (keeps : pool.Keeps texts) (present : texts[index]? = some bytes) :
    index ∈ pool.chainOf bytes := by
  obtain ⟨stored, content, -⟩ := keeps.entry index bytes present
  have inside : index < pool.size := by
    rw [SymbolPool.size, keeps.size]
    exact (List.getElem?_eq_some_iff.mp present).1
  exact mem_members.mpr ⟨inside, _, content, rfl⟩

theorem Keeps.search_known (keeps : pool.Keeps texts) (present : texts[index]? = some bytes) :
    pool.search bytes (pool.hash bytes) = .ok (.found index) := by
  have member := keeps.mem_chainOf present
  have inside := (List.getElem?_eq_some_iff.mp present).1
  rw [keeps.search]
  cases found : (pool.chainOf bytes).find? fun index => texts[index]? = some bytes with
  | none =>
    have absent := List.find?_eq_none.mp found index member
    simp [present] at absent
  | some other =>
    have same : texts[other]? = some bytes := by simpa using List.find?_some found
    rw [(List.getElem?_inj inside keeps.distinct).mp (present.trans same.symm)]

theorem Keeps.search_new (keeps : pool.Keeps texts) (missing : bytes ∉ texts) :
    pool.search bytes (pool.hash bytes) = .ok (.absent (pool.chainOf bytes).getLast?) := by
  have absent : ((pool.chainOf bytes).find? fun index => texts[index]? = some bytes) = none := by
    rw [List.find?_eq_none]
    intro index _ same
    exact missing (List.mem_of_getElem? (by simpa using same))
  rw [keeps.search, absent]

theorem Keeps.grow (keeps : pool.Keeps texts) : pool.grow.Keeps texts := by
  have wide : 0 < pool.bucketCount * 2 := Nat.mul_pos keeps.wide (by decide)
  obtain ⟨size, content, heads, -, -, linked⟩ :=
    Relinking.reaches_foldl wide (Nat.le_refl pool.entries.size)
  refine ⟨keeps.ready, keeps.strings, size.trans keeps.size, ?_, keeps.size ▸ linked,
    Nat.lt_of_lt_of_eq wide heads.symm, keeps.distinct, keeps.plain⟩
  intro index text present
  obtain ⟨stored, found, holds⟩ := keeps.entry index text present
  exact ⟨stored, (content index).trans found, holds⟩

theorem link_eq (tail : Option Nat) (entry : PoolEntry) :
    pool.link tail entry =
      let linked := hangBehind (pool.entries.push entry) pool.buckets
        (bucketOf entry.hash pool.buckets.size) pool.entries.size tail
      { pool with entries := linked.1, buckets := linked.2 } := by
  cases tail <;> rfl

/-- The pool once a new text lies at `place` in `arena` and stands at the end of its chain. -/
def linkText (pool : SymbolPool) (bytes : Bytes) (place : Stored) (arena : TextArena) : SymbolPool :=
  ({ pool with arena } : SymbolPool).link (pool.chainOf bytes).getLast? ⟨place, pool.hash bytes, none⟩

theorem Keeps.linkText (keeps : pool.Keeps texts) (plain : bytes.IsPlain) (missing : bytes ∉ texts)
    {arena : TextArena} {stored : Stored} (ready : arena.Ready)
    (strings : arena.strings = pool.arena.strings + 1) (holds : arena.Holds stored bytes)
    (extension : pool.arena.Extends arena) :
    (pool.linkText bytes stored arena).Keeps (texts ++ [bytes]) := by
  let entry : PoolEntry := ⟨stored, pool.hash bytes, none⟩
  let bucket := bucketOf (pool.hash bytes) pool.buckets.size
  let linking := hangBehind (pool.entries.push entry) pool.buckets bucket pool.entries.size
    (pool.chainOf bytes).getLast?
  have old : ∀ index < pool.entries.size,
      (pool.entries.push entry)[index]? = pool.entries[index]? := by
    intro index inside
    rw [Array.getElem?_push, if_neg (Nat.ne_of_lt inside)]
  have joins : Joins pool.entries linking.1 pool.buckets linking.2 pool.entries.size bucket := by
    refine joins_hangBehind (fun index inside => ?_) (fun index inside => ?_) ?_ ?_ rfl
    · simp only [contentAt, old index inside]
    · simp only [links, old index inside]
    · exact ⟨(stored, pool.hash bytes), by simp [contentAt, entry], rfl⟩
    · simp [links, entry]
  have linked : Linked pool.entries pool.buckets pool.entries.size := keeps.size ▸ keeps.linked
  have size : (texts ++ [bytes]).length = pool.entries.size + 1 := by
    simp [keeps.size]
  rw [SymbolPool.linkText, link_eq]
  refine ⟨ready, ?_, ?_, ?_, ?_, ?_, ?_, ?_⟩
  · rw [size, keeps.size, ← keeps.strings]
    exact strings
  · exact size_hangBehind.trans (by simp [keeps.size])
  · intro index text present
    have content : contentAt linking.1 index = contentAt (pool.entries.push entry) index :=
      contentAt_hangBehind
    rcases Nat.lt_trichotomy index texts.length with inside | rfl | outside
    · rw [List.getElem?_append_left inside] at present
      obtain ⟨place, found, holds⟩ := keeps.entry index text present
      refine ⟨place, content.trans ?_, holds.extends extension⟩
      rw [← found, contentAt, contentAt, old index (keeps.size ▸ inside)]
    · obtain rfl : bytes = text := by simpa using present
      exact ⟨stored, content.trans (by simp [contentAt, entry, ← keeps.size]), holds⟩
    · rw [List.getElem?_eq_none (by rw [size, keeps.size]; omega)] at present
      cases present
  · rw [size]
    exact linked.join joins
  · exact Nat.lt_of_lt_of_eq keeps.wide joins.size.symm
  · rw [← List.concat_eq_append]
    exact List.Nodup.concat missing keeps.distinct
  · simp only [List.mem_append, List.mem_singleton]
    rintro text (member | rfl)
    · exact keeps.plain text member
    · exact plain

/-- The text is linked, and the table is widened if it has become too crowded. -/
def withText (pool : SymbolPool) (bytes : Bytes) (place : Stored) (arena : TextArena) : SymbolPool :=
  let linked := pool.linkText bytes place arena
  if linked.isCrowded then linked.grow else linked

theorem Keeps.add (keeps : pool.Keeps texts) (plain : bytes.IsPlain) (missing : bytes ∉ texts)
    (small : bytes.length < positionLimit) (room : texts.length < Symbol.maxEntries) :
    ∃ place arena, pool.arena.store bytes = .ok (.ok (place, arena)) ∧
      pool.add bytes (pool.hash bytes) (pool.chainOf bytes).getLast? =
        .ok (.ok (pool.withText bytes place arena)) ∧
      (pool.withText bytes place arena).Keeps (texts ++ [bytes]) := by
  have few : pool.arena.pools.size < positionLimit - 1 := by
    apply Nat.lt_of_le_of_lt keeps.ready.few
    simp only [keeps.strings, positionLimit, Symbol.maxEntries, Symbol.wordBase] at *
    omega
  obtain ⟨place, arena, stores, ready, holds, extension, strings, -⟩ :=
    TextArena.store_ok keeps.ready plain.1 small few
  have linked := keeps.linkText plain missing ready strings holds extension
  refine ⟨place, arena, stores, by simp only [SymbolPool.add, stores]; rfl, ?_⟩
  rw [withText]
  split
  · exact linked.grow
  · exact linked

/-- The symbol of a text for a pool that stands for `texts`. -/
def symbolIn (texts : List Bytes) (text : Bytes) : Option Symbol :=
  if text = [] then some .empty
  else match ReservedWord.find? text with
  | some word => some (.word word)
  | none => (texts.idxOf? text).map .entry

theorem isPlain_iff : bytes.IsPlain ↔ bytes ≠ [] ∧ ReservedWord.find? bytes = none := by
  rw [Bytes.IsPlain, ReservedWord.find?_eq_none]

theorem idxOf?_eq_some (distinct : texts.Nodup) :
    texts.idxOf? bytes = some index ↔ texts[index]? = some bytes := by
  rw [List.idxOf?_eq_some_iff]
  constructor
  · rintro ⟨inside, rfl, -⟩
    exact List.getElem?_eq_getElem inside
  · intro present
    obtain ⟨inside, equal⟩ := List.getElem?_eq_some_iff.mp present
    refine ⟨inside, equal, fun other before same => ?_⟩
    exact Nat.ne_of_lt before ((distinct.getElem_inj_iff).mp (same.trans equal.symm))

theorem symbolIn_eq_none : symbolIn texts bytes = none ↔ bytes.IsPlain ∧ bytes ∉ texts := by
  rw [isPlain_iff]
  by_cases empty : bytes = []
  · simp [symbolIn, empty]
  · cases found : ReservedWord.find? bytes <;> simp [symbolIn, empty, found]

theorem symbolIn_eq_some (distinct : texts.Nodup) {symbol : Symbol} :
    symbolIn texts bytes = some symbol ↔
      (bytes = [] ∧ symbol = .empty) ∨
      (∃ word, ReservedWord.bytes? word = some bytes ∧ symbol = .word word) ∨
      ∃ index, bytes.IsPlain ∧ texts[index]? = some bytes ∧ symbol = .entry index := by
  simp only [isPlain_iff, ← ReservedWord.find?_eq_some, ← idxOf?_eq_some distinct]
  by_cases empty : bytes = []
  · have noWord : ReservedWord.find? [] = none :=
      ReservedWord.find?_eq_none.mpr ReservedWord.nil_notMem_words
    simp [symbolIn, empty, noWord, eq_comm]
  · cases found : ReservedWord.find? bytes <;> simp [symbolIn, empty, found, eq_comm]

theorem Keeps.intern_known (keeps : pool.Keeps texts) {symbol : Symbol}
    (known : symbolIn texts bytes = some symbol) : pool.intern bytes = .ok (.ok (symbol, pool)) := by
  rcases (symbolIn_eq_some keeps.distinct).mp known with
    ⟨rfl, rfl⟩ | ⟨word, isWord, rfl⟩ | ⟨index, plain, present, rfl⟩
  · rfl
  · have full : bytes ≠ [] := by
      intro empty
      subst empty
      rw [ReservedWord.bytes?_eq] at isWord
      exact ReservedWord.nil_notMem_words (List.mem_of_getElem? isWord)
    simp [intern, full, ReservedWord.find?_eq_some.mpr isWord]
  · obtain ⟨full, noWord⟩ := isPlain_iff.mp plain
    simp [intern, full, noWord, keeps.search_known present]

theorem Keeps.intern_new (keeps : pool.Keeps texts) (fresh : symbolIn texts bytes = none)
    (small : bytes.length < positionLimit) (room : texts.length < Symbol.maxEntries) :
    ∃ place arena, pool.arena.store bytes = .ok (.ok (place, arena)) ∧
      pool.intern bytes = .ok (.ok (.entry texts.length, pool.withText bytes place arena)) ∧
      (pool.withText bytes place arena).Keeps (texts ++ [bytes]) := by
  obtain ⟨plain, missing⟩ := symbolIn_eq_none.mp fresh
  obtain ⟨full, noWord⟩ := isPlain_iff.mp plain
  obtain ⟨place, arena, stores, added, kept⟩ := keeps.add plain missing small room
  have size : pool.size = texts.length := keeps.size
  have free : ¬ Symbol.maxEntries ≤ texts.length := Nat.not_le_of_lt room
  exact ⟨place, arena, stores,
    by simp [intern, full, noWord, keeps.search_new missing, size, free, added], kept⟩

/-- Asking for a symbol gives what interning would give, and nothing for a new text. -/
theorem Keeps.get? (keeps : pool.Keeps texts) (bytes : Bytes) :
    pool.get? bytes = .ok (symbolIn texts bytes) := by
  by_cases empty : bytes = []
  · simp [SymbolPool.get?, symbolIn, empty]
  · cases word : ReservedWord.find? bytes with
    | some index => simp [SymbolPool.get?, symbolIn, empty, word]
    | none =>
      cases found : texts.idxOf? bytes with
      | some index =>
        have present := (idxOf?_eq_some keeps.distinct).mp found
        simp [SymbolPool.get?, symbolIn, empty, word, found, keeps.search_known present]
      | none =>
        have missing := List.idxOf?_eq_none_iff.mp found
        simp [SymbolPool.get?, symbolIn, empty, word, found, keeps.search_new missing]

theorem Keeps.lookup (keeps : pool.Keeps texts) {symbol : Symbol}
    (known : symbolIn texts bytes = some symbol) : pool.lookup symbol = .ok bytes := by
  rcases (symbolIn_eq_some keeps.distinct).mp known with
    ⟨rfl, rfl⟩ | ⟨word, isWord, rfl⟩ | ⟨index, -, present, rfl⟩
  · rfl
  · simp [SymbolPool.lookup, isWord]
  · obtain ⟨stored, content, holds⟩ := keeps.entry index bytes present
    obtain ⟨entry, fetched, rfl, -⟩ := fetch_of_contentAt content
    simp [SymbolPool.lookup, fetched, holds.read]

end SymbolPool

end CanonIR
