import CanonIR.Proofs.PoolInterning
import CanonIR.Proofs.Runs
import Mathlib.Algebra.Group.Nat.Defs

/-! Runs of interning on one pool. Which symbols are issued is decided by the texts alone:
by which of them are plain, and by the order in which the plain ones first come. Neither
the hash function nor the sizes of the storage have a part in it. -/

namespace CanonIR

/-- A sizing that the setters can give. -/
inductive Sizing.Built : Sizing → Prop where
  | default : Built {}
  | withPoolSize {sizing : Sizing} (built : Built sizing) (size : Nat) :
      Built (sizing.withPoolSize size)
  | withBucketCount {sizing : Sizing} (built : Built sizing) (count : Nat) :
      Built (sizing.withBucketCount count)
  | withMaxLoad {sizing : Sizing} (built : Built sizing) (load : Nat) :
      Built (sizing.withMaxLoad load)

theorem clamp_eq {least most value : Nat} (ordered : least ≤ most) :
    clamp least most value = max least (min value most) := by
  unfold clamp
  split
  · omega
  · split <;> omega

theorem clamp_le {least most value : Nat} (ordered : least ≤ most) : clamp least most value ≤ most := by
  rw [clamp_eq ordered]
  omega

theorem le_clamp {least most value : Nat} (ordered : least ≤ most) : least ≤ clamp least most value := by
  rw [clamp_eq ordered]
  exact Nat.le_max_left least _

theorem Sizing.Built.ordinary {sizing : Sizing} (built : sizing.Built) :
    sizing.poolSize ≤ 1073741824 := by
  induction built with
  | default => decide
  | withPoolSize => exact clamp_le (by decide)
  | withBucketCount _ _ ih => exact ih
  | withMaxLoad _ _ ih => exact ih

theorem isPowerOfTwo_powerOfTwoFrom (count : Nat) : (powerOfTwoFrom count).isPowerOfTwo := by
  unfold powerOfTwoFrom
  split
  · exact Nat.isPowerOfTwo_one
  · exact ⟨_, Nat.one_shiftLeft _⟩

theorem Sizing.Built.power {sizing : Sizing} (built : sizing.Built) :
    sizing.bucketCount.isPowerOfTwo := by
  induction built with
  | default => exact ⟨10, rfl⟩
  | withPoolSize _ _ ih => exact ih
  | withBucketCount => exact isPowerOfTwo_powerOfTwoFrom _
  | withMaxLoad _ _ ih => exact ih

theorem Sizing.Built.wide {sizing : Sizing} (built : sizing.Built) : 0 < sizing.bucketCount :=
  Nat.pos_of_isPowerOfTwo built.power

theorem Sizing.Built.loaded {sizing : Sizing} (built : sizing.Built) : 0 < sizing.maxLoad := by
  induction built with
  | default => decide
  | withPoolSize _ _ ih => exact ih
  | withBucketCount _ _ ih => exact ih
  | withMaxLoad => exact le_clamp (by decide)

namespace SymbolPool

variable {pool : SymbolPool} {known texts : List Bytes} {text : Bytes}

/-- Interning on the list of the texts that are stored. -/
def issue (text : Bytes) (known : List Bytes) : Symbol × List Bytes :=
  match symbolIn known text with
  | some symbol => (symbol, known)
  | none => (.entry known.length, known ++ [text])

/-- The plain texts, each where it first comes. -/
def firsts (texts : List Bytes) : List Bytes :=
  (texts.filter fun text => text.IsPlain).eraseDups

theorem mem_firsts : text ∈ firsts texts ↔ text ∈ texts ∧ text.IsPlain := by
  simp [firsts, List.mem_eraseDups]

theorem prefix_issue (text : Bytes) (known : List Bytes) : known <+: (issue text known).2 := by
  unfold issue
  split
  · exact List.prefix_rfl
  · exact List.prefix_append _ _

structure Storable (known : List Bytes) : Prop where
  distinct : known.Nodup
  plain : ∀ text ∈ known, text.IsPlain

theorem storable_nil : Storable [] := ⟨List.nodup_nil, by simp⟩

theorem Storable.issue (storable : Storable known) (text : Bytes) :
    Storable (issue text known).2 := by
  unfold SymbolPool.issue
  split
  next => exact storable
  next fresh =>
    obtain ⟨plain, missing⟩ := symbolIn_eq_none.mp fresh
    refine ⟨?_, ?_⟩
    · rw [← List.concat_eq_append]
      exact List.Nodup.concat missing storable.distinct
    · simp only [List.mem_append, List.mem_singleton]
      rintro other (member | rfl)
      · exact storable.plain other member
      · exact plain

theorem Storable.replay (storable : Storable known) (texts : List Bytes) :
    Storable (replay SymbolPool.issue texts known).2 := by
  exact replay_grows (fun old new => Storable old → Storable new) (fun _ => id)
    (fun first second old => second (first old)) (fun text _ storable => storable.issue text)
    texts known storable

theorem symbolIn_of_isPrefix {longer : List Bytes} {symbol : Symbol} (storable : Storable known)
    (stored : Storable longer) (kept : known <+: longer)
    (issued : symbolIn known text = some symbol) : symbolIn longer text = some symbol := by
  rw [symbolIn_eq_some storable.distinct] at issued
  rw [symbolIn_eq_some stored.distinct]
  rcases issued with empty | word | ⟨index, plain, present, rfl⟩
  · exact .inl empty
  · exact .inr (.inl word)
  · exact .inr (.inr ⟨index, plain, getElem?_of_isPrefix kept present, rfl⟩)

theorem symbolIn_issue (storable : Storable known) (text : Bytes) :
    symbolIn (issue text known).2 text = some (issue text known).1 := by
  have after := storable.issue text
  cases found : symbolIn known text with
  | some symbol => simp [SymbolPool.issue, found]
  | none =>
    simp only [SymbolPool.issue, found] at after ⊢
    rw [symbolIn_eq_some after.distinct]
    exact .inr (.inr ⟨known.length, (symbolIn_eq_none.mp found).1, by simp, rfl⟩)

/-- The texts that a run stores are the plain ones, each where it first comes. -/
theorem replay_issue_known (storable : Storable known) (texts : List Bytes) :
    (CanonIR.replay issue texts known).2 =
      (known ++ texts.filter fun text => text.IsPlain).eraseDups := by
  induction texts generalizing known with
  | nil => simp [CanonIR.replay, eraseDups_of_nodup storable.distinct]
  | cons text rest ih =>
    have later := ih (storable.issue text)
    simp only [CanonIR.replay]
    rw [later]
    cases found : symbolIn known text with
    | none =>
      obtain ⟨plain, -⟩ := symbolIn_eq_none.mp found
      simp [issue, found, plain]
    | some symbol =>
      simp only [issue, found]
      by_cases plain : text.IsPlain
      · have stored : text ∈ known := by
          rcases Classical.em (text ∈ known) with member | missing
          · exact member
          · simp [symbolIn_eq_none.mpr ⟨plain, missing⟩] at found
        simp [plain, eraseDups_append_known stored]
      · simp [plain]

/-- What a run issues at a place is the symbol of the text there, once the texts up to it
are stored. -/
theorem replay_issue_symbols (storable : Storable known) {index : Nat} {symbol : Symbol}
    (asked : texts[index]? = some text)
    (issued : (CanonIR.replay issue texts known).1[index]? = some symbol) :
    symbolIn (CanonIR.replay issue (texts.take (index + 1)) known).2 text = some symbol := by
  induction texts generalizing known index with
  | nil => simp at asked
  | cons first rest ih =>
    cases index with
    | zero =>
      obtain rfl : first = text := by simpa using asked
      obtain rfl : (issue first known).1 = symbol := by simpa [CanonIR.replay] using issued
      exact symbolIn_issue storable first
    | succ index => exact ih (storable.issue first) asked issued

theorem replay_issue_firsts (texts : List Bytes) :
    (CanonIR.replay issue texts []).2 = firsts texts :=
  replay_issue_known storable_nil texts

theorem storable_firsts (texts : List Bytes) : Storable (firsts texts) :=
  replay_issue_firsts texts ▸ storable_nil.replay texts

theorem firsts_take_isPrefix (texts : List Bytes) (count : Nat) :
    firsts (texts.take count) <+: firsts texts := by
  have grown := replay_grows (fun old new : List Bytes => old <+: new) (fun _ => List.prefix_rfl)
    List.IsPrefix.trans prefix_issue (texts.drop count)
    (CanonIR.replay issue (texts.take count) []).2
  rwa [← replay_append, List.take_append_drop, replay_issue_firsts, replay_issue_firsts] at grown

theorem symbolIn_inj {first second : Bytes} {symbol : Symbol} (storable : Storable known)
    (one : symbolIn known first = some symbol) (other : symbolIn known second = some symbol) :
    first = second := by
  rw [symbolIn_eq_some storable.distinct] at one other
  cases symbol <;> simp_all

theorem ofRaw_raw {symbol : Symbol}
    (small : ∀ index, symbol = .entry index → index < Symbol.maxEntries) :
    Symbol.ofRaw symbol.raw = symbol := by
  cases symbol with
  | empty => rfl
  | entry index =>
    have low : index + 1 < Symbol.wordBase := by
      have bound := small index rfl
      simp only [Symbol.maxEntries, Symbol.wordBase] at *
      omega
    simp [Symbol.ofRaw, Symbol.raw, low]
  | word index => simp [Symbol.ofRaw, Symbol.raw, Symbol.wordBase]

theorem Keeps.perform (keeps : pool.Keeps known) (small : text.length < positionLimit)
    (room : (issue text known).2.length ≤ Symbol.maxEntries) :
    ∃ after, pool.internOrFault text = .ok ((issue text known).1, after) ∧
      after.Keeps (issue text known).2 := by
  cases found : symbolIn known text with
  | some symbol =>
    exact ⟨pool, by simp [internOrFault, issue, found, keeps.intern_known found],
      by simpa [issue, found] using keeps⟩
  | none =>
    have free : known.length < Symbol.maxEntries := by
      simp only [issue, found, List.length_append, List.length_singleton] at room
      omega
    obtain ⟨place, arena, -, interned, kept⟩ := keeps.intern_new found small free
    exact ⟨pool.withText text place arena, by simp [internOrFault, issue, found, interned],
      by simpa [issue, found] using kept⟩

/-! ### Reading symbols -/

theorem Keeps.storable (keeps : pool.Keeps known) : Storable known := ⟨keeps.distinct, keeps.plain⟩

/-- A symbol can be read only if it stands for one of the texts. -/
theorem Keeps.lookup_eq_ok (keeps : pool.Keeps known) {symbol : Symbol} :
    pool.lookup symbol = .ok text ↔ symbolIn known text = some symbol := by
  refine ⟨fun read => ?_, keeps.lookup⟩
  rw [symbolIn_eq_some keeps.distinct]
  cases symbol with
  | empty =>
    cases read
    exact .inl ⟨rfl, rfl⟩
  | word index =>
    cases found : ReservedWord.bytes? index with
    | none => simp [SymbolPool.lookup, found] at read
    | some bytes =>
      obtain rfl : bytes = text := by simpa [SymbolPool.lookup, found] using read
      exact .inr (.inl ⟨index, found, rfl⟩)
  | entry index =>
    obtain ⟨entry, fetched, -⟩ := Checked.bind_eq_ok.mp read
    have inside : index < known.length := by
      rw [← keeps.size]
      exact (Array.getElem?_eq_some_iff.mp (fetch_eq_ok.mp fetched)).1
    have present : known[index]? = some known[index] := List.getElem?_eq_getElem inside
    have plain := keeps.plain _ (List.mem_of_getElem? present)
    have issued : symbolIn known known[index] = some (.entry index) :=
      (symbolIn_eq_some keeps.distinct).mpr (.inr (.inr ⟨index, plain, present, rfl⟩))
    cases (keeps.lookup issued).symm.trans read
    exact .inr (.inr ⟨index, plain, present, rfl⟩)

theorem add_oversized (pool : SymbolPool) (hash : UInt64) (tail : Option Nat) (full : text ≠ [])
    (long : positionLimit ≤ text.length) :
    pool.add text hash tail = .ok (.error (.oversized text.length)) := by
  cases pool
  simp [add, TextArena.store, full, long]

/-- Interning that is not refused does what the list of texts says. -/
theorem Keeps.intern_eq_ok (keeps : pool.Keeps known) {symbol : Symbol} {after : SymbolPool}
    (interned : pool.intern text = .ok (.ok (symbol, after))) :
    after.Keeps (issue text known).2 ∧ symbol = (issue text known).1 := by
  cases found : symbolIn known text with
  | some former =>
    rw [keeps.intern_known found] at interned
    cases interned
    simpa [issue, found] using keeps
  | none =>
    obtain ⟨plain, missing⟩ := symbolIn_eq_none.mp found
    obtain ⟨full, noWord⟩ := isPlain_iff.mp plain
    have size : pool.size = known.length := keeps.size
    have room : known.length < Symbol.maxEntries := by
      by_contra crowded
      simp [intern, full, noWord, keeps.search_new missing, size, Nat.le_of_not_lt crowded] at interned
    have small : text.length < positionLimit := by
      by_contra long
      have oversized := Nat.le_of_not_lt long
      have refused := add_oversized pool (pool.hash text) (pool.chainOf text).getLast? full oversized
      simp [intern, full, noWord, keeps.search_new missing, size, Nat.not_le_of_lt room, refused] at interned
    obtain ⟨place, arena, -, again, kept⟩ := keeps.intern_new found small room
    rw [again] at interned
    cases interned
    simpa [issue, found] using kept

/-- The pool stands for some texts. -/
def Sound (pool : SymbolPool) : Prop := ∃ known, pool.Keeps known

theorem sound_ofSizing (hash : Bytes → UInt64) {sizing : Sizing} (built : sizing.Built) :
    (ofSizing hash sizing).Sound :=
  ⟨[], keeps_ofSizing hash built.ordinary built.wide⟩

theorem Sound.intern_eq_ok (sound : pool.Sound) {symbol : Symbol} {after : SymbolPool}
    (interned : pool.intern text = .ok (.ok (symbol, after))) :
    after.Sound ∧ after.lookup symbol = .ok text ∧
      ∀ {other bytes}, pool.lookup other = .ok bytes → after.lookup other = .ok bytes := by
  obtain ⟨known, keeps⟩ := sound
  obtain ⟨kept, rfl⟩ := keeps.intern_eq_ok interned
  refine ⟨⟨_, kept⟩, kept.lookup (symbolIn_issue keeps.storable text), fun read => ?_⟩
  have issued := keeps.lookup_eq_ok.mp read
  exact kept.lookup (symbolIn_of_isPrefix keeps.storable kept.storable (prefix_issue text known) issued)

/-- No two symbols stand for one text. -/
theorem Sound.lookup_inj (sound : pool.Sound) {first second : Symbol}
    (one : pool.lookup first = .ok text) (two : pool.lookup second = .ok text) : first = second := by
  obtain ⟨known, keeps⟩ := sound
  have same := (keeps.lookup_eq_ok.mp one).symm.trans (keeps.lookup_eq_ok.mp two)
  exact Option.some.inj same

theorem runAll_issue (hash : Bytes → UInt64) {sizing : Sizing} (built : sizing.Built)
    (short : ∀ text ∈ texts, text.length < positionLimit)
    (few : (firsts texts).length ≤ Symbol.maxEntries) :
    ∃ pool, runAll (fun text pool => internOrFault pool text) texts (ofSizing hash sizing) =
        .ok ((CanonIR.replay issue texts []).1, pool) ∧ pool.Keeps (firsts texts) := by
  let allowed : Bytes → Prop := fun text => text.length < positionLimit
  let fits : List Bytes → Prop := fun known => known.length ≤ Symbol.maxEntries
  have step : ∀ text, allowed text → ∀ (pool : SymbolPool) known, pool.Keeps known →
      fits (issue text known).2 → ∃ after, pool.internOrFault text = .ok ((issue text known).1, after) ∧
        after.Keeps (issue text known).2 := fun _ small _ _ keeps => keeps.perform small
  have shrinks : ∀ text known, fits (issue text known).2 → fits known :=
    fun text known room => Nat.le_trans (prefix_issue text known).length_le room
  have fit : fits (CanonIR.replay issue texts []).2 := by rwa [replay_issue_firsts]
  rw [← replay_issue_firsts]
  exact runAll_replay step shrinks short (keeps_ofSizing hash built.ordinary built.wide) fit

theorem raw_of_symbolIn (storable : Storable known) (few : known.length ≤ Symbol.maxEntries)
    {symbol : Symbol} (issued : symbolIn known text = some symbol) :
    (text = [] → symbol.raw = 0) ∧
      (∀ word, ReservedWord.bytes? word = some text → symbol.raw = 2 ^ 31 + word) ∧
      (text.IsPlain → ∃ rank, known[rank]? = some text ∧ symbol.raw = 1 + rank ∧
        symbol.raw < 2 ^ 31) := by
  have distinct := storable.distinct
  refine ⟨?_, ?_, ?_⟩
  · intro empty
    subst empty
    obtain rfl : Symbol.empty = symbol := by simpa [symbolIn] using issued
    rfl
  · intro word isWord
    have own := (symbolIn_eq_some distinct).mpr (.inr (.inl ⟨word, isWord, rfl⟩))
    obtain rfl : Symbol.word word = symbol := Option.some.inj (own.symm.trans issued)
    rfl
  · intro plain
    rcases (symbolIn_eq_some distinct).mp issued with
      ⟨empty, -⟩ | ⟨word, isWord, -⟩ | ⟨rank, -, present, rfl⟩
    · exact absurd empty plain.1
    · rw [ReservedWord.bytes?_eq] at isWord
      exact absurd (List.mem_of_getElem? isWord) plain.2
    · have inside := (List.getElem?_eq_some_iff.mp present).1
      refine ⟨rank, present, Nat.add_comm _ _, ?_⟩
      simp only [Symbol.raw, Symbol.maxEntries, Symbol.wordBase] at *
      omega

theorem raw_inj_of_symbolIn (storable : Storable known) (few : known.length ≤ Symbol.maxEntries)
    {first second : Bytes} {one other : Symbol} (issued : symbolIn known first = some one)
    (again : symbolIn known second = some other) : one.raw = other.raw ↔ first = second := by
  have small : ∀ {text : Bytes} {symbol : Symbol}, symbolIn known text = some symbol →
      ∀ index, symbol = .entry index → index < Symbol.maxEntries := by
    rintro text _ issued index rfl
    obtain ⟨-, present⟩ : text.IsPlain ∧ known[index]? = some text := by
      simpa using (symbolIn_eq_some storable.distinct).mp issued
    exact Nat.lt_of_lt_of_le (List.getElem?_eq_some_iff.mp present).1 few
  constructor
  · intro same
    have equal := congrArg Symbol.ofRaw same
    rw [ofRaw_raw (small issued), ofRaw_raw (small again)] at equal
    subst equal
    exact symbolIn_inj storable issued again
  · intro same
    subst same
    rw [Option.some.inj (issued.symm.trans again)]

/-- Every run of interning that stays within the limits returns. The symbol of a text is
fixed by what it is and where it first came, whatever the hash function and the sizes; it
leads back to the text, is found again, and is given again without any change. -/
theorem interning_runs (short : ∀ text ∈ texts, text.length < positionLimit)
    (few : (firsts texts).length ≤ Symbol.maxEntries) :
    ∃ symbols : List Symbol, symbols.length = texts.length ∧
      (∀ (index : Nat) (text : Bytes) (symbol : Symbol),
        (texts.zip symbols)[index]? = some (text, symbol) →
        (text = [] → symbol.raw = 0) ∧
        (∀ word, ReservedWord.bytes? word = some text → symbol.raw = 2 ^ 31 + word) ∧
        (text.IsPlain → ∃ rank, (firsts (texts.take (index + 1)))[rank]? = some text ∧
          symbol.raw = 1 + rank ∧ symbol.raw < 2 ^ 31)) ∧
      (∀ first ∈ texts.zip symbols, ∀ second ∈ texts.zip symbols,
        first.2.raw = second.2.raw ↔ first.1 = second.1) ∧
      ∀ (hash : Bytes → UInt64) (sizing : Sizing), sizing.Built → ∃ pool,
        runAll (fun text pool => internOrFault pool text) texts (ofSizing hash sizing) =
          .ok (symbols, pool) ∧ pool.size = (firsts texts).length ∧
        (∀ issued ∈ texts.zip symbols, pool.lookup issued.2 = .ok issued.1 ∧
          pool.get? issued.1 = .ok (some issued.2)) ∧
        (∀ text : Bytes, ¬ text.IsPlain ∨ text ∈ texts → ∃ symbol,
          pool.get? text = .ok (some symbol) ∧ pool.lookup symbol = .ok text ∧
          pool.internOrFault text = .ok (symbol, pool)) ∧
        ∀ text : Bytes, text.IsPlain → text ∉ texts → pool.get? text = .ok none := by
  have storable := storable_firsts texts
  have early : ∀ index text symbol,
      (texts.zip (CanonIR.replay issue texts []).1)[index]? = some (text, symbol) →
      symbolIn (firsts (texts.take (index + 1))) text = some symbol := by
    intro index text symbol paired
    obtain ⟨asked, issued⟩ := List.getElem?_zip_eq_some.mp paired
    rw [← replay_issue_firsts]
    exact replay_issue_symbols storable_nil asked issued
  have late : ∀ issued ∈ texts.zip (CanonIR.replay issue texts []).1,
      symbolIn (firsts texts) issued.1 = some issued.2 := by
    intro issued member
    obtain ⟨index, paired⟩ := List.mem_iff_getElem?.mp member
    exact symbolIn_of_isPrefix (storable_firsts _) storable (firsts_take_isPrefix texts (index + 1))
      (early index issued.1 issued.2 paired)
  refine ⟨(CanonIR.replay issue texts []).1, length_replay _ _, ?_, ?_, ?_⟩
  · intro index text symbol paired
    have bound := (firsts_take_isPrefix texts (index + 1)).length_le
    exact raw_of_symbolIn (storable_firsts _) (Nat.le_trans bound few)
      (early index text symbol paired)
  · exact fun first member second member' =>
      raw_inj_of_symbolIn storable few (late first member) (late second member')
  · intro hash sizing built
    obtain ⟨pool, ran, keeps⟩ := runAll_issue hash built short few
    refine ⟨pool, ran, keeps.size, ?_, ?_, ?_⟩
    · intro issued member
      exact ⟨keeps.lookup (late issued member), (keeps.get? _).trans (by rw [late issued member])⟩
    · intro text known
      cases found : symbolIn (firsts texts) text with
      | none =>
        obtain ⟨plain, missing⟩ := symbolIn_eq_none.mp found
        exact absurd (mem_firsts.mpr ⟨known.resolve_left (not_not_intro plain), plain⟩) missing
      | some symbol =>
        exact ⟨symbol, found ▸ keeps.get? text, keeps.lookup found,
          by simp [internOrFault, keeps.intern_known found]⟩
    · intro text plain missing
      rw [keeps.get?, symbolIn_eq_none.mpr ⟨plain, fun member => missing (mem_firsts.mp member).1⟩]

/-- One chain for all: every hash is alike and there is one bucket to start with. The texts
are "f", "int", the empty one, "b" and "f" again. -/
theorem interning_runs_one_chain :
    ∃ (symbols : List Symbol) (pool : SymbolPool),
      runAll (fun text pool => internOrFault pool text)
          [[102], [105, 110, 116], [], [98], [102]]
          (ofSizing (fun _ => 0) (({} : Sizing).withBucketCount 1)) = .ok (symbols, pool) ∧
        pool.size = 2 ∧ symbols.length = 5 ∧ pool.get? [99] = .ok none ∧
        ∀ issued ∈ [[102], [105, 110, 116], [], [98], [102]].zip symbols,
          pool.lookup issued.2 = .ok issued.1 := by
  have short : ∀ text ∈ ([[102], [105, 110, 116], [], [98], [102]] : List Bytes),
      text.length < positionLimit := by decide
  have stored : firsts [[102], [105, 110, 116], [], [98], [102]] = [[102], [98]] := by
    decide +kernel
  have few : (firsts [[102], [105, 110, 116], [], [98], [102]]).length ≤ Symbol.maxEntries := by
    rw [stored]
    decide
  obtain ⟨symbols, length, -, -, pools⟩ := interning_runs short few
  obtain ⟨pool, ran, size, issued, -, missing⟩ :=
    pools (fun _ => 0) _ (.withBucketCount .default 1)
  refine ⟨symbols, pool, ran, by rw [size, stored]; rfl, length,
    missing [99] (by decide +kernel) (by decide), fun pair member => (issued pair member).1⟩

end SymbolPool

end CanonIR
