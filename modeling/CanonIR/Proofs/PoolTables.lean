import CanonIR.Proofs.PoolGrowth
import Mathlib.Data.Nat.Bitwise

/-! The bucket table of a pool. Which entries a bucket leads to is settled by their hashes
and the width of the table, and in which order by when they came; so there is only one way
to link them. Whatever doublings lie behind a table, it is the one that the same texts give
in a pool that had its width from the start. -/

namespace CanonIR

/-- The indices that a chain visits determine its links. -/
theorem Chain.unique {next other : Nat → Option (Option Nat)} {cursor start : Option Nat}
    {indices : List Nat} (one : Chain next cursor indices) (two : Chain other start indices) :
    cursor = start ∧ ∀ index ∈ indices, next index = other index := by
  induction indices generalizing cursor start with
  | nil => exact ⟨one.trans two.symm, by simp⟩
  | cons first rest ih =>
    obtain ⟨here, onward, link, one⟩ := one
    obtain ⟨there, later, same, two⟩ := two
    obtain ⟨equal, links⟩ := ih one two
    refine ⟨here.trans there.symm, fun index member => ?_⟩
    rcases List.mem_cons.mp member with rfl | inside
    · rw [link, same, equal]
    · exact links index inside

section Links

variable {entries others : Array PoolEntry} {heads starts : Array (Option Nat)} {limit : Nat}

theorem getElem?_of_contentAt {index : Nat}
    (content : contentAt entries index = contentAt others index)
    (link : links entries index = links others index) : entries[index]? = others[index]? := by
  unfold contentAt at content
  unfold links at link
  cases here : entries[index]? with
  | none =>
    rw [here] at content
    exact (Option.map_eq_none_iff.mp content.symm).symm
  | some entry =>
    rw [here] at content link
    obtain ⟨other, there, same⟩ := Option.map_eq_some_iff.mp content.symm
    rw [there] at link ⊢
    obtain ⟨text, hash⟩ := Prod.mk.inj same
    have next : entry.next = other.next := Option.some.inj link
    cases entry
    cases other
    simp_all

/-- Tables of one width with the same texts in the same order are linked alike. -/
theorem Linked.unique (one : Linked entries heads entries.size) (two : Linked others starts others.size)
    (content : ∀ index, contentAt entries index = contentAt others index)
    (size : entries.size = others.size) (width : heads.size = starts.size) (wide : 0 < heads.size) :
    entries = others ∧ heads = starts := by
  have chains : ∀ bucket < heads.size, heads[bucket]? = starts[bucket]? ∧
      ∀ index ∈ members entries heads.size entries.size bucket,
        links entries index = links others index := by
    intro bucket inside
    obtain ⟨head, present, chain⟩ := one bucket inside
    obtain ⟨start, found, other⟩ := two bucket (width ▸ inside)
    rw [← width, ← size, ← members_congr fun index _ => content index] at other
    obtain ⟨same, links⟩ := chain.unique other
    exact ⟨by rw [present, found, same], links⟩
  constructor
  · apply Array.ext_getElem?
    intro index
    by_cases inside : index < entries.size
    · obtain ⟨found, here⟩ : ∃ found, contentAt entries index = some found := by
        simp [contentAt, inside]
      have selected : SymbolPool.bucketOf found.2 heads.size < heads.size := SymbolPool.bucketOf_lt wide
      have member : index ∈ members entries heads.size entries.size
          (SymbolPool.bucketOf found.2 heads.size) :=
        mem_members.mpr ⟨inside, found, here, rfl⟩
      exact getElem?_of_contentAt (content index) ((chains _ selected).2 index member)
    · rw [Array.getElem?_eq_none (by omega), Array.getElem?_eq_none (by omega)]
  · apply Array.ext_getElem?
    intro bucket
    by_cases inside : bucket < heads.size
    · exact (chains bucket inside).1
    · rw [Array.getElem?_eq_none (by omega), Array.getElem?_eq_none (by omega)]

end Links

namespace SymbolPool

variable {pool one two : SymbolPool} {known : List Bytes} {text : Bytes} {hash : Bytes → UInt64}

/-! ### One table from the start -/

/-- The pools have stored the same texts at the same places. Their tables may differ. -/
structure Twins (hash : Bytes → UInt64) (one two : SymbolPool) : Prop where
  hashes : one.hash = hash ∧ two.hash = hash
  arena : one.arena = two.arena
  load : one.maxLoad = two.maxLoad
  content : ∀ index, contentAt one.entries index = contentAt two.entries index
  known : ∃ known, one.Keeps known ∧ two.Keeps known

theorem twins_ofSizing (hash : Bytes → UInt64) {sizing : Sizing}
    (ordinary : sizing.poolSize ≤ 1073741824) (wide : 0 < sizing.bucketCount) {count : Nat}
    (other : 0 < count) :
    Twins hash (ofSizing hash sizing) (ofSizing hash { sizing with bucketCount := count }) where
  hashes := ⟨rfl, rfl⟩
  arena := rfl
  load := rfl
  content _ := rfl
  known := ⟨[], keeps_ofSizing hash ordinary wide, keeps_ofSizing hash ordinary other⟩

theorem Keeps.size_eq (first : one.Keeps known) (second : two.Keeps known) : one.size = two.size :=
  first.size.trans second.size.symm

theorem Twins.gains (twins : Twins hash one two) {place : Stored} {arena : TextArena}
    {after later : SymbolPool} (first : one.Gains text place arena after)
    (second : two.Gains text place arena later) (size : one.size = two.size) {known : List Bytes}
    (kept : after.Keeps known) (held : later.Keeps known) : Twins hash after later := by
  obtain ⟨⟨hashed, same⟩, -, load, content, -⟩ := twins
  refine ⟨⟨first.hash.trans hashed, second.hash.trans same⟩, first.arena.trans second.arena.symm, ?_, ?_,
    known, kept, held⟩
  · rw [first.load, second.load, load]
  · intro index
    rw [first.content, second.content, size, hashed, same, content]

/-- Twins answer alike and stay twins, whether or not their tables grow. -/
theorem Twins.enter (twins : Twins hash one two) (text : Bytes) :
    ∃ reply after later, enter text one = .ok (reply, after) ∧ enter text two = .ok (reply, later) ∧
      Twins hash after later := by
  obtain ⟨known, first, second⟩ := twins.known
  obtain ⟨reply, after, grown, entered, kept, enters⟩ := first.enter text
  obtain ⟨other, later, larger, followed, held, mirrors⟩ := second.enter text
  suffices alike : reply = other ∧ Twins hash after later from
    ⟨reply, after, later, entered, alike.1 ▸ followed, alike.2⟩
  cases enters with
  | found stored =>
    cases mirrors with
    | found again =>
      cases stored.symm.trans again
      exact ⟨rfl, twins⟩
    | overflow new | oversized new | added new => cases stored.symm.trans new
  | overflow new full =>
    cases mirrors with
    | overflow => exact ⟨rfl, twins⟩
    | found stored => cases stored.symm.trans new
    | oversized _ room | added _ room => omega
  | oversized new room long =>
    cases mirrors with
    | oversized => exact ⟨rfl, twins⟩
    | found stored => cases stored.symm.trans new
    | overflow _ full => omega
    | added _ _ small => omega
  | added new room small stores =>
    cases mirrors with
    | added _ _ _ again =>
      rw [twins.arena] at stores
      cases stores.symm.trans again
      exact ⟨rfl, twins.gains (gains_withText first.wide ..) (gains_withText second.wide ..)
        (first.size_eq second) kept held⟩
    | found stored => cases stored.symm.trans new
    | overflow _ full => omega
    | oversized _ _ long => omega

/-- Twins with tables of one width are one pool. -/
theorem Twins.eq (twins : Twins hash one two) (width : one.bucketCount = two.bucketCount) : one = two := by
  obtain ⟨⟨hashed, same⟩, arena, load, content, known, first, second⟩ := twins
  obtain ⟨entries, buckets⟩ := Linked.unique (first.size ▸ first.linked) (second.size ▸ second.linked)
    content (first.size_eq second) width first.wide
  cases one
  cases two
  simp_all

/-- A table that is wide enough for all that is to come is never widened. -/
theorem Fitted.unwidened {first doublings : Nat} (fitted : pool.Fitted first doublings)
    (enough : pool.size ≤ first * pool.maxLoad) : pool.bucketCount = first := by
  cases doublings with
  | zero => exact fitted.width.trans (Nat.mul_one first)
  | succ doublings =>
    have narrow := fitted.narrow 0 (Nat.succ_pos _)
    rw [Nat.pow_zero, Nat.mul_one] at narrow
    exact absurd enough (Nat.not_le_of_lt narrow)

/-- Two runs of the same texts, the second in a table that has the width from the start to
which the first one grows. -/
theorem run_unwidened (hash : Bytes → UInt64) {sizing : Sizing} (built : sizing.Built)
    (texts : List Bytes) :
    ∃ replies pool, runAll enter texts (ofSizing hash sizing) = .ok (replies, pool) ∧
      pool.Grown sizing.bucketCount sizing.maxLoad ∧ pool.hash = hash ∧
      runAll enter texts (ofSizing hash { sizing with bucketCount := pool.bucketCount }) =
        .ok (replies, pool) := by
  obtain ⟨replies, pool, ran, grown⟩ := grown_run hash built.ordinary built.wide built.loaded texts
  let widest : Sizing := { sizing with bucketCount := pool.bucketCount }
  have wide : 0 < widest.bucketCount := by
    obtain ⟨known, keeps⟩ := grown.sound
    exact keeps.wide
  have twins := twins_ofSizing hash built.ordinary built.wide wide
  have step : ∀ text one two, Twins hash one two → ∃ reply after later,
      enter text one = .ok (reply, after) ∧ enter text two = .ok (reply, later) ∧
        Twins hash after later := fun text _ _ twins => twins.enter text
  obtain ⟨others, first, second, again, followed, twins⟩ := runAll_related step texts twins
  cases again.symm.trans ran
  -- The second table has room for all entries from the start.
  have width : second.bucketCount = pool.bucketCount := by
    have ordinary : widest.poolSize ≤ 1073741824 := built.ordinary
    obtain ⟨_, last, went, -, load, -, doublings, fitted⟩ :=
      grown_run hash ordinary wide built.loaded texts
    cases went.symm.trans followed
    obtain ⟨known, kept, held⟩ := twins.known
    apply fitted.unwidened
    rw [← kept.size_eq held, load]
    exact grown.roomy
  obtain rfl := twins.eq width.symm
  exact ⟨replies, pool, ran, grown, twins.hashes.1, followed⟩

/-! ### What a table looks like -/

/-- A table in which every entry is found by its hash. -/
structure WellLinked (pool : SymbolPool) (hash : Bytes → UInt64) : Prop where
  power : pool.bucketCount.isPowerOfTwo
  /-- The low bits of a hash select its bucket. -/
  selects : ∀ code, bucketOf code pool.bucketCount = code.toNat &&& (pool.bucketCount - 1)
  chains : ∀ bucket < pool.bucketCount, ∃ head visited, pool.buckets[bucket]? = some head ∧
    Chain (links pool.entries) head visited ∧ visited.Pairwise (· < ·) ∧
    ∀ index, index ∈ visited ↔ ∃ entry, pool.entries[index]? = some entry ∧
      entry.hash.toNat % pool.bucketCount = bucket
  hashes : ∀ entry ∈ pool.entries, ∃ text, pool.arena.read entry.text = .ok text ∧
    entry.hash = hash text
  distinct : ∀ (first second : Nat) (one two : PoolEntry) (text : Bytes),
    pool.entries[first]? = some one → pool.entries[second]? = some two →
    pool.arena.read one.text = .ok text → pool.arena.read two.text = .ok text → first = second
  walks : ∀ text, ∃ outcome, pool.search text (hash text) = .ok outcome

/-- The texts and hashes of a pool, entry by entry. -/
theorem Keeps.read_entry (keeps : pool.Keeps known) {index : Nat} {entry : PoolEntry}
    (found : pool.entries[index]? = some entry) : ∃ text, known[index]? = some text ∧
      pool.arena.read entry.text = .ok text ∧ entry.hash = pool.hash text := by
  have inside : index < known.length :=
    keeps.size ▸ (Array.getElem?_eq_some_iff.mp found).1
  have present : known[index]? = some known[index] := List.getElem?_eq_getElem inside
  obtain ⟨stored, content, holds⟩ := keeps.entry index _ present
  rw [contentAt, found] at content
  obtain ⟨rfl, hashed⟩ := Prod.mk.inj (Option.some.inj content)
  exact ⟨_, present, holds.read, hashed⟩

theorem mem_members_entries {entries : Array PoolEntry} {count bucket index : Nat} :
    index ∈ members entries count entries.size bucket ↔ ∃ entry, entries[index]? = some entry ∧
      entry.hash.toNat % count = bucket := by
  rw [mem_members]
  constructor
  · intro ⟨_, content, found, selected⟩
    obtain ⟨entry, present, rfl⟩ := Option.map_eq_some_iff.mp found
    exact ⟨entry, present, selected⟩
  · intro ⟨entry, present, selected⟩
    exact ⟨(Array.getElem?_eq_some_iff.mp present).1, (entry.text, entry.hash),
      by simp [contentAt, present], selected⟩

theorem Keeps.wellLinked (keeps : pool.Keeps known) (power : pool.bucketCount.isPowerOfTwo) :
    pool.WellLinked pool.hash := by
  refine ⟨power, fun code => ?_, fun bucket inside => ?_, fun entry member => ?_, ?_,
    fun text => ⟨_, keeps.search text⟩⟩
  · obtain ⟨exponent, width⟩ := power
    rw [width, Nat.and_two_pow_sub_one_eq_mod, bucketOf]
  · obtain ⟨head, present, chain⟩ := keeps.linked bucket inside
    rw [← keeps.size] at chain
    exact ⟨head, _, present, chain, List.pairwise_lt_range.filter _, fun _ => mem_members_entries⟩
  · obtain ⟨index, found⟩ := Array.mem_iff_getElem?.mp member
    obtain ⟨text, -, read, hashed⟩ := keeps.read_entry found
    exact ⟨text, read, hashed⟩
  · intro first second one two text here there reads again
    obtain ⟨earlier, present, read, -⟩ := keeps.read_entry here
    obtain ⟨later, same, other, -⟩ := keeps.read_entry there
    cases read.symm.trans reads
    cases other.symm.trans again
    have inside := (List.getElem?_eq_some_iff.mp present).1
    exact (List.getElem?_inj inside keeps.distinct).mp (present.trans same.symm)

theorem Grown.power {first load : Nat} (grown : pool.Grown first load) (power : first.isPowerOfTwo) :
    pool.bucketCount.isPowerOfTwo := by
  obtain ⟨-, -, -, doublings, fitted⟩ := grown
  obtain ⟨exponent, rfl⟩ := power
  exact ⟨exponent + doublings, by rw [fitted.width, Nat.pow_add]⟩

/-- Whatever the hash function, the sizes and the texts, the table is well linked after every
call, and no link in it tells how often it was widened. -/
theorem tables_well_linked (hash : Bytes → UInt64) {sizing : Sizing} (built : sizing.Built)
    (texts : List Bytes) :
    ∃ replies pool, runAll enter texts (ofSizing hash sizing) = .ok (replies, pool) ∧
      pool.WellLinked hash ∧
      runAll enter texts (ofSizing hash { sizing with bucketCount := pool.bucketCount }) =
        .ok (replies, pool) := by
  obtain ⟨replies, pool, ran, grown, rfl, again⟩ := run_unwidened hash built texts
  obtain ⟨known, keeps⟩ := grown.sound
  exact ⟨replies, pool, ran, keeps.wellLinked (grown.power built.power), again⟩

/-- The hash is the first byte, so that "b" and "f" share a bucket while there are four, and
"bc" and "b" share theirs for ever. Two doublings lead to that width. -/
theorem tables_well_linked_collisions :
    ∃ replies pool,
      runAll enter [[102], [98], [98, 99], [102]]
          (ofSizing (fun text => (text.headD 0).toUInt64) ((({} : Sizing).withBucketCount 1).withMaxLoad 1)) =
        .ok (replies, pool) ∧
      pool.WellLinked (fun text => (text.headD 0).toUInt64) ∧
      pool.buckets.toList = [none, none, some 0, none] ∧
      pool.entries.toList.map PoolEntry.next = [some 1, some 2, none] := by
  obtain ⟨replies, pool, ran, linked, -⟩ :=
    tables_well_linked (fun text => (text.headD 0).toUInt64)
      (.withMaxLoad (.withBucketCount .default 1) 1) [[102], [98], [98, 99], [102]]
  have performed : (runAll enter [[102], [98], [98, 99], [102]]
      (ofSizing (fun text => (text.headD 0).toUInt64)
        ((({} : Sizing).withBucketCount 1).withMaxLoad 1))).toOption.map
        (fun result => (result.2.buckets.toList, result.2.entries.toList.map PoolEntry.next)) =
      some ([none, none, some 0, none], [some 1, some 2, none]) := by decide +kernel
  rw [ran] at performed
  obtain ⟨buckets, nexts⟩ := Prod.mk.inj (Option.some.inj performed)
  exact ⟨replies, pool, ran, linked, buckets, nexts⟩

end SymbolPool

end CanonIR
