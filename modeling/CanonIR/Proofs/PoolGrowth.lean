import CanonIR.Proofs.PoolRuns
import Mathlib.Order.Bounds.Defs
import Mathlib.Tactic.Ring

/-! Growth of a bucket table. A table is doubled when the last text made it too crowded, and
once is always enough: before that text the chains were short enough, and there is room for
at least one entry in each half. So the width is at all times the least of those that the
table can have, and a number of entries that symbols can tell apart keeps every product of
counts far below what a count can hold. -/

namespace CanonIR

theorem isLeast_powerOfTwoFrom (count : Nat) :
    IsLeast {width : Nat | width.isPowerOfTwo ∧ count ≤ width} (powerOfTwoFrom count) := by
  refine ⟨⟨isPowerOfTwo_powerOfTwoFrom count, ?_⟩, ?_⟩
  · unfold powerOfTwoFrom
    split
    next small => exact small
    next large =>
      have above : count - 1 < 2 ^ ((count - 1).log2 + 1) := Nat.lt_log2_self
      rw [Nat.one_shiftLeft]
      omega
  · rintro width ⟨⟨exponent, rfl⟩, covers⟩
    unfold powerOfTwoFrom
    split
    · exact Nat.one_le_two_pow
    next large =>
      -- A power of two above `count - 1` has a larger exponent than its logarithm.
      have below : (count - 1).log2 < exponent := (Nat.log2_lt (by omega)).mpr (by omega)
      rw [Nat.one_shiftLeft]
      exact Nat.pow_le_pow_right (by decide) below

namespace SymbolPool

variable {pool : SymbolPool} {known : List Bytes} {text : Bytes} {first load doublings : Nat}

/-! ### One text more -/

/-- The pool has one text more than before. How it is linked is left open. -/
structure Gains (pool : SymbolPool) (text : Bytes) (place : Stored) (arena : TextArena)
    (after : SymbolPool) : Prop where
  hash : after.hash = pool.hash
  arena : after.arena = arena
  load : after.maxLoad = pool.maxLoad
  size : after.size = pool.size + 1
  content : ∀ index, contentAt after.entries index =
    if index = pool.size then some (place, pool.hash text) else contentAt pool.entries index

theorem gains_linkText (pool : SymbolPool) (text : Bytes) (place : Stored) (arena : TextArena) :
    pool.Gains text place arena (pool.linkText text place arena) := by
  rw [linkText, link_eq]
  refine ⟨rfl, rfl, rfl, size_hangBehind.trans (by simp [size]), fun index => ?_⟩
  refine contentAt_hangBehind.trans ?_
  by_cases last : index = pool.entries.size
  · simp [contentAt, size, last]
  · simp [contentAt, Array.getElem?_push, size, last]

theorem bucketCount_linkText (pool : SymbolPool) (text : Bytes) (place : Stored) (arena : TextArena) :
    (pool.linkText text place arena).bucketCount = pool.bucketCount := by
  rw [linkText, link_eq]
  cases (pool.chainOf text).getLast? <;> simp [hangBehind, bucketCount]

/-- Linking anew changes neither the number of the entries nor what they hold. -/
theorem grow_parts (wide : 0 < pool.bucketCount) :
    pool.grow.size = pool.size ∧ pool.grow.bucketCount = pool.bucketCount * 2 ∧
      ∀ index, contentAt pool.grow.entries index = contentAt pool.entries index := by
  obtain ⟨size, content, heads, -, -, -⟩ :=
    Relinking.reaches_foldl (Nat.mul_pos wide (by decide : 0 < 2)) (Nat.le_refl pool.entries.size)
  exact ⟨size, heads, content⟩

theorem gains_withText (wide : 0 < pool.bucketCount) (text : Bytes) (place : Stored) (arena : TextArena) :
    pool.Gains text place arena (pool.withText text place arena) := by
  have linked := gains_linkText pool text place arena
  rw [withText]
  split
  · obtain ⟨same, -, kept⟩ := grow_parts (bucketCount_linkText pool text place arena ▸ wide)
    exact ⟨linked.hash, linked.arena, linked.load, same.trans linked.size,
      fun index => (kept index).trans (linked.content index)⟩
  · exact linked

/-- No product of counts is so large that comparing with it goes wrong. -/
theorem isCrowded_iff (small : pool.size < countLimit) :
    pool.isCrowded ↔ pool.bucketCount * pool.maxLoad < pool.size := by
  unfold isCrowded saturatingMul
  rw [decide_eq_true_eq]
  omega

theorem bucketCount_withText (wide : 0 < pool.bucketCount) (small : pool.size + 1 < countLimit)
    (text : Bytes) (place : Stored) (arena : TextArena) :
    (pool.withText text place arena).bucketCount =
      if pool.bucketCount * pool.maxLoad < pool.size + 1 then pool.bucketCount * 2
      else pool.bucketCount := by
  obtain ⟨-, -, load, size, -⟩ := gains_linkText pool text place arena
  have count := bucketCount_linkText pool text place arena
  have crowded : (pool.linkText text place arena).isCrowded ↔ _ := isCrowded_iff (size ▸ small)
  rw [size, count, load] at crowded
  rw [withText]
  split
  next many =>
    rw [if_pos (crowded.mp many), (grow_parts (count ▸ wide)).2.1, count]
  next few => rw [if_neg (fun many => few (crowded.mpr many)), count]

/-- Interning as a call on the pool. A refused text leaves the pool as it was. -/
def enter (text : Bytes) (pool : SymbolPool) : Checked (Except InternError Symbol × SymbolPool) := do
  match ← pool.intern text with
  | .ok (symbol, after) => return (.ok symbol, after)
  | .error refusal => return (.error refusal, pool)

/-- What can become of a text: the reply, and the pool and its texts afterwards. -/
inductive Enters (pool : SymbolPool) (known : List Bytes) (text : Bytes) :
    Except InternError Symbol → SymbolPool → List Bytes → Prop where
  | found {symbol : Symbol} (stored : symbolIn known text = some symbol) :
      Enters pool known text (.ok symbol) pool known
  | overflow (new : symbolIn known text = none) (full : Symbol.maxEntries ≤ known.length) :
      Enters pool known text (.error (.overflow known.length)) pool known
  | oversized (new : symbolIn known text = none) (room : known.length < Symbol.maxEntries)
      (long : positionLimit ≤ text.length) :
      Enters pool known text (.error (.arena (.oversized text.length))) pool known
  | added {place : Stored} {arena : TextArena} (new : symbolIn known text = none)
      (room : known.length < Symbol.maxEntries) (small : text.length < positionLimit)
      (stores : pool.arena.store text = .ok (.ok (place, arena))) :
      Enters pool known text (.ok (.entry known.length)) (pool.withText text place arena)
        (known ++ [text])

/-- A pool always answers. -/
theorem Keeps.enter (keeps : pool.Keeps known) (text : Bytes) :
    ∃ reply after later, enter text pool = .ok (reply, after) ∧ after.Keeps later ∧
      pool.Enters known text reply after later := by
  cases found : symbolIn known text with
  | some symbol =>
    exact ⟨_, _, _, by simp [SymbolPool.enter, keeps.intern_known found], keeps, .found found⟩
  | none =>
    obtain ⟨plain, missing⟩ := symbolIn_eq_none.mp found
    obtain ⟨full, noWord⟩ := isPlain_iff.mp plain
    have size : pool.size = known.length := keeps.size
    by_cases room : known.length < Symbol.maxEntries
    · by_cases small : text.length < positionLimit
      · obtain ⟨place, arena, stores, interned, kept⟩ := keeps.intern_new found small room
        exact ⟨_, _, _, by simp [SymbolPool.enter, interned], kept, .added found room small stores⟩
      · have long := Nat.le_of_not_lt small
        have refused := add_oversized pool (pool.hash text) (pool.chainOf text).getLast? full long
        refine ⟨_, _, _, ?_, keeps, .oversized found room long⟩
        simp [SymbolPool.enter, intern, full, noWord, keeps.search_new missing, size,
          Nat.not_le_of_lt room, refused]
    · have crowded := Nat.le_of_not_lt room
      refine ⟨_, _, _, ?_, keeps, .overflow found crowded⟩
      simp [SymbolPool.enter, intern, full, noWord, keeps.search_new missing, size, crowded]

/-! ### The width of the table -/

/-- After so many doublings the table is wide enough, and after fewer it was not. -/
structure Fitted (pool : SymbolPool) (first doublings : Nat) : Prop where
  width : pool.bucketCount = first * 2 ^ doublings
  roomy : pool.size ≤ first * 2 ^ doublings * pool.maxLoad
  narrow : ∀ fewer < doublings, first * 2 ^ fewer * pool.maxLoad < pool.size

theorem Fitted.isLeast (fitted : pool.Fitted first doublings) :
    IsLeast {count | pool.size ≤ first * 2 ^ count * pool.maxLoad} doublings := by
  refine ⟨fitted.roomy, fun count enough => ?_⟩
  by_contra fewer
  exact Nat.not_lt_of_le enough (fitted.narrow count (Nat.lt_of_not_le fewer))

/-- A pool of `first` buckets at the start that has only been interned in. -/
structure Grown (pool : SymbolPool) (first load : Nat) : Prop where
  sound : pool.Sound
  load : pool.maxLoad = load
  few : pool.size ≤ Symbol.maxEntries
  fitted : ∃ doublings, pool.Fitted first doublings

theorem grown_ofSizing (hash : Bytes → UInt64) {sizing : Sizing}
    (ordinary : sizing.poolSize ≤ 1073741824) (wide : 0 < sizing.bucketCount) :
    (ofSizing hash sizing).Grown sizing.bucketCount sizing.maxLoad where
  sound := ⟨[], keeps_ofSizing hash ordinary wide⟩
  load := rfl
  few := Nat.zero_le _
  fitted := ⟨0, by simp [ofSizing, bucketCount], Nat.zero_le _, by simp⟩

/-- One doubling is enough, since all entries but the last had room before. -/
theorem Fitted.withText (fitted : pool.Fitted first doublings) (wide : 0 < first)
    (loaded : 0 < pool.maxLoad) (small : pool.size + 1 < countLimit) (place : Stored)
    (arena : TextArena) : ∃ more, (pool.withText text place arena).Fitted first more := by
  obtain ⟨width, roomy, narrow⟩ := fitted
  have positive : 0 < pool.bucketCount := by
    rw [width]
    exact Nat.mul_pos wide (Nat.two_pow_pos _)
  obtain ⟨-, -, load, size, -⟩ := gains_withText positive text place arena
  have count := bucketCount_withText positive small text place arena
  have capacity : 0 < first * 2 ^ doublings * pool.maxLoad := width ▸ Nat.mul_pos positive loaded
  rw [width] at count
  split at count
  next crowded =>
    have doubled : first * 2 ^ (doublings + 1) = first * 2 ^ doublings * 2 := by ring
    refine ⟨doublings + 1, ?_, ?_, fun fewer less => ?_⟩
    · rw [count, doubled]
    · rw [size, load, doubled, Nat.mul_right_comm]
      omega
    · rw [size, load]
      rcases Nat.lt_succ_iff_lt_or_eq.mp less with earlier | rfl
      · exact Nat.lt_succ_of_lt (narrow fewer earlier)
      · exact crowded
  next enough =>
    refine ⟨doublings, count, ?_, fun fewer less => ?_⟩
    · rw [size, load]
      exact Nat.le_of_not_lt enough
    · rw [size, load]
      exact Nat.lt_succ_of_lt (narrow fewer less)

theorem maxEntries_lt : Symbol.maxEntries + 1 < countLimit := by decide

/-- A call that adds a text adds one entry, and doubles the table at most once. -/
theorem Grown.enter (grown : pool.Grown first load) (wide : 0 < first) (loaded : 0 < load)
    (text : Bytes) :
    ∃ reply after, enter text pool = .ok (reply, after) ∧ after.Grown first load ∧
      (after.size = pool.size ∧ after.bucketCount = pool.bucketCount ∨
        after.size = pool.size + 1 ∧
          (after.bucketCount = pool.bucketCount ∨ after.bucketCount = pool.bucketCount * 2)) := by
  obtain ⟨⟨known, keeps⟩, rfl, few, doublings, fitted⟩ := grown
  obtain ⟨reply, after, later, entered, kept, enters⟩ := keeps.enter text
  refine ⟨reply, after, entered, ?_⟩
  cases enters with
  | found | overflow | oversized =>
    exact ⟨⟨⟨known, keeps⟩, rfl, few, doublings, fitted⟩, .inl ⟨rfl, rfl⟩⟩
  | @added place arena new room short stores =>
    have room : pool.size < Symbol.maxEntries := by
      rw [size, keeps.size]
      exact room
    have small : pool.size + 1 < countLimit :=
      Nat.lt_of_le_of_lt (Nat.succ_le_succ few) maxEntries_lt
    obtain ⟨-, -, load, size, -⟩ := gains_withText keeps.wide text place arena
    have count := bucketCount_withText keeps.wide small text place arena
    refine ⟨⟨⟨_, kept⟩, load, size ▸ room, fitted.withText wide loaded small place arena⟩,
      .inr ⟨size, ?_⟩⟩
    rw [count]
    split
    · exact .inr rfl
    · exact .inl rfl

theorem grown_run (hash : Bytes → UInt64) {sizing : Sizing} (ordinary : sizing.poolSize ≤ 1073741824)
    (wide : 0 < sizing.bucketCount) (loaded : 0 < sizing.maxLoad) (texts : List Bytes) :
    ∃ replies pool, runAll SymbolPool.enter texts (ofSizing hash sizing) = .ok (replies, pool) ∧
      pool.Grown sizing.bucketCount sizing.maxLoad := by
  refine runAll_keeps (fun text pool grown => ?_) texts (grown_ofSizing hash ordinary wide)
  obtain ⟨reply, after, entered, kept, -⟩ := grown.enter wide loaded text
  exact ⟨reply, after, entered, kept⟩

/-- The counts that the setters admit are small, and so are those that come of doubling. -/
theorem Grown.product_le (grown : pool.Grown first load) (narrow : first ≤ 2 ^ 24)
    (low : load ≤ 2 ^ 16) : pool.bucketCount * load ≤ 2 ^ 40 := by
  obtain ⟨-, rfl, few, doublings, fitted⟩ := grown
  rw [fitted.width]
  cases doublings with
  | zero =>
    calc first * 2 ^ 0 * pool.maxLoad
      _ = first * pool.maxLoad := by rw [Nat.pow_zero, Nat.mul_one]
      _ ≤ 2 ^ 24 * 2 ^ 16 := Nat.mul_le_mul narrow low
  | succ doublings =>
    have before := fitted.narrow doublings (Nat.lt_succ_self _)
    calc first * 2 ^ (doublings + 1) * pool.maxLoad
      _ = 2 * (first * 2 ^ doublings * pool.maxLoad) := by ring
      _ ≤ 2 * Symbol.maxEntries := Nat.mul_le_mul_left 2 (Nat.le_trans (Nat.le_of_lt before) few)
      _ ≤ 2 ^ 40 := by decide

/-- The table has the least width that it can have, and no count is ever too large. -/
structure GrownExactly (pool : SymbolPool) (first load : Nat) : Prop where
  least : ∃ doublings, IsLeast {count | pool.size ≤ first * 2 ^ count * load} doublings ∧
    pool.bucketCount = first * 2 ^ doublings
  roomy : pool.size ≤ pool.bucketCount * load
  few : pool.size < 2 ^ 31
  product : pool.bucketCount * load < countLimit ∧
    saturatingMul pool.bucketCount pool.maxLoad = pool.bucketCount * load
  double : pool.bucketCount * 2 < countLimit
  /-- Whatever is interned next, the table is wide enough after one doubling or none. -/
  once : ∀ text, ∃ reply after, enter text pool = .ok (reply, after) ∧
    (after.size = pool.size ∧ after.bucketCount = pool.bucketCount ∨
      after.size = pool.size + 1 ∧
        (after.bucketCount = pool.bucketCount ∨ after.bucketCount = pool.bucketCount * 2)) ∧
    after.size ≤ after.bucketCount * load

theorem Grown.roomy (grown : pool.Grown first load) : pool.size ≤ pool.bucketCount * load := by
  obtain ⟨-, rfl, -, doublings, fitted⟩ := grown
  exact fitted.width ▸ fitted.roomy

theorem Grown.exactly (grown : pool.Grown first load) (wide : 0 < first) (narrow : first ≤ 2 ^ 24)
    (loaded : 0 < load) (low : load ≤ 2 ^ 16) : pool.GrownExactly first load := by
  have product := grown.product_le narrow low
  have double : pool.bucketCount * 2 ≤ 2 ^ 40 * 2 :=
    Nat.mul_le_mul_right 2 (Nat.le_trans (Nat.le_mul_of_pos_right _ loaded) product)
  have limit : 2 ^ 40 * 2 < countLimit := by decide
  refine ⟨?_, grown.roomy, ?_, ⟨by omega, ?_⟩, by omega, fun text => ?_⟩
  · obtain ⟨-, rfl, -, doublings, fitted⟩ := grown
    exact ⟨doublings, fitted.isLeast, fitted.width⟩
  · exact Nat.lt_of_le_of_lt grown.few (by decide)
  · rw [saturatingMul, grown.load]
    omega
  · obtain ⟨reply, after, entered, kept, sizes⟩ := grown.enter wide loaded text
    exact ⟨reply, after, entered, sizes, kept.roomy⟩

/-- Whatever bucket count and load are asked for, and whatever is interned, the table has the
configured width doubled as often as the number of entries makes it necessary, and not
once more. -/
theorem tables_grow_exactly (hash : Bytes → UInt64) {base : Sizing} (built : base.Built)
    (count load : Nat) (texts : List Bytes) :
    ∃ first, IsLeast {width : Nat | width.isPowerOfTwo ∧ max 1 (min count (2 ^ 24)) ≤ width} first ∧
      ∃ replies pool,
        runAll enter texts (ofSizing hash ((base.withBucketCount count).withMaxLoad load)) =
          .ok (replies, pool) ∧
        pool.GrownExactly first (max 1 (min load (2 ^ 16))) := by
  have configured : ((base.withBucketCount count).withMaxLoad load).Built :=
    .withMaxLoad (.withBucketCount built count) load
  have least : IsLeast {width : Nat | width.isPowerOfTwo ∧ max 1 (min count (2 ^ 24)) ≤ width}
      (base.withBucketCount count).bucketCount := by
    have clamped : clamp 1 16777216 count = max 1 (min count (2 ^ 24)) := clamp_eq (by decide)
    rw [← clamped]
    exact isLeast_powerOfTwoFrom _
  have bounded : (base.withBucketCount count).bucketCount ≤ 2 ^ 24 :=
    least.2 ⟨⟨24, rfl⟩, by omega⟩
  have loaded : ((base.withBucketCount count).withMaxLoad load).maxLoad = max 1 (min load (2 ^ 16)) :=
    clamp_eq (by decide)
  obtain ⟨replies, pool, ran, grown⟩ :=
    grown_run hash configured.ordinary configured.wide (by rw [loaded]; omega) texts
  rw [loaded] at grown
  exact ⟨_, least, replies, pool, ran,
    grown.exactly configured.wide bounded (by omega) (by omega)⟩

/-- The smallest table and load that can be had, and three texts with one hash: two doublings
lead from one bucket to four. -/
theorem tables_grow_exactly_twice :
    ∃ first, IsLeast {width : Nat | width.isPowerOfTwo ∧ max 1 (min 0 (2 ^ 24)) ≤ width} first ∧
      ∃ replies pool,
        runAll enter [[102], [98], [102], [], [99]]
            (ofSizing (fun _ => 0) ((({} : Sizing).withBucketCount 0).withMaxLoad 0)) =
          .ok (replies, pool) ∧
        pool.GrownExactly first 1 ∧ pool.size = 3 ∧ pool.bucketCount = 4 := by
  have performed : (runAll enter [[102], [98], [102], [], [99]]
      (ofSizing (fun _ => 0) ((({} : Sizing).withBucketCount 0).withMaxLoad 0))).toOption.map
        (fun result => (result.2.size, result.2.bucketCount)) = some (3, 4) := by decide +kernel
  obtain ⟨first, least, replies, pool, ran, exactly⟩ :=
    tables_grow_exactly (fun _ => 0) .default 0 0 [[102], [98], [102], [], [99]]
  rw [ran] at performed
  obtain ⟨size, width⟩ := Prod.mk.inj (Option.some.inj performed)
  exact ⟨first, least, replies, pool, ran, exactly, size, width⟩

end SymbolPool

end CanonIR
