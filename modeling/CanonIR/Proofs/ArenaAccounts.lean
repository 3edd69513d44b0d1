import CanonIR.Proofs.ArenaRuns
import Mathlib.Algebra.GroupWithZero.Nat
import Mathlib.Algebra.Order.BigOperators.Group.List
import Mathlib.Algebra.Order.Group.Nat

/-! Accounts of an arena. The strings of a pool lie end to end from its first byte up to the
mark that tells how much of it is used, and the counters tell what the calls have stored.
A string of more than ordinary size fills a pool of its own, whatever else is stored in
between. Only a pool that can have no number ends a run. -/

namespace CanonIR

/-- A string and its place. -/
abbrev Laid := Bytes × Stored

namespace Laid

/-- The bytes that a string takes, its header included. -/
def extent (string : Laid) : Nat := headerSize + string.1.length

/-- The strings follow each other without a gap from `start` to `stop`. -/
def Tiles : Nat → List Laid → Nat → Prop
  | start, [], stop => start = stop
  | start, string :: rest, stop => string.2.offset = start ∧ Tiles (start + string.extent) rest stop

variable {start stop : Nat} {strings : List Laid} {string : Laid}

theorem Tiles.concat (tiles : Tiles start strings stop) (next : string.2.offset = stop) :
    Tiles start (strings ++ [string]) (stop + string.extent) := by
  induction strings generalizing start with
  | nil =>
    obtain rfl : start = stop := tiles
    exact ⟨next, rfl⟩
  | cons first rest ih => exact ⟨tiles.1, ih tiles.2⟩

theorem Tiles.start_le (tiles : Tiles start strings stop) : ∀ string ∈ strings, start ≤ string.2.offset := by
  induction strings generalizing start with
  | nil => simp
  | cons first rest ih =>
    intro string member
    rcases List.mem_cons.mp member with rfl | later
    · exact Nat.le_of_eq tiles.1.symm
    · exact Nat.le_trans (Nat.le_add_right _ _) (ih tiles.2 string later)

/-- No string begins before those in front of it have ended. -/
theorem Tiles.disjoint (tiles : Tiles start strings stop) :
    strings.Pairwise fun first second => first.2.offset + first.extent ≤ second.2.offset := by
  induction strings generalizing start with
  | nil => exact .nil
  | cons first rest ih =>
    obtain ⟨offset, tiles⟩ := tiles
    refine List.pairwise_cons.mpr ⟨fun second member => ?_, ih tiles⟩
    rw [offset]
    exact tiles.start_le second member

/-- The strings that lie in one pool, in the order they came. -/
def inPool (strings : List Laid) (index : Nat) : List Laid :=
  strings.filter fun string => string.2.pool = index

theorem inPool_concat (strings : List Laid) (string : Laid) (index : Nat) :
    inPool (strings ++ [string]) index =
      inPool strings index ++ if string.2.pool = index then [string] else [] := by
  simp [inPool, List.filter_cons]

end Laid

namespace Pool

theorem sum_used_modify {pools : List Pool} {index : Nat} {pool : Pool}
    (found : pools[index]? = some pool) (bytes : Bytes) :
    ((pools.modify index (·.append bytes)).map used).sum =
      (pools.map used).sum + (headerSize + bytes.length) := by
  induction pools generalizing index with
  | nil => simp at found
  | cons first rest ih =>
    cases index with
    | zero =>
      simp only [List.modify_zero_cons, List.map_cons, List.sum_cons, used_append]
      omega
    | succ index =>
      simp only [List.modify_succ_cons, List.map_cons, List.sum_cons, ih found]
      omega

end Pool

namespace TextArena

variable {arena middle : TextArena} {texts : List Bytes} {text : Bytes} {index other : Nat}
  {strings : List Laid} {replies : List (Except ArenaError Stored)} {pool : Pool}

/-! ### One call -/

/-- What can become of a call. -/
inductive Outcome (arena : TextArena) (text : Bytes) :
    Checked (Except ArenaError Stored × TextArena) → Prop where
  | empty (nothing : text = []) : Outcome arena text (.ok (.ok .empty, arena))
  | refused (long : positionLimit ≤ text.length) :
      Outcome arena text (.ok (.error (.oversized text.length), arena))
  | laid {index : Nat} {middle : TextArena} {pool : Pool} (full : text ≠ [])
      (small : text.length < positionLimit)
      (reserves : arena.Reserves (headerSize + text.length) index middle)
      (found : middle.pools[index]? = some pool) (numbered : index < positionLimit) :
      Outcome arena text (.ok (.ok ⟨index, pool.used⟩, middle.lay index text))
  /-- All pool numbers are taken. -/
  | exhausted (all : arena.pools.size = positionLimit) :
      Outcome arena text (.error (.capacity "arena pools" positionLimit))

theorem keep_outcome (ready : arena.Ready) (numbered : arena.pools.size ≤ positionLimit) (text : Bytes) :
    arena.Outcome text (keep text arena) := by
  by_cases empty : text = []
  · subst empty
    exact .empty rfl
  by_cases long : positionLimit ≤ text.length
  · have same : keep text arena = .ok (.error (.oversized text.length), arena) := by
      simp [keep, store, empty, long]
    exact same ▸ .refused long
  have small : text.length < positionLimit := Nat.lt_of_not_le long
  obtain ⟨index, middle, reserved, reserves⟩ := reserve_ok ready (headerSize + text.length)
  obtain ⟨pool, found, -, low, early⟩ := reserves.room ready
  have stores := store_reserved empty small reserved found low
  by_cases given : index < positionLimit
  · have same : keep text arena = .ok (.ok ⟨index, pool.used⟩, middle.lay index text) := by
      simp [keep, stores, position, given]
    exact same ▸ .laid empty small reserves found given
  · obtain rfl : index = positionLimit := by omega
    have same : keep text arena = .error (.capacity "arena pools" positionLimit) := by
      simp [keep, stores, position]
    exact same ▸ .exhausted (Nat.le_antisymm numbered early)

/-- Room is made in a new pool, which is empty, or is left in a pool of ordinary size. -/
theorem Reserves.cases (ready : arena.Ready) {need : Nat} (reserves : arena.Reserves need index middle)
    (found : middle.pools[index]? = some pool) :
    (index = arena.pools.size ∧ pool.used = 0 ∧ middle.pools = arena.pools.push pool ∧
      (pool.size = arena.poolSize ∨ arena.poolSize < need ∧ pool.size = need)) ∨
    (arena.pools[index]? = some pool ∧ pool.size = arena.poolSize ∧ middle.pools = arena.pools) := by
  cases reserves with
  | own large =>
    obtain rfl : { size := need } = pool := by simpa using found
    exact .inl ⟨rfl, rfl, rfl, .inr ⟨large, rfl⟩⟩
  | opened =>
    obtain rfl : { size := arena.poolSize } = pool := by simpa using found
    exact .inl ⟨rfl, rfl, rfl, .inl rfl⟩
  | carved _ current _ _ =>
    obtain ⟨same, present, size⟩ := ready.current index current
    cases present.symm.trans found
    exact .inr ⟨found, size, rfl⟩

/-! ### What the arena accounts for -/

/-- The arena holds exactly the strings that are listed. -/
structure Accounts (arena : TextArena) (strings : List Laid) : Prop where
  ready : arena.Ready
  numbered : arena.pools.size ≤ positionLimit
  placed : ∀ string ∈ strings, string.2.pool < arena.pools.size
  tiled : ∀ index pool, arena.pools[index]? = some pool →
    Laid.Tiles 0 (Laid.inPool strings index) pool.used
  sized : ∀ index pool, arena.pools[index]? = some pool → pool.size = arena.poolSize ∨
    arena.poolSize < pool.size ∧ pool.used = pool.size ∧ ∃ string, Laid.inPool strings index = [string]
  counted : arena.strings = strings.length
  summed : arena.bytesUsed = (strings.map Laid.extent).sum
  filled : arena.bytesUsed = (arena.pools.toList.map Pool.used).sum

theorem accounts_ofSizing {sizing : Sizing} (built : sizing.Built) : (ofSizing sizing).Accounts [] where
  ready := ready_ofSizing built.ordinary
  numbered := Nat.zero_le _
  placed := by simp
  tiled index pool found := by simp [ofSizing] at found
  sized index pool found := by simp [ofSizing] at found
  counted := rfl
  summed := rfl
  filled := rfl

theorem Accounts.inPool_beyond (accounts : arena.Accounts strings) (beyond : arena.pools.size ≤ index) :
    Laid.inPool strings index = [] := by
  rw [Laid.inPool, List.filter_eq_nil_iff]
  intro string member
  have inside := accounts.placed string member
  simp only [decide_eq_true_eq]
  omega

/-- A pool of the arena once a string is laid out: the one that serves it, or one that is as
it was. -/
theorem Reserves.lay_cases (ready : arena.Ready) {need : Nat} (reserves : arena.Reserves need index middle)
    (found : middle.pools[index]? = some pool) {now : Pool}
    (present : (middle.lay index text).pools[other]? = some now) :
    other = index ∧ now = pool.append text ∨ other ≠ index ∧ arena.pools[other]? = some now := by
  rw [getElem?_lay] at present
  split at present
  next same =>
    subst same
    rw [found] at present
    exact .inl ⟨rfl, (Option.some.inj present).symm⟩
  next different =>
    refine .inr ⟨Ne.symm different, ?_⟩
    rcases reserves.cases ready found with ⟨rfl, -, pushed, -⟩ | ⟨-, -, same⟩
    · rwa [pushed, Array.getElem?_push, if_neg (Ne.symm different)] at present
    · rwa [same] at present

/-- What the pool that serves a request has held so far. -/
theorem Accounts.tiled_reserved (accounts : arena.Accounts strings) {need : Nat}
    (reserves : arena.Reserves need index middle) (found : middle.pools[index]? = some pool) :
    Laid.Tiles 0 (Laid.inPool strings index) pool.used := by
  rcases reserves.cases accounts.ready found with ⟨rfl, unused, -⟩ | ⟨present, -⟩
  · rw [accounts.inPool_beyond (Nat.le_refl _), unused]
    rfl
  · exact accounts.tiled index pool present

theorem Accounts.used_reserved (accounts : arena.Accounts strings) {need : Nat}
    (reserves : arena.Reserves need index middle) (found : middle.pools[index]? = some pool) :
    (middle.pools.toList.map Pool.used).sum = arena.bytesUsed := by
  rw [accounts.filled]
  rcases reserves.cases accounts.ready found with ⟨-, unused, pushed, -⟩ | ⟨-, -, same⟩
  · simp [pushed, unused]
  · rw [same]

theorem Reserves.bytesUsed {need : Nat} (reserves : arena.Reserves need index middle) :
    middle.bytesUsed = arena.bytesUsed := by
  cases reserves <;> rfl

theorem Accounts.tiled_lay (accounts : arena.Accounts strings)
    (reserves : arena.Reserves (headerSize + text.length) index middle)
    (found : middle.pools[index]? = some pool) {now : Pool}
    (present : (middle.lay index text).pools[other]? = some now) :
    Laid.Tiles 0 (Laid.inPool (strings ++ [(text, ⟨index, pool.used⟩)]) other) now.used := by
  rw [Laid.inPool_concat]
  rcases reserves.lay_cases accounts.ready found present with ⟨rfl, rfl⟩ | ⟨different, present⟩
  · rw [if_pos rfl, Pool.used_append]
    exact (accounts.tiled_reserved reserves found).concat rfl
  · rw [if_neg (Ne.symm different), List.append_nil]
    exact accounts.tiled other now present

theorem Accounts.sized_lay (accounts : arena.Accounts strings)
    (reserves : arena.Reserves (headerSize + text.length) index middle)
    (found : middle.pools[index]? = some pool) {now : Pool}
    (present : (middle.lay index text).pools[other]? = some now) :
    now.size = arena.poolSize ∨ arena.poolSize < now.size ∧ now.used = now.size ∧
      ∃ string, Laid.inPool (strings ++ [(text, ⟨index, pool.used⟩)]) other = [string] := by
  rw [Laid.inPool_concat]
  rcases reserves.lay_cases accounts.ready found present with ⟨rfl, rfl⟩ | ⟨different, present⟩
  · rw [if_pos rfl, Pool.used_append]
    rcases reserves.cases accounts.ready found with
      ⟨rfl, unused, -, ordinary | ⟨large, own⟩⟩ | ⟨-, ordinary, -⟩
    · exact .inl ordinary
    · -- A pool of its own is filled by the string that it was made for.
      refine .inr ⟨Nat.lt_of_lt_of_eq large own.symm, ?_, (text, ⟨arena.pools.size, pool.used⟩), ?_⟩
      · rw [unused, Nat.zero_add]
        exact own.symm
      · rw [accounts.inPool_beyond (Nat.le_refl _)]
        rfl
    · exact .inl ordinary
  · rw [if_neg (Ne.symm different), List.append_nil]
    exact accounts.sized other now present

/-- Laying a string into the pool that serves it keeps the accounts. -/
theorem Accounts.lay (accounts : arena.Accounts strings)
    (reserves : arena.Reserves (headerSize + text.length) index middle)
    (found : middle.pools[index]? = some pool) (numbered : index < positionLimit) :
    (middle.lay index text).Accounts (strings ++ [(text, ⟨index, pool.used⟩)]) := by
  have size : (middle.lay index text).pools.size = middle.pools.size := Array.size_modify
  have inside := (Array.getElem?_eq_some_iff.mp found).1
  obtain ⟨kept, bound⟩ : arena.pools.size ≤ middle.pools.size ∧ middle.pools.size ≤ positionLimit := by
    rcases reserves.cases accounts.ready found with ⟨rfl, -, pushed, -⟩ | ⟨-, -, same⟩
    · rw [pushed, Array.size_push]
      exact ⟨Nat.le_succ _, numbered⟩
    · rw [same]
      exact ⟨Nat.le_refl _, accounts.numbered⟩
  refine ⟨reserves.ready_lay accounts.ready, size ▸ bound, ?_,
    fun _ _ => accounts.tiled_lay reserves found, fun _ _ present => ?_, ?_, ?_, ?_⟩
  · intro string member
    rw [size]
    rcases List.mem_append.mp member with old | new
    · exact Nat.lt_of_lt_of_le (accounts.placed string old) kept
    · obtain rfl := List.mem_singleton.mp new
      exact inside
  · exact reserves.poolSize ▸ accounts.sized_lay reserves found present
  · simp [TextArena.lay, reserves.strings, accounts.counted]
  · simp [TextArena.lay, reserves.bytesUsed, accounts.summed, Laid.extent]
  · have present : middle.pools.toList[index]? = some pool := by simpa using found
    simp [TextArena.lay, reserves.bytesUsed, Pool.sum_used_modify present,
      accounts.used_reserved reserves found]

/-! ### Runs -/

/-- The strings that a run has laid out, with the places that it gave for them. -/
def laidOut (texts : List Bytes) (replies : List (Except ArenaError Stored)) : List Laid :=
  (texts.zip replies).filterMap fun
    | (text, .ok place) => if text = [] then none else some (text, place)
    | (_, .error _) => none

/-- The texts that take room: those that are not empty and not too long for a header. -/
def taking (texts : List Bytes) : List Bytes :=
  texts.filter fun text => text ≠ [] ∧ text.length < positionLimit

theorem laidOut_concat (lengths : replies.length = texts.length) (text : Bytes)
    (reply : Except ArenaError Stored) :
    laidOut (texts ++ [text]) (replies ++ [reply]) = laidOut texts replies ++ laidOut [text] [reply] := by
  rw [laidOut, List.zip_append lengths.symm, List.filterMap_append]
  rfl

theorem Accounts.keep (accounts : arena.Accounts strings) (text : Bytes) :
    (∃ reply after, keep text arena = .ok (reply, after) ∧ after.poolSize = arena.poolSize ∧
      after.Accounts (strings ++ laidOut [text] [reply]) ∧
      (laidOut [text] [reply]).map Prod.fst = taking [text]) ∨
    arena.pools.size = positionLimit ∧
      keep text arena = .error (.capacity "arena pools" positionLimit) := by
  have outcome := keep_outcome accounts.ready accounts.numbered text
  generalize result : TextArena.keep text arena = response at outcome
  cases outcome with
  | empty nothing =>
    refine .inl ⟨_, _, rfl, rfl, ?_, ?_⟩
    · simpa [laidOut, nothing] using accounts
    · simp [laidOut, taking, nothing]
  | refused long =>
    refine .inl ⟨_, _, rfl, rfl, ?_, ?_⟩
    · simpa [laidOut] using accounts
    · simp [laidOut, taking, long]
  | laid full small reserves found numbered =>
    refine .inl ⟨_, _, rfl, reserves.poolSize, ?_, ?_⟩
    · simpa [laidOut, full] using accounts.lay reserves found numbered
    · simp [laidOut, taking, full, small]
  | exhausted all => exact .inr ⟨all, rfl⟩

/-- A run keeps the accounts up to its end, or up to the call for which there is no pool
number left. -/
theorem accounts_run {sizing : Sizing} (built : sizing.Built) (texts : List Bytes) :
    ∃ count ≤ texts.length, ∃ replies arena,
      runAll TextArena.keep (texts.take count) (ofSizing sizing) = .ok (replies, arena) ∧
      arena.poolSize = sizing.poolSize ∧ arena.Accounts (laidOut (texts.take count) replies) ∧
      (laidOut (texts.take count) replies).map Prod.fst = taking (texts.take count) ∧
      (count < texts.length → arena.pools.size = positionLimit ∧
        runAll TextArena.keep texts (ofSizing sizing) =
          .error (.capacity "arena pools" positionLimit)) := by
  induction texts using List.reverseRecOn with
  | nil => exact ⟨0, Nat.le_refl _, [], ofSizing sizing, rfl, rfl, accounts_ofSizing built, rfl, by simp⟩
  | append_singleton texts text ih =>
    obtain ⟨count, bound, replies, arena, ran, size, accounts, taken, ended⟩ := ih
    have early : (texts ++ [text]).take count = texts.take count := List.take_append_of_le_length bound
    by_cases short : count < texts.length
    · obtain ⟨all, failed⟩ := ended short
      refine ⟨count, by simp; omega, replies, arena, ?_⟩
      rw [early]
      exact ⟨ran, size, accounts, taken, fun _ => ⟨all, by rw [runAll_snoc, failed]; rfl⟩⟩
    · obtain rfl : count = texts.length := by omega
      rw [List.take_length] at ran accounts taken
      rcases accounts.keep text with ⟨reply, after, kept, same, accounts, held⟩ | ⟨all, failed⟩
      · refine ⟨(texts ++ [text]).length, Nat.le_refl _, replies ++ [reply], after, ?_⟩
        rw [List.take_length, laidOut_concat (length_runAll ran)]
        refine ⟨runAll_concat ran kept, same.trans size, accounts, ?_, fun less => ?_⟩
        · rw [List.map_append, taken, held, taking, taking, taking, List.filter_append]
        · exact absurd less (Nat.lt_irrefl _)
      · refine ⟨texts.length, by simp, replies, arena, ?_⟩
        rw [List.take_left' rfl]
        exact ⟨ran, size, accounts, taken, fun _ => ⟨all, by rw [runAll_snoc, ran]; simp [failed]⟩⟩

/-- The first `count` calls of a run are carried out: all of them, or those before the one for
which there is no pool number left. -/
structure CarriesOut (sizing : Sizing) (texts : List Bytes) (count : Nat)
    (replies : List (Except ArenaError Stored)) (arena : TextArena) : Prop where
  within : count ≤ texts.length
  ran : runAll TextArena.keep (texts.take count) (ofSizing sizing) = .ok (replies, arena)
  stopped : count < texts.length → arena.pools.size = positionLimit ∧
    runAll TextArena.keep texts (ofSizing sizing) = .error (.capacity "arena pools" positionLimit)

/-- What is carried out of a run that goes through is all of it. -/
theorem CarriesOut.whole {sizing : Sizing} {count : Nat} {answers : List (Except ArenaError Stored)}
    {last : TextArena} (carries : CarriesOut sizing texts count replies arena)
    (ran : runAll TextArena.keep texts (ofSizing sizing) = .ok (answers, last)) :
    texts.take count = texts ∧ replies = answers ∧ arena = last := by
  by_cases short : count < texts.length
  · rw [(carries.stopped short).2] at ran
    cases ran
  · have whole : texts.take count = texts := List.take_of_length_le (Nat.le_of_not_lt short)
    have same := carries.ran
    rw [whole, ran] at same
    cases same
    exact ⟨whole, rfl, rfl⟩

theorem exists_carriesOut {sizing : Sizing} (built : sizing.Built) (texts : List Bytes) :
    ∃ count replies arena, CarriesOut sizing texts count replies arena := by
  obtain ⟨count, bound, replies, arena, ran, -, -, -, ended⟩ := accounts_run built texts
  exact ⟨count, replies, arena, bound, ran, ended⟩

/-- A run that goes through keeps the accounts to its end. -/
theorem accounts_of_run {sizing : Sizing} (built : sizing.Built)
    (ran : runAll TextArena.keep texts (ofSizing sizing) = .ok (replies, arena)) :
    arena.poolSize = sizing.poolSize ∧ arena.Accounts (laidOut texts replies) ∧
      (laidOut texts replies).map Prod.fst = taking texts := by
  obtain ⟨count, bound, said, last, began, size, accounts, taken, ended⟩ := accounts_run built texts
  have carries : CarriesOut sizing texts count said last := ⟨bound, began, ended⟩
  obtain ⟨whole, rfl, rfl⟩ := carries.whole ran
  rw [whole] at accounts taken
  exact ⟨size, accounts, taken⟩

theorem bytesReserved_eq (arena : TextArena) :
    arena.usage.bytesReserved = (arena.pools.toList.map Pool.size).sum := by
  rw [usage, ← Array.foldl_toList, List.sum_eq_foldl, List.foldl_map]

/-- The arena and its counters after the calls for `texts` that had these replies. -/
structure Balanced (arena : TextArena) (poolSize : Nat) (texts : List Bytes)
    (replies : List (Except ArenaError Stored)) : Prop where
  stored : (laidOut texts replies).map Prod.fst = taking texts
  placed : ∀ string ∈ laidOut texts replies, string.2.pool < arena.pools.size
  /-- From the first byte of a pool to its mark. -/
  contiguous : ∀ index pool, arena.pools[index]? = some pool →
    Laid.Tiles 0 (Laid.inPool (laidOut texts replies) index) pool.used
  disjoint : ∀ index, (Laid.inPool (laidOut texts replies) index).Pairwise fun first second =>
    first.2.offset + first.extent ≤ second.2.offset
  within : ∀ pool ∈ arena.pools, pool.used ≤ pool.size
  sized : ∀ index pool, arena.pools[index]? = some pool → pool.size = poolSize ∨
    poolSize < pool.size ∧ pool.used = pool.size ∧
      ∃ string, Laid.inPool (laidOut texts replies) index = [string]
  strings : arena.usage.strings = (taking texts).length
  bytesUsed : arena.usage.bytesUsed = ((taking texts).map fun text => headerSize + text.length).sum
  used : arena.usage.bytesUsed = (arena.pools.toList.map Pool.used).sum
  bytesReserved : arena.usage.bytesReserved = (arena.pools.toList.map Pool.size).sum
  covered : arena.usage.bytesUsed ≤ arena.usage.bytesReserved

theorem Accounts.disjoint (accounts : arena.Accounts strings) (index : Nat) :
    (Laid.inPool strings index).Pairwise fun first second =>
      first.2.offset + first.extent ≤ second.2.offset := by
  by_cases inside : index < arena.pools.size
  · exact (accounts.tiled index _ (Array.getElem?_eq_getElem inside)).disjoint
  · rw [accounts.inPool_beyond (Nat.le_of_not_lt inside)]
    exact .nil

theorem Accounts.balanced (accounts : arena.Accounts (laidOut texts replies))
    (stored : (laidOut texts replies).map Prod.fst = taking texts) :
    arena.Balanced arena.poolSize texts replies where
  stored := stored
  placed := accounts.placed
  contiguous := accounts.tiled
  disjoint := accounts.disjoint
  within := accounts.ready.within
  sized := accounts.sized
  strings := by
    rw [← stored, List.length_map]
    exact accounts.counted
  bytesUsed := by
    rw [← stored, List.map_map]
    exact accounts.summed
  used := accounts.filled
  bytesReserved := bytesReserved_eq arena
  covered := by
    rw [bytesReserved_eq]
    change arena.bytesUsed ≤ _
    rw [accounts.filled]
    exact List.sum_le_sum fun pool member => accounts.ready.within pool (by simpa using member)

/-- However the sizes of the strings follow each other, the strings of a pool tile it up to
its mark, and the counters agree with the calls and with the pools. A run is cut short only
if all pool numbers are taken. -/
theorem pools_account_for_strings {sizing : Sizing} (built : sizing.Built) (texts : List Bytes) :
    (∃ replies arena, runAll keep texts (ofSizing sizing) = .ok (replies, arena) ∧
      arena.Balanced sizing.poolSize texts replies) ∨
    ∃ count < texts.length, ∃ replies arena,
      runAll keep (texts.take count) (ofSizing sizing) = .ok (replies, arena) ∧
      arena.Balanced sizing.poolSize (texts.take count) replies ∧
      arena.pools.size = positionLimit ∧
      runAll keep texts (ofSizing sizing) = .error (.capacity "arena pools" positionLimit) := by
  obtain ⟨count, bound, replies, arena, ran, size, accounts, stored, ended⟩ := accounts_run built texts
  have balanced := size ▸ accounts.balanced stored
  by_cases short : count < texts.length
  · exact .inr ⟨count, short, replies, arena, ran, balanced, ended short⟩
  · rw [List.take_of_length_le (Nat.le_of_not_lt short)] at ran balanced
    exact .inl ⟨replies, arena, ran, balanced⟩

/-- Pools of 64 bytes. The first string fills one to the last byte, the third is one byte too
long for any and has its own, and the last goes on where the second ended. -/
theorem pools_account_for_strings_exact_fit :
    let texts : List Bytes := [List.replicate 60 7, [1], List.replicate 61 9, [], [2, 3]]
    ∃ replies arena, runAll keep texts (ofSizing (({} : Sizing).withPoolSize 0)) = .ok (replies, arena) ∧
      arena.Balanced 64 texts replies ∧
      arena.usage = { pools := 3, strings := 4, bytesUsed := 140, bytesReserved := 193 } := by
  intro texts
  have performed : (runAll keep texts (ofSizing (({} : Sizing).withPoolSize 0))).toOption.map
      (·.2.usage) = some { pools := 3, strings := 4, bytesUsed := 140, bytesReserved := 193 } := by
    decide +kernel
  rcases pools_account_for_strings (.withPoolSize .default 0) texts with
    ⟨replies, arena, ran, balanced⟩ | ⟨_, _, _, _, _, _, _, failed⟩
  · rw [ran] at performed
    exact ⟨replies, arena, ran, balanced, Option.some.inj performed⟩
  · rw [failed] at performed
    cases performed

end TextArena

end CanonIR
