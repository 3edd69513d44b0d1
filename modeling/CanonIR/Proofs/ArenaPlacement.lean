import CanonIR.Proofs.Storage
import CanonIR.Text.TextArena

/-! Text in an arena. A string lies in its pool behind the header that holds its length;
later strings are laid behind it, so it reads the same for as long as the arena lives. -/

namespace CanonIR

/-- What a string takes in a pool. -/
def record (bytes : Bytes) : Bytes := lengthHeader bytes.length ++ bytes

theorem length_lengthHeader (length : Nat) : (lengthHeader length).length = headerSize := rfl

theorem length_record (bytes : Bytes) : (record bytes).length = headerSize + bytes.length := by
  simp [record, length_lengthHeader]

theorem headerLength_lengthHeader {length : Nat} (small : length < positionLimit) :
    headerLength (lengthHeader length) = length := by
  simp only [headerLength, lengthHeader, List.map_cons, List.map_nil, List.foldr_cons,
    List.foldr_nil, Nat.toUInt8, UInt8.toNat_ofNat', positionLimit] at *
  omega

namespace Pool

variable {pool : Pool}

theorem toList_append (pool : Pool) (bytes : Bytes) :
    (pool.append bytes).filled.toList = pool.filled.toList ++ record bytes := by
  simp [append, record]

theorem used_append (pool : Pool) (bytes : Bytes) :
    (pool.append bytes).used = pool.used + (headerSize + bytes.length) := by
  have longer := congrArg List.length (pool.toList_append bytes)
  simpa [used, length_record] using longer

theorem slice_eq {front middle : Bytes} (back : Bytes)
    (filled : pool.filled.toList = front ++ middle ++ back) :
    pool.slice front.length middle.length = .ok middle := by
  have size := congrArg List.length filled
  simp only [Array.length_toList, List.length_append] at size
  have inside : front.length + middle.length ≤ pool.used := by
    simp only [used]
    omega
  rw [slice, if_pos inside]
  simp [filled]

end Pool

namespace TextArena

variable {arena after : TextArena} {stored : Stored} {bytes : Bytes} {need index : Nat}

/-- The string lies in the arena at the given place. -/
structure Holds (arena : TextArena) (stored : Stored) (bytes : Bytes) : Prop where
  real : stored.isEmpty = false
  small : bytes.length < positionLimit
  laid : ∃ pool front back, arena.pools[stored.pool]? = some pool ∧
    front.length = stored.offset ∧ pool.filled.toList = front ++ record bytes ++ back

theorem Holds.read (holds : arena.Holds stored bytes) : arena.read stored = .ok bytes := by
  obtain ⟨real, small, pool, front, back, found, offset, filled⟩ := holds
  have header : pool.slice stored.offset headerSize = .ok (lengthHeader bytes.length) := by
    rw [← offset, ← length_lengthHeader bytes.length]
    apply Pool.slice_eq (bytes ++ back)
    simp [filled, record]
  have body : pool.slice (stored.offset + headerSize) bytes.length = .ok bytes := by
    have start : stored.offset + headerSize = (front ++ lengthHeader bytes.length).length := by
      simp [offset, length_lengthHeader]
    rw [start]
    apply Pool.slice_eq back
    simp [filled, record]
  simp [TextArena.read, real, fetch_eq_ok.mpr found, header, headerLength_lengthHeader small, body]

/-- Every pool is still there, with as much in it or more behind that. -/
def Extends (arena after : TextArena) : Prop :=
  ∀ (index : Nat) (pool : Pool), arena.pools[index]? = some pool →
    ∃ fuller, after.pools[index]? = some fuller ∧ pool.filled.toList <+: fuller.filled.toList

theorem Holds.extends (holds : arena.Holds stored bytes) (extension : arena.Extends after) :
    after.Holds stored bytes := by
  obtain ⟨real, small, pool, front, back, found, offset, filled⟩ := holds
  obtain ⟨fuller, present, more, same⟩ := extension _ pool found
  exact ⟨real, small, fuller, front, back ++ more, present, offset, by simp [← same, filled]⟩

/-- Where a request for `need` bytes is served, and what is done to serve it. -/
inductive Reserves (arena : TextArena) (need : Nat) : Nat → TextArena → Prop where
  /-- A request above the ordinary size gets a pool of its own. -/
  | own (large : arena.poolSize < need) :
      Reserves arena need arena.pools.size
        { arena with pools := arena.pools.push { size := need } }
  /-- The current pool is missing or has too little left. -/
  | opened (fits : need ≤ arena.poolSize)
      (full : ∀ index pool, arena.current = some index → arena.pools[index]? = some pool →
        pool.remaining < need) :
      Reserves arena need arena.pools.size
        { arena with
          pools := arena.pools.push { size := arena.poolSize }
          current := some arena.pools.size }
  | carved {index : Nat} {pool : Pool} (fits : need ≤ arena.poolSize)
      (current : arena.current = some index) (found : arena.pools[index]? = some pool)
      (room : need ≤ pool.remaining) : Reserves arena need index arena

/-- The arena once `bytes` are laid into the pool at `index`. -/
def lay (arena : TextArena) (index : Nat) (bytes : Bytes) : TextArena :=
  { arena with
    pools := arena.pools.modify index (·.append bytes)
    strings := arena.strings + 1
    bytesUsed := arena.bytesUsed + (headerSize + bytes.length) }

/-- The arena can serve every request. The bound on ordinary pools is the largest size
that a sizing can ask for. -/
structure Ready (arena : TextArena) : Prop where
  ordinary : arena.poolSize ≤ 1073741824
  within : ∀ pool ∈ arena.pools, pool.used ≤ pool.size
  current : ∀ index, arena.current = some index →
    ∃ pool, arena.pools[index]? = some pool ∧ pool.size = arena.poolSize
  few : arena.pools.size ≤ arena.strings

theorem ready_ofSizing {sizing : Sizing} (ordinary : sizing.poolSize ≤ 1073741824) :
    (ofSizing sizing).Ready := by
  refine ⟨ordinary, ?_, ?_, Nat.le_refl _⟩
  · simp [ofSizing]
  · intro index current
    cases current

theorem reserve_ok (ready : arena.Ready) (need : Nat) :
    ∃ index after, arena.reserve need = .ok (index, after) ∧ arena.Reserves need index after := by
  by_cases large : arena.poolSize < need
  · exact ⟨_, _, by simp [reserve, large], .own large⟩
  · have fits : need ≤ arena.poolSize := Nat.le_of_not_lt large
    cases current : arena.current with
    | none =>
      refine ⟨_, _, by simp [reserve, large, current, openPool], .opened fits ?_⟩
      simp [current]
    | some index =>
      obtain ⟨pool, found, -⟩ := ready.current index current
      by_cases room : need ≤ pool.remaining
      · exact ⟨index, arena, by simp [reserve, large, current, fetch_eq_ok.mpr found, room],
          .carved fits current found room⟩
      · refine ⟨_, _, by simp [reserve, large, current, fetch_eq_ok.mpr found, room, openPool],
          .opened fits ?_⟩
        intro other pool' same present
        obtain rfl : index = other := by simpa [current] using same
        rw [found] at present
        obtain rfl := Option.some.inj present
        omega

theorem Reserves.room (ready : arena.Ready) (reserves : arena.Reserves need index after) :
    ∃ pool, after.pools[index]? = some pool ∧ pool.used + need ≤ pool.size ∧
      pool.used < positionLimit ∧ index ≤ arena.pools.size := by
  cases reserves with
  | own large =>
    exact ⟨{ size := need }, by simp, by simp [Pool.used], by simp [Pool.used, positionLimit],
      Nat.le_refl _⟩
  | opened fits full =>
    exact ⟨{ size := arena.poolSize }, by simp, by simp [Pool.used, fits],
      by simp [Pool.used, positionLimit], Nat.le_refl _⟩
  | @carved _ pool fits current found room =>
    obtain ⟨same, present, size⟩ := ready.current index current
    rw [found] at present
    obtain rfl := Option.some.inj present
    have ordinary := ready.ordinary
    have used := ready.within pool (Array.mem_of_getElem? found)
    have inside := (Array.getElem?_eq_some_iff.mp found).1
    simp only [Pool.remaining] at room
    refine ⟨pool, found, by omega, ?_, Nat.le_of_lt inside⟩
    simp only [positionLimit]
    omega

theorem Reserves.extends (reserves : arena.Reserves need index after) : arena.Extends after := by
  intro other pool found
  have inside := (Array.getElem?_eq_some_iff.mp found).1
  refine ⟨pool, ?_, List.prefix_rfl⟩
  cases reserves with
  | own => simpa [Array.getElem?_push, Nat.ne_of_lt inside] using found
  | opened => simpa [Array.getElem?_push, Nat.ne_of_lt inside] using found
  | carved => exact found

theorem Reserves.poolSize (reserves : arena.Reserves need index after) :
    after.poolSize = arena.poolSize := by
  cases reserves <;> rfl

theorem Reserves.strings (reserves : arena.Reserves need index after) :
    after.strings = arena.strings := by
  cases reserves <;> rfl

theorem Reserves.pools_le (reserves : arena.Reserves need index after) :
    after.pools.size ≤ arena.pools.size + 1 := by
  cases reserves <;> simp

theorem Reserves.within (ready : arena.Ready) (reserves : arena.Reserves need index after) :
    ∀ pool ∈ after.pools, pool.used ≤ pool.size := by
  intro pool member
  cases reserves with
  | own | opened =>
    obtain old | new := Array.mem_push.mp member
    · exact ready.within pool old
    · simp [new, Pool.used]
  | carved => exact ready.within pool member

theorem Reserves.current (ready : arena.Ready) (reserves : arena.Reserves need index after) :
    ∀ other, after.current = some other →
      ∃ pool, after.pools[other]? = some pool ∧ pool.size = arena.poolSize := by
  intro other current
  cases reserves with
  | own =>
    obtain ⟨pool, found, size⟩ := ready.current other current
    have inside := (Array.getElem?_eq_some_iff.mp found).1
    exact ⟨pool, by simpa [Array.getElem?_push, Nat.ne_of_lt inside] using found, size⟩
  | opened =>
    obtain rfl : arena.pools.size = other := by simpa using current
    exact ⟨{ size := arena.poolSize }, by simp, rfl⟩
  | carved => exact ready.current other current

theorem getElem?_lay (arena : TextArena) (index other : Nat) (bytes : Bytes) :
    (arena.lay index bytes).pools[other]? =
      if index = other then arena.pools[index]?.map (·.append bytes) else arena.pools[other]? := by
  simp only [lay, Array.getElem?_modify]
  split
  next same => rw [same]
  next => rfl

theorem extends_lay (arena : TextArena) (index : Nat) (bytes : Bytes) :
    arena.Extends (arena.lay index bytes) := by
  intro other pool found
  rw [getElem?_lay]
  split
  next same =>
    subst same
    exact ⟨pool.append bytes, by simp [found], by simp [Pool.toList_append]⟩
  next => exact ⟨pool, found, List.prefix_rfl⟩

theorem Extends.refl (arena : TextArena) : arena.Extends arena :=
  fun _ pool found => ⟨pool, found, List.prefix_rfl⟩

theorem Extends.trans {first second third : TextArena} (earlier : first.Extends second)
    (later : second.Extends third) : first.Extends third := by
  intro index pool found
  obtain ⟨middle, present, more⟩ := earlier index pool found
  obtain ⟨last, there, evenMore⟩ := later index middle present
  exact ⟨last, there, more.trans evenMore⟩

theorem Reserves.ready_lay (ready : arena.Ready)
    (reserves : arena.Reserves (headerSize + bytes.length) index after) :
    (after.lay index bytes).Ready := by
  obtain ⟨target, found, room, -, -⟩ := reserves.room ready
  refine ⟨reserves.poolSize ▸ ready.ordinary, ?_, ?_, ?_⟩
  · intro pool member
    obtain ⟨other, present⟩ := Array.mem_iff_getElem?.mp member
    rw [getElem?_lay] at present
    split at present
    next =>
      rw [found] at present
      obtain rfl := Option.some.inj present
      rw [Pool.used_append]
      exact room
    next => exact reserves.within ready pool (Array.mem_of_getElem? present)
  · intro other current
    obtain ⟨pool, present, size⟩ := reserves.current ready other current
    rw [getElem?_lay]
    split
    next same =>
      subst same
      exact ⟨pool.append bytes, by simp [present], size.trans reserves.poolSize.symm⟩
    next => exact ⟨pool, present, size.trans reserves.poolSize.symm⟩
  · have pools := reserves.pools_le
    have strings := reserves.strings
    have few := ready.few
    simp only [lay, Array.size_modify]
    omega

/-- A string lies in the part of its pool that is used. -/
theorem Holds.offset_lt (holds : arena.Holds stored bytes) {pool : Pool}
    (found : arena.pools[stored.pool]? = some pool) : stored.offset < pool.used := by
  obtain ⟨-, -, same, front, back, present, offset, filled⟩ := holds
  rw [found] at present
  obtain rfl := Option.some.inj present
  have size := congrArg List.length filled
  simp only [Array.length_toList, List.length_append, length_record, headerSize] at size
  simp only [Pool.used]
  omega

/-- A string goes where room is reserved for it, if the number of that pool can be given. -/
theorem store_reserved {pool : Pool} (full : bytes ≠ []) (small : bytes.length < positionLimit)
    (reserved : arena.reserve (headerSize + bytes.length) = .ok (index, after))
    (found : after.pools[index]? = some pool) (low : pool.used < positionLimit) :
    arena.store bytes = (do
      let place ← position "arena pools" index
      return .ok (⟨place, pool.used⟩, after.lay index bytes)) := by
  have offset : position "arena pool offset" pool.used = .ok pool.used := position_eq_ok.mpr ⟨rfl, low⟩
  have short : ¬ positionLimit ≤ bytes.length := Nat.not_le_of_lt small
  simp [store, full, short, reserved, fetch_eq_ok.mpr found, offset, lay]

/-- Storing a string puts it where it can be read and where no other string is, and leaves
all others where they are. -/
theorem store_ok (ready : arena.Ready) (full : bytes ≠ []) (small : bytes.length < positionLimit)
    (few : arena.pools.size < positionLimit - 1) :
    ∃ stored after, arena.store bytes = .ok (.ok (stored, after)) ∧ after.Ready ∧
      after.Holds stored bytes ∧ arena.Extends after ∧ after.strings = arena.strings + 1 ∧
      ∀ other text, arena.Holds other text → other ≠ stored := by
  obtain ⟨index, after, reserved, reserves⟩ := reserve_ok ready (headerSize + bytes.length)
  obtain ⟨pool, found, room, low, early⟩ := reserves.room ready
  have bound : index < positionLimit - 1 := Nat.lt_of_le_of_lt early few
  refine ⟨⟨index, pool.used⟩, after.lay index bytes, ?_, reserves.ready_lay ready, ?_,
    reserves.extends.trans (extends_lay _ _ _), ?_, ?_⟩
  · have numbered : position "arena pools" index = .ok index := position_eq_ok.mpr ⟨rfl, by omega⟩
    rw [store_reserved full small reserved found low, numbered]
    rfl
  · refine ⟨?_, small, pool.append bytes, pool.filled.toList, [], ?_, rfl, ?_⟩
    · simp only [Stored.isEmpty, beq_eq_false_iff_ne]
      omega
    · rw [getElem?_lay, if_pos rfl, found]
      rfl
    · simp [Pool.toList_append]
  · simp [lay, reserves.strings]
  · intro other text holds same
    subst same
    exact Nat.lt_irrefl _ ((holds.extends reserves.extends).offset_lt found)

end TextArena

end CanonIR
