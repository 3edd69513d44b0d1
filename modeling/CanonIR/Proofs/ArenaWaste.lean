import CanonIR.Proofs.ArenaAccounts
import Mathlib.Data.List.Chain

/-! What an arena wastes. A pool of ordinary size is opened only for a string that the one before
it has no room for, so the two together hold more than one pool can; and a string above the
ordinary size fills the pool that it is given. -/

namespace CanonIR

namespace Pool

variable {size : Nat} {pools : List Pool} {pool : Pool}

/-- Each pool and the next together hold more than one pool can. -/
def Dense (size : Nat) (pools : List Pool) : Prop :=
  pools.IsChain fun first second => size < first.used + second.used

theorem Dense.length_le (dense : Dense size (pool :: pools)) :
    pools.length * size ≤ 2 * (pools.map used).sum + pool.used := by
  induction pools generalizing pool with
  | nil => simp
  | cons next rest ih =>
    obtain ⟨pair, dense⟩ := List.isChain_cons_cons.mp dense
    have bound := ih dense
    simp only [List.length_cons, Nat.succ_mul, List.map_cons, List.sum_cons]
    omega

theorem Dense.reserved_le (dense : Dense size pools) :
    pools.length * size ≤ 2 * (pools.map used).sum + size := by
  cases pools with
  | nil => simp
  | cons pool rest =>
    have bound := dense.length_le
    simp only [List.length_cons, Nat.succ_mul, List.map_cons, List.sum_cons]
    omega

/-- Pools of another size than the ordinary one waste nothing if they are full. -/
theorem exists_extra (filled : ∀ pool ∈ pools, pool.size = size ∨ pool.used = pool.size) :
    ∃ extra, (pools.map Pool.size).sum = (pools.filter (·.size = size)).length * size + extra ∧
      (pools.map used).sum = ((pools.filter (·.size = size)).map used).sum + extra := by
  induction pools with
  | nil => exact ⟨0, by simp, rfl⟩
  | cons pool rest ih =>
    obtain ⟨full, filled⟩ := List.forall_mem_cons.mp filled
    obtain ⟨extra, reserved, marks⟩ := ih filled
    by_cases ordinary : pool.size = size
    · refine ⟨extra, ?_, ?_⟩
      · simp [ordinary, reserved, Nat.succ_mul]
        omega
      · simp [ordinary, marks]
        omega
    · have own := full.resolve_left ordinary
      refine ⟨pool.used + extra, ?_, ?_⟩
      · simp [ordinary, reserved, own]
        omega
      · simp [ordinary, marks]
        omega

theorem Dense.concat (dense : Dense size pools)
    (together : ∀ last, pools.getLast? = some last → size < last.used + pool.used) :
    Dense size (pools ++ [pool]) := by
  refine List.isChain_append.mpr ⟨dense, List.isChain_singleton _, ?_⟩
  intro last ends first begins
  cases begins
  exact together last ends

/-- The last pool may be filled further. -/
theorem Dense.refill {fuller : Pool} (dense : Dense size (pools ++ [pool])) (more : pool.used ≤ fuller.used) :
    Dense size (pools ++ [fuller]) := by
  obtain ⟨front, -, last⟩ := List.isChain_append.mp dense
  apply Dense.concat front
  intro before ends
  have pair := last before ends pool rfl
  omega

end Pool

namespace TextArena

variable {arena middle after : TextArena} {index : Nat} {text : Bytes} {pool : Pool}

/-- The pools of ordinary size, in the order they were opened. -/
def ordinaryPools (arena : TextArena) : List Pool :=
  arena.pools.toList.filter fun pool => pool.size = arena.poolSize

theorem toList_lay {front back : List Pool} (pools : arena.pools.toList = front ++ pool :: back)
    (text : Bytes) : (arena.lay front.length text).pools.toList = front ++ pool.append text :: back := by
  simp [lay, pools, List.modify_eq_take_cons_drop]

theorem toList_lay_pushed (pushed : middle.pools = arena.pools.push pool) (text : Bytes) :
    (middle.lay arena.pools.size text).pools.toList = arena.pools.toList ++ [pool.append text] := by
  have listed : middle.pools.toList = arena.pools.toList ++ [pool] := by rw [pushed, Array.toList_push]
  rw [← Array.length_toList]
  exact toList_lay listed text

/-- The pools before and behind the current one, if that is the last of ordinary size. -/
structure EndsAt (arena : TextArena) (front : List Pool) (pool : Pool) (back : List Pool) : Prop where
  pools : arena.pools.toList = front ++ pool :: back
  ordinary : pool.size = arena.poolSize
  last : ∀ other ∈ back, other.size ≠ arena.poolSize

theorem EndsAt.ordinaryPools {front back : List Pool} (ends : arena.EndsAt front pool back) :
    arena.ordinaryPools = (front.filter fun pool => pool.size = arena.poolSize) ++ [pool] := by
  have others : (back.filter fun pool => pool.size = arena.poolSize) = [] := by
    simpa [List.filter_eq_nil_iff] using ends.last
  rw [TextArena.ordinaryPools, ends.pools, List.filter_append, List.filter_cons_of_pos (by simp [ends.ordinary]),
    others]

theorem EndsAt.found {front back : List Pool} (ends : arena.EndsAt front pool back) :
    arena.pools[front.length]? = some pool := by
  rw [← Array.getElem?_toList, ends.pools]
  simp

/-- The current pool is the last one of ordinary size, and each of these was opened because the one
before it had too little left. -/
structure Packed (arena : TextArena) : Prop where
  dense : Pool.Dense arena.poolSize arena.ordinaryPools
  unopened : arena.current = none → arena.ordinaryPools = []
  current : ∀ index, arena.current = some index →
    ∃ front pool back, arena.EndsAt front pool back ∧ front.length = index

theorem packed_ofSizing (sizing : Sizing) : (ofSizing sizing).Packed where
  dense := .nil
  unopened _ := rfl
  current _ current := by cases current

theorem Packed.getLast (packed : arena.Packed) (last : arena.ordinaryPools.getLast? = some pool) :
    ∃ index, arena.current = some index ∧ arena.pools[index]? = some pool := by
  cases current : arena.current with
  | none =>
    rw [packed.unopened current] at last
    cases last
  | some index =>
    obtain ⟨front, final, back, ends, rfl⟩ := packed.current index current
    rw [ends.ordinaryPools, List.getLast?_concat] at last
    cases last
    exact ⟨_, rfl, ends.found⟩

theorem Packed.beside (packed : arena.Packed) (pools : after.pools.toList = arena.pools.toList ++ [pool])
    (size : after.poolSize = arena.poolSize) (same : after.current = arena.current)
    (other : pool.size ≠ arena.poolSize) : after.Packed := by
  have ordinary : after.ordinaryPools = arena.ordinaryPools := by
    simp [ordinaryPools, pools, size, other]
  refine ⟨?_, ?_, ?_⟩
  · rw [ordinary, size]
    exact packed.dense
  · rw [ordinary, same]
    exact packed.unopened
  · intro index current
    obtain ⟨front, last, back, ends, length⟩ := packed.current index (same ▸ current)
    refine ⟨front, last, back ++ [pool], ⟨?_, ?_, ?_⟩, length⟩
    · simp [pools, ends.pools]
    · rw [size, ends.ordinary]
    · rw [size]
      intro behind member
      rcases List.mem_append.mp member with old | new
      · exact ends.last behind old
      · rwa [List.mem_singleton.mp new]

theorem Packed.opened (packed : arena.Packed) (pools : after.pools.toList = arena.pools.toList ++ [pool])
    (size : after.poolSize = arena.poolSize) (newest : after.current = some arena.pools.size)
    (ordinary : pool.size = arena.poolSize)
    (full : ∀ index last, arena.current = some index → arena.pools[index]? = some last →
      arena.poolSize < last.used + pool.used) : after.Packed := by
  have ends : after.EndsAt arena.pools.toList pool [] := ⟨pools, ordinary.trans size.symm, nofun⟩
  refine ⟨?_, ?_, ?_⟩
  · rw [ends.ordinaryPools, size]
    apply packed.dense.concat
    intro last found
    obtain ⟨index, current, present⟩ := packed.getLast found
    exact full index last current present
  · intro closed
    rw [newest] at closed
    cases closed
  · intro index current
    cases newest.symm.trans current
    exact ⟨_, _, _, ends, Array.length_toList⟩

theorem Packed.carved (packed : arena.Packed) (current : arena.current = some index) (text : Bytes) :
    (arena.lay index text).Packed := by
  obtain ⟨front, pool, back, ends, rfl⟩ := packed.current index current
  have fuller : (arena.lay front.length text).EndsAt front (pool.append text) back :=
    ⟨toList_lay ends.pools text, ends.ordinary, ends.last⟩
  refine ⟨?_, ?_, ?_⟩
  · have dense := packed.dense
    rw [ends.ordinaryPools] at dense
    rw [fuller.ordinaryPools]
    apply dense.refill
    rw [Pool.used_append]
    exact Nat.le_add_right _ _
  · intro closed
    cases current.symm.trans closed
  · intro index again
    cases current.symm.trans again
    exact ⟨front, _, back, fuller, rfl⟩

theorem Packed.keep {strings : List Laid} {reply : Except ArenaError Stored} (packed : arena.Packed)
    (accounts : arena.Accounts strings) (kept : keep text arena = .ok (reply, after)) : after.Packed := by
  have outcome := keep_outcome accounts.ready accounts.numbered text
  rw [kept] at outcome
  cases outcome with
  | empty | refused => exact packed
  | laid full small reserves found numbered =>
    cases reserves with
    | own large =>
      refine packed.beside (toList_lay_pushed rfl text) rfl rfl ?_
      exact Nat.ne_of_gt large
    | opened fits scarce =>
      refine packed.opened (toList_lay_pushed rfl text) rfl rfl rfl ?_
      intro index last current present
      have short := scarce index last current present
      obtain ⟨same, again, size⟩ := accounts.ready.current index current
      cases present.symm.trans again
      rw [Pool.remaining, size] at short
      rw [Pool.used_append]
      omega
    | carved fits current => exact packed.carved current text

variable {sizing : Sizing} {texts : List Bytes} {replies : List (Except ArenaError Stored)}

theorem packed_run (built : sizing.Built)
    (ran : runAll TextArena.keep texts (ofSizing sizing) = .ok (replies, arena)) : arena.Packed := by
  induction texts using List.reverseRecOn generalizing replies arena with
  | nil =>
    cases ran
    exact packed_ofSizing sizing
  | append_singleton texts text ih =>
    rw [runAll_snoc] at ran
    obtain ⟨⟨said, before⟩, began, ran⟩ := Checked.bind_eq_ok.mp ran
    obtain ⟨⟨reply, after⟩, kept, equal⟩ := Checked.bind_eq_ok.mp ran
    cases equal
    obtain ⟨-, accounts, -⟩ := accounts_of_run built began
    exact (ih began).keep accounts kept

/-- What is reserved beyond what is used is at most as much again and one pool. -/
theorem Packed.reserved_le {strings : List Laid} (packed : arena.Packed) (accounts : arena.Accounts strings) :
    arena.usage.bytesReserved ≤ 2 * arena.usage.bytesUsed + arena.poolSize := by
  have filled : ∀ pool ∈ arena.pools.toList, pool.size = arena.poolSize ∨ pool.used = pool.size := by
    intro pool member
    obtain ⟨index, found⟩ := List.mem_iff_getElem?.mp member
    rw [Array.getElem?_toList] at found
    exact (accounts.sized index pool found).imp_right fun ⟨_, full, _⟩ => full
  obtain ⟨extra, reserved, used⟩ := Pool.exists_extra filled
  have dense := packed.dense.reserved_le
  rw [ordinaryPools] at dense
  rw [bytesReserved_eq, reserved]
  change _ ≤ 2 * arena.bytesUsed + _
  rw [accounts.filled, used]
  omega

/-- However the sizes of the strings follow each other, two pools of ordinary size of which one
was opened next after the other hold more than one of them can; so no more is wasted than is
used, but for one pool. A run is cut short only if all pool numbers are taken. -/
theorem waste_stays_bounded (built : sizing.Built) (texts : List Bytes) :
    ∃ count replies arena, CarriesOut sizing texts count replies arena ∧
      (arena.pools.toList.filter (·.size = sizing.poolSize)).IsChain
        (fun first second => sizing.poolSize < first.used + second.used) ∧
      arena.usage.bytesReserved ≤ 2 * arena.usage.bytesUsed + sizing.poolSize := by
  obtain ⟨count, replies, arena, carries⟩ := exists_carriesOut built texts
  obtain ⟨size, accounts, -⟩ := accounts_of_run built carries.ran
  have packed := packed_run built carries.ran
  rw [← size]
  exact ⟨count, replies, arena, carries, packed.dense, packed.reserved_le accounts⟩

/-- Pools of 64 bytes, and strings that fit none of them beside the one before: every other pool
stays nearly empty. The third string has a pool of its own. -/
theorem waste_stays_bounded_alternating :
    let texts : List Bytes := [[1], List.replicate 60 2, List.replicate 61 3, [4], List.replicate 60 5]
    let usage : ArenaUsage := { pools := 5, strings := 5, bytesUsed := 203, bytesReserved := 321 }
    ∃ replies arena, runAll keep texts (ofSizing (({} : Sizing).withPoolSize 0)) = .ok (replies, arena) ∧
      arena.usage = usage ∧ usage.bytesReserved ≤ 2 * usage.bytesUsed + 64 := by
  intro texts usage
  have performed : (do
      let (_, arena) ← runAll keep texts (ofSizing (({} : Sizing).withPoolSize 0))
      if arena.usage = usage then return () else .error .outOfRange : Checked Unit).isOk := by
    decide +kernel
  obtain ⟨_, performed⟩ := Checked.exists_of_isOk performed
  obtain ⟨⟨replies, arena⟩, ran, rest⟩ := Checked.bind_eq_ok.mp performed
  dsimp only at rest
  split at rest
  next same =>
    obtain ⟨count, _, _, carries, -, bound⟩ := waste_stays_bounded (.withPoolSize .default 0) texts
    obtain ⟨-, -, last⟩ := carries.whole ran
    rw [last, same] at bound
    exact ⟨replies, arena, ran, same, bound⟩
  · cases rest

end TextArena

end CanonIR
