import CanonIR.Proofs.ArenaAccounts

/-! Strings of more than ordinary size beside the others. Each of them has a pool of its own,
and for the rest it is as if it had never come: a run without these strings lays all others
out in the same way, in pools that are numbered anew. -/

namespace CanonIR

/-- An ascending list of numbers has no number before its turn. -/
theorem le_of_ascending {numbers : List Nat} (ascending : numbers.Pairwise (· < ·)) {place number : Nat}
    (found : numbers[place]? = some number) : place ≤ number := by
  induction place generalizing number with
  | zero => exact Nat.zero_le _
  | succ place ih =>
    obtain ⟨inside, rfl⟩ := List.getElem?_eq_some_iff.mp found
    have before : place < numbers.length := Nat.lt_of_succ_lt inside
    have lower := List.pairwise_iff_getElem.mp ascending place (place + 1) before inside (Nat.lt_succ_self _)
    exact Nat.lt_of_le_of_lt (ih (List.getElem?_eq_getElem before)) lower

namespace TextArena

variable {arena slim middle after : TextArena} {ordinary : List Nat} {need index number : Nat}
  {text : Bytes} {pool : Pool}

theorem Reserves.reserve_eq (ready : arena.Ready) (reserves : arena.Reserves need index middle) :
    arena.reserve need = .ok (index, middle) := by
  cases reserves with
  | own large => simp [reserve, large]
  | opened fits full =>
    have small : ¬ arena.poolSize < need := Nat.not_lt_of_le fits
    cases current : arena.current with
    | none => simp [reserve, small, current, openPool]
    | some place =>
      obtain ⟨pool, found, -⟩ := ready.current place current
      have short : ¬ need ≤ pool.remaining := Nat.not_le_of_lt (full place pool current found)
      simp [reserve, small, current, fetch_eq_ok.mpr found, short, openPool]
  | carved fits current found room =>
    have small : ¬ arena.poolSize < need := Nat.not_lt_of_le fits
    simp [reserve, small, current, fetch_eq_ok.mpr found, room]

/-- A string goes where room is reserved for it. -/
theorem Reserves.keep_eq (ready : arena.Ready) (full : text ≠ []) (small : text.length < positionLimit)
    (reserves : arena.Reserves (headerSize + text.length) index middle)
    (found : middle.pools[index]? = some pool) (numbered : index < positionLimit) :
    keep text arena = .ok (.ok ⟨index, pool.used⟩, middle.lay index text) := by
  obtain ⟨same, present, -, low, -⟩ := reserves.room ready
  cases found.symm.trans present
  simp [keep, store_reserved full small (reserves.reserve_eq ready) found low, position, numbered]

/-! ### An arena without its oversized pools -/

/-- The other arena has the pools of ordinary size only, which are those at `ordinary`. -/
structure Mirrors (arena : TextArena) (ordinary : List Nat) (slim : TextArena) : Prop where
  poolSize : slim.poolSize = arena.poolSize
  ascending : ordinary.Pairwise (· < ·)
  exact : ∀ index, index ∈ ordinary ↔ ∃ pool, arena.pools[index]? = some pool ∧ pool.size = arena.poolSize
  same : ∀ number : Nat, slim.pools[number]? = ordinary[number]?.bind (arena.pools[·]?)
  current : arena.current = slim.current.bind (ordinary[·]?)

theorem mirrors_ofSizing (sizing : Sizing) : (ofSizing sizing).Mirrors [] (ofSizing sizing) where
  poolSize := rfl
  ascending := .nil
  exact := by simp [ofSizing]
  same := by simp [ofSizing]
  current := rfl

theorem Mirrors.size (mirrors : arena.Mirrors ordinary slim) : slim.pools.size = ordinary.length := by
  have ends : ∀ number : Nat, slim.pools.size ≤ number ↔ ordinary.length ≤ number := by
    intro number
    rw [← Array.getElem?_eq_none_iff, ← List.getElem?_eq_none_iff, mirrors.same]
    cases listed : ordinary[number]? with
    | none => simp
    | some index =>
      obtain ⟨pool, found, -⟩ := (mirrors.exact index).mp (List.mem_of_getElem? listed)
      simp [found]
  apply Nat.le_antisymm
  · exact (ends _).mpr (Nat.le_refl _)
  · exact (ends _).mp (Nat.le_refl _)

theorem Mirrors.found (mirrors : arena.Mirrors ordinary slim) (listed : ordinary[number]? = some index) :
    slim.pools[number]? = arena.pools[index]? := by
  rw [mirrors.same, listed, Option.bind_some]

theorem Mirrors.inside (mirrors : arena.Mirrors ordinary slim) : ∀ index ∈ ordinary, index < arena.pools.size := by
  intro index member
  obtain ⟨pool, found, -⟩ := (mirrors.exact index).mp member
  exact (Array.getElem?_eq_some_iff.mp found).1

/-- More pools behind the others take none away. -/
theorem Mirrors.same_push (mirrors : arena.Mirrors ordinary slim) (pool : Pool) (number : Nat) :
    slim.pools[number]? = ordinary[number]?.bind ((arena.pools.push pool)[·]?) := by
  rw [mirrors.same]
  cases listed : ordinary[number]? with
  | none => rfl
  | some index =>
    have inside := mirrors.inside index (List.mem_of_getElem? listed)
    simp [Array.getElem?_push, Nat.ne_of_lt inside]

/-- A pool of another size stays out. -/
theorem Mirrors.own (mirrors : arena.Mirrors ordinary slim) (large : arena.poolSize < need) :
    { arena with pools := arena.pools.push { size := need } }.Mirrors ordinary slim where
  poolSize := mirrors.poolSize
  ascending := mirrors.ascending
  exact index := by
    rw [mirrors.exact, Array.getElem?_push]
    split
    next last =>
      subst last
      simp [Nat.ne_of_gt large]
    next => rfl
  same := mirrors.same_push _
  current := mirrors.current

/-- A new pool of ordinary size is the last one in both. -/
theorem Mirrors.opened (mirrors : arena.Mirrors ordinary slim) :
    { arena with
      pools := arena.pools.push { size := arena.poolSize }
      current := some arena.pools.size }.Mirrors (ordinary ++ [arena.pools.size])
    { slim with
      pools := slim.pools.push { size := slim.poolSize }
      current := some slim.pools.size } where
  poolSize := mirrors.poolSize
  ascending := by
    rw [List.pairwise_append]
    refine ⟨mirrors.ascending, List.pairwise_singleton _ _, ?_⟩
    intro index member last same
    obtain rfl := List.mem_singleton.mp same
    exact mirrors.inside index member
  exact index := by
    rw [List.mem_append, mirrors.exact, Array.getElem?_push, List.mem_singleton]
    split
    next last => simp [last]
    next different => simp [different]
  same number := by
    rw [Array.getElem?_push, mirrors.size, mirrors.same_push { size := arena.poolSize }]
    split
    next last => simp [last, mirrors.poolSize]
    next different =>
      by_cases early : number < ordinary.length
      · rw [List.getElem?_append_left early]
      · rw [List.getElem?_eq_none (by omega), List.getElem?_eq_none (by simp; omega)]
  current := by simp [mirrors.size]

/-- Laying a string out changes the size of no pool. -/
theorem ordinary_lay (arena : TextArena) (index other : Nat) (text : Bytes) :
    (∃ pool, (arena.lay index text).pools[other]? = some pool ∧ pool.size = arena.poolSize) ↔
      ∃ pool, arena.pools[other]? = some pool ∧ pool.size = arena.poolSize := by
  rw [getElem?_lay]
  split
  next same =>
    subst same
    cases arena.pools[index]? <;> simp [Pool.append]
  next => rfl

/-- A string that is laid into a pool that both have is laid into both. -/
theorem Mirrors.lay (mirrors : arena.Mirrors ordinary slim) (listed : ordinary[number]? = some index)
    (text : Bytes) : (arena.lay index text).Mirrors ordinary (slim.lay number text) where
  poolSize := mirrors.poolSize
  ascending := mirrors.ascending
  exact other := (mirrors.exact other).trans (ordinary_lay arena index other text).symm
  same other := by
    have distinct : ordinary.Nodup := mirrors.ascending.imp Nat.ne_of_lt
    rw [getElem?_lay, mirrors.found listed, mirrors.same]
    split
    next same =>
      subst same
      simp [listed, getElem?_lay]
    next different =>
      cases reads : ordinary[other]? with
      | none => rfl
      | some place =>
        have apart : index ≠ place := by
          intro same
          subst same
          have inside := (List.getElem?_eq_some_iff.mp listed).1
          exact different ((List.getElem?_inj inside distinct).mp (listed.trans reads.symm))
        simp [getElem?_lay, apart]
  current := mirrors.current

/-- A string that is laid into a pool of another size is laid into none of them. -/
theorem Mirrors.lay_beside (mirrors : arena.Mirrors ordinary slim) (beside : index ∉ ordinary)
    (text : Bytes) : (arena.lay index text).Mirrors ordinary slim where
  poolSize := mirrors.poolSize
  ascending := mirrors.ascending
  exact other := (mirrors.exact other).trans (ordinary_lay arena index other text).symm
  same other := by
    rw [mirrors.same]
    cases reads : ordinary[other]? with
    | none => rfl
    | some place =>
      have apart : index ≠ place := by
        intro same
        subst same
        exact beside (List.mem_of_getElem? reads)
      simp [getElem?_lay, apart]
  current := mirrors.current

/-- Both arenas serve a request of ordinary size alike. -/
theorem Mirrors.reserves (mirrors : arena.Mirrors ordinary slim) (fits : need ≤ arena.poolSize)
    (reserves : arena.Reserves need index middle) :
    ∃ number between grown, slim.Reserves need number between ∧ ordinary <+: grown ∧
      grown[number]? = some index ∧ middle.Mirrors grown between := by
  have room : need ≤ slim.poolSize := Nat.le_trans fits (Nat.le_of_eq mirrors.poolSize.symm)
  cases reserves with
  | own large => exact absurd fits (Nat.not_le_of_lt large)
  | opened _ full =>
    refine ⟨_, _, _, .opened room ?_, List.prefix_append _ _, ?_, mirrors.opened⟩
    · intro place pool current found
      rw [mirrors.same, Option.bind_eq_some_iff] at found
      obtain ⟨other, listed, found⟩ := found
      apply full other pool _ found
      rw [mirrors.current, current, Option.bind_some, listed]
    · simp [mirrors.size]
  | carved _ current found enough =>
    rw [mirrors.current, Option.bind_eq_some_iff] at current
    obtain ⟨number, current, listed⟩ := current
    exact ⟨number, slim, ordinary, .carved room current ((mirrors.found listed).trans found) enough,
      List.prefix_rfl, listed, mirrors⟩

/-- The same string at the same offset of the same pool, which has a new number. -/
structure Renumbered (ordinary : List Nat) (first second : Laid) : Prop where
  text : second.1 = first.1
  offset : second.2.offset = first.2.offset
  pool : ordinary[second.2.pool]? = some first.2.pool

theorem Renumbered.mono {grown : List Nat} {first second : Laid} (kept : ordinary <+: grown)
    (renumbered : Renumbered ordinary first second) : Renumbered grown first second :=
  { renumbered with pool := getElem?_of_isPrefix kept renumbered.pool }

section Call

variable {strings : List Laid} {reply : Except ArenaError Stored}
  (mirrors : arena.Mirrors ordinary slim) (accounts : arena.Accounts strings)
  (kept : keep text arena = .ok (reply, after))

include mirrors accounts kept

/-- A string of ordinary size goes to the same place of both arenas. -/
theorem Mirrors.keep_fitting (ready : slim.Ready) (fits : headerSize + text.length ≤ arena.poolSize) :
    ∃ grown answer later, ordinary <+: grown ∧ keep text slim = .ok (answer, later) ∧ later.Ready ∧
      after.Mirrors grown later ∧
      List.Forall₂ (Renumbered grown) (laidOut [text] [reply]) (laidOut [text] [answer]) := by
  have outcome := keep_outcome accounts.ready accounts.numbered text
  rw [kept] at outcome
  cases outcome with
  | empty nothing =>
    subst nothing
    exact ⟨ordinary, .ok .empty, slim, List.prefix_rfl, rfl, ready, mirrors, .nil⟩
  | refused long =>
    have bound := accounts.ready.ordinary
    simp only [positionLimit] at long
    omega
  | @laid index middle pool full small reserves found numbered =>
    obtain ⟨number, between, grown, served, more, listed, mirrors⟩ := mirrors.reserves fits reserves
    have early : number < positionLimit :=
      Nat.lt_of_le_of_lt (le_of_ascending mirrors.ascending listed) numbered
    have present := (mirrors.found listed).trans found
    refine ⟨grown, _, _, more, served.keep_eq ready full small present early, served.ready_lay ready,
      mirrors.lay listed text, ?_⟩
    simpa [laidOut, full] using (⟨rfl, rfl, listed⟩ : Renumbered grown (text, ⟨index, pool.used⟩) (text, ⟨number, pool.used⟩))

/-- A string that is too long for an ordinary pool leaves the ordinary pools alone. -/
theorem Mirrors.keep_oversized (large : arena.poolSize < headerSize + text.length) :
    after.Mirrors ordinary slim := by
  have outcome := keep_outcome accounts.ready accounts.numbered text
  rw [kept] at outcome
  cases outcome with
  | empty | refused => exact mirrors
  | laid full small reserves found numbered =>
    cases reserves with
    | own =>
      apply (mirrors.own large).lay_beside
      intro member
      exact Nat.lt_irrefl _ (mirrors.inside _ member)
    | opened fits | carved fits => exact absurd fits (Nat.not_le_of_lt large)

end Call

/-! ### Runs -/

/-- The texts that fit a pool of ordinary size. -/
def fitting (poolSize : Nat) (texts : List Bytes) : List Bytes :=
  texts.filter fun text => headerSize + text.length ≤ poolSize

/-- The strings that are no longer than a pool of ordinary size. -/
def ofOrdinarySize (poolSize : Nat) (strings : List Laid) : List Laid :=
  strings.filter fun string => string.extent ≤ poolSize

variable {sizing : Sizing} {texts : List Bytes} {replies : List (Except ArenaError Stored)}

theorem fitting_concat (poolSize : Nat) (texts : List Bytes) (text : Bytes) :
    fitting poolSize (texts ++ [text]) =
      fitting poolSize texts ++ if headerSize + text.length ≤ poolSize then [text] else [] := by
  simp [fitting, List.filter_cons]

theorem ofOrdinarySize_concat (lengths : replies.length = texts.length) (poolSize : Nat) (text : Bytes)
    (reply : Except ArenaError Stored) :
    ofOrdinarySize poolSize (laidOut (texts ++ [text]) (replies ++ [reply])) =
      ofOrdinarySize poolSize (laidOut texts replies) ++
        if headerSize + text.length ≤ poolSize then laidOut [text] [reply] else [] := by
  rw [laidOut_concat lengths, ofOrdinarySize, List.filter_append]
  congr 1
  have extents : ∀ string ∈ laidOut [text] [reply], string.extent = headerSize + text.length := by
    intro string member
    simp only [laidOut, List.zip_cons_cons, List.zip_nil_right, List.filterMap_cons, List.filterMap_nil] at member
    split at member
    · cases member
    next found =>
      obtain rfl := List.mem_singleton.mp member
      cases reply with
      | error => cases found
      | ok place =>
        simp only [Option.ite_none_left_eq_some, Option.some.injEq] at found
        rw [← found.2, Laid.extent]
  split
  next fits =>
    rw [List.filter_eq_self]
    intro string member
    simpa [extents string member] using fits
  next large =>
    rw [List.filter_eq_nil_iff]
    intro string member
    simpa [extents string member] using large

theorem mirrors_run (built : sizing.Built)
    (ran : runAll keep texts (ofSizing sizing) = .ok (replies, arena)) :
    ∃ ordinary answers slim,
      runAll keep (fitting sizing.poolSize texts) (ofSizing sizing) = .ok (answers, slim) ∧ slim.Ready ∧
      arena.Mirrors ordinary slim ∧
      List.Forall₂ (Renumbered ordinary) (ofOrdinarySize sizing.poolSize (laidOut texts replies))
        (laidOut (fitting sizing.poolSize texts) answers) := by
  induction texts using List.reverseRecOn generalizing replies arena with
  | nil =>
    cases ran
    exact ⟨[], [], ofSizing sizing, rfl, ready_ofSizing built.ordinary, mirrors_ofSizing sizing, .nil⟩
  | append_singleton texts text ih =>
    rw [runAll_snoc] at ran
    obtain ⟨⟨said, before⟩, began, ran⟩ := Checked.bind_eq_ok.mp ran
    obtain ⟨⟨reply, after⟩, kept, equal⟩ := Checked.bind_eq_ok.mp ran
    cases equal
    obtain ⟨size, accounts, -⟩ := accounts_of_run built began
    obtain ⟨ordinary, answers, slim, went, ready, mirrors, placed⟩ := ih began
    rw [fitting_concat, ofOrdinarySize_concat (length_runAll began)]
    split
    next fits =>
      obtain ⟨grown, answer, later, more, answered, ready, mirrors, last⟩ :=
        mirrors.keep_fitting accounts kept ready (size ▸ fits)
      refine ⟨grown, answers ++ [answer], later, runAll_concat went answered, ready, mirrors, ?_⟩
      rw [laidOut_concat (length_runAll went)]
      exact List.rel_append (placed.imp fun _ _ => .mono more) last
    next large =>
      have mirrors := mirrors.keep_oversized accounts kept (size ▸ Nat.lt_of_not_le large)
      simp only [List.append_nil]
      exact ⟨ordinary, answers, slim, went, ready, mirrors, placed⟩

/-- Two runs, of which the second leaves out the texts that do not fit `poolSize`. The pools of
ordinary size in the first are those at `ordinary`, in order. -/
structure Undisturbed (poolSize : Nat) (texts : List Bytes) (replies : List (Except ArenaError Stored))
    (arena : TextArena) (answers : List (Except ArenaError Stored)) (slim : TextArena)
    (ordinary : List Nat) : Prop where
  served : (laidOut (fitting poolSize texts) answers).map Prod.fst =
    (fitting poolSize texts).filter (· ≠ [])
  placed : List.Forall₂ (Renumbered ordinary) (ofOrdinarySize poolSize (laidOut texts replies))
    (laidOut (fitting poolSize texts) answers)
  together : ((ofOrdinarySize poolSize (laidOut texts replies)).zip
      (laidOut (fitting poolSize texts) answers)).Pairwise fun first second =>
    first.1.2.pool = second.1.2.pool ↔ first.2.2.pool = second.2.2.pool
  ascending : ordinary.Pairwise (· < ·)
  exact : ∀ index, index ∈ ordinary ↔ ∃ pool, arena.pools[index]? = some pool ∧ pool.size = poolSize
  /-- Every pool of the second run is one of the first, with the same strings in it. -/
  pools : ∀ number : Nat, slim.pools[number]? = ordinary[number]?.bind (arena.pools[·]?)

/-- Strings share a pool before it is numbered anew if and only if they do afterwards. -/
theorem together_of_renumbered {first second : List Laid} (ascending : ordinary.Pairwise (· < ·))
    (placed : List.Forall₂ (Renumbered ordinary) first second) :
    (first.zip second).Pairwise fun one two =>
      one.1.2.pool = two.1.2.pool ↔ one.2.2.pool = two.2.2.pool := by
  have distinct : ordinary.Nodup := ascending.imp Nat.ne_of_lt
  have each : ∀ pair ∈ first.zip second, Renumbered ordinary pair.1 pair.2 :=
    fun _ member => (List.forall₂_iff_zip.mp placed).2 member
  refine List.pairwise_of_forall_mem_list fun one here two there => ?_
  have old := (each one here).pool
  have inside := (List.getElem?_eq_some_iff.mp old).1
  rw [← List.getElem?_inj inside distinct, old, (each two there).pool, Option.some.injEq]

/-- Every text that fits an ordinary pool and is not empty is laid out. -/
theorem laidOut_fitting (built : sizing.Built)
    (ran : runAll keep (fitting sizing.poolSize texts) (ofSizing sizing) = .ok (replies, arena)) :
    (laidOut (fitting sizing.poolSize texts) replies).map Prod.fst =
      (fitting sizing.poolSize texts).filter (· ≠ []) := by
  rw [(accounts_of_run built ran).2.2, taking]
  refine List.filter_congr fun text member => ?_
  have fits : headerSize + text.length ≤ sizing.poolSize := by simpa using (List.mem_filter.mp member).2
  have short : text.length < positionLimit := by
    have bound := built.ordinary
    simp only [positionLimit]
    omega
  simp [short]

/-- However strings above the ordinary size come in between, every other string is laid out at
the offset that it has without them, with the same strings in its pool; and the pools of
ordinary size have the same order. A run is cut short only if all pool numbers are taken. -/
theorem oversized_strings_disturb_nothing (built : sizing.Built) (texts : List Bytes) :
    ∃ count replies arena, CarriesOut sizing texts count replies arena ∧
      ∃ answers slim ordinary,
        runAll keep (fitting sizing.poolSize (texts.take count)) (ofSizing sizing) = .ok (answers, slim) ∧
        Undisturbed sizing.poolSize (texts.take count) replies arena answers slim ordinary := by
  obtain ⟨count, replies, arena, carries⟩ := exists_carriesOut built texts
  obtain ⟨ordinary, answers, slim, went, -, mirrors, placed⟩ := mirrors_run built carries.ran
  obtain ⟨size, -, -⟩ := accounts_of_run built carries.ran
  refine ⟨count, replies, arena, carries, answers, slim, ordinary, went, ?_⟩
  exact {
    served := laidOut_fitting built went
    placed
    together := together_of_renumbered mirrors.ascending placed
    ascending := mirrors.ascending
    exact := size ▸ mirrors.exact
    pools := mirrors.same }

/-- Pools of 64 bytes. A string that is too long for them comes before the first of them is
opened, one when the first is full to the last byte, and one when the second is in use. -/
theorem oversized_strings_disturb_nothing_between :
    let texts : List Bytes := [List.replicate 61 1, List.replicate 60 2, List.replicate 100 3, [],
      [4, 5], List.replicate 61 6, [7]]
    let start := ofSizing (({} : Sizing).withPoolSize 0)
    let replies := [⟨0, 0⟩, ⟨1, 0⟩, ⟨2, 0⟩, .empty, ⟨3, 0⟩, ⟨4, 0⟩, ⟨3, 6⟩].map Except.ok
    let answers := [⟨0, 0⟩, .empty, ⟨1, 0⟩, ⟨1, 6⟩].map Except.ok
    ∃ arena slim ordinary, runAll keep texts start = .ok (replies, arena) ∧
      runAll keep (fitting 64 texts) start = .ok (answers, slim) ∧
      Undisturbed 64 texts replies arena answers slim ordinary := by
  intro texts start replies answers
  have performed : (do
      let (said, _) ← runAll keep texts start
      let (heard, _) ← runAll keep (fitting 64 texts) start
      if said = replies ∧ heard = answers then return () else .error .outOfRange :
        Checked Unit).isOk := by decide +kernel
  obtain ⟨_, performed⟩ := Checked.exists_of_isOk performed
  obtain ⟨⟨said, arena⟩, ran, rest⟩ := Checked.bind_eq_ok.mp performed
  obtain ⟨⟨heard, slim⟩, went, rest⟩ := Checked.bind_eq_ok.mp rest
  dsimp only at rest
  split at rest
  next same =>
    rw [same.1] at ran
    rw [same.2] at went
    obtain ⟨count, _, _, carries, _, _, ordinary, again, undisturbed⟩ :=
      oversized_strings_disturb_nothing (.withPoolSize .default 0) texts
    obtain ⟨whole, rfl, rfl⟩ := carries.whole ran
    rw [whole] at again undisturbed
    cases went.symm.trans again
    exact ⟨_, slim, ordinary, ran, went, undisturbed⟩
  · cases rest

end TextArena

end CanonIR
