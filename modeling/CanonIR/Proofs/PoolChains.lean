import CanonIR.Proofs.Storage
import CanonIR.Text.SymbolPool

/-! Chains of a bucket table. The chain of a bucket visits the entries whose hash selects
it, oldest first. Putting one more entry at the end of its chain keeps this, be it a new
entry or the next one of a table that is linked anew. -/

namespace CanonIR

/-- Following `next` from `cursor` visits `indices` in turn, and ends. -/
def Chain (next : Nat → Option (Option Nat)) : Option Nat → List Nat → Prop
  | cursor, [] => cursor = none
  | cursor, index :: rest => cursor = some index ∧
    ∃ onward, next index = some onward ∧ Chain next onward rest

namespace Chain

variable {next after : Nat → Option (Option Nat)} {cursor : Option Nat} {indices : List Nat}
  {index : Nat}

theorem frame (chain : Chain next cursor indices) (same : ∀ index ∈ indices, after index = next index) :
    Chain after cursor indices := by
  induction indices generalizing cursor with
  | nil => exact chain
  | cons index rest ih =>
    obtain ⟨here, onward, link, chain⟩ := chain
    refine ⟨here, onward, (same index (by simp)).trans link, ih chain ?_⟩
    exact fun other member => same other (by simp [member])

theorem concat (chain : Chain next cursor indices) (distinct : indices.Nodup)
    (ended : after index = some none)
    (linked : ∀ tail, indices.getLast? = some tail → after tail = some (some index))
    (same : ∀ other ∈ indices, indices.getLast? ≠ some other → after other = next other) :
    Chain after (cursor.or (some index)) (indices ++ [index]) := by
  induction indices generalizing cursor with
  | nil =>
    obtain rfl : cursor = none := chain
    exact ⟨rfl, none, ended, rfl⟩
  | cons first rest ih =>
    obtain ⟨rfl, onward, link, chain⟩ := chain
    obtain ⟨fresh, distinct⟩ := List.nodup_cons.mp distinct
    refine ⟨rfl, ?_⟩
    cases rest with
    | nil => exact ⟨some index, linked first rfl, rfl, none, ended, rfl⟩
    | cons second rest =>
      have last : (first :: second :: rest).getLast? = (second :: rest).getLast? :=
        List.getLast?_cons_cons
      rw [last] at linked same
      have other : (second :: rest).getLast? ≠ some first := fun equal =>
        fresh (List.mem_of_getLast? equal)
      obtain rfl : onward = some second := chain.1
      refine ⟨some second, (same first (by simp) other).trans link, ?_⟩
      exact ih chain distinct linked fun entry member => same entry (by simp [member])

end Chain

def links (entries : Array PoolEntry) (index : Nat) : Option (Option Nat) :=
  entries[index]?.map PoolEntry.next

/-- What a table knows of a text. Linking never changes it. -/
def contentAt (entries : Array PoolEntry) (index : Nat) : Option (Stored × UInt64) :=
  entries[index]?.map fun entry => (entry.text, entry.hash)

/-- The first `limit` entries of which the hash selects `bucket`. -/
def members (entries : Array PoolEntry) (count limit bucket : Nat) : List Nat :=
  (List.range limit).filter fun index =>
    (contentAt entries index).map (fun content => SymbolPool.bucketOf content.2 count) = some bucket

section Members

variable {entries after : Array PoolEntry} {count limit bucket index : Nat}

theorem mem_members : index ∈ members entries count limit bucket ↔ index < limit ∧
    ∃ content, contentAt entries index = some content ∧
      SymbolPool.bucketOf content.2 count = bucket := by
  simp [members]

theorem members_nodup : (members entries count limit bucket).Nodup :=
  List.nodup_range.filter _

theorem members_length_le (entries : Array PoolEntry) (count limit bucket : Nat) :
    (members entries count limit bucket).length ≤ limit := by
  simpa [members] using List.length_filter_le _ (List.range limit)

theorem members_congr (same : ∀ index < limit, contentAt after index = contentAt entries index) :
    members after count limit bucket = members entries count limit bucket := by
  apply List.filter_congr
  intro index member
  rw [same index (List.mem_range.mp member)]

theorem members_succ {content : Stored × UInt64} (found : contentAt entries limit = some content) :
    members entries count (limit + 1) bucket = members entries count limit bucket ++
      if SymbolPool.bucketOf content.2 count = bucket then [limit] else [] := by
  simp only [members, List.range_succ, List.filter_append, found, Option.map_some,
    Option.some.injEq, List.filter_cons, List.filter_nil, decide_eq_true_eq]

end Members

/-- From each head the chain of the bucket is reached, as far as the first `limit` entries
go. -/
def Linked (entries : Array PoolEntry) (heads : Array (Option Nat)) (limit : Nat) : Prop :=
  ∀ bucket < heads.size, ∃ head, heads[bucket]? = some head ∧
    Chain (links entries) head (members entries heads.size limit bucket)

/-- What it takes to put the entry at `limit` at the end of its chain. -/
structure Joins (entries after : Array PoolEntry) (heads next : Array (Option Nat)) (limit : Nat)
    (bucket : Nat) : Prop where
  content : ∀ index < limit, contentAt after index = contentAt entries index
  joined : ∃ content, contentAt after limit = some content ∧
    SymbolPool.bucketOf content.2 heads.size = bucket
  ended : links after limit = some none
  linked : ∀ tail, (members entries heads.size limit bucket).getLast? = some tail →
    links after tail = some (some limit)
  same : ∀ index < limit, (members entries heads.size limit bucket).getLast? ≠ some index →
    links after index = links entries index
  heads : next = if members entries heads.size limit bucket = [] then
    heads.setIfInBounds bucket (some limit) else heads

theorem Joins.size {entries after : Array PoolEntry} {heads next : Array (Option Nat)}
    {limit bucket : Nat} (joins : Joins entries after heads next limit bucket) :
    next.size = heads.size := by
  rw [joins.heads]
  split <;> simp

theorem Linked.join {entries after : Array PoolEntry} {heads next : Array (Option Nat)}
    {limit bucket : Nat} (linked : Linked entries heads limit)
    (joins : Joins entries after heads next limit bucket) : Linked after next (limit + 1) := by
  have size := joins.size
  obtain ⟨content, found, selects⟩ := joins.joined
  intro other inside
  rw [size] at inside ⊢
  obtain ⟨head, present, chain⟩ := linked other inside
  rw [members_succ found, members_congr joins.content, selects]
  by_cases own : bucket = other
  · subst own
    refine ⟨head.or (some limit), ?_, ?_⟩
    · rw [joins.heads]
      split
      next empty =>
        rw [empty] at chain
        obtain rfl : head = none := chain
        simp [inside]
      next nonempty =>
        obtain ⟨first, rest, equal⟩ := List.exists_cons_of_ne_nil nonempty
        rw [equal] at chain
        obtain rfl : head = some first := chain.1
        exact present
    · rw [if_pos rfl]
      exact chain.concat members_nodup joins.ended joins.linked fun index member =>
        joins.same index (mem_members.mp member).1
  · rw [if_neg own, List.append_nil]
    refine ⟨head, ?_, chain.frame fun index member => ?_⟩
    · rw [joins.heads]
      split
      next => rw [Array.getElem?_setIfInBounds_ne own, present]
      next => exact present
    · -- The end of the chain that grows lies in another bucket than this one.
      apply joins.same index (mem_members.mp member).1
      intro last
      obtain ⟨-, _, same, selected⟩ := mem_members.mp (List.mem_of_getLast? last)
      obtain ⟨-, _, equal, selects⟩ := mem_members.mp member
      rw [same, Option.some.injEq] at equal
      exact own (selected.symm.trans (equal ▸ selects))

section Relink

variable {entries ended : Array PoolEntry} {heads : Array (Option Nat)} {index other limit bucket : Nat}
  {tail : Option Nat}

theorem links_relink (onward : Option Nat) :
    links (entries.modify index ({ · with next := onward })) other =
      if index = other then entries[index]?.map (fun _ => onward) else links entries other := by
  simp only [links, Array.getElem?_modify]
  split
  next same => simp [same, Function.comp_def]
  next => rfl

theorem contentAt_relink (onward : Option Nat) :
    contentAt (entries.modify index ({ · with next := onward })) other = contentAt entries other := by
  simp only [contentAt, Array.getElem?_modify]
  split
  next => simp [Function.comp_def]
  next => rfl

/-- Entries and heads once the entry at `limit`, which leads nowhere yet, hangs behind
`tail`. -/
def hangBehind (ended : Array PoolEntry) (heads : Array (Option Nat)) (bucket limit : Nat) :
    Option Nat → Array PoolEntry × Array (Option Nat)
  | some tail => (ended.modify tail ({ · with next := some limit }), heads)
  | none => (ended, heads.setIfInBounds bucket (some limit))

theorem contentAt_hangBehind :
    contentAt (hangBehind ended heads bucket limit tail).1 index = contentAt ended index := by
  cases tail with
  | none => rfl
  | some tail => exact contentAt_relink _

theorem size_hangBehind : (hangBehind ended heads bucket limit tail).1.size = ended.size := by
  cases tail <;> simp [hangBehind]

theorem joins_hangBehind (content : ∀ index < limit, contentAt ended index = contentAt entries index)
    (same : ∀ index < limit, links ended index = links entries index)
    (joined : ∃ content, contentAt ended limit = some content ∧
      SymbolPool.bucketOf content.2 heads.size = bucket)
    (last : links ended limit = some none)
    (isTail : (members entries heads.size limit bucket).getLast? = tail) :
    Joins entries (hangBehind ended heads bucket limit tail).1 heads
      (hangBehind ended heads bucket limit tail).2 limit bucket := by
  cases tail with
  | none =>
    have empty := List.getLast?_eq_none_iff.mp isTail
    exact ⟨content, joined, last, by simp [isTail], fun index low _ => same index low,
      by simp [hangBehind, empty]⟩
  | some tail =>
    obtain ⟨low, _, found, -⟩ := mem_members.mp (List.mem_of_getLast? isTail)
    have nonempty : members entries heads.size limit bucket ≠ [] := by
      intro empty
      simp [empty] at isTail
    refine ⟨fun index low => (contentAt_relink _).trans (content index low), ?_, ?_, ?_, ?_, ?_⟩
    · obtain ⟨found, here, selects⟩ := joined
      exact ⟨found, (contentAt_relink _).trans here, selects⟩
    · exact (links_relink _).trans ((if_neg (Nat.ne_of_lt low)).trans last)
    · intro other equal
      obtain rfl : tail = other := by simpa [isTail] using equal
      rw [← content tail low, contentAt, Option.map_eq_some_iff] at found
      obtain ⟨entry, present, -⟩ := found
      exact (links_relink _).trans ((if_pos rfl).trans (by simp [present]))
    · intro index below other
      have different : tail ≠ index := fun equal => other (equal ▸ isTail)
      exact (links_relink _).trans ((if_neg different).trans (same index below))
    · simp [hangBehind, nonempty]

end Relink

namespace SymbolPool

variable {entries : Array PoolEntry}

/-- A table under construction, once its first `limit` entries are linked. -/
structure Relinking.Reaches (state : Relinking) (entries : Array PoolEntry) (count limit : Nat) :
    Prop where
  size : state.entries.size = entries.size
  content : ∀ index, contentAt state.entries index = contentAt entries index
  heads : state.heads.size = count
  width : state.tails.size = count
  tails : ∀ bucket < count, state.tails[bucket]? =
    some (members entries count limit bucket).getLast?
  linked : Linked state.entries state.heads limit

theorem Relinking.append_eq {state : Relinking} {entry : PoolEntry} {index bucket : Nat}
    {tail : Option Nat} (found : state.entries[index]? = some entry)
    (selects : bucketOf entry.hash state.heads.size = bucket)
    (isTail : state.tails.getD bucket none = tail) :
    state.append index =
      let ended := state.entries.modify index ({ · with next := none })
      ⟨(hangBehind ended state.heads bucket index tail).1,
        (hangBehind ended state.heads bucket index tail).2,
        state.tails.setIfInBounds bucket (some index)⟩ := by
  subst selects isTail
  obtain ⟨entries, heads, tails⟩ := state
  simp only at found
  simp only [append, found]
  cases tails.getD (bucketOf entry.hash heads.size) none <;> rfl

theorem bucketOf_lt {hash : UInt64} {count : Nat} (wide : 0 < count) : bucketOf hash count < count :=
  Nat.mod_lt _ wide

theorem Relinking.reaches_append {state : Relinking} {count limit : Nat} (wide : 0 < count)
    (inside : limit < entries.size) (reaches : state.Reaches entries count limit) :
    (state.append limit).Reaches entries count (limit + 1) := by
  obtain ⟨size, content, heads, width, tails, linked⟩ := reaches
  have present : state.entries[limit]? = some state.entries[limit] :=
    Array.getElem?_eq_getElem (by omega)
  generalize state.entries[limit] = entry at present
  have here : contentAt state.entries limit = some (entry.text, entry.hash) := by
    simp [contentAt, present]
  have selects : bucketOf entry.hash state.heads.size = bucketOf entry.hash count := by rw [heads]
  generalize bucketOf entry.hash count = bucket at selects
  have selected : bucket < count := selects ▸ heads ▸ bucketOf_lt (heads ▸ wide)
  have isTail : state.tails.getD bucket none = (members entries count limit bucket).getLast? := by
    rw [Array.getD_eq_getD_getElem?, tails bucket selected]
    rfl
  rw [append_eq present selects isTail]
  let ended := state.entries.modify limit ({ · with next := none })
  let linking := hangBehind ended state.heads bucket limit (members entries count limit bucket).getLast?
  have joins : Joins state.entries linking.1 state.heads linking.2 limit bucket :=
    joins_hangBehind (fun index _ => contentAt_relink none)
      (fun index below => (links_relink none).trans (if_neg (by omega)))
      ⟨_, (contentAt_relink none).trans here, selects⟩
      ((links_relink none).trans ((if_pos rfl).trans (by simp [present])))
      (by rw [heads, members_congr fun index _ => content index])
  refine ⟨?_, ?_, ?_, ?_, ?_, linked.join joins⟩
  · simpa [size_hangBehind] using size
  · exact fun index => contentAt_hangBehind.trans ((contentAt_relink none).trans (content index))
  · exact joins.size.trans heads
  · simpa using width
  · intro other low
    have hash : bucketOf entry.hash count = bucket := heads ▸ selects
    rw [members_succ ((content limit).symm.trans here), hash]
    by_cases own : bucket = other
    · subst own
      simp [selected, width]
    · rw [Array.getElem?_setIfInBounds_ne own, tails other low, if_neg own, List.append_nil]

/-- Linking all entries anew gives every chain of the wider table. -/
theorem Relinking.reaches_foldl {count : Nat} (wide : 0 < count) {limit : Nat}
    (inside : limit ≤ entries.size) :
    ((List.range limit).foldl Relinking.append
      ⟨entries, .replicate count none, .replicate count none⟩).Reaches entries count limit := by
  induction limit with
  | zero =>
    refine ⟨rfl, fun _ => rfl, by simp, by simp, ?_, ?_⟩
    · intro bucket low
      simp [low, members]
    · intro bucket low
      simp only [List.range_zero, List.foldl_nil, Array.size_replicate] at low
      exact ⟨none, by simp [low], rfl⟩
  | succ limit ih =>
    rw [List.range_succ, List.foldl_append]
    exact reaches_append wide inside (ih (Nat.le_of_lt inside))

end SymbolPool

end CanonIR
