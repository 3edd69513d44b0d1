import CanonIR.Proofs.PoolRuns
import Mathlib.Data.List.Forall2
import Mathlib.Data.List.Induction

/-! Runs of storing on one arena. Whatever mix of short, fitting and oversized strings comes,
no string is laid over another one: each of them reads the same at every later time, and
its place is its own. -/

namespace CanonIR

namespace TextArena

variable {arena : TextArena} {texts : List Bytes} {text : Bytes} {places : List Stored}

/-- Storing as a call on the arena. A refused string leaves the arena as it was. -/
def keep (text : Bytes) (arena : TextArena) : Checked (Except ArenaError Stored × TextArena) := do
  match ← arena.store text with
  | .ok (place, after) => return (.ok place, after)
  | .error refusal => return (.error refusal, arena)

/-- The empty string has the one place that is in no pool; every other string is laid out. -/
def Lodges (arena : TextArena) (text : Bytes) (place : Stored) : Prop :=
  if text = [] then place = .empty else arena.Holds place text

theorem Lodges.read {place : Stored} (lodges : arena.Lodges text place) :
    arena.read place = .ok text := by
  unfold Lodges at lodges
  split at lodges
  next empty =>
    subst lodges empty
    rfl
  next => exact lodges.read

theorem Lodges.empty_iff {place : Stored} (lodges : arena.Lodges text place) :
    place = .empty ↔ text = [] := by
  unfold Lodges at lodges
  split at lodges
  next empty => simp [lodges, empty]
  next full =>
    refine ⟨fun empty => ?_, fun empty => absurd empty full⟩
    have real := lodges.real
    rw [empty] at real
    cases real

theorem Lodges.extends {after : TextArena} {place : Stored} (extension : arena.Extends after)
    (lodges : arena.Lodges text place) : after.Lodges text place := by
  by_cases empty : text = []
  · simpa [Lodges, empty] using lodges
  · simp only [Lodges, empty, if_false] at lodges ⊢
    exact lodges.extends extension

/-- The arena has kept `texts` at `places`, one after the other. -/
structure Kept (arena : TextArena) (texts : List Bytes) (places : List Stored) : Prop where
  ready : arena.Ready
  lodged : List.Forall₂ arena.Lodges texts places
  /-- Only empty strings share a place. -/
  apart : (texts.zip places).Pairwise fun first second =>
    first.2 = second.2 → first.1 = [] ∧ second.1 = []

theorem Kept.length (kept : arena.Kept texts places) : places.length = texts.length :=
  kept.lodged.length_eq.symm

theorem kept_ofSizing {sizing : Sizing} (built : sizing.Built) : (ofSizing sizing).Kept [] [] :=
  ⟨ready_ofSizing built.ordinary, .nil, .nil⟩

theorem Kept.concat {after : TextArena} {place : Stored} (kept : arena.Kept texts places)
    (ready : after.Ready) (extension : arena.Extends after) (lodges : after.Lodges text place)
    (own : text ≠ [] → ∀ other former, arena.Holds other former → other ≠ place) :
    after.Kept (texts ++ [text]) (places ++ [place]) := by
  refine ⟨ready, ?_, ?_⟩
  · exact List.rel_append (kept.lodged.imp fun _ _ => Lodges.extends extension)
      (.cons lodges .nil)
  · rw [List.zip_append kept.length.symm, List.zip_cons_cons, List.zip_nil_right,
      List.pairwise_append]
    refine ⟨kept.apart, List.pairwise_singleton _ _, ?_⟩
    intro first member second last same
    obtain rfl := List.mem_singleton.mp last
    have former : arena.Lodges first.1 first.2 := List.forall₂_iff_zip.mp kept.lodged |>.2 member
    by_cases empty : text = []
    · rw [lodges.empty_iff.mpr empty] at same
      exact ⟨former.empty_iff.mp same, empty⟩
    · -- A string that is laid out begins where its pool was not used before.
      by_cases absent : first.1 = []
      · exact absurd (lodges.empty_iff.mp (same.symm.trans (former.empty_iff.mpr absent))) empty
      · rw [Lodges, if_neg absent] at former
        exact absurd same (own empty _ _ former)

/-- One more string is kept, and all that were kept before still are. -/
theorem Kept.keep (kept : arena.Kept texts places) (short : text.length < positionLimit)
    (few : arena.pools.size < positionLimit - 1) :
    ∃ place after, keep text arena = .ok (.ok place, after) ∧
      after.Kept (texts ++ [text]) (places ++ [place]) := by
  by_cases empty : text = []
  · subst empty
    refine ⟨.empty, arena, rfl, kept.concat kept.ready (.refl arena) ?_ ?_⟩
    · simp [Lodges]
    · simp
  · obtain ⟨place, after, stored, ready, holds, extension, -, own⟩ :=
      store_ok kept.ready empty short few
    refine ⟨place, after, by simp [TextArena.keep, stored], kept.concat ready extension ?_ fun _ => own⟩
    simpa [Lodges, empty] using holds

theorem kept_runs {sizing : Sizing} (built : sizing.Built)
    (short : ∀ text ∈ texts, text.length < positionLimit)
    (few : ∀ count < texts.length, ∀ replies arena,
      runAll keep (texts.take count) (ofSizing sizing) = .ok (replies, arena) →
      arena.pools.size < positionLimit - 1) :
    ∃ places : List Stored, places.length = texts.length ∧ ∀ count ≤ texts.length, ∃ arena,
      runAll keep (texts.take count) (ofSizing sizing) =
        .ok ((places.take count).map .ok, arena) ∧
      arena.Kept (texts.take count) (places.take count) := by
  induction texts using List.reverseRecOn with
  | nil => exact ⟨[], rfl, fun count _ =>
      ⟨ofSizing sizing, by simp [runAll], by simpa using kept_ofSizing built⟩⟩
  | append_singleton texts text ih =>
    have early : ∀ count ≤ texts.length, (texts ++ [text]).take count = texts.take count :=
      fun count bound => List.take_append_of_le_length bound
    obtain ⟨places, length, prefixes⟩ := ih (fun other member => short other (by simp [member])) (by
      intro count bound replies arena ran
      rw [← early count (Nat.le_of_lt bound)] at ran
      exact few count (by simp; omega) replies arena ran)
    obtain ⟨arena, ran, kept⟩ := prefixes texts.length (Nat.le_refl _)
    rw [← early _ (Nat.le_refl _)] at ran
    have room := few texts.length (by simp) _ arena ran
    rw [List.take_left' rfl, List.take_of_length_le (Nat.le_of_eq length)] at ran
    rw [List.take_length, List.take_of_length_le (Nat.le_of_eq length)] at kept
    obtain ⟨place, after, performed, kept⟩ := kept.keep (short text (by simp)) room
    refine ⟨places ++ [place], by simp [length], fun count bound => ?_⟩
    rw [List.length_append, List.length_singleton] at bound
    by_cases old : count ≤ texts.length
    · rw [early count old, List.take_append_of_le_length (length ▸ old)]
      exact prefixes count old
    · rw [List.take_of_length_le (by simp; omega), List.take_of_length_le (by simp; omega)]
      exact ⟨after, by simpa using runAll_concat ran performed, kept⟩

/-- Storing strings that fit their headers never fails while there are pool numbers left.
After every beginning of the run, each string so far is read back from its place as it was
given, and no pool is filled beyond its end. The empty string takes nothing, and no two
other calls give the same place. -/
theorem strings_stay_apart {sizing : Sizing} (built : sizing.Built)
    (short : ∀ text ∈ texts, text.length < positionLimit)
    (few : ∀ count < texts.length, ∀ replies arena,
      runAll keep (texts.take count) (ofSizing sizing) = .ok (replies, arena) →
      arena.pools.size < positionLimit - 1) :
    ∃ places : List Stored, places.length = texts.length ∧
      (∀ count ≤ texts.length, ∃ arena,
        runAll keep (texts.take count) (ofSizing sizing) =
          .ok ((places.take count).map .ok, arena) ∧
        List.Forall₂ (fun text place => arena.read place = .ok text)
          (texts.take count) (places.take count) ∧
        ∀ pool ∈ arena.pools, pool.used ≤ pool.size) ∧
      (∀ kept ∈ texts.zip places, kept.2 = .empty ↔ kept.1 = []) ∧
      (∀ arena, keep [] arena = .ok (.ok .empty, arena)) ∧
      (texts.zip places).Pairwise fun first second =>
        first.2 = second.2 → first.1 = [] ∧ second.1 = [] := by
  obtain ⟨places, length, prefixes⟩ := kept_runs built short few
  obtain ⟨whole, -, kept⟩ := prefixes texts.length (Nat.le_refl _)
  rw [List.take_length, List.take_of_length_le (Nat.le_of_eq length)] at kept
  refine ⟨places, length, ?_, ?_, fun _ => rfl, kept.apart⟩
  · intro count bound
    obtain ⟨arena, ran, kept⟩ := prefixes count bound
    exact ⟨arena, ran, kept.lodged.imp fun _ _ => Lodges.read, kept.ready.within⟩
  · intro pair member
    have lodges : whole.Lodges pair.1 pair.2 := (List.forall₂_iff_zip.mp kept.lodged).2 member
    exact lodges.empty_iff

/-- Pools of 64 bytes: the first string fills one, the third has one of its own, and the
second and the last, which are alike, follow each other in the pool that is left. -/
theorem strings_stay_apart_small_pools :
    let texts : List Bytes := [List.replicate 60 7, [1, 2], List.replicate 100 9, [], [1, 2]]
    ∃ places arena, runAll keep texts (ofSizing (({} : Sizing).withPoolSize 0)) =
        .ok (places.map .ok, arena) ∧
      List.Forall₂ (fun text place => arena.read place = .ok text) texts places ∧
      places[1]? ≠ places[4]? := by
  intro texts
  have short : ∀ text ∈ texts, text.length < positionLimit := by decide
  have pools : ∀ count < 5,
      (runAll keep (texts.take count) (ofSizing (({} : Sizing).withPoolSize 0))).toOption.map
        (·.2.pools.size) ∈ [some 0, some 1, some 2, some 3] := by decide +kernel
  have few : ∀ count < texts.length, ∀ replies arena,
      runAll keep (texts.take count) (ofSizing (({} : Sizing).withPoolSize 0)) = .ok (replies, arena) →
      arena.pools.size < positionLimit - 1 := by
    intro count bound replies arena ran
    have known := pools count bound
    simp only [ran, Except.toOption, Option.map_some, List.mem_cons, List.not_mem_nil, or_false,
      Option.some.injEq] at known
    simp only [positionLimit]
    omega
  obtain ⟨places, length, runs, -, -, apart⟩ :=
    strings_stay_apart (.withPoolSize .default 0) short few
  obtain ⟨arena, ran, read, -⟩ := runs texts.length (Nat.le_refl _)
  rw [List.take_length, List.take_of_length_le (Nat.le_of_eq length)] at ran read
  refine ⟨places, arena, ran, read, fun same => ?_⟩
  have inside : ∀ index < 5, index < (texts.zip places).length ∧ index < places.length := by
    intro index bound
    simpa [length, texts] using bound
  have different := List.pairwise_iff_getElem.mp apart 1 4 (inside 1 (by decide)).1
    (inside 4 (by decide)).1 (by decide)
  rw [List.getElem?_eq_getElem (inside 1 (by decide)).2,
    List.getElem?_eq_getElem (inside 4 (by decide)).2] at same
  simp [Option.some.inj same, texts] at different

end TextArena

end CanonIR
