import CanonIR.Text.ReservedWord

/-! Halving the table of reserved words finds a text exactly if it is there. Nothing is
asked of the text: it may be empty, end early, go on too long or be badly encoded. -/

namespace CanonIR

/-- Halving finds where a predicate that only goes from true to false does so. -/
theorem boundary_parts {before : Nat → Bool} {low high : Nat} (ordered : low ≤ high)
    (monotone : ∀ first second, low ≤ first → first ≤ second → second < high →
      before second = true → before first = true) :
    low ≤ boundary before low high ∧ boundary before low high ≤ high ∧
      (∀ index, low ≤ index → index < boundary before low high → before index = true) ∧
      ∀ index, boundary before low high ≤ index → index < high → before index = false := by
  fun_induction boundary before low high with
  | case1 low high inside middle holds ih =>
    have half : low ≤ middle ∧ middle < high := by omega
    obtain ⟨lower, upper, first, second⟩ := ih (by omega)
      fun index other start step stop => monotone index other (by omega) step stop
    refine ⟨by omega, upper, ?_, second⟩
    intro index start stop
    by_cases beyond : middle + 1 ≤ index
    · exact first index beyond stop
    · exact monotone index middle start (by omega) half.2 holds
  | case2 low high inside middle fails ih =>
    have half : low ≤ middle ∧ middle < high := by omega
    obtain ⟨lower, upper, first, second⟩ := ih half.1
      fun index other start step stop => monotone index other start step (by omega)
    refine ⟨lower, by omega, first, ?_⟩
    intro index start stop
    by_cases below : index < middle
    · exact second index start below
    · have further := monotone middle index half.1 (by omega) stop
      simp_all
  | case3 low high outside =>
    exact ⟨Nat.le_refl _, ordered, by omega, by omega⟩

namespace Bytes

instance : Std.TransCmp Bytes.order := inferInstanceAs (Std.TransCmp (compare : Bytes → Bytes → _))

instance : Std.LawfulEqCmp Bytes.order :=
  inferInstanceAs (Std.LawfulEqCmp (compare : Bytes → Bytes → _))

theorem order_self (text : Bytes) : text.order text = .eq := Std.ReflCmp.compare_self

end Bytes

namespace ReservedWord

def words : List Bytes := table.toList.map Bytes.ofString

theorem bytes?_eq (index : Nat) : bytes? index = words[index]? := by
  simp [bytes?, words]

theorem length_words : words.length = table.size := by
  simp [words]

theorem words_ascend : words.Pairwise fun first second => first.order second = .lt := by
  decide +kernel

theorem precedes_eq {text word : Bytes} {index : Nat} (found : words[index]? = some word) :
    precedes text index = (word.order text == .lt) := by
  simp [precedes, bytes?_eq, found]

/-- What precedes a text comes before all that does not. -/
theorem precedes_monotone (text : Bytes) {first second : Nat} (step : first ≤ second)
    (inside : second < table.size) (holds : precedes text second = true) :
    precedes text first = true := by
  rw [← length_words] at inside
  rcases Nat.eq_or_lt_of_le step with rfl | earlier
  · exact holds
  · have before := List.pairwise_iff_getElem.mp words_ascend first second (by omega) inside earlier
    rw [precedes_eq (List.getElem?_eq_getElem inside), beq_iff_eq] at holds
    rw [precedes_eq (List.getElem?_eq_getElem (Nat.lt_trans earlier inside)), beq_iff_eq]
    exact Std.TransCmp.lt_trans before holds

theorem find?_eq_some {text : Bytes} {index : Nat} :
    find? text = some index ↔ bytes? index = some text := by
  obtain ⟨-, -, first, second⟩ := boundary_parts (Nat.zero_le table.size)
    fun _ _ _ => precedes_monotone text
  simp only [find?]
  generalize boundary (precedes text) 0 table.size = position at first second
  constructor
  · split
    · rintro ⟨rfl⟩
      assumption
    · simp
  · intro found
    rw [bytes?_eq] at found
    obtain ⟨inside, equal⟩ := List.getElem?_eq_some_iff.mp found
    have stop : precedes text index = false := by
      rw [precedes_eq found, Bytes.order_self]
      rfl
    have upper : position ≤ index := by
      apply Nat.le_of_not_lt
      intro beyond
      simp [first index (Nat.zero_le _) beyond] at stop
    have lower : index ≤ position := by
      apply Nat.le_of_not_lt
      intro short
      have before := List.pairwise_iff_getElem.mp words_ascend position index (by omega) inside
        (by omega)
      have reached := second position (Nat.le_refl _) (by rw [← length_words]; omega)
      rw [precedes_eq (List.getElem?_eq_getElem (by omega)), ← equal, before] at reached
      cases reached
    obtain rfl : position = index := by omega
    rw [if_pos (by rw [bytes?_eq, found])]

theorem find?_eq_none {text : Bytes} : find? text = none ↔ text ∉ words := by
  rw [Option.eq_none_iff_forall_ne_some]
  simp only [ne_eq, find?_eq_some, bytes?_eq, List.mem_iff_getElem?, not_exists]

theorem nil_notMem_words : [] ∉ words := by decide +kernel

end ReservedWord

end CanonIR
