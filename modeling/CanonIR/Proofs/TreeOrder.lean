import CanonIR.Proofs.TreeTraversal

/-! Trees whose answers come from an order. Each value has a rank and a search compares a
target with the ranks it meets. The tree then keeps its values sorted, and stands for the
plain list of them in the order in which they came. -/

namespace CanonIR

variable {α β σ : Type} [Ord β]

/-- The values of a list under the slots that count them off. -/
def numbered (list : List α) : List (Slot × α) :=
  list.zipIdx.map fun (value, index) => (⟨index⟩, value)

theorem mem_numbered {list : List α} {slot : Slot} {value : α} :
    (slot, value) ∈ numbered list ↔ list[slot.raw]? = some value := by
  simp only [numbered, List.mem_map, List.mem_zipIdx_iff_getElem?, Prod.mk.injEq, Prod.exists]
  constructor
  · rintro ⟨_, _, found, rfl, rfl⟩
    exact found
  · exact fun found => ⟨value, slot.raw, found, rfl, rfl⟩

theorem numbered_append (list : List α) (value : α) :
    numbered (list ++ [value]) = numbered list ++ [(⟨list.length⟩, value)] := by
  simp [numbered, List.zipIdx_append]

theorem map_snd_numbered (list : List α) : (numbered list).map Prod.snd = list := by
  simp only [numbered, List.map_map]
  exact List.zipIdx_map_fst 0 list

namespace Tree

/-- Compares `target` with the rank of each value, and keeps no state. -/
def askBy (rank : α → β) (target : β) (value : α) (state : σ) : Ordering × σ :=
  (compare target (rank value), state)

/-- The answers that such a search gets. -/
def Compares (rank : α → β) (target : β) (value : α) (order : Ordering) : Prop :=
  order = compare target (rank value)

variable {tree : Tree α} {shape : Shape α} {rank : α → β} {target : β} {list : List α}

/-- Strictly ascending by rank. -/
def Ascends (rank : α → β) (values : List α) : Prop :=
  values.Pairwise fun first second => compare (rank first) (rank second) = .lt

/-- The tree is sound, is sorted by rank, and has the values of `list` under the slots
that count them off. -/
structure Arranges (rank : α → β) (tree : Tree α) (shape : Shape α) (list : List α) : Prop where
  sound : tree.Sound shape
  entries : shape.entries.Perm (numbered list)
  ascends : Ascends rank shape.values

/-- The tree stands for `list`. -/
def Lists (rank : α → β) (tree : Tree α) (list : List α) : Prop :=
  ∃ shape, tree.Arranges rank shape list

theorem lists_empty (rank : α → β) : ({} : Tree α).Lists rank [] :=
  ⟨.leaf, sound_empty, .refl _, .nil⟩

theorem Arranges.size (arranges : tree.Arranges rank shape list) : tree.size = list.length := by
  have same := arranges.entries.length_eq
  rw [← arranges.sound.complete]
  simpa [Shape.slots, numbered] using same

theorem Arranges.values_perm (arranges : tree.Arranges rank shape list) :
    shape.values.Perm list := by
  have same := arranges.entries.map Prod.snd
  rwa [map_snd_numbered] at same

theorem Lists.size (lists : tree.Lists rank list) : tree.size = list.length :=
  lists.choose_spec.size

theorem Lists.get (lists : tree.Lists rank list) {slot : Slot} {value : α} :
    tree.get slot = .ok value ↔ list[slot.raw]? = some value := by
  obtain ⟨shape, arranges⟩ := lists
  have stored : ∀ value, list[slot.raw]? = some value → tree.get slot = .ok value := by
    intro value found
    exact arranges.sound.reads.inside.get _ (arranges.entries.mem_iff.mpr (mem_numbered.mpr found))
  refine ⟨fun got => ?_, stored value⟩
  simp only [Tree.get, Checked.bind_eq_ok, Checked.pure_eq_ok, Except.ok.injEq] at got
  obtain ⟨node, here, rfl⟩ := got
  have inside : slot.raw < list.length := arranges.size ▸ raw_lt_size here
  have found : list[slot.raw]? = some list[slot.raw] := List.getElem?_eq_getElem inside
  have same := stored _ found
  simp only [Tree.get, here, Checked.ok_bind, Checked.pure_eq_ok, Except.ok.injEq] at same
  rw [found, same]

theorem Lists.values (lists : tree.Lists rank list) :
    ∃ sorted, tree.values = .ok sorted ∧ sorted.Perm list ∧ Ascends rank sorted := by
  obtain ⟨shape, arranges⟩ := lists
  exact ⟨shape.values, values_ok arranges.sound, arranges.values_perm, arranges.ascends⟩

theorem Lists.nodup [Std.ReflOrd β] (lists : tree.Lists rank list) : (list.map rank).Nodup := by
  obtain ⟨shape, arranges⟩ := lists
  apply (arranges.values_perm.map rank).nodup_iff.mp
  refine List.pairwise_map.mpr (arranges.ascends.imp ?_)
  intro first second lower same
  simp [same] at lower

theorem descend_pure {ask : α → σ → Ordering × σ} (pure : ∀ value state, (ask value state).2 = state)
    {fuel : Nat} {place : Option (Slot × Side)} {cursor : Option Slot} {state after : σ}
    {landing : Landing} (found : tree.descend ask fuel place cursor state = .ok (landing, after)) :
    after = state := by
  induction fuel generalizing place cursor state with
  | zero => cases cursor <;> simp_all [descend]
  | succ fuel ih =>
    cases cursor with
    | none => simp_all [descend]
    | some slot =>
      simp only [descend, Checked.bind_eq_ok] at found
      obtain ⟨node, -, found⟩ := found
      have kept := pure node.value state
      generalize ask node.value state = answer at found kept
      obtain ⟨order, middle⟩ := answer
      obtain rfl : middle = state := kept
      cases order with
      | lt => exact ih found
      | gt => exact ih found
      | eq => simp_all

theorem Arranges.locate (arranges : tree.Arranges rank shape list) (target : β) (state : σ) :
    ∃ landing, tree.locate (askBy rank target) state = .ok (landing, state) ∧
      Lands (Compares rank target) shape landing := by
  have lawful : ∀ value (state : σ), Compares rank target value (askBy rank target value state).1 :=
    fun _ _ => rfl
  obtain ⟨landing, after, located, lands⟩ := locate_ok arranges.sound lawful state
  obtain rfl := descend_pure (fun _ _ => rfl) located
  exact ⟨landing, located, lands⟩

/-- On the way to a gap in a sorted tree, what lies before it ranks below the target and
what lies after it ranks above. -/
theorem follows_parts [Std.TransOrd β] {path : Path α}
    (follows : path.Follows (Compares rank target))
    (ascends : Ascends rank ((path.before ++ path.after).map Prod.snd)) :
    (∀ entry ∈ path.before, compare (rank entry.2) target = .lt) ∧
      ∀ entry ∈ path.after, compare target (rank entry.2) = .lt := by
  induction path with
  | root => simp [Path.before, Path.after]
  | under frame outer ih =>
    obtain ⟨turn, follows⟩ := follows
    obtain ⟨side, color, slot, value, sibling⟩ := frame
    cases side with
    | left =>
      simp only [Path.before, Path.after, List.map_append, List.map_cons] at ascends ⊢
      have outside : Ascends rank ((outer.before ++ outer.after).map Prod.snd) := by
        refine ascends.sublist ?_
        simp only [List.map_append]
        exact .append (.refl _) (.trans (List.sublist_append_right _ _) (List.sublist_cons_self _ _))
      obtain ⟨lower, upper⟩ := ih follows outside
      refine ⟨lower, ?_⟩
      have above : compare target (rank value) = .lt := turn.symm
      have beyond := (List.pairwise_cons.mp (List.pairwise_append.mp ascends).2.1).1
      simp only [List.cons_append, List.mem_cons, List.mem_append]
      rintro entry (rfl | member | member)
      · exact above
      · exact Std.TransCmp.lt_trans above
          (beyond _ (List.mem_append_left _ (List.mem_map_of_mem member)))
      · exact upper entry member
    | right =>
      simp only [Path.before, Path.after, List.map_append, List.map_cons] at ascends ⊢
      have outside : Ascends rank ((outer.before ++ outer.after).map Prod.snd) := by
        refine ascends.sublist ?_
        simp only [List.map_append, List.append_assoc]
        exact .append (.refl _)
          (.trans (List.sublist_append_right _ _) (List.sublist_append_right _ _))
      obtain ⟨lower, upper⟩ := ih follows outside
      refine ⟨?_, upper⟩
      have under : compare (rank value) target = .lt := Std.OrientedCmp.gt_iff_lt.mp turn.symm
      have beneath := (List.pairwise_append.mp (List.pairwise_append.mp ascends).1).2.2
      simp only [List.mem_append, List.mem_singleton]
      rintro entry ((member | member) | rfl)
      · exact lower entry member
      · exact Std.TransCmp.lt_trans
          (beneath _ (List.mem_append_right _ (List.mem_map_of_mem member)) value (by simp)) under
      · exact under

variable [Std.LawfulEqOrd β]

theorem Arranges.locate_new (arranges : tree.Arranges rank shape list)
    (missing : target ∉ list.map rank) (state : σ) :
    ∃ path : Path α, path.fill .leaf = shape ∧ path.Follows (Compares rank target) ∧
      tree.locate (askBy rank target) state = .ok (.gap path.place?, state) := by
  obtain ⟨landing, located, lands⟩ := arranges.locate target state
  cases lands with
  | @hit slot value member equal =>
    have present := mem_numbered.mp (arranges.entries.mem_iff.mp member)
    obtain rfl : target = rank value := Std.LawfulEqOrd.eq_of_compare equal.symm
    exact absurd (List.mem_map_of_mem (List.mem_of_getElem? present)) missing
  | @gap path filled follows => exact ⟨path, filled, follows, located⟩

theorem Lists.find?_new (lists : tree.Lists rank list) (missing : target ∉ list.map rank)
    (state : σ) : tree.find? (askBy rank target) state = .ok (none, state) := by
  obtain ⟨shape, arranges⟩ := lists
  obtain ⟨path, -, -, located⟩ := arranges.locate_new missing state
  exact find?_gap located

/-- An insertion that returns found its rank or had room for what it built. -/
theorem Lists.insert_eq_ok (lists : tree.Lists rank list) (missing : target ∉ list.map rank)
    {state after : σ} {build : σ → Checked (α × σ)} {result : Slot × Bool} {larger : Tree α}
    (inserted : tree.insert (askBy rank target) build state = .ok (result, larger, after)) :
    list.length < positionLimit ∧ ∃ value, build state = .ok (value, after) := by
  obtain ⟨shape, arranges⟩ := lists
  obtain ⟨path, -, -, located⟩ := arranges.locate_new missing state
  simp only [insert, located, Checked.ok_bind, Checked.bind_eq_ok, Slab.next_eq_ok] at inserted
  obtain ⟨_, ⟨rfl, room⟩, ⟨value, middle⟩, built, _, -, _, -, equal⟩ := inserted
  have size : tree.nodes.size = list.length := arranges.size
  simp only [Checked.pure_eq_ok, Except.ok.injEq, Prod.mk.injEq] at equal
  obtain ⟨-, -, rfl⟩ := equal
  refine ⟨?_, value, built⟩
  simpa [Table.firstFree, size] using room

variable [Std.TransOrd β]

theorem Arranges.locate_known (arranges : tree.Arranges rank shape list) {slot : Slot} {value : α}
    (found : list[slot.raw]? = some value) (state : σ) :
    tree.locate (askBy rank (rank value)) state = .ok (.hit slot, state) := by
  obtain ⟨landing, located, lands⟩ := arranges.locate (rank value) state
  cases lands with
  | @hit other here member equal =>
    have same : rank value = rank here := Std.LawfulEqOrd.eq_of_compare equal.symm
    have present := mem_numbered.mp (arranges.entries.mem_iff.mp member)
    have equalRaw : other.raw = slot.raw := by
      have inside : other.raw < (list.map rank).length := by
        simpa using (List.getElem?_eq_some_iff.mp present).1
      exact (List.getElem?_inj inside (Lists.nodup ⟨shape, arranges⟩)).mp
        (by simp [found, present, same])
    obtain ⟨raw⟩ := other
    obtain rfl : raw = slot.raw := equalRaw
    exact located
  | @gap path filled follows =>
    have order : shape.entries = path.before ++ path.after := filled ▸ path.entries_fill_leaf
    obtain ⟨lower, upper⟩ := follows_parts follows (order ▸ arranges.ascends)
    have member := arranges.entries.mem_iff.mpr (mem_numbered.mpr found)
    rw [order, List.mem_append] at member
    rcases member with member | member
    · simpa using lower _ member
    · simpa using upper _ member

theorem Lists.find?_known (lists : tree.Lists rank list) (slot : Slot) {value : α}
    (found : list[slot.raw]? = some value) (state : σ) :
    tree.find? (askBy rank (rank value)) state = .ok (some slot, state) := by
  obtain ⟨shape, arranges⟩ := lists
  exact find?_hit (arranges.locate_known found state)

theorem Lists.insert_known (lists : tree.Lists rank list) (slot : Slot) {value : α}
    (found : list[slot.raw]? = some value) (build : σ → Checked (α × σ)) (state : σ) :
    tree.insert (askBy rank (rank value)) build state = .ok ((slot, false), tree, state) := by
  obtain ⟨shape, arranges⟩ := lists
  exact insert_hit (arranges.locate_known found state)

/-- A new value goes to the end of the list, and into the tree at the gap that its rank
asks for. -/
theorem Lists.insert_new (lists : tree.Lists rank list) {value : α} {state after : σ}
    {build : σ → Checked (α × σ)} (missing : rank value ∉ list.map rank)
    (room : list.length < positionLimit) (built : build state = .ok (value, after)) :
    ∃ larger, tree.insert (askBy rank (rank value)) build state =
      .ok ((⟨list.length⟩, true), larger, after) ∧ larger.Lists rank (list ++ [value]) := by
  obtain ⟨shape, arranges⟩ := lists
  obtain ⟨path, filled, follows, located⟩ := arranges.locate_new missing state
  have size := arranges.size
  obtain ⟨larger, grown, inserted, sound, -, order⟩ :=
    insert_gap arranges.sound filled located (size ▸ room) built
  rw [size] at inserted order
  have old : shape.entries = path.before ++ path.after := filled ▸ path.entries_fill_leaf
  refine ⟨larger, inserted, grown, sound, ?_, ?_⟩
  · rw [order, numbered_append]
    exact List.perm_middle.trans
      (((List.Perm.of_eq old.symm).trans arranges.entries).cons _ |>.trans
        (List.perm_append_singleton _ _).symm)
  · have ascends : Ascends rank ((path.before ++ path.after).map Prod.snd) := old ▸ arranges.ascends
    obtain ⟨lower, upper⟩ := follows_parts follows ascends
    simp only [Ascends, List.map_append, List.pairwise_append] at ascends
    obtain ⟨first, second, across⟩ := ascends
    simp only [Shape.values, order, List.map_append, List.map_cons, Ascends, List.pairwise_append,
      List.pairwise_cons, List.mem_cons, List.mem_map]
    refine ⟨first, ⟨?_, second⟩, ?_⟩
    · rintro _ ⟨entry, member, rfl⟩
      exact upper entry member
    · rintro _ ⟨entry, member, rfl⟩ _ (rfl | ⟨other, beyond, rfl⟩)
      · exact lower entry member
      · exact across _ (List.mem_map_of_mem member) _ (List.mem_map_of_mem beyond)

end Tree

end CanonIR
