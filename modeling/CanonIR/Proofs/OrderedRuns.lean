import CanonIR.Proofs.IndexLaws
import CanonIR.Proofs.TreeCalls

/-! Runs of calls whose answers come from one order, against the plain list that such a
run ought to behave like. The list holds the values in the order in which they first came,
one for each rank; it knows nothing of colours, links or gaps. -/

namespace CanonIR

variable {κ α β ν σ τ : Type}

/-- A call that says by a key what it looks for. -/
inductive KeyCall (κ α σ : Type) where
  | insertSlot (key : κ) (build : σ → α × σ)
  | findSlot (key : κ)

namespace KeyCall

def onTree [Ord β] (f : κ → β) (rank : α → β) : KeyCall κ α σ → TreeCall α σ
  | insertSlot key build => .insertSlot (Tree.askBy rank (f key)) build
  | findSlot key => .findSlot (Tree.askBy rank (f key))

def onList [DecidableEq β] (f : κ → β) (rank : α → β) :
    KeyCall κ α σ → List α × σ → TreeReply α × List α × σ
  | insertSlot key build, (list, state) =>
    match list.findIdx? fun value => rank value = f key with
    | some index => (.inserted ⟨index⟩ false, list, state)
    | none =>
      let (value, state) := build state
      (.inserted ⟨list.length⟩ true, list ++ [value], state)
  | findSlot key, (list, state) =>
    (.found ((list.findIdx? fun value => rank value = f key).map Handle.mk), list, state)

/-- What is built for a key has the rank of the key. -/
def Faithful (f : κ → β) (rank : α → β) : KeyCall κ α σ → Prop
  | insertSlot key build => ∀ state, rank (build state).1 = f key
  | findSlot _ => True

end KeyCall

/-- What a tree shows of the list that it stands for. -/
structure Tree.Mirrors [Ord β] (rank : α → β) (tree : Tree α) (list : List α) : Prop where
  size : tree.size = list.length
  get : ∀ index value, tree.get ⟨index⟩ = .ok value ↔ list[index]? = some value
  values : ∃ sorted, tree.values = .ok sorted ∧ sorted.Perm list ∧ Tree.Ascends rank sorted

theorem Tree.Lists.mirrors [Ord β] {rank : α → β} {tree : Tree α} {list : List α}
    (lists : tree.Lists rank list) : tree.Mirrors rank list :=
  ⟨lists.size, fun _ _ => lists.get, lists.values⟩

section Steps

variable [DecidableEq β] {f : κ → β} {rank : α → β} {list : List α} {target : β}

theorem getElem?_of_findIdx? {index : Nat}
    (found : (list.findIdx? fun value => rank value = target) = some index) :
    ∃ value, list[index]? = some value ∧ rank value = target := by
  obtain ⟨inside, equal, -⟩ := List.findIdx?_eq_some_iff_getElem.mp found
  exact ⟨list[index], List.getElem?_eq_getElem inside, by simpa using equal⟩

theorem notMem_of_findIdx? (missing : (list.findIdx? fun value => rank value = target) = none) :
    target ∉ list.map rank := by
  simp only [List.findIdx?_eq_none_iff, decide_eq_false_iff_not] at missing
  simpa [List.mem_map] using missing

theorem KeyCall.prefix_onList (call : KeyCall κ α σ) (image : List α × σ) :
    image.1 <+: (call.onList f rank image).2.1 := by
  obtain ⟨list, state⟩ := image
  cases call with
  | insertSlot key build =>
    simp only [onList]
    split
    · exact List.prefix_rfl
    · exact List.prefix_append _ _
  | findSlot key => exact List.prefix_rfl

variable [Ord β] [Std.TransOrd β] [Std.LawfulEqOrd β]

/-- One call on the tree does what it does on the list. -/
theorem KeyCall.perform_onList (call : KeyCall κ α σ) (faithful : call.Faithful f rank)
    {tree : Tree α} (lists : tree.Lists rank list) (state : σ)
    (room : (call.onList f rank (list, state)).2.1.length ≤ positionLimit) :
    ∃ larger, (call.onTree f rank).perform tree state =
        .ok ((call.onList f rank (list, state)).1, larger, (call.onList f rank (list, state)).2.2) ∧
      larger.Lists rank (call.onList f rank (list, state)).2.1 := by
  cases call with
  | insertSlot key build =>
    cases found : list.findIdx? fun value => rank value = f key with
    | some index =>
      obtain ⟨value, present, same⟩ := getElem?_of_findIdx? found
      have known := fun build => same ▸ lists.insert_known ⟨index⟩ present build state
      exact ⟨tree, by simp [onTree, onList, TreeCall.perform, found, known], by simpa [onList, found]⟩
    | none =>
      obtain ⟨built, after, made⟩ : ∃ built after, build state = (built, after) := ⟨_, _, rfl⟩
      have same : rank built = f key := by simpa [made] using faithful state
      have missing : rank built ∉ list.map rank := same ▸ notMem_of_findIdx? found
      have fits : list.length < positionLimit := by
        simp only [onList, found, List.length_append, List.length_singleton] at room
        omega
      let building : σ → Checked (α × σ) := fun state => .ok (build state)
      have built : building state = .ok (built, after) := congrArg Except.ok made
      obtain ⟨larger, inserted, lists⟩ := lists.insert_new missing fits built
      simp only [same, building] at inserted
      exact ⟨larger, by simp [onTree, onList, TreeCall.perform, found, inserted, made],
        by simpa [onList, found, made]⟩
  | findSlot key =>
    refine ⟨tree, ?_, lists⟩
    cases found : list.findIdx? fun value => rank value = f key with
    | some index =>
      obtain ⟨value, present, same⟩ := getElem?_of_findIdx? found
      have known := same ▸ lists.find?_known ⟨index⟩ present state
      simp [onTree, onList, TreeCall.perform, found, known]
    | none =>
      have missing := lists.find?_new (notMem_of_findIdx? found) state
      simp [onTree, onList, TreeCall.perform, found, missing]

theorem runCalls_onList {calls : List (KeyCall κ α σ)}
    (faithful : ∀ call ∈ calls, call.Faithful f rank) {tree : Tree α} (lists : tree.Lists rank list)
    (state : σ)
    (room : (replay (KeyCall.onList f rank) calls (list, state)).2.1.length ≤ positionLimit) :
    ∃ larger, Tree.runCalls (calls.map (KeyCall.onTree f rank)) tree state =
        .ok ((replay (KeyCall.onList f rank) calls (list, state)).1, larger,
          (replay (KeyCall.onList f rank) calls (list, state)).2.2) ∧
      larger.Lists rank (replay (KeyCall.onList f rank) calls (list, state)).2.1 := by
  let relates : Tree α × σ → List α × σ → Prop := fun here image =>
    here.1.Lists rank image.1 ∧ here.2 = image.2
  let fits : List α × σ → Prop := fun image => image.1.length ≤ positionLimit
  have step : ∀ call : KeyCall κ α σ, call.Faithful f rank → ∀ here image, relates here image →
      fits (call.onList f rank image).2 →
      ∃ after, (call.onTree f rank).perform here.1 here.2 = .ok ((call.onList f rank image).1, after) ∧
        relates after (call.onList f rank image).2 := by
    intro call faithful ⟨tree, state⟩ ⟨list, same⟩ ⟨lists, equal⟩ room
    obtain rfl : state = same := equal
    obtain ⟨larger, performed, lists⟩ := call.perform_onList faithful lists state room
    exact ⟨(larger, _), performed, lists, rfl⟩
  have shrinks : ∀ (call : KeyCall κ α σ) image, fits (call.onList f rank image).2 → fits image :=
    fun call image room => Nat.le_trans (call.prefix_onList image).length_le room
  have related : relates (tree, state) (list, state) := ⟨lists, rfl⟩
  obtain ⟨⟨larger, final⟩, ran, lists, same⟩ := runAll_replay step shrinks faithful related room
  refine ⟨larger, ?_, lists⟩
  rw [Tree.runCalls, runAll_map, ← same]
  exact ran

end Steps

inductive IndexCall (κ ν σ : Type) where
  | getOrMake (key : κ) (make : σ → ν × σ)
  | get (key : κ)

inductive IndexReply (ν : Type) where
  | given (value : ν) (fresh : Bool)
  | got (value : Option ν)

namespace IndexCall

def perform [Ord κ] : IndexCall κ ν σ → Index κ ν × σ → Checked (IndexReply ν × Index κ ν × σ)
  | getOrMake key make, (index, state) => do
    let ((value, fresh), index, state) ← index.getOrMake key (fun state => .ok (make state)) state
    return (.given value fresh, index, state)
  | get key, (index, state) => do
    return (.got (← index.get? key), index, state)

def onEntries [DecidableEq κ] : IndexCall κ ν σ → List (IndexEntry κ ν) × σ →
    IndexReply ν × List (IndexEntry κ ν) × σ
  | getOrMake key make, (entries, state) =>
    match entries.find? fun entry => entry.key = key with
    | some entry => (.given entry.value false, entries, state)
    | none =>
      let (value, state) := make state
      (.given value true, entries ++ [⟨key, value⟩], state)
  | get key, (entries, state) =>
    (.got ((entries.find? fun entry => entry.key = key).map IndexEntry.value), entries, state)

/-- The key that a call may make a value for. -/
def making? : IndexCall κ ν σ → Option κ
  | getOrMake key _ => some key
  | get _ => none

variable [DecidableEq κ] {entries : List (IndexEntry κ ν)} {key : κ}

theorem prefix_onEntries (call : IndexCall κ ν σ) (image : List (IndexEntry κ ν) × σ) :
    image.1 <+: (call.onEntries image).2.1 := by
  obtain ⟨entries, state⟩ := image
  cases call with
  | getOrMake key make =>
    simp only [onEntries]
    split
    · exact List.prefix_rfl
    · exact List.prefix_append _ _
  | get key => exact List.prefix_rfl

theorem notMem_of_find? (missing : (entries.find? fun entry => entry.key = key) = none) :
    key ∉ entries.map IndexEntry.key := by
  simpa [List.mem_map] using missing

theorem mem_of_find? {entry : IndexEntry κ ν}
    (found : (entries.find? fun entry => entry.key = key) = some entry) :
    ⟨key, entry.value⟩ ∈ entries := by
  have same : entry.key = key := by simpa using List.find?_some found
  exact same ▸ List.mem_of_find?_eq_some found

/-- Values are made once for each key, in the order in which the keys first come. -/
theorem keys_replay (calls : List (IndexCall κ ν σ)) (state : σ)
    (distinct : (entries.map IndexEntry.key).Nodup) :
    (replay onEntries calls (entries, state)).2.1.map IndexEntry.key =
      (entries.map IndexEntry.key ++ calls.filterMap making?).eraseDups := by
  induction calls generalizing entries state with
  | nil => simp [replay, eraseDups_of_nodup distinct]
  | cons call rest ih =>
    cases call with
    | get key => exact ih state distinct
    | getOrMake key make =>
      simp only [replay, onEntries, List.filterMap_cons, making?]
      cases found : entries.find? fun entry => entry.key = key with
      | some entry =>
        have known := List.mem_map_of_mem (f := IndexEntry.key) (mem_of_find? found)
        rw [eraseDups_append_known known]
        exact ih state distinct
      | none =>
        have fresh := notMem_of_find? found
        let grown : List (IndexEntry κ ν) := entries ++ [⟨key, (make state).1⟩]
        have keys : grown.map IndexEntry.key = entries.map IndexEntry.key ++ [key] := by simp [grown]
        have larger : (grown.map IndexEntry.key).Nodup := by
          rw [keys]
          refine List.nodup_append.mpr ⟨distinct, by simp, ?_⟩
          intro other member last inside same
          subst same
          exact fresh (List.mem_singleton.mp inside ▸ member)
        have rest := ih (make state).2 larger
        rwa [keys, List.append_assoc, List.singleton_append] at rest

variable [Ord κ] [Std.TransOrd κ] [Std.LawfulEqOrd κ]

/-- One call on the index does what it does on the list. -/
theorem perform_onEntries (call : IndexCall κ ν σ) {index : Index κ ν}
    (stores : index.Stores entries) (state : σ)
    (room : (call.onEntries (entries, state)).2.1.length ≤ positionLimit) :
    ∃ larger, call.perform (index, state) =
        .ok ((call.onEntries (entries, state)).1, larger, (call.onEntries (entries, state)).2.2) ∧
      larger.Stores (call.onEntries (entries, state)).2.1 := by
  cases call with
  | getOrMake key make =>
    cases found : entries.find? fun entry => entry.key = key with
    | some entry =>
      have known := stores.getOrMake_known (mem_of_find? found)
        (fun state => .ok (make state)) state
      exact ⟨index, by simp [perform, onEntries, found, known], by simpa [onEntries, found]⟩
    | none =>
      obtain ⟨value, after, made⟩ : ∃ value after, make state = (value, after) := ⟨_, _, rfl⟩
      have fits : entries.length < positionLimit := by
        simp only [onEntries, found, List.length_append, List.length_singleton] at room
        omega
      let making : σ → Checked (ν × σ) := fun state => .ok (make state)
      have built : making state = .ok (value, after) := congrArg Except.ok made
      obtain ⟨larger, given, stores⟩ := stores.getOrMake_new (notMem_of_find? found) fits built
      simp only [making] at given
      exact ⟨larger, by simp [perform, onEntries, found, given, made],
        by simpa [onEntries, found, made]⟩
  | get key =>
    refine ⟨index, ?_, stores⟩
    cases found : entries.find? fun entry => entry.key = key with
    | some entry => simp [perform, onEntries, found, stores.get?_known (mem_of_find? found)]
    | none => simp [perform, onEntries, found, stores.get?_new (notMem_of_find? found)]

theorem runAll_onEntries {calls : List (IndexCall κ ν σ)} {index : Index κ ν}
    (stores : index.Stores entries) (state : σ)
    (room : (replay onEntries calls (entries, state)).2.1.length ≤ positionLimit) :
    ∃ larger, runAll perform calls (index, state) =
        .ok ((replay onEntries calls (entries, state)).1, larger,
          (replay onEntries calls (entries, state)).2.2) ∧
      larger.Stores (replay onEntries calls (entries, state)).2.1 := by
  let relates : Index κ ν × σ → List (IndexEntry κ ν) × σ → Prop := fun here image =>
    here.1.Stores image.1 ∧ here.2 = image.2
  let fits : List (IndexEntry κ ν) × σ → Prop := fun image => image.1.length ≤ positionLimit
  have step : ∀ call : IndexCall κ ν σ, True → ∀ here image, relates here image →
      fits (call.onEntries image).2 →
      ∃ after, call.perform here = .ok ((call.onEntries image).1, after) ∧
        relates after (call.onEntries image).2 := by
    rintro call - ⟨index, state⟩ ⟨entries, same⟩ ⟨stores, equal⟩ room
    obtain rfl : state = same := equal
    obtain ⟨larger, performed, stores⟩ := call.perform_onEntries stores state room
    exact ⟨(larger, _), performed, stores, rfl⟩
  have shrinks : ∀ (call : IndexCall κ ν σ) image, fits (call.onEntries image).2 → fits image :=
    fun call image room => Nat.le_trans (call.prefix_onEntries image).length_le room
  have related : relates (index, state) (entries, state) := ⟨stores, rfl⟩
  obtain ⟨⟨larger, final⟩, ran, stores, same⟩ :=
    runAll_replay step shrinks (fun _ _ => trivial) related room
  exact ⟨larger, same ▸ ran, stores⟩

end IndexCall

inductive SequencesCall (τ : Type) where
  | intern (items : List τ)
  | find (items : List τ)

namespace SequencesCall

def perform [Ord τ] : SequencesCall τ → Sequences τ → Checked (TreeReply (List τ) × Sequences τ)
  | intern items, sequences => do
    let ((slot, fresh), sequences) ← sequences.intern items
    return (.inserted slot fresh, sequences)
  | find items, sequences => do
    return (.found (← sequences.find? items), sequences)

/-- A sequence is its own key. -/
def asKeyCall : SequencesCall τ → KeyCall (List τ) (List τ) Unit
  | intern items => .insertSlot items fun state => (items, state)
  | find items => .findSlot items

def onList [DecidableEq τ] (call : SequencesCall τ) :
    List (List τ) × Unit → TreeReply (List τ) × List (List τ) × Unit :=
  call.asKeyCall.onList id id

theorem perform_eq [Ord τ] (call : SequencesCall τ) (sequences : Sequences τ) :
    call.perform sequences = (do
      let (reply, tree, _) ← (call.asKeyCall.onTree id id).perform sequences.tree ()
      return (reply, ⟨tree⟩)) := by
  cases call with
  | intern items => simp [perform, asKeyCall, KeyCall.onTree, TreeCall.perform, Sequences.intern_eq]
  | find items => simp [perform, asKeyCall, KeyCall.onTree, TreeCall.perform, Sequences.find?_eq]

variable [DecidableEq τ] [Ord τ] [Std.TransOrd τ] [Std.LawfulEqOrd τ]

theorem runAll_onList {calls : List (SequencesCall τ)} {sequences : Sequences τ}
    {list : List (List τ)} (stores : sequences.Stores list)
    (room : (replay onList calls (list, ())).2.1.length ≤ positionLimit) :
    ∃ larger, runAll perform calls sequences = .ok ((replay onList calls (list, ())).1, larger) ∧
      larger.Stores (replay onList calls (list, ())).2.1 := by
  let relates : Sequences τ → List (List τ) × Unit → Prop := fun here image => here.Stores image.1
  let fits : List (List τ) × Unit → Prop := fun image => image.1.length ≤ positionLimit
  have step : ∀ call : SequencesCall τ, True → ∀ here image, relates here image →
      fits (call.onList image).2 →
      ∃ after, call.perform here = .ok ((call.onList image).1, after) ∧
        relates after (call.onList image).2 := by
    rintro call - here ⟨list, state⟩ stores room
    have faithful : call.asKeyCall.Faithful id id := by
      cases call with
      | intern items => exact fun _ => rfl
      | find items => trivial
    obtain ⟨larger, performed, lists⟩ := call.asKeyCall.perform_onList faithful stores state room
    exact ⟨⟨larger⟩, by simp [perform_eq, performed, onList], lists⟩
  have shrinks : ∀ (call : SequencesCall τ) image, fits (call.onList image).2 → fits image :=
    fun call image room => Nat.le_trans (call.asKeyCall.prefix_onList image).length_le room
  exact runAll_replay step shrinks (fun _ _ => trivial) stores room

end SequencesCall

section Whole

variable [DecidableEq β] [Ord β] [Std.TransOrd β] [Std.LawfulEqOrd β]

/-- What an earlier part of a run put under a slot is there at the end. -/
theorem runCalls_mirrors {f : κ → β} {rank : α → β} {calls : List (KeyCall κ α σ)} {state after : σ}
    {replies : List (TreeReply α)} {list : List α}
    (faithful : ∀ call ∈ calls, call.Faithful f rank)
    (replayed : replay (KeyCall.onList f rank) calls ([], state) = (replies, list, after))
    (room : list.length ≤ positionLimit) :
    ∃ tree, Tree.runCalls (calls.map (KeyCall.onTree f rank)) {} state = .ok (replies, tree, after) ∧
      tree.Mirrors rank list ∧
      ∀ early later, calls = early ++ later → ∃ earlyReplies earlier middle,
        Tree.runCalls (early.map (KeyCall.onTree f rank)) {} state =
          .ok (earlyReplies, earlier, middle) ∧
        ∀ slot value, earlier.get slot = .ok value → tree.get slot = .ok value := by
  have fits : (replay (KeyCall.onList f rank) calls ([], state)).2.1.length ≤ positionLimit := by
    rwa [replayed]
  obtain ⟨tree, ran, lists⟩ := runCalls_onList faithful (Tree.lists_empty rank) state fits
  rw [replayed] at ran lists
  refine ⟨tree, ran, lists.mirrors, ?_⟩
  intro early later same
  subst same
  have kept : (replay (KeyCall.onList f rank) early ([], state)).2.1 <+: list := by
    have step : ∀ (call : KeyCall κ α σ) image, image.1 <+: (call.onList f rank image).2.1 :=
      KeyCall.prefix_onList
    have grown := replay_grows (fun old new : List α × σ => old.1 <+: new.1)
      (fun _ => List.prefix_rfl) List.IsPrefix.trans step later
      (replay (KeyCall.onList f rank) early ([], state)).2
    rwa [← replay_append, replayed] at grown
  obtain ⟨earlier, earlyRan, earlyLists⟩ :=
    runCalls_onList (fun call member => faithful call (List.mem_append_left _ member))
      (Tree.lists_empty rank) state (Nat.le_trans kept.length_le room)
  refine ⟨_, earlier, _, earlyRan, ?_⟩
  intro slot value got
  exact lists.get.mpr (getElem?_of_isPrefix kept (earlyLists.get.mp got))

/-- Runs that ask one order behave like runs on a plain list. A tree finds by rank what the
list has first, keeps every value under its slot, and reads as the list in sorted order. So
an index makes one value for each key and hands out that one, and the slot that the empty
sequence starts with stays its own. -/
theorem ordered_runs_follow_lists (f : κ → β) (rank : α → β) :
    (∀ (calls : List (KeyCall κ α σ)) (state after : σ) (replies : List (TreeReply α))
        (list : List α),
      (∀ call ∈ calls, call.Faithful f rank) →
      replay (KeyCall.onList f rank) calls ([], state) = (replies, list, after) →
      list.length ≤ positionLimit →
      ∃ tree,
        Tree.runCalls (calls.map (KeyCall.onTree f rank)) {} state = .ok (replies, tree, after) ∧
        tree.Mirrors rank list ∧
        ∀ early later, calls = early ++ later → ∃ earlyReplies earlier middle,
          Tree.runCalls (early.map (KeyCall.onTree f rank)) {} state =
            .ok (earlyReplies, earlier, middle) ∧
          ∀ slot value, earlier.get slot = .ok value → tree.get slot = .ok value) ∧
    (∀ (calls : List (IndexCall β ν σ)) (state after : σ) (replies : List (IndexReply ν))
        (entries : List (IndexEntry β ν)),
      replay IndexCall.onEntries calls ([], state) = (replies, entries, after) →
      entries.length ≤ positionLimit →
      (∃ index : Index β ν,
        runAll IndexCall.perform calls ({}, state) = .ok (replies, index, after) ∧
        index.tree.Mirrors IndexEntry.key entries) ∧
      entries.map IndexEntry.key = (calls.filterMap IndexCall.making?).eraseDups) ∧
    (∀ (calls : List (SequencesCall β)) (replies : List (TreeReply (List β)))
        (list : List (List β)),
      replay SequencesCall.onList calls ([[]], ()) = (replies, list, ()) →
      list.length ≤ positionLimit →
      ∃ sequences : Sequences β,
        runAll SequencesCall.perform calls .initial = .ok (replies, sequences) ∧
        sequences.tree.Mirrors id list ∧ sequences.get Sequences.emptySlot = .ok []) := by
  refine ⟨fun calls state after replies list => runCalls_mirrors, ?_, ?_⟩
  · intro calls state after replies entries replayed room
    have fits : (replay IndexCall.onEntries calls ([], state)).2.1.length ≤ positionLimit := by
      rwa [replayed]
    obtain ⟨index, ran, stores⟩ := IndexCall.runAll_onEntries Index.stores_empty state fits
    have none : (([] : List (IndexEntry β ν)).map IndexEntry.key).Nodup := List.nodup_nil
    have keys := IndexCall.keys_replay calls state none
    rw [replayed] at ran stores keys
    exact ⟨⟨index, ran, Tree.Lists.mirrors stores⟩, keys⟩
  · intro calls replies list replayed room
    have fits : (replay SequencesCall.onList calls ([[]], ())).2.1.length ≤ positionLimit := by
      rwa [replayed]
    obtain ⟨sequences, ran, stores⟩ := SequencesCall.runAll_onList Sequences.stores_initial fits
    have first : [[]] <+: (replay SequencesCall.onList calls ([[]], ())).2.1 := by
      have step : ∀ (call : SequencesCall β) image, image.1 <+: (call.onList image).2.1 :=
        fun call => call.asKeyCall.prefix_onList
      exact replay_grows (fun old new : List (List β) × Unit => old.1 <+: new.1)
        (fun _ => List.prefix_rfl) List.IsPrefix.trans step calls ([[]], ())
    rw [replayed] at ran stores first
    exact ⟨sequences, ran, Tree.Lists.mirrors stores,
      stores.get.mpr (getElem?_of_isPrefix first rfl)⟩

end Whole

/-- Keys by tens: 12 finds what was built for 15, and the state counts what was built. -/
theorem ordered_runs_follow_lists_tens :
    (∃ tree : Tree Nat,
      Tree.runCalls ([.insertSlot 15 fun n => (15, n + 1), .insertSlot 3 fun n => (3, n + 1),
          .insertSlot 12 fun n => (12, n + 1), .findSlot 7, .findSlot 99].map
            (KeyCall.onTree (· / 10) (· / 10))) {} 0 =
        .ok ([.inserted ⟨0⟩ true, .inserted ⟨1⟩ true, .inserted ⟨0⟩ false, .found (some ⟨1⟩),
          .found none], tree, 2) ∧ tree.Mirrors (· / 10) [15, 3]) ∧
    (∃ index : Index Nat Nat,
      runAll IndexCall.perform [.getOrMake 5 fun n => (n, n + 1), .getOrMake 2 fun n => (n, n + 1),
          .getOrMake 5 fun n => (n, n + 1), .get 7] ({}, 0) =
        .ok ([.given 0 true, .given 1 true, .given 0 false, .got none], index, 2)) ∧
    ∃ sequences : Sequences Nat,
      runAll SequencesCall.perform [.intern [4], .intern [], .find [4]] .initial =
        .ok ([.inserted ⟨1⟩ true, .inserted ⟨0⟩ false, .found (some ⟨1⟩)], sequences) ∧
      sequences.get Sequences.emptySlot = .ok [] := by
  obtain ⟨trees, indexes, sequences⟩ := ordered_runs_follow_lists (κ := Nat) (α := Nat) (β := Nat)
    (ν := Nat) (σ := Nat) (· / 10) (· / 10)
  obtain ⟨tree, ran, mirrors, -⟩ := trees [.insertSlot 15 fun n => (15, n + 1),
    .insertSlot 3 fun n => (3, n + 1), .insertSlot 12 fun n => (12, n + 1), .findSlot 7,
    .findSlot 99] 0 _ _ _ (by simp [KeyCall.Faithful]) rfl (by decide)
  obtain ⟨⟨index, indexRan, -⟩, -⟩ := indexes [.getOrMake 5 fun n => (n, n + 1),
    .getOrMake 2 fun n => (n, n + 1), .getOrMake 5 fun n => (n, n + 1), .get 7] 0 _ _ _ rfl
    (by decide)
  obtain ⟨kept, sequencesRan, -, empty⟩ :=
    sequences [.intern [4], .intern [], .find [4]] _ _ rfl (by decide)
  exact ⟨⟨tree, ran, mirrors⟩, ⟨index, indexRan⟩, kept, sequencesRan, empty⟩

end CanonIR
