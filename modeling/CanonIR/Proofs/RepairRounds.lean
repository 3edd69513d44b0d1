import CanonIR.Proofs.TreeIteration

/-! The rounds of a repair, one by one. Some of the ways a round could end are guards: a red
root above the node, a rotation without a child to lift, a parent lost in between. No repair
comes to one of them, whatever the caller answers. A round that recolours goes on two levels
further up, and after one that rotates only the look that ends the repair is left. -/

namespace CanonIR

variable {α σ : Type}

/-- Where the repair goes on after a round. -/
def Repair.next? : Repair → Option Slot
  | settled | rootless | detached => none
  | recolored slot | rotated _ _ slot => some slot

/-- A round: what it started from and what it made of it. -/
structure Round (α : Type) where
  before : Tree α
  slot : Slot
  outcome : Repair
  after : Tree α

namespace Tree

variable {tree after : Tree α} {shape : Shape α} {path : Path α} {slot : Slot}

/-- The repair upward from `slot`, with a record of its rounds. -/
def repairRounds (tree : Tree α) : Nat → Slot → Checked (List (Round α) × Tree α)
  | 0, _ => .error .endlessWalk
  | fuel + 1, slot => do
    let (outcome, after) ← tree.repairStep slot
    match outcome.next? with
    | none => return ([⟨tree, slot, outcome, after⟩], after)
    | some next =>
      let (rounds, last) ← after.repairRounds fuel next
      return (⟨tree, slot, outcome, after⟩ :: rounds, last)

/-- Keeping the record does not change the repair. -/
theorem repairFrom_eq_repairRounds (tree : Tree α) (fuel : Nat) (slot : Slot) :
    tree.repairFrom fuel slot = Prod.snd <$> tree.repairRounds fuel slot := by
  induction fuel generalizing tree slot with
  | zero => rfl
  | succ fuel ih =>
    simp only [repairFrom, repairRounds, map_bind]
    apply bind_congr
    intro stepped
    obtain ⟨outcome, after⟩ := stepped
    cases outcome with
    | settled | rootless | detached => rfl
    | recolored | rotated => simp only [Repair.next?, ih, bind_pure_comp, Functor.map_map]

/-- As many parent links lead from `slot` to the root. -/
inductive HasDepth (tree : Tree α) : Slot → Nat → Prop where
  | root {slot node} (here : tree.node slot = .ok node) (top : node.parent = none)
      (first : tree.root = some slot) : HasDepth tree slot 0
  | under {slot node parent depth} (here : tree.node slot = .ok node)
      (above : node.parent = some parent) (rest : HasDepth tree parent depth) :
      HasDepth tree slot (depth + 1)

theorem Surrounds.hasDepth {node : TreeNode α} (around : tree.Surrounds (some slot) path)
    (here : tree.node slot = .ok node) (above : node.parent = path.parent?) :
    tree.HasDepth slot path.length := by
  induction path generalizing slot node with
  | root => exact .root here above around
  | under frame outer ih =>
    obtain ⟨upper, -, around⟩ := around
    exact .under here above (ih around upper (TreeNode.parent_branch ..))

theorem Focus.hasDepth (focus : tree.Focus path shape) (root : shape.root? = some slot) :
    tree.HasDepth slot path.length := by
  cases shape with
  | leaf => cases root
  | node color left slot value right =>
    cases root
    exact focus.around.hasDepth focus.inside.1 rfl

theorem Unsettled.hasDepth {entries : List (Slot × α)} (unsettled : tree.Unsettled path slot entries) :
    tree.HasDepth slot path.length := by
  obtain ⟨shape, count, focus, root, -⟩ := unsettled
  exact focus.hasDepth root

/-- The rounds of a repair that comes to no guard. -/
inductive Course : List (Round α) → Prop where
  /-- The node is the root or hangs under a black one, and all is left as it is. -/
  | settled {tree : Tree α} {slot} : Course [⟨tree, slot, .settled, tree⟩]
  /-- Each rotation had a child to lift, and the look at the node that is lowest now is the
  last: it changes nothing. -/
  | rotated {tree after : Tree α} {slot inner low} (lifted : inner ≠ some .idle) :
      Course [⟨tree, slot, .rotated inner .turned low, after⟩, ⟨after, low, .settled, after⟩]
  /-- The next node lies two levels nearer to the root, before and after the colours changed. -/
  | recolored {tree after : Tree α} {slot grand depth rounds} (lower : tree.HasDepth slot (depth + 2))
      (upper : tree.HasDepth grand depth) (kept : after.HasDepth grand depth)
      (onward : Course rounds) : Course (⟨tree, slot, .recolored grand, after⟩ :: rounds)

theorem Unsettled.grand_hasDepth {parent grand : Frame α} {outer : Path α}
    {entries : List (Slot × α)}
    (unsettled : tree.Unsettled (.under parent (.under grand outer)) slot entries) :
    tree.HasDepth grand.slot outer.length := by
  obtain ⟨shape, count, focus, -⟩ := unsettled
  exact (focus_under.mp (focus_under.mp focus)).hasDepth (Shape.root?_branch ..)

theorem repairRounds_ok {entries : List (Slot × α)} {fuel : Nat}
    (unsettled : tree.Unsettled path slot entries) (enough : path.length < fuel) :
    ∃ rounds after, tree.repairRounds fuel slot = .ok (rounds, after) ∧ Course rounds := by
  induction fuel generalizing tree path slot with
  | zero => omega
  | succ fuel ih =>
    rcases repairStep_ok unsettled with ⟨settled, step⟩ | ⟨parent, grand, outer, rfl, outcome⟩
    · refine ⟨[⟨tree, slot, .settled, tree⟩], tree, ?_, .settled⟩
      simp [repairRounds, step, Repair.next?]
    · have lower := unsettled.hasDepth
      have upper := unsettled.grand_hasDepth
      simp only [Path.length] at enough lower
      rcases outcome with ⟨next, step, size, unsettled⟩ |
        ⟨inner, low, frame, next, step, lifted, size, black, unsettled⟩
      · obtain ⟨rounds, after, repaired, course⟩ := ih unsettled (by omega)
        refine ⟨_, after, ?_, .recolored lower upper unsettled.hasDepth course⟩
        simp [repairRounds, step, Repair.next?, repaired]
      · -- The node hangs under a black one now, so the next look at it is the last.
        obtain ⟨fuel, rfl⟩ : ∃ rest, fuel = rest + 1 := ⟨fuel - 1, by omega⟩
        obtain ⟨shape, count, focus, root, -⟩ := unsettled
        have last := repairStep_settled focus root black
        refine ⟨[⟨tree, slot, .rotated inner .turned low, next⟩, ⟨next, low, .settled, next⟩],
          next, ?_, .rotated lifted⟩
        simp [repairRounds, step, Repair.next?, last]

variable {ask : α → σ → Ordering × σ} {build : σ → Checked (α × σ)} {state final : σ}
  {hung : Tree α}

/-- An insertion that makes an entry leaves a red leaf to repair from. -/
theorem attach_unsettled (sound : tree.Sound shape)
    (attached : tree.attach ask build state = .ok ((slot, true), hung, final)) :
    ∃ path entries, hung.Unsettled path slot entries ∧ path.length ≤ hung.size := by
  obtain ⟨landing, middle, located, lands⟩ := locate_any sound ask state
  cases lands with
  | hit member equal =>
    simp only [attach, located, Checked.ok_bind, Checked.pure_eq_ok] at attached
    cases attached
  | gap filled follows =>
    simp only [attach, located, Checked.ok_bind] at attached
    obtain ⟨next, taken, built⟩ := Checked.bind_eq_ok.mp attached
    obtain ⟨⟨value, last⟩, built, rest⟩ := Checked.bind_eq_ok.mp built
    have room : tree.size < positionLimit := by
      simpa [Table.firstFree, size] using (Slab.next_eq_ok.mp taken).2
    obtain ⟨leafy, same, size, short, unsettled⟩ := attach_gap sound filled located room built
    simp only [attach, located, Checked.ok_bind] at same
    cases same.symm.trans attached
    exact ⟨_, _, unsettled, short⟩

/-- Repairing after an insertion, round by round. -/
structure Repairs (tree : Tree α) (slot : Slot) (rounds : List (Round α)) (repaired : Tree α) :
    Prop where
  ran : tree.repairRounds (tree.size + 1) slot = .ok (rounds, repaired)
  course : Course rounds
  rebalanced : tree.rebalance slot = repaired.blackenRoot

/-- However a tree came about and whatever the caller answers next: where an insertion makes
an entry, its repair runs its course to the end and so does the insertion. -/
theorem repairs_run_their_course {calls : List (TreeCall α σ)} {start : σ}
    {replies : List (TreeReply α)} (ran : runCalls calls {} start = .ok (replies, tree, state))
    (attached : tree.attach ask build state = .ok ((slot, true), hung, final)) :
    ∃ rounds repaired balanced, hung.Repairs slot rounds repaired ∧
      repaired.blackenRoot = .ok balanced ∧
      tree.insert ask build state = .ok ((slot, true), balanced, final) := by
  obtain ⟨shape, sound⟩ := sound_of_runCalls sound_empty (Nat.zero_le _) ran
  obtain ⟨path, entries, unsettled, short⟩ := attach_unsettled sound attached
  obtain ⟨rounds, repaired, logged, course⟩ := repairRounds_ok unsettled (Nat.lt_succ_of_le short)
  obtain ⟨balanced, grown, count, rebalanced, -⟩ := rebalance_ok unsettled short
  have blackened : hung.rebalance slot = repaired.blackenRoot := by
    rw [rebalance, repairFrom_eq_repairRounds, logged]
    rfl
  refine ⟨rounds, repaired, balanced, ⟨logged, course, blackened⟩, blackened ▸ rebalanced, ?_⟩
  simp only [insert_eq_attach, attached, rebalanced, if_true, Checked.ok_bind, Checked.pure_eq_ok]

/-- A caller that keeps its numbers in order. -/
def ordered (key : Nat) : TreeCall Nat Unit :=
  .insertSlot (fun value state => (compare key value, state)) fun state => (key, state)

/-- The insertion of 45 recolours first and then turns twice further up. -/
theorem repairs_run_their_course_inner :
    ∃ replies tree, ∃ hung : Tree Nat, ∃ rounds repaired balanced,
      runCalls ([40, 20, 80, 60, 100, 50, 70].map ordered) {} () = .ok (replies, tree, ()) ∧
      hung.Repairs ⟨7⟩ rounds repaired ∧
      rounds.map Round.outcome =
        [.recolored ⟨3⟩, .rotated (some .turned) .turned ⟨2⟩, .settled] ∧
      (ordered 45).perform tree () = .ok (.inserted ⟨7⟩ true, balanced, ()) := by
  let ask : Nat → Unit → Ordering × Unit := fun value state => (compare 45 value, state)
  let build : Unit → Checked (Nat × Unit) := fun state => .ok (45, state)
  have performed : (do
      let (_, tree, state) ← runCalls ([40, 20, 80, 60, 100, 50, 70].map ordered) {} ()
      let (entry, hung, _) ← tree.attach ask build state
      let (rounds, _) ← hung.repairRounds (hung.size + 1) ⟨7⟩
      return (entry, rounds.map Round.outcome) : Checked _) =
        .ok ((⟨7⟩, true), [.recolored ⟨3⟩, .rotated (some .turned) .turned ⟨2⟩, .settled]) := by rfl
  obtain ⟨⟨replies, tree, state⟩, ran, rest⟩ := Checked.bind_eq_ok.mp performed
  obtain ⟨⟨entry, hung, final⟩, attached, rest⟩ := Checked.bind_eq_ok.mp rest
  obtain ⟨⟨logged, last⟩, went, rest⟩ := Checked.bind_eq_ok.mp rest
  obtain ⟨rfl, outcomes⟩ := Prod.mk.inj (Except.ok.inj rest)
  obtain ⟨rounds, repaired, balanced, repairs, -, inserted⟩ := repairs_run_their_course ran attached
  cases repairs.ran.symm.trans went
  refine ⟨replies, tree, hung, logged, last, balanced, ran, repairs, outcomes, ?_⟩
  have performed : (ordered 45).perform tree () = (do
      let ((slot, fresh), tree, state) ← tree.insert ask build ()
      return (.inserted slot fresh, tree, state)) := rfl
  rw [performed, inserted]
  rfl

end Tree

end CanonIR
