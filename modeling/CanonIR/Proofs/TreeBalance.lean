import CanonIR.Proofs.TreeCalls
import Mathlib.Algebra.Group.Nat.Defs

/-! How deep a tree gets, and how many questions a call asks. The colour rules bound the
height by twice the number of black nodes on a way down, and that number by the logarithm
of the size. A walk down asks one question at each node it visits. -/

namespace CanonIR

variable {α σ : Type}

namespace Shape.Balanced

variable {shape : Shape α} {color : Color} {count : Nat}

theorem count_le_height (balanced : Balanced shape color count) : count ≤ shape.height := by
  induction balanced with
  | leaf => exact Nat.zero_le _
  | red first second left right =>
    simp only [height]
    omega
  | black first second left right =>
    simp only [height]
    omega

/-- A red root stands above black ones, so it adds one node to the bound and no more. -/
theorem height_le (balanced : Balanced shape color count) :
    shape.height ≤ 2 * count + if color = .red then 1 else 0 := by
  induction balanced with
  | leaf => exact Nat.zero_le _
  | red first second left right =>
    simp only [height, reduceCtorEq, if_false, if_true] at left right ⊢
    omega
  | @black _ _ _ _ leftColor rightColor _ first second left right =>
    have leftColored : (if leftColor = .red then 1 else 0) ≤ 1 := by split <;> omega
    have rightColored : (if rightColor = .red then 1 else 0) ≤ 1 := by split <;> omega
    simp only [height, reduceCtorEq, if_false]
    omega

theorem two_pow_count_le (balanced : Balanced shape color count) :
    2 ^ count ≤ shape.slots.length + 1 := by
  induction balanced with
  | leaf => exact Nat.le_refl _
  | red first second left right =>
    simp only [slots_node, List.length_append, List.length_cons]
    omega
  | black first second left right =>
    simp only [slots_node, List.length_append, List.length_cons, Nat.pow_succ]
    omega

end Shape.Balanced

namespace Tree

variable {tree : Tree α} {shape : Shape α}

theorem heightBelow_ok {parent : Option Slot} {fuel : Nat} (holds : tree.Holds parent shape)
    (enough : shape.height ≤ fuel) : tree.heightBelow fuel shape.root? = .ok shape.height := by
  induction shape generalizing parent fuel with
  | leaf => cases fuel <;> rfl
  | node color left slot value right first second =>
    cases fuel with
    | zero => simp [Shape.height] at enough
    | succ fuel =>
      simp only [Shape.height] at enough
      obtain ⟨here, onLeft, onRight⟩ := holds
      have lowLeft : left.height ≤ fuel := by omega
      have lowRight : right.height ≤ fuel := by omega
      have deeper : (if left.height < right.height then right.height else left.height) =
          max left.height right.height := by split <;> omega
      simp only [Shape.root?_node, heightBelow, here, Checked.ok_bind, first onLeft lowLeft,
        second onRight lowRight, deeper, Shape.height, Checked.pure_eq_ok]

theorem height_ok (sound : tree.Sound shape) : tree.height = .ok shape.height := by
  have root : tree.root = shape.root? := sound.reads.around
  rw [height, root]
  exact heightBelow_ok sound.reads.inside (sound.complete ▸ shape.height_le_length)

/-- Gives the same answers as `ask` and counts the questions. -/
def counted (ask : α → σ → Ordering × σ) (value : α) : σ × Nat → Ordering × (σ × Nat)
  | (state, asked) => ((ask value state).1, (ask value state).2, asked + 1)

/-- A walk down asks no more than there are nodes on the longest way, and counting the
questions does not change where it ends. -/
theorem descend_counted {parent : Option Slot} {fuel : Nat} (holds : tree.Holds parent shape)
    (enough : shape.height ≤ fuel) (ask : α → σ → Ordering × σ) (place : Option (Slot × Side))
    (state : σ) (before : Nat) :
    ∃ landing after asked, asked ≤ shape.height ∧
      tree.descend ask fuel place shape.root? state = .ok (landing, after) ∧
      tree.descend (counted ask) fuel place shape.root? (state, before) =
        .ok (landing, after, before + asked) := by
  induction shape generalizing parent fuel place state before with
  | leaf => exact ⟨.gap place, state, 0, Nat.le_refl _, by cases fuel <;> rfl, by cases fuel <;> rfl⟩
  | node color left slot value right first second =>
    cases fuel with
    | zero => simp [Shape.height] at enough
    | succ fuel =>
      simp only [Shape.height] at enough ⊢
      obtain ⟨here, onLeft, onRight⟩ := holds
      have lowLeft : left.height ≤ fuel := by omega
      have lowRight : right.height ≤ fuel := by omega
      simp only [Shape.root?_node, descend, here, Checked.ok_bind, counted]
      generalize ask value state = answer
      obtain ⟨order, middle⟩ := answer
      cases order with
      | lt =>
        obtain ⟨landing, after, asked, few, found, same⟩ :=
          first onLeft lowLeft (some (slot, .left)) middle (before + 1)
        rw [Nat.add_assoc] at same
        exact ⟨landing, after, 1 + asked, by omega, found, same⟩
      | gt =>
        obtain ⟨landing, after, asked, few, found, same⟩ :=
          second onRight lowRight (some (slot, .right)) middle (before + 1)
        rw [Nat.add_assoc] at same
        exact ⟨landing, after, 1 + asked, by omega, found, same⟩
      | eq => exact ⟨.hit slot, middle, 1, by omega, rfl, rfl⟩

theorem locate_counted (sound : tree.Sound shape) (ask : α → σ → Ordering × σ) (state : σ) :
    ∃ landing after asked, asked ≤ shape.height ∧ tree.locate ask state = .ok (landing, after) ∧
      tree.locate (counted ask) (state, 0) = .ok (landing, after, asked) := by
  have root : tree.root = shape.root? := sound.reads.around
  have enough : shape.height ≤ tree.size := sound.complete ▸ shape.height_le_length
  obtain ⟨landing, after, asked, few, found, same⟩ :=
    descend_counted sound.reads.inside enough ask none state 0
  rw [Nat.zero_add] at same
  exact ⟨landing, after, asked, few, by rwa [locate, root], by rwa [locate, root]⟩

end Tree

namespace TreeCall

def ask : TreeCall α σ → α → σ → Ordering × σ
  | insertSlot ask _ | insert ask _ | findSlot ask => ask

/-- Hands the number of questions on to the next entry that is made. -/
def countedBuild (build : σ → α × σ) : σ × Nat → α × (σ × Nat)
  | (state, asked) => ((build state).1, (build state).2, asked)

/-- The call that does the same and counts its questions. -/
def counted : TreeCall α σ → TreeCall α (σ × Nat)
  | insertSlot ask build => insertSlot (Tree.counted ask) (countedBuild build)
  | insert ask build => insert (Tree.counted ask) (countedBuild build)
  | findSlot ask => findSlot (Tree.counted ask)

end TreeCall

namespace Tree

variable {tree : Tree α} {shape : Shape α}

/-- All that an insertion asks, it asks on its way down. -/
theorem insert_counted {ask : α → σ → Ordering × σ} {state middle : σ} {landing : Landing}
    {asked : Nat} (found : tree.locate ask state = .ok (landing, middle))
    (same : tree.locate (counted ask) (state, 0) = .ok (landing, middle, asked))
    (build : σ → α × σ) :
    tree.insert (counted ask) (fun state => .ok (TreeCall.countedBuild build state)) (state, 0) =
      (fun (entry, larger, after) => (entry, larger, after, asked)) <$>
        tree.insert ask (fun state => .ok (build state)) state := by
  simp only [insert, found, same, Checked.ok_bind]
  cases landing with
  | hit slot => rfl
  | gap place =>
    simp only [TreeCall.countedBuild, map_bind, map_pure]

/-- Counting its questions changes nothing else about a call, and their number is that of
the nodes visited on one way down. -/
theorem perform_counted (sound : tree.Sound shape) (call : TreeCall α σ) (state : σ) :
    ∃ landing middle asked, asked ≤ shape.height ∧
      tree.locate (counted call.ask) (state, 0) = .ok (landing, middle, asked) ∧
      call.counted.perform tree (state, 0) =
        (fun (reply, larger, after) => (reply, larger, after, asked)) <$> call.perform tree state := by
  obtain ⟨landing, middle, asked, few, found, same⟩ := locate_counted sound call.ask state
  refine ⟨landing, middle, asked, few, same, ?_⟩
  cases call with
  | insertSlot ask build =>
    simp only [TreeCall.ask] at found same
    rw [TreeCall.counted, TreeCall.perform, insert_counted found same build, bind_map_left]
    simp only [TreeCall.perform, map_bind, map_pure]
  | insert ask build =>
    simp only [TreeCall.ask] at found same
    rw [TreeCall.counted, TreeCall.perform, insert_counted found same build, bind_map_left]
    simp only [TreeCall.perform, map_bind, map_pure]
  | findSlot ask =>
    simp only [TreeCall.ask] at found same
    rw [TreeCall.counted, TreeCall.perform, TreeCall.perform]
    cases landing with
    | hit slot =>
      rw [find?_hit found, find?_hit same]
      rfl
    | gap place =>
      rw [find?_gap found, find?_gap same]
      rfl

/-- How deep a tree is, and with it what any call on it costs. -/
structure Shallow (tree : Tree α) (height blacks : Nat) : Prop where
  measured : tree.height = .ok height
  checked : tree.check.run = .ok (.ok blacks)
  logarithmic : 2 ^ height ≤ (tree.size + 1) ^ 2
  atLeast : blacks ≤ height
  atMost : height ≤ 2 * blacks
  populated : 2 ^ blacks ≤ tree.size + 1
  /-- Whatever the answers are, a call asks no more than `height` questions, all of them on
  its way down. -/
  questions : ∀ {τ : Type} (call : TreeCall α τ) (state : τ), ∃ landing middle asked,
    asked ≤ height ∧
    tree.locate (counted call.ask) (state, 0) = .ok (landing, middle, asked) ∧
    call.counted.perform tree (state, 0) =
      (fun (reply, larger, after) => (reply, larger, after, asked)) <$> call.perform tree state

theorem Sound.shallow (sound : tree.Sound shape) : ∃ blacks, tree.Shallow shape.height blacks := by
  obtain ⟨blacks, balanced⟩ := sound.balanced
  have atMost : shape.height ≤ 2 * blacks := by simpa using balanced.height_le
  have populated : 2 ^ blacks ≤ tree.size + 1 := sound.complete ▸ balanced.two_pow_count_le
  refine ⟨blacks, height_ok sound, check_ok sound.reads balanced (Nat.le_of_eq sound.complete), ?_,
    balanced.count_le_height, atMost, populated, perform_counted sound⟩
  calc 2 ^ shape.height
    _ ≤ 2 ^ (blacks * 2) := Nat.pow_le_pow_right Nat.two_pos (by omega)
    _ = (2 ^ blacks) ^ 2 := Nat.pow_mul ..
    _ ≤ (tree.size + 1) ^ 2 := Nat.pow_le_pow_left populated 2

/-- Whatever was answered on the way, every run of calls from the empty tree leaves a
shallow one, as long as no call needs more slots than there are. -/
theorem runCalls_shallow (calls : List (TreeCall α σ)) (state : σ) :
    (∃ replies tree after height blacks, runCalls calls {} state = .ok (replies, tree, after) ∧
      tree.Shallow height blacks) ∨
    ∃ early call later replies full after, calls = early ++ call :: later ∧
      runCalls early {} state = .ok (replies, full, after) ∧ full.size = positionLimit ∧
      call.perform full after = .error (.capacity "Slot" positionLimit) := by
  rcases runCalls_ok sound_empty (Nat.zero_le _) calls state with
    ⟨replies, tree, shape, after, ran, sound⟩ | stopped
  · obtain ⟨blacks, shallow⟩ := sound.shallow
    exact .inl ⟨replies, tree, after, shape.height, blacks, ran, shallow⟩
  · exact .inr stopped

end Tree

end CanonIR
