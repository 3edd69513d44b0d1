import CanonIR.Ordered.Tree

/-! The tree that a slab of nodes spells out, apart from where its nodes lie. A shape
knows slots, values and colours; its links are its structure. A path is a shape with a
hole in it, which is how a repair sees the tree: what is above the node it works at, and
what is below. -/

namespace CanonIR

inductive Shape (α : Type) where
  | leaf
  | node (color : Color) (left : Shape α) (slot : Slot) (value : α) (right : Shape α)

variable {α : Type}

namespace TreeNode

/-- The node that has its child on `side` at `near` and the other one at `far`. -/
def branch (side : Side) (color : Color) (value : α) (parent near far : Option Slot) : TreeNode α :=
  match side with
  | .left => ⟨value, color, parent, near, far⟩
  | .right => ⟨value, color, parent, far, near⟩

variable (side : Side) (color : Color) (value : α) (parent near far : Option Slot)

@[simp] theorem parent_branch : (branch side color value parent near far).parent = parent := by
  cases side <;> rfl

@[simp] theorem color_branch : (branch side color value parent near far).color = color := by
  cases side <;> rfl

@[simp] theorem child_branch : (branch side color value parent near far).child side = near := by
  cases side <;> rfl

@[simp] theorem child_opposite_branch :
    (branch side color value parent near far).child side.opposite = far := by
  cases side <;> rfl

@[simp] theorem setChild_branch (other : Option Slot) :
    (branch side color value parent near far).setChild side other =
      branch side color value parent other far := by
  cases side <;> rfl

@[simp] theorem setChild_opposite_branch (other : Option Slot) :
    (branch side color value parent near far).setChild side.opposite other =
      branch side color value parent near other := by
  cases side <;> rfl

theorem setParent_branch (other : Option Slot) :
    { branch side color value parent near far with parent := other } =
      branch side color value other near far := by
  cases side <;> rfl

theorem setColor_branch (other : Color) :
    { branch side color value parent near far with color := other } =
      branch side other value parent near far := by
  cases side <;> rfl

/-- A node with different children tells on which side each of them is. -/
theorem sideOf_branch {slot : Slot} (different : far ≠ some slot) :
    (branch side color value parent (some slot) far).sideOf slot = side := by
  cases side <;> simp [branch, sideOf, different]

end TreeNode

namespace Shape

/-- A missing child counts as black. -/
def color : Shape α → Color
  | leaf => .black
  | node color .. => color

def root? : Shape α → Option Slot
  | leaf => none
  | node _ _ slot _ _ => some slot

/-- Slots and values from left to right. -/
def entries : Shape α → List (Slot × α)
  | leaf => []
  | node _ left slot value right => left.entries ++ (slot, value) :: right.entries

def slots (shape : Shape α) : List Slot := shape.entries.map Prod.fst

def values (shape : Shape α) : List α := shape.entries.map Prod.snd

def height : Shape α → Nat
  | leaf => 0
  | node _ left _ _ right => 1 + max left.height right.height

/-- The node that has `near` on `side` and `far` on the other one. -/
def branch (side : Side) (color : Color) (near : Shape α) (slot : Slot) (value : α)
    (far : Shape α) : Shape α :=
  match side with
  | .left => node color near slot value far
  | .right => node color far slot value near

def blacken : Shape α → Shape α
  | leaf => leaf
  | node _ left slot value right => node .black left slot value right

def NoRedRed : Shape α → Prop
  | leaf => True
  | node color left _ _ right =>
    (color = .red → left.color = .black ∧ right.color = .black) ∧ left.NoRedRed ∧ right.NoRedRed

/-- For every way down to a missing child, the number of black nodes on it. -/
def blackCounts : Shape α → List Nat
  | leaf => [0]
  | node color left _ _ right =>
    (left.blackCounts ++ right.blackCounts).map (· + if color = .black then 1 else 0)

/-- The colour rules for a shape with a root of the given colour and the given number of
black nodes on every way down. -/
inductive Balanced : Shape α → Color → Nat → Prop where
  | leaf : Balanced leaf .black 0
  | red {left right slot value count} (first : Balanced left .black count)
      (second : Balanced right .black count) :
      Balanced (node .red left slot value right) .red count
  | black {left right slot value leftColor rightColor count}
      (first : Balanced left leftColor count) (second : Balanced right rightColor count) :
      Balanced (node .black left slot value right) .black (count + 1)

@[simp] theorem slots_leaf : (leaf : Shape α).slots = [] := rfl

@[simp] theorem slots_node (color : Color) (left : Shape α) (slot : Slot) (value : α)
    (right : Shape α) :
    (node color left slot value right).slots = left.slots ++ slot :: right.slots := by
  simp [slots, entries]

theorem height_le_length (shape : Shape α) : shape.height ≤ shape.slots.length := by
  induction shape with
  | leaf => simp [height]
  | node color left slot value right first second =>
    simp only [height, slots_node, List.length_append, List.length_cons]
    omega

theorem entries_blacken (shape : Shape α) : shape.blacken.entries = shape.entries := by
  cases shape <;> rfl

theorem root?_mem {shape : Shape α} {slot : Slot} (root : shape.root? = some slot) :
    slot ∈ shape.slots := by
  cases shape with
  | leaf => cases root
  | node color left other value right =>
    cases root
    simp

@[simp] theorem root?_leaf : (leaf : Shape α).root? = none := rfl

@[simp] theorem root?_node (color : Color) (left : Shape α) (slot : Slot) (value : α)
    (right : Shape α) : (node color left slot value right).root? = some slot := rfl

@[simp] theorem root?_branch (side : Side) (color : Color) (near : Shape α) (slot : Slot)
    (value : α) (far : Shape α) : (branch side color near slot value far).root? = some slot := by
  cases side <;> rfl

theorem branch_opposite (side : Side) (color : Color) (near : Shape α) (slot : Slot) (value : α)
    (far : Shape α) :
    branch side.opposite color near slot value far = branch side color far slot value near := by
  cases side <;> rfl

theorem entries_branch_color (side : Side) (first second : Color) (near : Shape α) (slot : Slot)
    (value : α) (far : Shape α) :
    (branch side first near slot value far).entries =
      (branch side second near slot value far).entries := by
  cases side <;> rfl

theorem entries_branch_rotate (side : Side) (first second third fourth : Color)
    {near inner far : Shape α} {pivot lifted : Slot} {pivotValue liftedValue : α} :
    (branch side first (branch side second near pivot pivotValue inner) lifted liftedValue
      far).entries =
      (branch side third near pivot pivotValue
        (branch side fourth inner lifted liftedValue far)).entries := by
  cases side <;> simp [branch, entries]

theorem slots_branch_perm (side : Side) (color : Color) (near : Shape α) (slot : Slot) (value : α)
    (far : Shape α) :
    (branch side color near slot value far).slots.Perm (slot :: (near.slots ++ far.slots)) := by
  rw [List.perm_iff_count]
  intro other
  cases side <;>
    simp only [branch, slots_node, List.count_append, List.count_cons] <;> omega

namespace Balanced

variable {shape near far : Shape α} {color nearColor farColor : Color} {count : Nat} {slot : Slot}
  {value : α}

theorem color_eq (balanced : Balanced shape color count) : shape.color = color := by
  cases balanced <;> rfl

theorem branch_red (side : Side) (first : Balanced near .black count)
    (second : Balanced far .black count) :
    Balanced (branch side .red near slot value far) .red count := by
  cases side
  · exact .red first second
  · exact .red second first

theorem branch_black (side : Side) (first : Balanced near nearColor count)
    (second : Balanced far farColor count) :
    Balanced (branch side .black near slot value far) .black (count + 1) := by
  cases side
  · exact .black first second
  · exact .black second first

theorem exists_branch (balanced : Balanced shape .red count) (side : Side) :
    ∃ near slot value far, shape = branch side .red near slot value far ∧
      near.Balanced .black count ∧ far.Balanced .black count := by
  cases balanced with
  | @red left right slot value _ first second =>
    cases side
    · exact ⟨left, slot, value, right, rfl, first, second⟩
    · exact ⟨right, slot, value, left, rfl, second, first⟩

theorem blacken (balanced : Balanced shape color count) :
    ∃ count, Balanced shape.blacken .black count := by
  cases balanced with
  | leaf => exact ⟨_, .leaf⟩
  | red first second => exact ⟨_, .black first second⟩
  | black first second => exact ⟨_, .black first second⟩

theorem noRedRed (balanced : Balanced shape color count) : shape.NoRedRed := by
  induction balanced with
  | leaf => trivial
  | red first second left right => exact ⟨fun _ => ⟨first.color_eq, second.color_eq⟩, left, right⟩
  | black first second left right => exact ⟨nofun, left, right⟩

theorem blackCounts (balanced : Balanced shape color count) :
    ∀ black ∈ shape.blackCounts, black = count := by
  induction balanced with
  | leaf => simp [Shape.blackCounts]
  | red first second left right =>
    intro black member
    simp only [Shape.blackCounts, List.map_append, List.mem_append, List.mem_map] at member
    rcases member with ⟨below, member, rfl⟩ | ⟨below, member, rfl⟩
    · exact left below member
    · exact right below member
  | black first second left right =>
    intro black member
    simp only [Shape.blackCounts, List.map_append, List.mem_append, List.mem_map] at member
    rcases member with ⟨below, member, rfl⟩ | ⟨below, member, rfl⟩
    · exact congrArg (· + 1) (left below member)
    · exact congrArg (· + 1) (right below member)

end Balanced

end Shape

/-- A node with a child missing on `side`. -/
structure Frame (α : Type) where
  side : Side
  color : Color
  slot : Slot
  value : α
  sibling : Shape α

namespace Frame

def fill (frame : Frame α) (shape : Shape α) : Shape α :=
  .branch frame.side frame.color shape frame.slot frame.value frame.sibling

end Frame

/-- The way from a hole up to the root. -/
inductive Path (α : Type) where
  | root
  | under (frame : Frame α) (outer : Path α)

namespace Path

def fill : Path α → Shape α → Shape α
  | root, shape => shape
  | under frame outer, shape => outer.fill (frame.fill shape)

def length : Path α → Nat
  | root => 0
  | under _ outer => outer.length + 1

/-- The node that the hole hangs under. -/
def parent? : Path α → Option Slot
  | root => none
  | under frame _ => some frame.slot

/-- The link that the hole hangs on. -/
def place? : Path α → Option (Slot × Side)
  | root => none
  | under frame _ => some (frame.slot, frame.side)

/-- What lies to the left of the hole. -/
def before : Path α → List (Slot × α)
  | root => []
  | under frame outer =>
    match frame.side with
    | .left => outer.before
    | .right => outer.before ++ frame.sibling.entries ++ [(frame.slot, frame.value)]

/-- What lies to the right of the hole. -/
def after : Path α → List (Slot × α)
  | root => []
  | under frame outer =>
    match frame.side with
    | .left => (frame.slot, frame.value) :: frame.sibling.entries ++ outer.after
    | .right => outer.after

def slots (path : Path α) : List Slot := (path.before ++ path.after).map Prod.fst

/-- A shape of the given colour and number of black nodes can be put into the hole
without breaking a colour rule, be it that of a black root. -/
inductive Fits : Path α → Color → Nat → Prop where
  | root {count} : Fits root .black count
  | red {side slot value sibling outer count} (rest : Fits outer .red count)
      (other : sibling.Balanced .black count) :
      Fits (under ⟨side, .red, slot, value, sibling⟩ outer) .black count
  | black {side slot value sibling outer color siblingColor count}
      (rest : Fits outer .black (count + 1)) (other : sibling.Balanced siblingColor count) :
      Fits (under ⟨side, .black, slot, value, sibling⟩ outer) color count

@[simp] theorem parent?_root : (root : Path α).parent? = none := rfl

@[simp] theorem parent?_under (frame : Frame α) (outer : Path α) :
    (under frame outer).parent? = some frame.slot := rfl

theorem map_fst_place? (path : Path α) : path.place?.map Prod.fst = path.parent? := by
  cases path <;> rfl

theorem entries_fill (path : Path α) (shape : Shape α) :
    (path.fill shape).entries = path.before ++ shape.entries ++ path.after := by
  induction path generalizing shape with
  | root => simp [fill, before, after]
  | under frame outer ih =>
    rw [fill, ih]
    cases side : frame.side <;> simp [Frame.fill, Shape.branch, Shape.entries, before, after, side]

theorem entries_fill_leaf (path : Path α) : (path.fill .leaf).entries = path.before ++ path.after := by
  rw [entries_fill]
  simp [Shape.entries]

theorem entries_fill_congr (path : Path α) {first second : Shape α}
    (same : first.entries = second.entries) :
    (path.fill first).entries = (path.fill second).entries := by
  rw [entries_fill, entries_fill, same]

theorem slots_fill_perm (path : Path α) (shape : Shape α) :
    (path.fill shape).slots.Perm (shape.slots ++ path.slots) := by
  rw [List.perm_iff_count]
  intro slot
  simp only [Shape.slots, slots, entries_fill, List.map_append, List.count_append]
  omega

theorem slots_under_perm (frame : Frame α) (outer : Path α) :
    (under frame outer).slots.Perm (frame.slot :: (frame.sibling.slots ++ outer.slots)) := by
  rw [List.perm_iff_count]
  intro slot
  cases side : frame.side <;>
    simp only [slots, before, after, side, Shape.slots, List.map_append, List.map_cons, List.map_nil,
      List.count_append, List.count_cons, List.count_nil] <;> omega

theorem mem_slots_under {frame : Frame α} {outer : Path α} {slot : Slot} :
    slot ∈ (under frame outer).slots ↔
      slot = frame.slot ∨ slot ∈ frame.sibling.slots ∨ slot ∈ outer.slots := by
  simp [(slots_under_perm frame outer).mem_iff]

theorem nodup_slots_under {frame : Frame α} {outer : Path α} :
    (under frame outer).slots.Nodup ↔ frame.slot ∉ frame.sibling.slots ∧
      frame.slot ∉ outer.slots ∧ (frame.sibling.slots ++ outer.slots).Nodup := by
  rw [(slots_under_perm frame outer).nodup_iff, List.nodup_cons, List.mem_append, not_or, and_assoc]

theorem parent?_mem {path : Path α} {slot : Slot} (parent : path.parent? = some slot) :
    slot ∈ path.slots := by
  cases path with
  | root => cases parent
  | under frame outer =>
    cases parent
    exact mem_slots_under.mpr (.inl rfl)

theorem length_le_slots (path : Path α) : path.length ≤ path.slots.length := by
  induction path with
  | root => simp [length]
  | under frame outer ih =>
    cases side : frame.side <;>
      simp only [slots, before, after, side, length, List.length_map, List.length_append,
        List.length_cons, List.length_nil] at ih ⊢ <;> omega

/-- Putting a shape that fits into the hole gives a shape with a black root and all
colour rules kept. -/
theorem Fits.fill {path : Path α} {color : Color} {count : Nat} {shape : Shape α}
    (fits : path.Fits color count) (balanced : shape.Balanced color count) :
    ∃ total, (path.fill shape).Balanced .black total := by
  induction fits generalizing shape with
  | root => exact ⟨_, balanced⟩
  | red rest other ih => exact ih (.branch_red _ balanced other)
  | black rest other ih => exact ih (.branch_black _ balanced other)

/-- What fits into a path can be read off a filled one. -/
theorem Fits.of_fill {path : Path α} {shape : Shape α} {total : Nat}
    (balanced : (path.fill shape).Balanced .black total) :
    ∃ color count, shape.Balanced color count ∧ path.Fits color count := by
  induction path generalizing shape with
  | root => exact ⟨_, _, balanced, .root⟩
  | under frame outer ih =>
    obtain ⟨side, color, slot, value, sibling⟩ := frame
    obtain ⟨upper, count, here, rest⟩ := ih balanced
    cases side with
    | left =>
      cases here with
      | red first second => exact ⟨_, _, first, .red rest second⟩
      | black first second => exact ⟨_, _, first, .black rest second⟩
    | right =>
      cases here with
      | red first second => exact ⟨_, _, second, .red rest first⟩
      | black first second => exact ⟨_, _, second, .black rest first⟩

end Path

end CanonIR
