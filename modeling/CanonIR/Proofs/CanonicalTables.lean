import CanonIR.Proofs.IndexLaws
import CanonIR.Proofs.KeyOrder
import CanonIR.Proofs.ReservedWords

/-! The tables of names, types and expressions. In each, an index leads from a structural
key to the one node that has it, and the tables only grow: a node once made keeps its
key. Nodes that are never shared lie among the others and have no key. -/

namespace CanonIR

variable {α κ : Type} {table : Table}

namespace Slab

variable {slab after : Slab table α} {label : α → Option κ} {handle other : Handle table} {item : α}
  {key : κ}

/-- The entry of `handle` has `key`, where `label` tells the keys of entries. -/
def Shows (slab : Slab table α) (label : α → Option κ) (key : κ) (handle : Handle table) : Prop :=
  ∃ item, slab.get? handle = some item ∧ label item = some key

theorem shows_push (pushed : slab.push item = .ok (handle, after)) :
    after.Shows label key other ↔
      slab.Shows label key other ∨ other = handle ∧ label item = some key := by
  simp only [Shows, get?_of_push pushed]
  split
  next same =>
    subst same
    simp [fresh_of_push pushed]
  next different => simp [different]

theorem shows_modify {change : α → α} (changed : slab.modify handle change = .ok after)
    (same : ∀ item, slab.get? handle = some item → label (change item) = label item) :
    after.Shows label key other ↔ slab.Shows label key other := by
  simp only [Shows, get?_modify changed]
  split
  next equal =>
    subst equal
    cases found : slab.get? other with
    | none => simp
    | some item => simp [same item found]
  · rfl

end Slab

namespace Index

variable [Ord κ] {index larger : Index κ (Handle table)} {shared : List (κ × Handle table)}
  {slab after : Slab table α} {label : α → Option κ} {key : κ} {handle : Handle table} {item : α}

/-- The index leads to some shared constants, and to the nodes of a slab that have a key. -/
def Covers (index : Index κ (Handle table)) (shared : List (κ × Handle table)) (slab : Slab table α)
    (label : α → Option κ) : Prop :=
  index.Indexes fun key handle => (key, handle) ∈ shared ∨ slab.Shows label key handle

theorem Covers.push (covers : index.Covers shared slab label)
    (pushed : slab.push item = .ok (handle, after)) (unlabelled : label item = none) :
    index.Covers shared after label :=
  covers.congr fun _ _ => by simp [Slab.shows_push pushed, unlabelled]

theorem Covers.modify {change : α → α} (covers : index.Covers shared slab label)
    (changed : slab.modify handle change = .ok after)
    (same : ∀ item, slab.get? handle = some item → label (change item) = label item) :
    index.Covers shared after label :=
  covers.congr fun _ _ => by rw [Slab.shows_modify changed same]

variable [Std.LawfulEqOrd κ] [Std.TransOrd κ]

/-- A request finds the node of its key, or is the first for it and makes `node`. -/
theorem Covers.getOrMake_eq_ok {σ : Type} {make : Slab table α × σ → Checked (Handle table × Slab table α × σ)}
    {census counted : σ} {fresh : Bool} (covers : index.Covers shared slab label)
    (node : NodeId → α) (labelled : ∀ number, label (node number) = some key)
    (makes : ∀ {id after counted}, make (slab, census) = .ok (id, after, counted) →
      ∃ number, slab.push (node number) = .ok (id, after))
    (given : index.getOrMake key make (slab, census) = .ok ((handle, fresh), larger, after, counted)) :
    larger.Covers shared after label ∧
      (((key, handle) ∈ shared ∨ slab.Shows label key handle) ∧ larger = index ∧ after = slab ∨
        (∀ other, ¬ ((key, other) ∈ shared ∨ slab.Shows label key other)) ∧
          ∃ number, slab.push (node number) = .ok (handle, after)) := by
  rcases Indexes.getOrMake_eq_ok covers given with ⟨known, rfl, equal⟩ | ⟨missing, made, grown⟩
  · cases equal
    exact ⟨covers, .inl ⟨known, rfl, rfl⟩⟩
  · obtain ⟨number, pushed⟩ := makes made
    refine ⟨grown.congr fun asked found => ?_, .inr ⟨missing, number, pushed⟩⟩
    simp [Slab.shows_push pushed, labelled, or_assoc, and_comm, eq_comm]

theorem Covers.getOrMake_adds {σ : Type} {make : Slab table α × σ → Checked (Handle table × Slab table α × σ)}
    {census counted : σ} {fresh : Bool} (covers : index.Covers shared slab label)
    (node : NodeId → α)
    (makes : ∀ {id after counted}, make (slab, census) = .ok (id, after, counted) →
      ∃ number, slab.push (node number) = .ok (id, after))
    (given : index.getOrMake key make (slab, census) = .ok ((handle, fresh), larger, after, counted)) :
    slab.Adds after handle := by
  rcases Indexes.getOrMake_eq_ok covers given with ⟨-, -, equal⟩ | ⟨-, made, -⟩
  · cases equal
    exact slab.adds_refl handle
  · obtain ⟨number, pushed⟩ := makes made
    exact Slab.adds_of_push pushed

end Index

section Enrolment

variable {category : Category} {node : NodeId → α} {slab grown : Slab table α} {handle : Handle table}
  {census counted : Census}
  (made : (do
    let (number, census) ← census.enroll category
    let (id, nodes) ← slab.push (node number)
    return (id, nodes, census) : Checked (Handle table × Slab table α × Census)) =
      .ok (handle, grown, counted))

include made

/-- A node is enrolled in the census, and then it gets its place. -/
theorem enrolled_parts :
    ∃ number, census.enroll category = .ok (number, counted) ∧ slab.push (node number) = .ok (handle, grown) := by
  obtain ⟨⟨number, _⟩, enrolled, rest⟩ := Checked.bind_eq_ok.mp made
  obtain ⟨⟨_, _⟩, pushed, equal⟩ := Checked.bind_eq_ok.mp rest
  cases equal
  exact ⟨number, enrolled, pushed⟩

theorem enrolled_eq_ok : ∃ number, slab.push (node number) = .ok (handle, grown) := by
  obtain ⟨number, -, pushed⟩ := enrolled_parts made
  exact ⟨number, pushed⟩

end Enrolment

/-! ### Names -/

def NameNode.key? (node : NameNode) : Option NameKind := some node.kind

def NameKind.list? : NameKind → Option TermListId
  | .templateId _ args => some args
  | _ => none

namespace NameTable

variable {names after : NameTable} {kind : NameKind} {id : NameId} {census counted : Census}
  {terms : List Term} {list : TermListId}

/-- Every name is found by its kind, and its list can be read. -/
structure Canonical (names : NameTable) : Prop where
  covers : names.index.Covers [] names.nodes NameNode.key?
  sound : names.terms.Sound
  issued : ∀ {id node list}, names.nodes.get? id = some node → node.kind.list? = some list →
    ∃ terms, names.termList list = .ok terms

/-- Nothing that could be read is lost or changed. -/
structure Extends (names after : NameTable) : Prop where
  nodes : ∀ {id node}, names.nodes.get? id = some node → after.nodes.get? id = some node
  lists : ∀ {list terms}, names.termList list = .ok terms → after.termList list = .ok terms

theorem Extends.refl (names : NameTable) : names.Extends names := ⟨id, id⟩

theorem Extends.trans {first second third : NameTable} (earlier : first.Extends second)
    (later : second.Extends third) : first.Extends third :=
  ⟨fun found => later.nodes (earlier.nodes found), fun found => later.lists (earlier.lists found)⟩

theorem canonical_empty : ({} : NameTable).Canonical where
  covers := Index.indexes_empty.congr fun _ _ => by simp [Slab.Shows, Slab.get?]
  sound := ⟨_, Sequences.stores_initial⟩
  issued found := by simp [Slab.get?] at found

theorem keepTerms_eq_ok (canonical : names.Canonical)
    (kept : names.keepTerms terms = .ok (list, after)) :
    after.Canonical ∧ names.Extends after ∧ after.termList list = .ok terms ∧
      after.nodes = names.nodes ∧ after.index = names.index := by
  obtain ⟨⟨⟨slot, fresh⟩, larger⟩, interned, equal⟩ := Checked.bind_eq_ok.mp kept
  cases equal
  obtain ⟨sound, found, reads⟩ := canonical.sound.intern_eq_ok interned
  refine ⟨⟨canonical.covers, sound, fun found refers => ?_⟩, ⟨id, reads⟩, found, rfl, rfl⟩
  obtain ⟨terms, read⟩ := canonical.issued found refers
  exact ⟨terms, reads read⟩

theorem keepTerms_known (canonical : names.Canonical) (found : names.termList list = .ok terms) :
    names.keepTerms terms = .ok (list, names) := by
  simp only [keepTerms, canonical.sound.intern_known found, Checked.ok_bind]
  rfl

theorem canonical_eq_ok (canonical : names.Canonical)
    (issued : ∀ {list}, kind.list? = some list → ∃ terms, names.termList list = .ok terms)
    (given : names.canonical kind census = .ok (id, after, counted)) :
    after.Canonical ∧ names.Extends after ∧ after.nodes.Shows NameNode.key? kind id ∧
      (after = names ∨ (∀ other, ¬ names.nodes.Shows NameNode.key? kind other) ∧
        after.nodes.size = names.nodes.size + 1) := by
  obtain ⟨⟨⟨_, fresh⟩, index, nodes, made⟩, asked, equal⟩ := Checked.bind_eq_ok.mp given
  cases equal
  obtain ⟨covers, outcome⟩ :=
    canonical.covers.getOrMake_eq_ok (⟨·, kind⟩) (fun _ => rfl) (fun made => enrolled_eq_ok made) asked
  rcases outcome with ⟨known, rfl, rfl⟩ | ⟨missing, number, pushed⟩
  · exact ⟨canonical, .refl _, by simpa using known, .inl rfl⟩
  · refine ⟨⟨covers, canonical.sound, fun found refers => ?_⟩,
      ⟨Slab.get?_kept pushed, fun read => read⟩, ⟨_, Slab.get?_pushed pushed, rfl⟩,
      .inr ⟨by simpa using missing, Slab.size_push pushed⟩⟩
    rw [Slab.get?_of_push pushed] at found
    split at found
    · cases found
      exact issued refers
    · exact canonical.issued found refers

theorem canonical_adds (canonical : names.Canonical)
    (given : names.canonical kind census = .ok (id, after, counted)) :
    names.nodes.Adds after.nodes id := by
  obtain ⟨⟨⟨_, fresh⟩, index, nodes, made⟩, asked, equal⟩ := Checked.bind_eq_ok.mp given
  cases equal
  exact canonical.covers.getOrMake_adds (⟨·, kind⟩) (fun made => enrolled_eq_ok made) asked

theorem canonical_known (canonical : names.Canonical)
    (known : names.nodes.Shows NameNode.key? kind id) (census : Census) :
    names.canonical kind census = .ok (id, names, census.countRequest .name false) := by
  simp only [NameTable.canonical, Index.Indexes.getOrMake_known canonical.covers (.inr known), Checked.ok_bind]
  rfl

/-- The name at `id` is `template` applied to `args`. -/
def Applies (names : NameTable) (template : NameId) (args : List Term) (id : NameId) : Prop :=
  ∃ list, names.nodes.Shows NameNode.key? (.templateId template list) id ∧
    names.termList list = .ok args

theorem termList_inj (canonical : names.Canonical) {other : TermListId}
    (first : names.termList list = .ok terms) (second : names.termList other = .ok terms) :
    list = other := by
  have same := keepTerms_known canonical first
  rw [keepTerms_known canonical second] at same
  cases same
  rfl

/-- A name that is a template-id was one from the start. -/
theorem applies_former (canonical : names.Canonical) (larger : names.Extends after) {template : NameId}
    {node : NameNode} (present : names.nodes.get? id = some node)
    (applies : after.Applies template terms id) : names.Applies template terms id := by
  obtain ⟨list, ⟨now, found, labelled⟩, readable⟩ := applies
  cases (larger.nodes present).symm.trans found
  have refers : node.kind.list? = some list := by
    rw [Option.some.inj labelled]
    rfl
  obtain ⟨former, read⟩ := canonical.issued present refers
  cases (larger.lists read).symm.trans readable
  exact ⟨list, ⟨node, present, labelled⟩, read⟩

/-- Keeping the arguments first does not make another template-id of an old one: a name
that refers to a list was made when the list could be read. -/
theorem templateId_eq_ok (canonical : names.Canonical) {template : NameId} {listed : NameTable}
    (kept : names.keepTerms terms = .ok (list, listed))
    (given : listed.canonical (.templateId template list) census = .ok (id, after, counted)) :
    after.Canonical ∧ names.Extends after ∧ after.Applies template terms id ∧
      (names.Applies template terms id ∧ after.nodes.size = names.nodes.size ∨
        (∀ other, ¬ names.Applies template terms other) ∧
          after.nodes.size = names.nodes.size + 1) := by
  obtain ⟨middle, first, read, nodes, -⟩ := keepTerms_eq_ok canonical kept
  obtain ⟨last, second, shows, outcome⟩ := canonical_eq_ok middle (fun refers => by
    cases refers
    exact ⟨terms, read⟩) given
  refine ⟨last, first.trans second, ⟨list, shows, second.lists read⟩, ?_⟩
  rcases outcome with rfl | ⟨missing, larger⟩
  · have applies : Applies _ template terms id := ⟨list, shows, read⟩
    obtain ⟨node, found, -⟩ := shows
    rw [nodes] at found ⊢
    exact .inl ⟨applies_former canonical first found applies, rfl⟩
  · refine .inr ⟨?_, nodes ▸ larger⟩
    intro other ⟨former, known, readable⟩
    obtain rfl := termList_inj middle (first.lists readable) read
    exact missing other (nodes ▸ known)

theorem templateId_known (canonical : names.Canonical) {template : NameId}
    (known : names.Applies template terms id) (census : Census) :
    ∃ list, names.keepTerms terms = .ok (list, names) ∧
      names.canonical (.templateId template list) census =
        .ok (id, names, census.countRequest .name false) := by
  obtain ⟨list, shows, readable⟩ := known
  exact ⟨list, keepTerms_known canonical readable, canonical_known canonical shows census⟩

/-- Searching for a template-id finds the one name that there is. -/
theorem templateId?_eq_ok (canonical : names.Canonical) {template : NameId} {result : Option NameId}
    (searched : names.templateId? template terms = .ok result) (id : NameId) :
    result = some id ↔ names.Applies template terms id := by
  obtain ⟨found, sought, searched⟩ := Checked.bind_eq_ok.mp searched
  have exact := canonical.sound.find?_eq_ok sought
  cases found with
  | none =>
    cases searched
    refine ⟨nofun, fun ⟨list, _, readable⟩ => ?_⟩
    cases (exact ⟨list.raw⟩).mpr readable
  | some slot =>
    have kept : names.termList ⟨slot.raw⟩ = .ok terms := (exact slot).mp rfl
    rw [Index.Indexes.get?_eq_ok canonical.covers] at searched
    simp only [searched, List.not_mem_nil, false_or]
    refine ⟨fun shows => ⟨_, shows, kept⟩, fun ⟨list, shows, readable⟩ => ?_⟩
    rw [termList_inj canonical kept readable]
    exact shows

end NameTable

/-! ### Types -/

/-- User-defined types have no key. -/
def TypeNode.key? (node : TypeNode) : Option TypeKind :=
  if node.category.isCanonical then some node.kind else none

/-- The kinds of types that a program makes once. -/
def TypeKind.IsStructural (kind : TypeKind) : Prop :=
  kind.category.isCanonical ∧ kind.category ≠ .builtin

def TypeKind.list? : TypeKind → Option TypeListId
  | .product types | .sum types => some types
  | _ => none

theorem TypeNode.key?_eq_some {node : TypeNode} {kind : TypeKind} :
    node.key? = some kind ↔ node.kind = kind ∧ kind.category.isCanonical := by
  unfold TypeNode.key?
  split
  next canonical =>
    refine ⟨fun same => ?_, fun same => congrArg some same.1⟩
    cases same
    exact ⟨rfl, canonical⟩
  next user =>
    refine ⟨nofun, fun ⟨same, canonical⟩ => ?_⟩
    subst same
    exact absurd canonical user

theorem TypeKind.list?_owning {kind : TypeKind} {region : RegionId}
    (owning : kind.region? = some region) : kind.list? = none := by
  cases kind <;> first | rfl | cases owning

theorem TypeNode.key?_owning {number : NodeId} {kind : TypeKind} {region : RegionId}
    (owning : kind.region? = some region) : (⟨number, kind⟩ : TypeNode).key? = none := by
  cases kind <;> first | rfl | cases owning

namespace TypeTable

variable {types after : TypeTable} {kind : TypeKind} {id : TypeId} {census counted : Census}
  {members : List TypeId} {list : TypeListId}

/-- Every structural type is found by its kind, and its list can be read. -/
structure Canonical (types : TypeTable) : Prop where
  covers : types.index.Covers [] types.nodes TypeNode.key?
  sound : types.lists.Sound
  issued : ∀ {id node list}, types.nodes.get? id = some node → node.kind.list? = some list →
    ∃ members, types.list list = .ok members

/-- Nothing that could be read is lost, and only user-defined types change. -/
structure Extends (types after : TypeTable) : Prop where
  nodes : ∀ {id node}, types.nodes.get? id = some node →
    ∃ now, after.nodes.get? id = some now ∧ (now = node ∨ node.key? = none ∧ now.key? = none)
  lists : ∀ {list members}, types.list list = .ok members → after.list list = .ok members

theorem Extends.refl (types : TypeTable) : types.Extends types :=
  ⟨fun found => ⟨_, found, .inl rfl⟩, id⟩

theorem Extends.trans {first second third : TypeTable} (earlier : first.Extends second)
    (later : second.Extends third) : first.Extends third := by
  refine ⟨fun found => ?_, fun read => later.lists (earlier.lists read)⟩
  obtain ⟨middle, between, same | ⟨user, still⟩⟩ := earlier.nodes found
  · exact same ▸ later.nodes between
  · obtain ⟨now, present, equal | ⟨-, remains⟩⟩ := later.nodes between
    · exact ⟨now, present, .inr ⟨user, equal ▸ still⟩⟩
    · exact ⟨now, present, .inr ⟨user, remains⟩⟩

theorem canonical_empty : ({} : TypeTable).Canonical where
  covers := Index.indexes_empty.congr fun _ _ => by simp [Slab.Shows, Slab.get?]
  sound := ⟨_, Sequences.stores_initial⟩
  issued found := by simp [Slab.get?] at found

theorem keepList_eq_ok (canonical : types.Canonical)
    (kept : types.keepList members = .ok (list, after)) :
    after.Canonical ∧ types.Extends after ∧ after.list list = .ok members ∧
      after.nodes = types.nodes ∧ after.index = types.index := by
  obtain ⟨⟨⟨slot, fresh⟩, larger⟩, interned, equal⟩ := Checked.bind_eq_ok.mp kept
  cases equal
  obtain ⟨sound, found, reads⟩ := canonical.sound.intern_eq_ok interned
  refine ⟨⟨canonical.covers, sound, fun found refers => ?_⟩,
    ⟨fun found => ⟨_, found, .inl rfl⟩, reads⟩, found, rfl, rfl⟩
  obtain ⟨members, read⟩ := canonical.issued found refers
  exact ⟨members, reads read⟩

theorem keepList_known (canonical : types.Canonical) (found : types.list list = .ok members) :
    types.keepList members = .ok (list, types) := by
  simp only [keepList, canonical.sound.intern_known found, Checked.ok_bind]
  rfl

theorem canonical_eq (made : kind.category ≠ .builtin) : types.canonical kind census = (do
    let ((id, fresh), index, nodes, census) ←
      types.index.getOrMake kind (fun (nodes, census) => push kind nodes census) (types.nodes, census)
    return (id, { types with nodes, index }, census.countRequest .type fresh)) := by
  cases kind <;> first | rfl | exact absurd rfl made

theorem push_eq_ok {nodes grown : Slab .type TypeNode}
    (made : push kind nodes census = .ok (id, grown, counted)) :
    ∃ number, nodes.push ⟨number, kind⟩ = .ok (id, grown) :=
  enrolled_eq_ok made

theorem canonical_eq_ok (canonical : types.Canonical) (structural : kind.IsStructural)
    (issued : ∀ {list}, kind.list? = some list → ∃ members, types.list list = .ok members)
    (given : types.canonical kind census = .ok (id, after, counted)) :
    after.Canonical ∧ types.Extends after ∧ after.nodes.Shows TypeNode.key? kind id ∧
      (after = types ∨ (∀ other, ¬ types.nodes.Shows TypeNode.key? kind other) ∧
        after.nodes.size = types.nodes.size + 1) := by
  rw [canonical_eq structural.2] at given
  obtain ⟨⟨⟨_, fresh⟩, index, nodes, _⟩, asked, equal⟩ := Checked.bind_eq_ok.mp given
  cases equal
  have labelled : ∀ number, (⟨number, kind⟩ : TypeNode).key? = some kind := fun number =>
    TypeNode.key?_eq_some.mpr ⟨rfl, structural.1⟩
  obtain ⟨covers, outcome⟩ := canonical.covers.getOrMake_eq_ok _ labelled push_eq_ok asked
  rcases outcome with ⟨known, rfl, rfl⟩ | ⟨missing, number, pushed⟩
  · exact ⟨canonical, .refl _, by simpa using known, .inl rfl⟩
  · refine ⟨⟨covers, canonical.sound, fun found refers => ?_⟩,
      ⟨fun found => ⟨_, Slab.get?_kept pushed found, .inl rfl⟩, fun read => read⟩,
      ⟨_, Slab.get?_pushed pushed, labelled number⟩,
      .inr ⟨by simpa using missing, Slab.size_push pushed⟩⟩
    rw [Slab.get?_of_push pushed] at found
    split at found
    · cases found
      exact issued refers
    · exact canonical.issued found refers

theorem canonical_adds (canonical : types.Canonical) (structural : kind.IsStructural)
    (given : types.canonical kind census = .ok (id, after, counted)) :
    types.nodes.Adds after.nodes id := by
  rw [canonical_eq structural.2] at given
  obtain ⟨⟨⟨_, fresh⟩, index, nodes, _⟩, asked, equal⟩ := Checked.bind_eq_ok.mp given
  cases equal
  exact canonical.covers.getOrMake_adds (⟨·, kind⟩) push_eq_ok asked

theorem canonical_known (canonical : types.Canonical) (structural : kind.IsStructural)
    (known : types.nodes.Shows TypeNode.key? kind id) (census : Census) :
    types.canonical kind census = .ok (id, types, census.countRequest .type false) := by
  rw [canonical_eq structural.2]
  simp only [Index.Indexes.getOrMake_known canonical.covers (.inr known), Checked.ok_bind]
  rfl

/-- The type at `id` is made of `members` by `wrap`, which is a product or a sum. -/
def Combines (types : TypeTable) (wrap : TypeListId → TypeKind) (members : List TypeId)
    (id : TypeId) : Prop :=
  ∃ list, types.nodes.Shows TypeNode.key? (wrap list) id ∧ types.list list = .ok members

theorem list_inj (canonical : types.Canonical) {other : TypeListId}
    (first : types.list list = .ok members) (second : types.list other = .ok members) :
    list = other := by
  have same := keepList_known canonical first
  rw [keepList_known canonical second] at same
  cases same
  rfl

theorem combined_eq_ok (canonical : types.Canonical) {wrap : TypeListId → TypeKind}
    (structural : ∀ list, (wrap list).IsStructural) (wraps : ∀ list, (wrap list).list? = some list)
    {listed : TypeTable} (kept : types.keepList members = .ok (list, listed))
    (given : listed.canonical (wrap list) census = .ok (id, after, counted)) :
    after.Canonical ∧ types.Extends after ∧ after.Combines wrap members id ∧
      (types.Combines wrap members id ∧ after.nodes.size = types.nodes.size ∨
        (∀ other, ¬ types.Combines wrap members other) ∧
          after.nodes.size = types.nodes.size + 1) := by
  obtain ⟨middle, first, read, nodes, -⟩ := keepList_eq_ok canonical kept
  obtain ⟨last, second, shows, outcome⟩ := canonical_eq_ok middle (structural list)
    (fun refers => by
      cases (wraps list).symm.trans refers
      exact ⟨members, read⟩) given
  refine ⟨last, first.trans second, ⟨list, shows, second.lists read⟩, ?_⟩
  rcases outcome with rfl | ⟨missing, larger⟩
  · rw [nodes] at shows ⊢
    obtain ⟨node, found, labelled⟩ := shows
    have refers : node.kind.list? = some list := by
      rw [(TypeNode.key?_eq_some.mp labelled).1, wraps]
    obtain ⟨former, readable⟩ := canonical.issued found refers
    have same : former = members := Except.ok.inj ((first.lists readable).symm.trans read)
    exact .inl ⟨⟨list, ⟨node, found, labelled⟩, same ▸ readable⟩, rfl⟩
  · refine .inr ⟨?_, nodes ▸ larger⟩
    intro other ⟨former, known, readable⟩
    obtain rfl := list_inj middle (first.lists readable) read
    exact missing other (nodes ▸ known)

theorem combined_known (canonical : types.Canonical) {wrap : TypeListId → TypeKind}
    (structural : ∀ list, (wrap list).IsStructural) (known : types.Combines wrap members id)
    (census : Census) : ∃ list, types.keepList members = .ok (list, types) ∧
      types.canonical (wrap list) census = .ok (id, types, census.countRequest .type false) := by
  obtain ⟨list, shows, readable⟩ := known
  exact ⟨list, keepList_known canonical readable, canonical_known canonical (structural list) shows census⟩

theorem fresh_eq_ok (canonical : types.Canonical) {region : RegionId}
    (owning : kind.region? = some region) (given : types.fresh kind census = .ok (id, after, counted)) :
    after.Canonical ∧ types.Extends after := by
  obtain ⟨⟨_, nodes, _⟩, made, equal⟩ := Checked.bind_eq_ok.mp given
  cases equal
  obtain ⟨number, pushed⟩ := push_eq_ok made
  refine ⟨⟨canonical.covers.push pushed (TypeNode.key?_owning owning), canonical.sound,
    fun found refers => ?_⟩, fun found => ⟨_, Slab.get?_kept pushed found, .inl rfl⟩, fun read => read⟩
  rw [Slab.get?_of_push pushed] at found
  split at found
  · cases found
    rw [TypeKind.list?_owning owning] at refers
    cases refers
  · exact canonical.issued found refers

theorem modify_eq_ok (canonical : types.Canonical) {number : NodeId} {region : RegionId}
    {old new : Option TypeId} {nodes : Slab .type TypeNode}
    (present : types.nodes.get? id = some ⟨number, .enumType region old⟩)
    (changed : types.nodes.modify id ({ · with kind := .enumType region new }) = .ok nodes) :
    ({ types with nodes } : TypeTable).Canonical ∧ types.Extends { types with nodes } := by
  refine ⟨⟨canonical.covers.modify changed fun node found => ?_, canonical.sound,
    fun {other} _ _ found refers => ?_⟩, fun {other node} found => ?_, fun read => read⟩
  · rw [present] at found
    cases found
    rfl
  · rw [Slab.get?_modify changed, present] at found
    split at found
    · cases found
      cases refers
    · exact canonical.issued found refers
  · rw [Slab.get?_modify changed, present]
    split
    next same =>
      subst same
      rw [present] at found
      cases found
      exact ⟨_, rfl, .inr ⟨rfl, rfl⟩⟩
    · exact ⟨node, found, .inl rfl⟩

end TypeTable

/-! ### Expressions -/

/-- Only literals have a key. -/
def ExprNode.key? (node : ExprNode) : Option LiteralKey :=
  match node.kind with
  | .literal type text => some ⟨type, text⟩
  | _ => none

theorem ExprNode.key?_eq_some {node : ExprNode} {key : LiteralKey} :
    node.key? = some key ↔ node.kind = .literal key.type key.text := by
  unfold ExprNode.key?
  split
  next type text same =>
    rw [same, Option.some.injEq, ExprKind.literal.injEq]
    cases key
    simp
  next different => exact ⟨nofun, fun same => absurd same (different _ _)⟩

theorem ExprNode.key?_distinct {node : ExprNode} (distinct : node.kind.category ≠ .literal) :
    node.key? = none := by
  unfold ExprNode.key?
  split
  next same => exact absurd (by rw [same]; rfl) distinct
  · rfl

/-- The words that are literals of their own, with the constants they stand for. -/
def sharedWords : List (Fundamental × String × ExprId) :=
  [(.bool, "true", ⟨0⟩), (.bool, "false", ⟨1⟩), (.nullPointer, "nullptr", ⟨2⟩)]

/-- The literal is a word that stands for a shared constant. -/
def LiteralKey.Denotes (key : LiteralKey) (id : ExprId) : Prop :=
  ∃ type word, (type, word, id) ∈ sharedWords ∧ key.type = type.typeId ∧
    Symbol.ofWord word = .ok key.text

/-- The keys of the shared constants. -/
def sharedLiterals : List (LiteralKey × ExprId) :=
  [(⟨Fundamental.bool.typeId, .word 69⟩, ⟨0⟩), (⟨Fundamental.bool.typeId, .word 34⟩, ⟨1⟩),
    (⟨Fundamental.nullPointer.typeId, .word 47⟩, ⟨2⟩)]

theorem ofWord_eq {word : String} {index : Nat}
    (found : ReservedWord.bytes? index = some (.ofString word)) :
    Symbol.ofWord word = .ok (.word index) := by
  simp [Symbol.ofWord, Symbol.ofWord?, ReservedWord.find?_eq_some.mpr found]

theorem ofWord_true : Symbol.ofWord "true" = .ok (.word 69) := ofWord_eq (by decide +kernel)

theorem ofWord_false : Symbol.ofWord "false" = .ok (.word 34) := ofWord_eq (by decide +kernel)

theorem ofWord_nullptr : Symbol.ofWord "nullptr" = .ok (.word 47) := ofWord_eq (by decide +kernel)

theorem mem_sharedLiterals {key : LiteralKey} {id : ExprId} :
    (key, id) ∈ sharedLiterals ↔ key.Denotes id := by
  constructor
  · intro member
    simp only [sharedLiterals, List.mem_cons, Prod.mk.injEq, List.not_mem_nil, or_false] at member
    rcases member with ⟨rfl, rfl⟩ | ⟨rfl, rfl⟩ | ⟨rfl, rfl⟩
    · exact ⟨.bool, "true", by simp [sharedWords], rfl, ofWord_true⟩
    · exact ⟨.bool, "false", by simp [sharedWords], rfl, ofWord_false⟩
    · exact ⟨.nullPointer, "nullptr", by simp [sharedWords], rfl, ofWord_nullptr⟩
  · intro ⟨type, word, member, typed, spelled⟩
    obtain ⟨_, text⟩ := key
    simp only [sharedWords, List.mem_cons, Prod.mk.injEq, List.not_mem_nil, or_false] at member
    subst typed
    rcases member with ⟨rfl, rfl, rfl⟩ | ⟨rfl, rfl, rfl⟩ | ⟨rfl, rfl, rfl⟩
    · cases ofWord_true.symm.trans spelled
      simp [sharedLiterals]
    · cases ofWord_false.symm.trans spelled
      simp [sharedLiterals]
    · cases ofWord_nullptr.symm.trans spelled
      simp [sharedLiterals]

namespace ExprTable

variable {exprs after : ExprTable} {id : ExprId} {census counted : Census}

/-- Every literal is found by its type and spelling, and has its type. -/
structure Canonical (exprs : ExprTable) : Prop where
  covers : exprs.literals.Covers sharedLiterals exprs.nodes ExprNode.key?
  typed : ∀ {id node type text}, exprs.nodes.get? id = some node →
    node.kind = .literal type text → node.type = some type

/-- Nothing that could be read is lost, and only a type can be added. -/
structure Extends (exprs after : ExprTable) : Prop where
  nodes : ∀ {id node}, exprs.nodes.get? id = some node →
    ∃ now, after.nodes.get? id = some now ∧ now.kind = node.kind ∧
      (node.type.isSome → now.type = node.type)

theorem Extends.refl (exprs : ExprTable) : exprs.Extends exprs :=
  ⟨fun found => ⟨_, found, rfl, fun _ => rfl⟩⟩

theorem Extends.trans {first second third : ExprTable} (earlier : first.Extends second)
    (later : second.Extends third) : first.Extends third := by
  refine ⟨fun found => ?_⟩
  obtain ⟨middle, between, kind, type⟩ := earlier.nodes found
  obtain ⟨now, present, same, still⟩ := later.nodes between
  refine ⟨now, present, same.trans kind, fun set => ?_⟩
  rw [still (by rw [type set]; exact set), type set]

theorem seed_eq_ok {literals larger : Index LiteralKey ExprId} {holds : LiteralKey → ExprId → Prop}
    {key : LiteralKey} {result : ExprId × Bool} (indexes : literals.Indexes holds)
    (missing : ∀ other, ¬ holds key other)
    (seeded : literals.getOrMake key (fun state => .ok (id, state)) () = .ok (result, larger, ())) :
    larger.Indexes fun asked found => holds asked found ∨ asked = key ∧ found = id := by
  obtain ⟨value, fresh⟩ := result
  rcases indexes.getOrMake_eq_ok seeded with ⟨known, -, -⟩ | ⟨-, made, grown⟩
  · exact absurd known (missing value)
  · cases made
    exact grown

theorem nodes_initial (seeded : ExprTable.initial = .ok exprs) : exprs.nodes = {} := by
  obtain ⟨_, -, seeded⟩ := Checked.bind_eq_ok.mp seeded
  obtain ⟨_, -, seeded⟩ := Checked.bind_eq_ok.mp seeded
  obtain ⟨_, -, equal⟩ := Checked.bind_eq_ok.mp seeded
  cases equal
  rfl

theorem canonical_initial (given : ExprTable.initial = .ok exprs) : exprs.Canonical := by
  simp only [ExprTable.initial, ofWord_true, ofWord_false, ofWord_nullptr, Checked.ok_bind,
    Checked.bind_eq_ok, Checked.pure_eq_ok, Except.ok.injEq] at given
  obtain ⟨_, ⟨⟨_, first, _⟩, holdsTrue, rfl⟩, _, ⟨⟨_, second, _⟩, holdsFalse, rfl⟩, _,
    ⟨⟨_, third, _⟩, holdsNull, rfl⟩, rfl⟩ := given
  have one := seed_eq_ok Index.indexes_empty (by simp) holdsTrue
  have two := seed_eq_ok one (by simp) holdsFalse
  have three := seed_eq_ok two (by simp [Fundamental.typeId, Fundamental.index_inj]) holdsNull
  refine ⟨three.congr fun key id => ?_, fun found => by simp [Slab.get?] at found⟩
  simp [sharedLiterals, Slab.Shows, Slab.get?, or_assoc]

theorem push_eq_ok {kind : ExprKind} {type : Option TypeId} {nodes grown : Slab .expr ExprNode}
    (made : push kind type nodes census = .ok (id, grown, counted)) :
    ∃ number, nodes.push ⟨number, kind, type⟩ = .ok (id, grown) :=
  enrolled_eq_ok made

theorem literal_eq_ok (canonical : exprs.Canonical) {type : TypeId} {text : Symbol}
    (given : exprs.literal type text census = .ok (id, after, counted)) :
    after.Canonical ∧ exprs.Extends after ∧
      (LiteralKey.Denotes ⟨type, text⟩ id ∨ after.nodes.Shows ExprNode.key? ⟨type, text⟩ id) ∧
      (after = exprs ∨
        (∀ other, ¬ (LiteralKey.Denotes ⟨type, text⟩ other ∨
          exprs.nodes.Shows ExprNode.key? ⟨type, text⟩ other)) ∧
          after.nodes.size = exprs.nodes.size + 1) := by
  obtain ⟨⟨⟨_, fresh⟩, index, nodes, _⟩, asked, equal⟩ := Checked.bind_eq_ok.mp given
  cases equal
  simp only [← mem_sharedLiterals]
  obtain ⟨covers, outcome⟩ := canonical.covers.getOrMake_eq_ok
    (⟨·, .literal type text, some type⟩) (fun _ => rfl) push_eq_ok asked
  rcases outcome with ⟨known, rfl, rfl⟩ | ⟨missing, number, pushed⟩
  · exact ⟨canonical, .refl _, known, .inl rfl⟩
  · refine ⟨⟨covers, fun found literal => ?_⟩,
      ⟨fun found => ⟨_, Slab.get?_kept pushed found, rfl, fun _ => rfl⟩⟩,
      .inr ⟨_, Slab.get?_pushed pushed, rfl⟩, .inr ⟨missing, Slab.size_push pushed⟩⟩
    rw [Slab.get?_of_push pushed] at found
    split at found
    · cases found
      cases literal
      rfl
    · exact canonical.typed found literal

theorem literal_adds (canonical : exprs.Canonical) {type : TypeId} {text : Symbol}
    (given : exprs.literal type text census = .ok (id, after, counted)) :
    exprs.nodes.Adds after.nodes id := by
  obtain ⟨⟨⟨_, fresh⟩, index, nodes, _⟩, asked, equal⟩ := Checked.bind_eq_ok.mp given
  cases equal
  exact canonical.covers.getOrMake_adds (⟨·, .literal type text, some type⟩) push_eq_ok asked

theorem literal_known (canonical : exprs.Canonical) {type : TypeId} {text : Symbol}
    (known : LiteralKey.Denotes ⟨type, text⟩ id ∨ exprs.nodes.Shows ExprNode.key? ⟨type, text⟩ id)
    (census : Census) :
    exprs.literal type text census = .ok (id, exprs, census.countRequest .expr false) := by
  rw [← mem_sharedLiterals] at known
  simp only [literal, Index.Indexes.getOrMake_known canonical.covers known, Checked.ok_bind]
  rfl

theorem fresh_eq_ok (canonical : exprs.Canonical) {kind : ExprKind} {type : Option TypeId}
    (distinct : kind.category ≠ .literal)
    (given : exprs.fresh kind type census = .ok (id, after, counted)) :
    after.Canonical ∧ exprs.Extends after := by
  obtain ⟨⟨_, nodes, _⟩, made, equal⟩ := Checked.bind_eq_ok.mp given
  cases equal
  obtain ⟨number, pushed⟩ := push_eq_ok made
  refine ⟨⟨canonical.covers.push pushed (ExprNode.key?_distinct distinct), fun found literal => ?_⟩,
    ⟨fun found => ⟨_, Slab.get?_kept pushed found, rfl, fun _ => rfl⟩⟩⟩
  rw [Slab.get?_of_push pushed] at found
  split at found
  · cases found
    cases literal
    exact absurd rfl distinct
  · exact canonical.typed found literal

/-- A literal has its type already, so none is set on it. -/
theorem modify_eq_ok (canonical : exprs.Canonical) {node : ExprNode} {type : TypeId}
    {nodes : Slab .expr ExprNode} (present : exprs.nodes.get? id = some node)
    (untyped : node.type = none)
    (changed : exprs.nodes.modify id ({ · with type := some type }) = .ok nodes) :
    ({ exprs with nodes } : ExprTable).Canonical ∧ exprs.Extends { exprs with nodes } := by
  refine ⟨⟨canonical.covers.modify changed fun _ _ => rfl, fun found literal => ?_⟩,
    ⟨fun {other old} found => ?_⟩⟩
  · rw [Slab.get?_modify changed, present] at found
    split at found
    · cases found
      rw [canonical.typed present literal] at untyped
      cases untyped
    · exact canonical.typed found literal
  · rw [Slab.get?_modify changed, present]
    split
    next same =>
      subst same
      rw [present] at found
      cases found
      exact ⟨_, rfl, rfl, fun set => by simp [untyped] at set⟩
    · exact ⟨old, found, rfl, fun _ => rfl⟩

end ExprTable

end CanonIR
