import CanonIR.Proofs.NodeSources
import CanonIR.Proofs.Runs
import CanonIR.Proofs.TableRoom

/-! Qualifiers merge. To qualify a type again asks for all qualifiers together, so that a
type gets its qualifiers in any order, in any number of steps and with anything else asked
in between. That no qualified type is qualified again is kept by every change. -/

namespace CanonIR

namespace Qualifiers

theorem union_assoc (first second third : Qualifiers) :
    (first.union second).union third = first.union (second.union third) :=
  congrArg mk (UInt8.or_assoc ..)

theorem union_comm (first second : Qualifiers) : first.union second = second.union first :=
  congrArg mk (UInt8.or_comm ..)

theorem union_self (qualifiers : Qualifiers) : qualifiers.union qualifiers = qualifiers :=
  congrArg mk UInt8.or_self

theorem isEmpty_union {first : Qualifiers} (some : first.isEmpty = false) (second : Qualifiers) :
    (first.union second).isEmpty = false := by
  simp only [isEmpty, union, decide_eq_false_iff_not, UInt8.or_eq_zero_iff, not_and] at some ⊢
  exact fun none => absurd none some

theorem union_of_contains {qualifiers other : Qualifiers} (contained : qualifiers.contains other) :
    other.union qualifiers = qualifiers := by
  simp only [contains, decide_eq_true_eq] at contained
  have bits : other.bits ||| qualifiers.bits = qualifiers.bits := by
    rw [← contained]
    apply UInt8.toBitVec_inj.mp
    ext index inside
    simp only [UInt8.toBitVec_or, UInt8.toBitVec_and, BitVec.getElem_or, BitVec.getElem_and]
    cases qualifiers.bits.toBitVec[index] <;> simp
  exact congrArg mk bits

/-- All qualifiers of a list together. -/
def merge (list : List Qualifiers) : Qualifiers := list.foldr union ⟨0⟩

@[simp] theorem merge_cons (first : Qualifiers) (rest : List Qualifiers) :
    merge (first :: rest) = first.union (merge rest) := rfl

theorem merge_singleton (qualifiers : Qualifiers) : merge [qualifiers] = qualifiers :=
  congrArg mk UInt8.or_zero

theorem union_merge_of_mem {qualifiers : Qualifiers} {list : List Qualifiers}
    (member : qualifiers ∈ list) : qualifiers.union (merge list) = merge list := by
  induction list with
  | nil => cases member
  | cons first rest ih =>
    rw [merge_cons]
    rcases List.mem_cons.mp member with rfl | later
    · rw [← union_assoc, union_self]
    · rw [← union_assoc, union_comm qualifiers first, union_assoc, ih later]

theorem merge_union_of_subset {first second : List Qualifiers} (inside : first ⊆ second) :
    (merge first).union (merge second) = merge second := by
  induction first with
  | nil => exact congrArg mk UInt8.zero_or
  | cons qualifiers rest ih =>
    obtain ⟨member, inside⟩ := List.cons_subset.mp inside
    rw [merge_cons, union_assoc, ih inside, union_merge_of_mem member]

/-- Neither order nor repetition matters. -/
theorem merge_congr {first second : List Qualifiers}
    (same : ∀ qualifiers, qualifiers ∈ first ↔ qualifiers ∈ second) : merge first = merge second :=
  calc merge first
    _ = (merge second).union (merge first) :=
      (merge_union_of_subset fun qualifiers member => (same qualifiers).mpr member).symm
    _ = (merge first).union (merge second) := union_comm ..
    _ = merge second := merge_union_of_subset fun qualifiers member => (same qualifiers).mp member

end Qualifiers

namespace TypeKind

/-- Qualifying twice is qualifying with both. -/
theorem qualifiedWith_qualifiedWith (kind : TypeKind) (first second : Qualifiers) (main other : TypeId) :
    (kind.qualifiedWith first main).qualifiedWith second other =
      kind.qualifiedWith (second.union first) main := by
  cases kind with
  | qualified inner innerMain =>
    exact congrArg (TypeKind.qualified · innerMain) (Qualifiers.union_assoc ..).symm
  | _ => rfl

theorem qualifiedWith_eq {kind : TypeKind} {qualifiers merged : Qualifiers} {main inner : TypeId}
    (same : kind.qualifiedWith qualifiers main = .qualified merged inner) :
    (∃ former, kind = .qualified former inner ∧ merged = qualifiers.union former) ∨
      kind.category ≠ .qualifiedType ∧ merged = qualifiers ∧ inner = main := by
  cases kind with
  | qualified former formerMain =>
    cases same
    exact .inl ⟨former, rfl, rfl⟩
  | _ =>
    cases same
    exact .inr ⟨by simp [category], rfl, rfl⟩

end TypeKind

namespace Program

variable {known : Answer → Prop} {program after : Program} {type result : TypeId} {qualifiers : Qualifiers}

/-! ### No type is qualified twice -/

/-- The qualifiers are some, and the type that they qualify is not qualified itself. -/
def Plain (program : Program) (qualifiers : Qualifiers) (main : TypeId) : Prop :=
  qualifiers.isEmpty = false ∧
    ∃ node, program.typeNode main = .ok node ∧ node.category ≠ .qualifiedType

def Flat (program : Program) : Prop :=
  ∀ ⦃id node qualifiers main⦄, program.typeNode id = .ok node → node.kind = .qualified qualifiers main →
    program.Plain qualifiers main

theorem Plain.kept (larger : program.Extends after) (plain : program.Plain qualifiers type) :
    after.Plain qualifiers type := by
  obtain ⟨qualifying, node, found, unqualified⟩ := plain
  obtain ⟨now, present, rfl | ⟨-, user⟩⟩ := larger.typeNode found
  · exact ⟨qualifying, now, present, unqualified⟩
  · refine ⟨qualifying, now, present, fun again => ?_⟩
    rw [TypeNode.key?, again] at user
    cases user

/-- A request for a structural type makes no other type. -/
theorem typeNode_canonical {types former : TypeTable} {kind : TypeKind} {made id : TypeId}
    {counted : Census} {node : TypeNode} (structural : kind.IsStructural)
    (same : former.nodes = program.types.nodes)
    (given : former.canonical kind program.census = .ok (made, types, counted))
    (found : types.get id = .ok node) : program.typeNode id = .ok node ∨ node.kind = kind := by
  rcases TypeTable.get_eq_ok.mp found with shared | present
  · exact .inl (TypeTable.get_eq_ok.mpr (.inl shared))
  rcases TypeTable.canonical_cases structural.2 given with ⟨rfl, -⟩ | ⟨enrolled, enrols, -⟩
  · exact .inl (TypeTable.get_eq_ok.mpr (.inr (same ▸ present)))
  · rw [same] at enrols
    rcases enrols.cases present with there | ⟨-, rfl⟩
    · exact .inl (TypeTable.get_eq_ok.mpr (.inr there))
    · exact .inr rfl

/-- A new qualified type is one that was asked for, by its main type and all qualifiers. -/
theorem Change.qualifiedNode (change : program.Change known after) (flat : program.Flat) {id : TypeId}
    {node : TypeNode} {main : TypeId} (found : after.typeNode id = .ok node)
    (kind : node.kind = .qualified qualifiers main) : program.Plain qualifiers main := by
  cases change with
  | simpleType simple _ given =>
    rcases typeNode_canonical (TypeKind.structural_of_isSimple simple) rfl given found with old | rfl
    · exact flat old kind
    · rw [kind] at simple
      cases simple
  | qualifiedType qualifying read given =>
    rcases typeNode_canonical (TypeKind.structural_qualifiedWith ..) rfl given found with old | made
    · exact flat old kind
    · rcases TypeKind.qualifiedWith_eq (made.symm.trans kind) with
        ⟨former, qualified, rfl⟩ | ⟨unqualified, rfl, rfl⟩
      · obtain ⟨-, inner⟩ := flat read qualified
        exact ⟨Qualifiers.isEmpty_union qualifying former, inner⟩
      · exact ⟨qualifying, _, read, unqualified⟩
  | product _ kept given =>
    rcases typeNode_canonical (TypeKind.structural_product _) (TypeTable.keepList_nodes kept) given
      found with old | made
    · exact flat old kind
    · cases made.symm.trans kind
  | sum _ kept given =>
    rcases typeNode_canonical (TypeKind.structural_sum _) (TypeTable.keepList_nodes kept) given
      found with old | made
    · exact flat old kind
    · cases made.symm.trans kind
  | userType owning given =>
    obtain ⟨number, -, pushed⟩ := TypeTable.fresh_parts given
    rcases TypeTable.get_eq_ok.mp found with shared | present
    · exact flat (TypeTable.get_eq_ok.mpr (.inl shared)) kind
    rcases Slab.push_cases pushed present with there | ⟨-, -, rfl⟩
    · exact flat (TypeTable.get_eq_ok.mpr (.inr there)) kind
    · cases kind
      cases owning
  | underlyingType old changed =>
    rcases TypeTable.get_eq_ok.mp found with shared | present
    · exact flat (TypeTable.get_eq_ok.mpr (.inl shared)) kind
    rcases Slab.modify_cases changed present with there | ⟨-, former, -, rfl⟩
    · exact flat (TypeTable.get_eq_ok.mpr (.inr there)) kind
    · cases kind
  | _ => exact flat found kind

theorem Reaches.keeps_flat (reaches : program.Reaches known after) (canonical : program.Canonical)
    (flat : program.Flat) : after.Flat := by
  induction reaches with
  | refl => exact flat
  | @tail middle _ earlier change ih =>
    intro id node qualifiers main found kind
    obtain ⟨between, -⟩ := Reaches.keeps_canonical earlier canonical
    exact (change.qualifiedNode ih found kind).kept (change.keeps_canonical between).2

theorem flat_run {hash : Bytes → UInt64} {sizing : Sizing} {start : Program} {requests : List Request}
    (began : initial hash sizing = .ok start) (ran : start.run requests = .ok program) : program.Flat := by
  refine (run_reaches ran).keeps_flat (canonical_initial began) ?_
  obtain ⟨exprs, before, seeded, reaches, equal⟩ := initial_reaches (fun _ => True) began
  have flat : before.Flat := by
    refine reaches.keeps_flat
      ⟨NameTable.canonical_empty, TypeTable.canonical_empty, ExprTable.canonical_initial seeded⟩ ?_
    intro id node qualifiers main found kind
    rcases TypeTable.get_eq_ok.mp found with ⟨_, -, rfl⟩ | present
    · cases kind
    · simp [Slab.get?] at present
  rw [equal]
  exact flat

/-! ### One request -/

/-- The type `result` is `type` with the qualifiers besides those that it has. -/
def Qualifies (program : Program) (qualifiers : Qualifiers) (type result : TypeId) : Prop :=
  qualifiers.isEmpty = false ∧ ∃ node made, program.typeNode type = .ok node ∧
    program.typeNode result = .ok made ∧ made.kind = node.kind.qualifiedWith qualifiers type

theorem Qualifies.key (qualifies : program.Qualifies qualifiers type result) :
    ∃ key, program.key? (.qualified qualifiers type) = some key ∧ program.Bears key (.type result) := by
  obtain ⟨qualifying, node, made, found, present, kind⟩ := qualifies
  have structural := TypeKind.structural_qualifiedWith qualifiers type node.kind
  refine ⟨_, key?_qualified.mpr ⟨qualifying, node, found, rfl⟩, ?_⟩
  exact (bears_type structural).mpr ⟨result, rfl, shows_of_typeNode structural present kind⟩

theorem Qualifies.of_key {key : Key} (asked : program.key? (.qualified qualifiers type) = some key)
    (bears : program.Bears key (.type result)) : program.Qualifies qualifiers type result := by
  obtain ⟨qualifying, node, found, rfl⟩ := key?_qualified.mp asked
  obtain ⟨_, same, shows⟩ := (bears_type (TypeKind.structural_qualifiedWith ..)).mp bears
  cases same
  obtain ⟨made, present, kind⟩ := typeNode_of_shows shows
  exact ⟨qualifying, node, made, found, present, kind⟩

theorem Qualifies.kept (larger : program.Extends after)
    (qualifies : program.Qualifies qualifiers type result) : after.Qualifies qualifiers type result := by
  obtain ⟨key, asked, bears⟩ := qualifies.key
  exact .of_key (key?_kept larger asked) (bears.kept larger)

theorem Qualifies.trans {first second : Qualifiers} {middle : TypeId}
    (one : program.Qualifies first type middle) (two : program.Qualifies second middle result) :
    program.Qualifies (second.union first) type result := by
  obtain ⟨-, node, between, found, read, kind⟩ := one
  obtain ⟨qualifying, again, made, same, present, final⟩ := two
  cases read.symm.trans same
  rw [kind, TypeKind.qualifiedWith_qualifiedWith] at final
  exact ⟨Qualifiers.isEmpty_union qualifying first, node, made, found, present, final⟩

/-- A type that has the qualifiers gets no others. -/
theorem Qualifies.of_contains {node : TypeNode} {inner : Qualifiers} {main : TypeId}
    (found : program.typeNode type = .ok node) (kind : node.kind = .qualified inner main)
    (qualifying : qualifiers.isEmpty = false) (contained : inner.contains qualifiers) :
    program.Qualifies qualifiers type type := by
  refine ⟨qualifying, node, node, found, found, ?_⟩
  rw [kind, TypeKind.qualifiedWith, Qualifiers.union_of_contains contained]

/-- The request for a type that is there gives it and makes nothing. -/
theorem Qualifies.respond (canonical : program.Canonical)
    (qualifies : program.Qualifies qualifiers type result) :
    ∃ after, program.respond (.qualified qualifiers type) = .ok (.ok (.node (.type result)), after) ∧
      ∀ group, after.nodeCount group = program.nodeCount group := by
  obtain ⟨key, asked, bears⟩ := qualifies.key
  exact (provides_respond canonical asked).known bears

theorem Qualifies.unique (canonical : program.Canonical) {other : TypeId}
    (one : program.Qualifies qualifiers type result) (two : program.Qualifies qualifiers type other) :
    result = other := by
  obtain ⟨_, first, -⟩ := one.respond canonical
  obtain ⟨_, second, -⟩ := two.respond canonical
  cases first.symm.trans second
  rfl

/-- A request that is granted names some qualifiers and a type that is there. -/
theorem key?_of_respond {answer : Answer}
    (responded : program.respond (.qualified qualifiers type) = .ok (.ok answer, after)) :
    ∃ key, program.key? (.qualified qualifiers type) = some key := by
  rcases Build.run_bind_cases responded with ⟨_, -, refused⟩ | ⟨id, middle, given, -⟩
  · cases refused
  rw [qualified_eq] at given
  split at given
  · cases given
  next qualifying =>
    obtain ⟨node, found, -⟩ := Build.run_check_bind.mp (Build.run_get_bind.mp given)
    exact ⟨_, key?_qualified.mpr ⟨by simpa using qualifying, node, found, rfl⟩⟩

theorem qualifies_of_respond (canonical : program.Canonical)
    (responded : program.respond (.qualified qualifiers type) =
      .ok (.ok (.node (.type result)), after)) :
    after.Qualifies qualifiers type result := by
  obtain ⟨key, asked⟩ := key?_of_respond responded
  obtain ⟨-, larger⟩ := (respond_reaches responded).keeps_canonical canonical
  exact .of_key (key?_kept larger asked)
    ((provides_respond canonical asked).bears larger responded)

/-- With a number left for a node, a type that is there can be qualified. -/
theorem respond_qualified (canonical : program.Canonical) (tallied : program.Tallied)
    (room : program.census.next + 1 < positionLimit) (qualifying : qualifiers.isEmpty = false)
    {node : TypeNode} (found : program.typeNode type = .ok node) :
    ∃ result after,
      program.respond (.qualified qualifiers type) = .ok (.ok (.node (.type result)), after) := by
  obtain ⟨result, types, census, given⟩ := TypeTable.exists_canonical canonical.types room
    (tallied.fits room .type (by decide)) (TypeKind.structural_qualifiedWith qualifiers type node.kind)
  have asked : (qualified qualifiers type).run.run program =
      .ok (.ok result, { program with types, census }) := by
    rw [qualified_eq, qualifying]
    refine Build.run_get_bind.mpr (Build.run_check_bind.mpr ⟨node, found, ?_⟩)
    exact Build.run_edit.mpr ⟨result, typeOf_eq_ok.mpr ⟨types, census, given, rfl⟩, rfl⟩
  exact ⟨result, _, Checked.bind_eq_ok.mpr ⟨_, asked, rfl⟩⟩

/-! ### Runs -/

/-- A run of requests, with the reply to each of them. -/
def transcript (program : Program) (requests : List Request) :
    Checked (List (Except BuildError Answer) × Program) :=
  runAll (fun request program => program.respond request) requests program

variable {requests : List Request} {replies : List (Except BuildError Answer)}

theorem run_of_transcript (ran : program.transcript requests = .ok (replies, after)) :
    program.run requests = .ok after := by
  induction requests generalizing program replies with
  | nil =>
    cases ran
    rfl
  | cons request rest ih =>
    obtain ⟨⟨reply, middle⟩, responded, ran⟩ := Checked.bind_eq_ok.mp ran
    obtain ⟨⟨later, _⟩, continued, equal⟩ := Checked.bind_eq_ok.mp ran
    cases equal
    exact Checked.bind_eq_ok.mpr ⟨_, responded, ih continued⟩

/-- Each reply was given in a program that the last one extends. -/
theorem respond_of_transcript (canonical : program.Canonical)
    (ran : program.transcript requests = .ok (replies, after)) {request : Request}
    {reply : Except BuildError Answer} (replied : (request, reply) ∈ requests.zip replies) :
    ∃ before middle : Program, before.Canonical ∧ before.respond request = .ok (reply, middle) ∧
      middle.Extends after := by
  obtain ⟨early, later, said, heard, before, middle, began, responded, ended⟩ := runAll_split ran replied
  obtain ⟨earlier, -⟩ := (run_reaches (run_of_transcript began)).keeps_canonical canonical
  obtain ⟨between, -⟩ := (respond_reaches responded).keeps_canonical earlier
  obtain ⟨-, larger⟩ := (run_reaches (run_of_transcript ended)).keeps_canonical between
  exact ⟨before, middle, earlier, responded, larger⟩

/-- Somewhere in the run `type` was qualified, which gave `result`. -/
def WasQualified (requests : List Request) (replies : List (Except BuildError Answer))
    (qualifiers : Qualifiers) (type result : TypeId) : Prop :=
  (.qualified qualifiers type, .ok (.node (.type result))) ∈ requests.zip replies

/-- What was given once, was given for ever. -/
theorem WasQualified.qualifies (canonical : program.Canonical)
    (ran : program.transcript requests = .ok (replies, after))
    (given : WasQualified requests replies qualifiers type result) :
    after.Qualifies qualifiers type result := by
  obtain ⟨before, middle, earlier, responded, larger⟩ := respond_of_transcript canonical ran given
  exact (qualifies_of_respond earlier responded).kept larger

/-- In the run, anywhere in it, `type` was qualified with one after the other of a list, each
time the type that was given before, and the last time `result` was given. -/
inductive QualifiedInTurn (requests : List Request) (replies : List (Except BuildError Answer)) :
    TypeId → List Qualifiers → TypeId → Prop where
  | last {qualifiers : Qualifiers} {type result : TypeId}
      (given : WasQualified requests replies qualifiers type result) :
      QualifiedInTurn requests replies type [qualifiers] result
  | next {qualifiers : Qualifiers} {type middle result : TypeId} {rest : List Qualifiers}
      (given : WasQualified requests replies qualifiers type middle)
      (later : QualifiedInTurn requests replies middle rest result) :
      QualifiedInTurn requests replies type (qualifiers :: rest) result

theorem QualifiedInTurn.qualifies (canonical : program.Canonical)
    (ran : program.transcript requests = .ok (replies, after)) {list : List Qualifiers}
    (inTurn : QualifiedInTurn requests replies type list result) :
    after.Qualifies (.merge list) type result := by
  induction inTurn with
  | last given =>
    rw [Qualifiers.merge_singleton]
    exact given.qualifies canonical ran
  | next given later ih =>
    rw [Qualifiers.merge_cons, Qualifiers.union_comm]
    exact (given.qualifies canonical ran).trans ih

/-- Qualifying in any number of steps is qualifying once. -/
structure MergesQualifiers (program : Program) (requests : List Request)
    (replies : List (Except BuildError Answer)) : Prop where
  flat : program.Flat
  /-- Only a program that has no number left for a node cannot qualify a type. -/
  granted : ∀ {qualifiers type node}, qualifiers.isEmpty = false → program.typeNode type = .ok node →
    program.census.next + 1 < positionLimit → ∃ result after,
      program.respond (.qualified qualifiers type) = .ok (.ok (.node (.type result)), after)
  merged : ∀ {type list result}, QualifiedInTurn requests replies type list result → ∃ after,
    program.respond (.qualified (.merge list) type) = .ok (.ok (.node (.type result)), after) ∧
      ∀ group, after.nodeCount group = program.nodeCount group
  agreed : ∀ {type first second result other}, QualifiedInTurn requests replies type first result →
    QualifiedInTurn requests replies type second other →
    Qualifiers.merge first = Qualifiers.merge second → result = other
  unordered : ∀ {type first second result other}, QualifiedInTurn requests replies type first result →
    QualifiedInTurn requests replies type second other →
    (∀ qualifiers, qualifiers ∈ first ↔ qualifiers ∈ second) → result = other
  contained : ∀ {type node inner main qualifiers}, program.typeNode type = .ok node →
    node.kind = .qualified inner main → qualifiers.isEmpty = false → inner.contains qualifiers →
    ∃ after, program.respond (.qualified qualifiers type) = .ok (.ok (.node (.type type)), after) ∧
      ∀ group, after.nodeCount group = program.nodeCount group

/-- In every run, whatever else it asks for, qualifiers merge. -/
theorem qualifiers_merge {hash : Bytes → UInt64} {sizing : Sizing} {start : Program}
    (began : initial hash sizing = .ok start)
    (ran : start.transcript requests = .ok (replies, program)) :
    program.MergesQualifiers requests replies := by
  have initially := canonical_initial began
  have reaches := run_reaches (run_of_transcript ran)
  obtain ⟨canonical, -⟩ := reaches.keeps_canonical initially
  have tallied := reaches.keeps_tallied (tallied_initial began)
  refine ⟨flat_run began (run_of_transcript ran), fun qualifying found room =>
    respond_qualified canonical tallied room qualifying found, fun inTurn =>
    (inTurn.qualifies initially ran).respond canonical, fun one two same => ?_, fun one two same => ?_,
    fun found kind qualifying contained =>
      (Qualifies.of_contains found kind qualifying contained).respond canonical⟩
  · exact (same ▸ one.qualifies initially ran).unique canonical (two.qualifies initially ran)
  · have merged := Qualifiers.merge_congr same
    exact (merged ▸ one.qualifies initially ran).unique canonical (two.qualifies initially ran)

/-- The two ways to get to a type with a known and an unknown qualifier, with a pointer made
in between. -/
theorem qualifiers_merge_two_ways :
    ∃ (start program : Program) (replies : List (Except BuildError Answer)),
      let requests : List Request := [.qualified .const ⟨11⟩, .pointer ⟨33⟩, .qualified ⟨128⟩ ⟨33⟩,
        .qualified ⟨128⟩ ⟨11⟩, .qualified .const ⟨36⟩]
      initial (fun _ => 0) {} = .ok start ∧
      start.transcript requests = .ok (replies, program) ∧
      QualifiedInTurn requests replies ⟨11⟩ [.const, ⟨128⟩] ⟨35⟩ ∧
      QualifiedInTurn requests replies ⟨11⟩ [⟨128⟩, .const] ⟨35⟩ ∧
      program.MergesQualifiers requests replies := by
  have performed : (do
      let start ← initial (fun _ => 0) {}
      match ← start.transcript [.qualified .const ⟨11⟩, .pointer ⟨33⟩, .qualified ⟨128⟩ ⟨33⟩,
        .qualified ⟨128⟩ ⟨11⟩, .qualified .const ⟨36⟩] with
      | (.ok (.node first) :: _ :: .ok (.node second) :: .ok (.node third) :: .ok (.node last) :: _,
          program) =>
        if first = .type ⟨33⟩ ∧ second = .type ⟨35⟩ ∧ third = .type ⟨36⟩ ∧ last = .type ⟨35⟩ then
          return program
        else .error .outOfRange
      | _ => .error .outOfRange : Checked Program).isOk := by decide +kernel
  obtain ⟨_, performed⟩ := Checked.exists_of_isOk performed
  obtain ⟨start, began, rest⟩ := Checked.bind_eq_ok.mp performed
  obtain ⟨⟨replies, program⟩, ran, rest⟩ := Checked.bind_eq_ok.mp rest
  split at rest
  next equal =>
    cases equal
    split at rest
    next answers =>
      obtain ⟨rfl, rfl, rfl, rfl⟩ := answers
      refine ⟨start, program, _, began, ran, ?_, ?_, qualifiers_merge began ran⟩
      · refine .next (?_ : WasQualified _ _ _ _ ⟨33⟩) (.last ?_) <;> simp [WasQualified]
      · refine .next (?_ : WasQualified _ _ _ _ ⟨36⟩) (.last ?_) <;> simp [WasQualified]
    · cases rest
  · cases rest

end Program

end CanonIR
