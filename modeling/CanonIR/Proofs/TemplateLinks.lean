import CanonIR.Proofs.DeclarationChains
import CanonIR.Proofs.WriteOnce

/-! Templates and their specializations. A template without arguments records the master
of its chain as its primary, a specialization the primary of the declaration it was asked
for by. Both kinds can be in one chain, since a chain is known by name and type alone:
then what is recorded as a primary may be a specialization, and a specialization may be
listed under another primary or nowhere. -/

namespace CanonIR

namespace DeclKind

/-- The primary that a template declaration records, and the arguments of a specialization. -/
def origin? : DeclKind → Option (DeclId × Option TermListId)
  | .template _ _ primary args => some (primary, args)
  | _ => none

theorem Fills.origin? {old new : DeclKind} (filled : old.Fills new) : new.origin? = old.origin? := by
  cases filled <;> rfl

theorem category_origin? {kind : DeclKind} :
    kind.category = .template ↔ ∃ primary args, kind.origin? = some (primary, args) := by
  cases kind <;> simp [category, DeclKind.origin?]

/-- Whether it is a specialization of `primary`. -/
def specializes (kind : DeclKind) (primary : DeclId) : Bool :=
  match kind.origin? with
  | some (recorded, some _) => recorded = primary
  | _ => false

theorem specializes_iff {kind : DeclKind} {primary : DeclId} :
    kind.specializes primary ↔ ∃ list, kind.origin? = some (primary, some list) := by
  unfold specializes
  split <;> simp_all

end DeclKind

/-- Every recorded primary is recorded by a template without arguments in its chain, and the
specializations that start a chain are listed under their primary, in order. -/
structure DeclTable.Linked (table : DeclTable) : Prop where
  own : ∀ {id node primary}, table.nodes.get? id = some node →
    node.kind.origin? = some (primary, none) → primary = node.master
  shared : ∀ {id node primary args}, table.nodes.get? id = some node →
    node.kind.origin? = some (primary, args) →
      ∃ other peer, table.nodes.get? other = some peer ∧ peer.kind.origin? = some (primary, none)
  listed : ∀ primary, table.specializationsOf primary =
    table.nodes.select fun node => node.isMaster && node.kind.specializes primary

namespace DeclTable

variable {table after : DeclTable} {id : DeclId} {node : DeclNode}

theorem linked_empty : Linked {} where
  own found := by simp [Slab.get?] at found
  shared found := by simp [Slab.get?] at found
  listed primary := by simp [specializationsOf, Slab.select, Slab.handles, Slab.size]

theorem specializationsOf_append {listed : Array (DeclId × DeclId)}
    (longer : after.specializations = table.specializations ++ listed) (primary : DeclId) :
    after.specializationsOf primary =
      table.specializationsOf primary ++ (listed.toList.filter (·.1 = primary)).map Prod.snd := by
  simp [specializationsOf, longer]

/-- A new declaration, with what is listed for it. -/
theorem Linked.push (linked : table.Linked) {listed : Array (DeclId × DeclId)}
    (pushed : table.nodes.push node = .ok (id, after.nodes))
    (longer : after.specializations = table.specializations ++ listed)
    (own : ∀ {primary}, node.kind.origin? = some (primary, none) → primary = node.master)
    (shared : ∀ {primary list}, node.kind.origin? = some (primary, some list) →
      ∃ other peer, table.nodes.get? other = some peer ∧ peer.kind.origin? = some (primary, none))
    (entered : ∀ primary, (listed.toList.filter (·.1 = primary)).map Prod.snd =
      if node.isMaster && node.kind.specializes primary then [id] else []) : after.Linked where
  own found origin := by
    rw [Slab.get?_of_push pushed] at found
    split at found
    · cases found
      exact own origin
    · exact linked.own found origin
  shared {other peer primary args} found origin := by
    have former : ∀ {former old}, table.nodes.get? former = some old →
        old.kind.origin? = some (primary, none) →
        ∃ other peer, after.nodes.get? other = some peer ∧ peer.kind.origin? = some (primary, none) :=
      fun present recorded => ⟨_, _, Slab.get?_kept pushed present, recorded⟩
    rw [Slab.get?_of_push pushed] at found
    split at found
    · cases found
      cases args with
      | none => exact ⟨id, node, Slab.get?_pushed pushed, origin⟩
      | some list =>
        obtain ⟨_, _, present, recorded⟩ := shared origin
        exact former present recorded
    · obtain ⟨_, _, present, recorded⟩ := linked.shared found origin
      exact former present recorded
  listed primary := by
    rw [specializationsOf_append longer, linked.listed, entered, Slab.select_push pushed]

/-- A node after a field was filled is an old one, but for a kind of the same origin. -/
theorem exists_former {kind : DeclKind} {nodes : Slab .decl DeclNode}
    (found : table.nodes.get? id = some node) (filled : node.kind.Fills kind)
    (changed : table.nodes.modify id ({ · with kind }) = .ok nodes) {other : DeclId} {peer : DeclNode}
    (present : nodes.get? other = some peer) :
    ∃ old, table.nodes.get? other = some old ∧ peer = { old with kind := peer.kind } ∧
      peer.kind.origin? = old.kind.origin? := by
  rw [Slab.get?_modify changed] at present
  split at present
  next same =>
    subst same
    rw [found] at present
    cases present
    exact ⟨node, found, rfl, filled.origin?⟩
  · exact ⟨peer, present, rfl, rfl⟩

/-- Filling a field changes neither primary nor arguments. -/
theorem Linked.refill (linked : table.Linked) {kind : DeclKind} {nodes : Slab .decl DeclNode}
    (found : table.nodes.get? id = some node) (filled : node.kind.Fills kind)
    (changed : table.nodes.modify id ({ · with kind }) = .ok nodes) : Linked { table with nodes } := by
  have latter : ∀ {other old}, table.nodes.get? other = some old →
      ∃ peer, nodes.get? other = some peer ∧ peer.kind.origin? = old.kind.origin? := by
    intro other old present
    rcases Slab.get?_modify_cases changed present with same | ⟨rfl, now⟩
    · exact ⟨old, same, rfl⟩
    · cases found.symm.trans present
      exact ⟨_, now, filled.origin?⟩
  refine ⟨fun present origin => ?_, fun present origin => ?_, fun primary => ?_⟩
  · obtain ⟨old, there, equal, same⟩ := exists_former found filled changed present
    have recorded := linked.own there (same ▸ origin)
    rw [equal]
    exact recorded
  · obtain ⟨old, there, -, same⟩ := exists_former found filled changed present
    obtain ⟨other, peer, standing, recorded⟩ := linked.shared there (same ▸ origin)
    obtain ⟨now, present, same⟩ := latter standing
    exact ⟨other, now, present, same.trans recorded⟩
  · refine (linked.listed primary).trans (Slab.select_modify changed fun item present => ?_).symm
    cases found.symm.trans present
    simp [DeclNode.isMaster, DeclKind.specializes, filled.origin?]

end DeclTable

namespace Program

variable {program after : Program} {request : Request}

theorem Effect.keeps_linked (effect : program.Effect request after) (linked : program.decls.Linked) :
    after.decls.Linked := by
  cases effect with
  | quiet quiet =>
    rw [quiet.undeclared]
    exact linked
  | underlyingType | exprType | regionOwner | blockEnd => exact linked
  | refill found filled changed => exact linked.refill found filled.fills changed
  | @declaration _ _ id node plain gains =>
    have unlinked : node.kind.origin? = none := by
      have absent := mt DeclKind.category_origin?.mpr plain
      cases origin : node.kind.origin? with
      | none => rfl
      | some link => exact absurd ⟨_, _, origin⟩ absent
    refine linked.push gains.pushed gains.listing ?_ ?_ ?_ <;> simp [unlinked, DeclKind.specializes]
  | template kind gains =>
    refine linked.push gains.pushed gains.listing ?_ ?_ ?_ <;>
      simp [kind, DeclKind.origin?, DeclKind.specializes]
  | @specialization _ _ named _ node _ primary id _ _ _ former _ list found recorded _ _ _ kind gains =>
    have former : named.kind.origin? = some (primary, former) := by rw [recorded]; rfl
    have origin : node.kind.origin? = some (primary, some list) := by rw [kind]; rfl
    refine linked.push gains.pushed gains.listing (by simp [origin]) (fun equal => ?_) fun other => ?_
    · cases origin.symm.trans equal
      exact linked.shared found former
    · by_cases leads : node.isMaster <;> by_cases same : primary = other <;>
        simp [leads, same, origin, DeclKind.specializes]

theorem linked_run {hash : Bytes → UInt64} {sizing : Sizing} {start : Program} {requests : List Request}
    (began : initial hash sizing = .ok start) (ran : start.run requests = .ok program) :
    program.decls.Linked := by
  have empty : start.decls.Linked := by
    rw [decls_initial began]
    exact DeclTable.linked_empty
  exact run_effects (fun effect linked => effect.keeps_linked linked) empty ran

/-! ### Recorded primaries -/

/-- A primary template: it starts its chain, has no arguments and records itself. -/
def IsPrimary (program : Program) (id : DeclId) : Prop :=
  ∃ node, program.declNode id = .ok node ∧ node.isMaster ∧ node.master = id ∧
    node.kind.origin? = some (id, none)

/-- A specialization that starts a chain which a template without arguments joined. -/
def IsOvertaken (program : Program) (id : DeclId) : Prop :=
  ∃ lead primary list other peer, program.declNode id = .ok lead ∧
    lead.kind.origin? = some (primary, some list) ∧ program.declNode other = .ok peer ∧
    peer.chain = lead.chain ∧ peer.kind.origin? = some (id, none)

/-- What is recorded as a primary starts a chain of templates, and is a primary template
unless a template without arguments joined the chain of a specialization. A specialization
records the primary of the declaration it was asked for by. -/
structure RecordsPrimaries (program : Program) : Prop where
  leads : ∀ {id node primary args}, program.declNode id = .ok node →
    node.kind.origin? = some (primary, args) → ∃ lead, program.declNode primary = .ok lead ∧
      lead.category = .template ∧ lead.isMaster ∧ lead.master = primary ∧
      (program.IsPrimary primary ↔ ¬ program.IsOvertaken primary)
  passedOn : ∀ {template args type id after},
    program.respond (.declareSpecialization template args type) = .ok (.ok (.node (.decl id)), after) →
      ∃ named primary applied node list, program.declNode template = .ok named ∧
        named.kind.origin? = some (primary, applied) ∧ after.declNode id = .ok node ∧
        node.kind.origin? = some (primary, some list)

section Links

variable (filed : program.Filed) (linked : program.decls.Linked)

include filed linked

/-- What is recorded as a primary starts the chain of a template without arguments. -/
theorem exists_lead {id primary : DeclId} {node : DeclNode} {args : Option TermListId}
    (found : program.declNode id = .ok node) (origin : node.kind.origin? = some (primary, args)) :
    ∃ lead other peer, program.declNode primary = .ok lead ∧ lead.category = .template ∧ lead.isMaster ∧
      lead.master = primary ∧ program.declNode other = .ok peer ∧ peer.chain = lead.chain ∧
      peer.kind.origin? = some (primary, none) := by
  have coheres := filed.chainsCohere
  obtain ⟨other, peer, there, recorded⟩ := linked.shared (Slab.get_eq_ok.mp found) origin
  have present : program.declNode other = .ok peer := Slab.get_eq_ok.mpr there
  obtain ⟨list, listed, first⟩ := coheres.master present
  rw [← linked.own there recorded] at first
  obtain ⟨lead, leading, -, -, -, category⟩ := coheres.alike present listed (List.mem_of_getElem? first)
  obtain ⟨chain, zero⟩ := (coheres.place leading listed).mp first
  have isMaster : lead.isMaster := by simp [DeclNode.isMaster, ← zero]
  have template : peer.category = .template := DeclKind.category_origin?.mpr ⟨_, _, recorded⟩
  exact ⟨lead, other, peer, leading, category.trans template, isMaster,
    (coheres.isMaster leading).mp isMaster, present, chain, recorded⟩

theorem isPrimary_iff {id primary : DeclId} {node : DeclNode} {args : Option TermListId}
    (found : program.declNode id = .ok node) (origin : node.kind.origin? = some (primary, args)) :
    program.IsPrimary primary ↔ ¬ program.IsOvertaken primary := by
  obtain ⟨lead, other, peer, leading, category, isMaster, mastered, present, chain, recorded⟩ :=
    exists_lead filed linked found origin
  obtain ⟨own, applied, link⟩ := DeclKind.category_origin?.mp category
  cases applied with
  | none =>
    have itself : own = primary := (linked.own (Slab.get_eq_ok.mp leading) link).trans mastered
    rw [itself] at link
    refine iff_of_true ⟨lead, leading, isMaster, mastered, link⟩ ?_
    intro ⟨_, _, _, _, _, again, specialized, _⟩
    cases leading.symm.trans again
    cases link.symm.trans specialized
  | some list =>
    refine iff_of_false ?_ (not_not_intro ⟨lead, own, list, other, peer, leading, link, present, chain, recorded⟩)
    intro ⟨_, again, _, _, plain⟩
    cases leading.symm.trans again
    cases link.symm.trans plain

end Links

/-- A specialization records what the declaration that was named records. -/
theorem respond_specialization {template id : DeclId} {args : List Term} {type : TypeId}
    (responded : program.respond (.declareSpecialization template args type) =
      .ok (.ok (.node (.decl id)), after)) :
    ∃ named primary applied node list, program.declNode template = .ok named ∧
      named.kind.origin? = some (primary, applied) ∧ after.declNode id = .ok node ∧
      node.kind.origin? = some (primary, some list) := by
  rcases Build.run_bind_cases responded with ⟨_, -, impossible⟩ | ⟨decl, middle, performed, given⟩
  · cases impossible
  cases given
  rcases declareSpecialization_cases performed with
    ⟨⟨_, impossible⟩, -⟩ |
      ⟨named, primary, _, _, node, _, list, found, ⟨_, _, applied, recorded⟩, -, same, kind, -, -, gains⟩
  · cases impossible
  · cases same
    refine ⟨named, primary, applied, node, list, Slab.get_eq_ok.mpr found, ?_,
      Slab.get_eq_ok.mpr (Slab.get?_pushed gains.pushed), ?_⟩
    · rw [recorded]
      rfl
    · rw [kind]
      rfl

/-- In every program that requests lead to, a recorded primary is a primary template, unless
it is a specialization that a template without arguments joined. -/
theorem recorded_primaries {hash : Bytes → UInt64} {sizing : Sizing} {start : Program}
    {requests : List Request} (began : initial hash sizing = .ok start)
    (ran : start.run requests = .ok program) : program.RecordsPrimaries where
  leads found origin := by
    have filed := filed_run began ran
    have linked := linked_run began ran
    obtain ⟨lead, _, _, leading, category, isMaster, mastered, -⟩ := exists_lead filed linked found origin
    exact ⟨lead, leading, category, isMaster, mastered, isPrimary_iff filed linked found origin⟩
  passedOn := respond_specialization

/-- A specialization of a specialization goes back to the primary template. -/
theorem recorded_primaries_nested : ∃ start program : Program,
    initial (fun _ => 0) {} = .ok start ∧
    start.run [.intern (.ofString "f"), .identifier (.entry 0), .declareTemplate .global ⟨0⟩ ⟨11⟩ .empty,
      .declareSpecialization ⟨0⟩ [.type ⟨11⟩] ⟨12⟩, .declareSpecialization ⟨1⟩ [.type ⟨2⟩] ⟨12⟩] =
        .ok program ∧
    (∃ node list, program.declNode ⟨2⟩ = .ok node ∧ node.kind.origin? = some (⟨0⟩, some list)) ∧
    program.IsPrimary ⟨0⟩ ∧ ¬ program.IsOvertaken ⟨0⟩ := by
  have performed : (do
      let start ← initial (fun _ => 0) {}
      let program ← start.run [.intern (.ofString "f"), .identifier (.entry 0),
        .declareTemplate .global ⟨0⟩ ⟨11⟩ .empty, .declareSpecialization ⟨0⟩ [.type ⟨11⟩] ⟨12⟩,
        .declareSpecialization ⟨1⟩ [.type ⟨2⟩] ⟨12⟩]
      let node ← program.declNode ⟨2⟩
      let lead ← program.declNode ⟨0⟩
      if node.kind.origin? = some (⟨0⟩, some ⟨2⟩) ∧ lead.isMaster ∧ lead.master = ⟨0⟩ ∧
          lead.kind.origin? = some (⟨0⟩, none) then
        return program
      else .error .outOfRange : Checked Program).isOk := by decide +kernel
  obtain ⟨_, performed⟩ := Checked.exists_of_isOk performed
  obtain ⟨start, began, rest⟩ := Checked.bind_eq_ok.mp performed
  obtain ⟨program, ran, rest⟩ := Checked.bind_eq_ok.mp rest
  obtain ⟨node, found, rest⟩ := Checked.bind_eq_ok.mp rest
  obtain ⟨lead, leading, rest⟩ := Checked.bind_eq_ok.mp rest
  split at rest
  next linked =>
    obtain ⟨origin, isMaster, mastered, itself⟩ := linked
    obtain ⟨_, -, -, -, -, genuine⟩ := (recorded_primaries began ran).leads found origin
    have primary : program.IsPrimary ⟨0⟩ := ⟨lead, leading, isMaster, mastered, itself⟩
    exact ⟨start, program, began, ran, ⟨node, ⟨2⟩, found, origin⟩, primary, genuine.mp primary⟩
  · cases rest

/-- A template that is declared by the template-id of a specialization, and with its type,
records that specialization; and so do the specializations that are asked for by it. -/
theorem specialization_recorded_as_primary : ∃ start program : Program, ∃ node lead last : DeclNode,
    initial (fun _ => 0) {} = .ok start ∧
    start.usesIssued [.intern (.ofString "f"), .identifier (.entry 0),
      .declareTemplate .global ⟨0⟩ ⟨11⟩ .empty, .declareSpecialization ⟨0⟩ [.type ⟨11⟩] ⟨12⟩,
      .declareTemplate .global ⟨1⟩ ⟨12⟩ .empty, .declareSpecialization ⟨2⟩ [.type ⟨2⟩] ⟨12⟩] ∧
    start.run [.intern (.ofString "f"), .identifier (.entry 0),
      .declareTemplate .global ⟨0⟩ ⟨11⟩ .empty, .declareSpecialization ⟨0⟩ [.type ⟨11⟩] ⟨12⟩,
      .declareTemplate .global ⟨1⟩ ⟨12⟩ .empty, .declareSpecialization ⟨2⟩ [.type ⟨2⟩] ⟨12⟩] =
        .ok program ∧
    program.declNode ⟨2⟩ = .ok node ∧ node.kind.origin? = some (⟨1⟩, none) ∧
    program.declNode ⟨1⟩ = .ok lead ∧ lead.kind.origin? = some (⟨0⟩, some ⟨1⟩) ∧
    program.declNode ⟨3⟩ = .ok last ∧ last.kind.origin? = some (⟨1⟩, some ⟨2⟩) ∧
    ¬ program.IsPrimary ⟨1⟩ := by
  have performed : (do
      let requests : List Request := [.intern (.ofString "f"), .identifier (.entry 0),
        .declareTemplate .global ⟨0⟩ ⟨11⟩ .empty, .declareSpecialization ⟨0⟩ [.type ⟨11⟩] ⟨12⟩,
        .declareTemplate .global ⟨1⟩ ⟨12⟩ .empty, .declareSpecialization ⟨2⟩ [.type ⟨2⟩] ⟨12⟩]
      let start ← initial (fun _ => 0) {}
      let program ← start.run requests
      let node ← program.declNode ⟨2⟩
      let lead ← program.declNode ⟨1⟩
      let last ← program.declNode ⟨3⟩
      if start.usesIssued requests ∧ node.kind.origin? = some (⟨1⟩, none) ∧
          lead.kind.origin? = some (⟨0⟩, some ⟨1⟩) ∧ last.kind.origin? = some (⟨1⟩, some ⟨2⟩) then
        return program
      else .error .outOfRange : Checked Program).isOk := by decide +kernel
  obtain ⟨_, performed⟩ := Checked.exists_of_isOk performed
  obtain ⟨start, began, rest⟩ := Checked.bind_eq_ok.mp performed
  obtain ⟨program, ran, rest⟩ := Checked.bind_eq_ok.mp rest
  obtain ⟨node, found, rest⟩ := Checked.bind_eq_ok.mp rest
  obtain ⟨lead, leading, rest⟩ := Checked.bind_eq_ok.mp rest
  obtain ⟨last, newest, rest⟩ := Checked.bind_eq_ok.mp rest
  split at rest
  next linked =>
    obtain ⟨issued, plain, specialized, passed⟩ := linked
    refine ⟨start, program, node, lead, last, began, issued, ran, found, plain, leading, specialized,
      newest, passed, ?_⟩
    intro ⟨_, again, _, _, unspecialized⟩
    cases leading.symm.trans again
    cases specialized.symm.trans unspecialized
  · cases rest

/-! ### Lists of specializations -/

theorem origin_run {id : DeclId} {node : DeclNode} {requests : List Request}
    (found : program.declNode id = .ok node) (ran : program.run requests = .ok after) :
    ∃ now, after.declNode id = .ok now ∧ now.kind.origin? = node.kind.origin? := by
  have step : ∀ {first : Program} {request second}, first.Effect request second →
      (∃ now, first.declNode id = .ok now ∧ now.kind.origin? = node.kind.origin?) →
      ∃ now, second.declNode id = .ok now ∧ now.kind.origin? = node.kind.origin? := by
    intro first request second effect ⟨now, present, same⟩
    rcases effect.preserves.decls present with still | ⟨kind, filled, refilled⟩
    · exact ⟨now, still, same⟩
    · exact ⟨_, refilled, filled.fills.origin?.trans same⟩
  exact run_effects step ⟨node, found, rfl⟩ ran

/-- The chain of a specialization is listed under its primary if the chain was started by a
specialization of that primary, and then once. -/
theorem count_specializations (filed : program.Filed) (linked : program.decls.Linked) {id primary : DeclId}
    {node : DeclNode} {args : Option TermListId} (found : program.declNode id = .ok node)
    (origin : node.kind.origin? = some (primary, args)) :
    ∃ lead listed, program.declNode node.master = .ok lead ∧ program.specializations primary = .ok listed ∧
      listed.count node.master = if lead.kind.specializes primary then 1 else 0 := by
  have coheres := filed.chainsCohere
  obtain ⟨list, chained, first⟩ := coheres.master found
  obtain ⟨lead, leading, -⟩ := coheres.alike found chained (List.mem_of_getElem? first)
  have isMaster : lead.isMaster := by
    simp [DeclNode.isMaster, ← ((coheres.place leading chained).mp first).2]
  obtain ⟨top, _, _, there, -, -, mastered, -⟩ := exists_lead filed linked found origin
  refine ⟨lead, program.decls.specializationsOf primary, leading, by simp [specializations, there, mastered], ?_⟩
  rw [linked.listed]
  have member : node.master ∈ (program.decls.nodes.select fun node =>
      node.isMaster && node.kind.specializes primary) ↔ lead.kind.specializes primary := by
    simp [Slab.mem_select, Slab.get_eq_ok.mp leading, isMaster]
  have distinct : (program.decls.nodes.select fun node =>
      node.isMaster && node.kind.specializes primary).Nodup :=
    Slab.select_ascends.imp fun lower same => by simp [same] at lower
  rw [distinct.count]
  simp [member]

/-- A specialization that was declared records a primary from then on. The master of its
chain is listed under that primary once if it is a specialization of the primary too, and
not at all if not. -/
theorem specializations_listed_once {hash : Bytes → UInt64} {sizing : Sizing} {start : Program}
    {requests : List Request} (began : initial hash sizing = .ok start)
    (ran : start.run requests = .ok program) {template id : DeclId} {args : List Term} {type : TypeId}
    (declared : program.respond (.declareSpecialization template args type) =
      .ok (.ok (.node (.decl id)), after))
    {later : List Request} {final : Program} (continued : after.run later = .ok final) :
    ∃ node primary list lead listed, final.declNode id = .ok node ∧
      node.kind.origin? = some (primary, some list) ∧ final.declNode node.master = .ok lead ∧
      final.specializations primary = .ok listed ∧
      listed.count node.master = if lead.kind.specializes primary then 1 else 0 := by
  obtain ⟨_, primary, _, former, list, -, -, made, origin⟩ := respond_specialization declared
  obtain ⟨node, found, same⟩ := origin_run made continued
  have filed : final.Filed :=
    (run_reaches continued).keeps_filed ((respond_reaches declared).keeps_filed (filed_run began ran))
  have linked : final.decls.Linked :=
    run_effects (fun effect linked => effect.keeps_linked linked)
      ((respond_effect declared).keeps_linked (linked_run began ran)) continued
  obtain ⟨lead, listed, leading, given, count⟩ :=
    count_specializations filed linked found (same.trans origin)
  exact ⟨node, primary, list, lead, listed, found, same.trans origin, leading, given, count⟩

/-- A specialization that is declared twice is listed by its first declaration. -/
theorem specializations_listed_once_again : ∃ start program after : Program,
    initial (fun _ => 0) {} = .ok start ∧
    start.run [.intern (.ofString "f"), .identifier (.entry 0), .declareTemplate .global ⟨0⟩ ⟨11⟩ .empty,
      .declareSpecialization ⟨0⟩ [.type ⟨11⟩] ⟨12⟩] = .ok program ∧
    program.respond (.declareSpecialization ⟨0⟩ [.type ⟨11⟩] ⟨12⟩) = .ok (.ok (.node (.decl ⟨2⟩)), after) ∧
    ∃ node lead listed, after.declNode ⟨2⟩ = .ok node ∧ node.kind.specializes ⟨0⟩ ∧
      node.master = ⟨1⟩ ∧ after.declNode ⟨1⟩ = .ok lead ∧ lead.kind.specializes ⟨0⟩ ∧
      after.specializations ⟨0⟩ = .ok listed ∧ listed.count ⟨1⟩ = 1 := by
  have performed : (do
      let start ← initial (fun _ => 0) {}
      let program ← start.run [.intern (.ofString "f"), .identifier (.entry 0),
        .declareTemplate .global ⟨0⟩ ⟨11⟩ .empty, .declareSpecialization ⟨0⟩ [.type ⟨11⟩] ⟨12⟩]
      match ← program.respond (.declareSpecialization ⟨0⟩ [.type ⟨11⟩] ⟨12⟩) with
      | (.ok (.node ref), after) =>
        let node ← after.declNode ⟨2⟩
        let lead ← after.declNode ⟨1⟩
        if ref = .decl ⟨2⟩ ∧ node.kind.origin? = some (⟨0⟩, some ⟨1⟩) ∧ node.master = ⟨1⟩ ∧
            lead.kind.specializes ⟨0⟩ then
          return program
        else .error .outOfRange
      | _ => .error .outOfRange : Checked Program).isOk := by decide +kernel
  obtain ⟨_, performed⟩ := Checked.exists_of_isOk performed
  obtain ⟨start, began, rest⟩ := Checked.bind_eq_ok.mp performed
  obtain ⟨program, ran, rest⟩ := Checked.bind_eq_ok.mp rest
  obtain ⟨⟨outcome, after⟩, declared, rest⟩ := Checked.bind_eq_ok.mp rest
  split at rest
  next equal =>
    cases equal
    obtain ⟨node, found, rest⟩ := Checked.bind_eq_ok.mp rest
    obtain ⟨lead, leading, rest⟩ := Checked.bind_eq_ok.mp rest
    split at rest
    next facts =>
      obtain ⟨rfl, origin, mastered, specialized⟩ := facts
      obtain ⟨_, primary, list, _, listed, again, recorded, top, given, count⟩ :=
        specializations_listed_once began ran declared (rfl : after.run [] = .ok after)
      cases found.symm.trans again
      cases origin.symm.trans recorded
      rw [mastered] at top count
      cases leading.symm.trans top
      rw [if_pos specialized] at count
      exact ⟨start, program, after, began, ran, declared, node, lead, listed, found,
        DeclKind.specializes_iff.mpr ⟨_, origin⟩, mastered, leading, specialized, given, count⟩
    · cases rest
  · cases rest

/-- Two primary templates of one name in one region have one chain for what specializes them
alike. The specialization of the second one joins that of the first, and is not listed. -/
theorem specialization_unlisted : ∃ start program after : Program,
    initial (fun _ => 0) {} = .ok start ∧
    start.usesIssued [.intern (.ofString "f"), .identifier (.entry 0),
      .declareTemplate .global ⟨0⟩ ⟨11⟩ .empty, .declareTemplate .global ⟨0⟩ ⟨12⟩ .empty,
      .declareSpecialization ⟨0⟩ [.type ⟨11⟩] ⟨13⟩, .declareSpecialization ⟨1⟩ [.type ⟨11⟩] ⟨13⟩] ∧
    start.run [.intern (.ofString "f"), .identifier (.entry 0),
      .declareTemplate .global ⟨0⟩ ⟨11⟩ .empty, .declareTemplate .global ⟨0⟩ ⟨12⟩ .empty,
      .declareSpecialization ⟨0⟩ [.type ⟨11⟩] ⟨13⟩] = .ok program ∧
    program.respond (.declareSpecialization ⟨1⟩ [.type ⟨11⟩] ⟨13⟩) = .ok (.ok (.node (.decl ⟨3⟩)), after) ∧
    ∃ node, after.declNode ⟨3⟩ = .ok node ∧ node.kind.specializes ⟨1⟩ ∧ node.master = ⟨2⟩ ∧
      after.specializations ⟨0⟩ = .ok [⟨2⟩] ∧ after.specializations ⟨1⟩ = .ok [] := by
  have performed : (do
      let requests : List Request := [.intern (.ofString "f"), .identifier (.entry 0),
        .declareTemplate .global ⟨0⟩ ⟨11⟩ .empty, .declareTemplate .global ⟨0⟩ ⟨12⟩ .empty,
        .declareSpecialization ⟨0⟩ [.type ⟨11⟩] ⟨13⟩]
      let start ← initial (fun _ => 0) {}
      let program ← start.run requests
      match ← program.respond (.declareSpecialization ⟨1⟩ [.type ⟨11⟩] ⟨13⟩) with
      | (.ok (.node ref), after) =>
        let node ← after.declNode ⟨3⟩
        let first ← after.specializations ⟨0⟩
        let second ← after.specializations ⟨1⟩
        if start.usesIssued (requests ++ [.declareSpecialization ⟨1⟩ [.type ⟨11⟩] ⟨13⟩]) ∧
            ref = .decl ⟨3⟩ ∧ node.kind.specializes ⟨1⟩ ∧ node.master = ⟨2⟩ ∧ first = [⟨2⟩] ∧ second = [] then
          return program
        else .error .outOfRange
      | _ => .error .outOfRange : Checked Program).isOk := by decide +kernel
  obtain ⟨_, performed⟩ := Checked.exists_of_isOk performed
  obtain ⟨start, began, rest⟩ := Checked.bind_eq_ok.mp performed
  obtain ⟨program, ran, rest⟩ := Checked.bind_eq_ok.mp rest
  obtain ⟨⟨outcome, after⟩, declared, rest⟩ := Checked.bind_eq_ok.mp rest
  split at rest
  next equal =>
    cases equal
    obtain ⟨node, found, rest⟩ := Checked.bind_eq_ok.mp rest
    obtain ⟨first, listed, rest⟩ := Checked.bind_eq_ok.mp rest
    obtain ⟨second, unlisted, rest⟩ := Checked.bind_eq_ok.mp rest
    split at rest
    next facts =>
      obtain ⟨issued, rfl, specialized, mastered, rfl, rfl⟩ := facts
      exact ⟨start, program, after, began, issued, ran, declared, node, found, specialized, mastered,
        listed, unlisted⟩
    · cases rest
  · cases rest

end Program

end CanonIR
