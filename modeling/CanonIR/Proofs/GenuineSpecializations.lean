import CanonIR.Proofs.TemplateLinks

/-! What is listed as a specialization is one. It was declared in the region of its primary
and is named by a template-id, which is made of the primary's name and of the very list of
arguments that the specialization carries. -/

namespace CanonIR.Program

variable {program after : Program} {request : Request} {id primary : DeclId} {node : DeclNode}
  {list : TermListId}

/-! ### Template-ids -/

/-- The arguments are kept twice, for the name and for the declaration, as one list. -/
theorem Applied.kind (canonical : program.Canonical) {template name : NameId} {args : List Term}
    (applied : program.Applied after template args name list) :
    ∃ named, after.names.nodes.get? name = some named ∧ named.kind = .templateId template list := by
  obtain ⟨_, noted, made, noting, grows⟩ := applied
  obtain ⟨_, _, names, census, listed, given, rfl⟩ := templateId_eq_ok.mp made
  obtain ⟨canonical, -, ⟨first, ⟨named, found, labelled⟩, readable⟩, -⟩ :=
    NameTable.templateId_eq_ok canonical.names listed given
  obtain ⟨⟨_, larger⟩, kept, equal⟩ := Checked.bind_eq_ok.mp noting
  cases equal
  obtain ⟨canonical, extended, read, -⟩ := NameTable.keepTerms_eq_ok canonical kept
  obtain rfl := NameTable.termList_inj canonical (extended.lists readable) read
  exact ⟨named, grows.names (extended.nodes found), Option.some.inj labelled⟩

/-- `node` is declared beside `primary`, by the template-id of its name and `list`. -/
def Beside (program : Program) (node : DeclNode) (primary : DeclId) (list : TermListId) : Prop :=
  ∃ lead name, program.decls.nodes.get? primary = some lead ∧ node.home = lead.home ∧
    program.names.nodes.get? node.name = some name ∧ name.kind = .templateId lead.name list

/-- Every specialization is declared beside the primary it records, listed or not. -/
def SpecializesBeside (program : Program) : Prop :=
  ∀ id node primary list, program.decls.nodes.get? id = some node →
    node.kind.origin? = some (primary, some list) → program.Beside node primary list

theorem Grows.beside (grows : program.Grows after) (beside : program.Beside node primary list) :
    after.Beside node primary list := by
  obtain ⟨lead, name, leads, home, named, kind⟩ := beside
  exact ⟨lead, name, grows.decls leads, home, grows.names named, kind⟩

/-! ### Requests and runs -/

theorem SpecializesBeside.push (beside : program.SpecializesBeside) {listed : Array (DeclId × DeclId)}
    (gains : program.Gains after id node listed) (new : ∀ {primary list},
      node.kind.origin? = some (primary, some list) → after.Beside node primary list) :
    after.SpecializesBeside := by
  intro other peer primary list found origin
  rw [Slab.get?_of_push gains.pushed] at found
  split at found
  · cases found
    exact new origin
  · exact gains.grows.beside (beside _ _ _ _ found origin)

/-- Filling a field moves and renames nothing. -/
theorem SpecializesBeside.refill (beside : program.SpecializesBeside) {kind : DeclKind}
    {nodes : Slab .decl DeclNode} (found : program.decls.nodes.get? id = some node)
    (filled : node.kind.Fills kind)
    (changed : program.decls.nodes.modify id ({ · with kind }) = .ok nodes) :
    SpecializesBeside { program with decls := { program.decls with nodes } } := by
  intro other peer primary list present origin
  obtain ⟨old, there, equal, same⟩ := DeclTable.exists_former found filled changed present
  obtain ⟨lead, name, leads, beside, named, applied⟩ := beside other old primary list there (same ▸ origin)
  obtain ⟨now, leading⟩ : ∃ now, nodes.get? primary = some now := by
    rcases Slab.get?_modify_cases changed leads with still | ⟨-, refilled⟩
    · exact ⟨lead, still⟩
    · exact ⟨_, refilled⟩
  obtain ⟨_, again, alike, -⟩ := DeclTable.exists_former found filled changed leading
  cases leads.symm.trans again
  rw [equal]
  refine ⟨now, name, leading, ?_, named, ?_⟩ <;> rw [alike]
  · exact beside
  · exact applied

theorem Effect.keeps_beside (effect : program.Effect request after) (canonical : program.Canonical)
    (beside : program.SpecializesBeside) : after.SpecializesBeside := by
  cases effect with
  | quiet quiet =>
    intro id node primary list found origin
    rw [quiet.undeclared] at found
    exact quiet.toGrows.beside (beside _ _ _ _ found origin)
  | underlyingType | exprType | regionOwner | blockEnd => exact beside
  | refill found filled changed => exact beside.refill found filled.fills changed
  | declaration plain gains =>
    refine beside.push gains fun origin => ?_
    exact absurd (DeclKind.category_origin?.mpr ⟨_, _, origin⟩) plain
  | template kind gains =>
    refine beside.push gains fun origin => ?_
    rw [kind] at origin
    cases origin
  | specialization _ _ leads home applied kind gains =>
    refine beside.push gains fun origin => ?_
    rw [kind] at origin
    cases origin
    obtain ⟨name, found, labelled⟩ := applied.kind canonical
    exact ⟨_, name, gains.grows.decls leads, home, found, labelled⟩

theorem specializesBeside_run {hash : Bytes → UInt64} {sizing : Sizing} {start : Program}
    {requests : List Request} (began : initial hash sizing = .ok start)
    (ran : start.run requests = .ok program) : program.SpecializesBeside := by
  have canonical := canonical_initial began
  have none : start.SpecializesBeside := by
    intro id node primary list found
    simp [decls_initial began, Slab.get?] at found
  clear began
  induction requests generalizing start with
  | nil =>
    cases ran
    exact none
  | cons request rest ih =>
    obtain ⟨⟨outcome, middle⟩, responded, ran⟩ := Checked.bind_eq_ok.mp ran
    exact ih ran ((respond_reaches responded).keeps_canonical canonical).1
      ((respond_effect responded).keeps_beside canonical none)

/-! ### Lists -/

/-- A template declaration that starts its chain, records `primary` and carries arguments;
it is in the region of `primary`, by the template-id of the name of `primary` and of those
very arguments. -/
def Specializes (program : Program) (id primary : DeclId) : Prop :=
  ∃ node lead name list args, program.declNode id = .ok node ∧ program.declNode primary = .ok lead ∧
    node.category = .template ∧ node.isMaster ∧ node.master = id ∧
    node.kind.origin? = some (primary, some list) ∧ program.termList list = .ok args ∧
    node.home = lead.home ∧ program.nameNode node.name = .ok name ∧ name.kind = .templateId lead.name list

/-- What the lists of specializations hold. -/
structure ListsSpecializations (program : Program) : Prop where
  genuine : ∀ {primary id}, id ∈ program.decls.specializationsOf primary → program.Specializes id primary
  ascending : ∀ primary, (program.decls.specializationsOf primary).Pairwise (·.raw < ·.raw)
  apart : ∀ {primary other id}, id ∈ program.decls.specializationsOf primary →
    id ∈ program.decls.specializationsOf other → primary = other

theorem mem_specializationsOf (linked : program.decls.Linked) :
    id ∈ program.decls.specializationsOf primary ↔ ∃ node list, program.declNode id = .ok node ∧
      node.isMaster ∧ node.kind.origin? = some (primary, some list) := by
  simp only [linked.listed, Slab.mem_select, Bool.and_eq_true, DeclKind.specializes_iff, declNode,
    Slab.get_eq_ok]
  constructor
  · rintro ⟨node, found, leads, list, origin⟩
    exact ⟨node, list, found, leads, origin⟩
  · rintro ⟨node, list, found, leads, origin⟩
    exact ⟨node, found, leads, list, origin⟩

/-- In every program that requests lead to, what is listed under a declaration are its
specializations, each under one declaration, in the order they were declared. -/
theorem specializations_genuine {hash : Bytes → UInt64} {sizing : Sizing} {start : Program}
    {requests : List Request} (began : initial hash sizing = .ok start)
    (ran : start.run requests = .ok program) : program.ListsSpecializations where
  genuine {primary id} member := by
    have linked := linked_run began ran
    obtain ⟨node, list, found, leads, origin⟩ := (mem_specializationsOf linked).mp member
    have mastered := ((filed_run began ran).chainsCohere.isMaster found).mp leads
    obtain ⟨lead, name, leading, home, named, kind⟩ :=
      specializesBeside_run began ran _ _ _ _ (Slab.get_eq_ok.mp found) origin
    have refers : name.kind.list? = some list := by
      rw [kind]
      rfl
    have canonical := ((run_reaches ran).keeps_canonical (canonical_initial began)).1
    obtain ⟨args, readable⟩ := canonical.names.issued named refers
    exact ⟨node, lead, name, list, args, found, Slab.get_eq_ok.mpr leading,
      DeclKind.category_origin?.mpr ⟨_, _, origin⟩, leads, mastered, origin, readable, home,
      Slab.get_eq_ok.mpr named, kind⟩
  ascending primary := by
    rw [(linked_run began ran).listed]
    exact Slab.select_ascends
  apart first second := by
    have linked := linked_run began ran
    obtain ⟨_, _, found, -, origin⟩ := (mem_specializationsOf linked).mp first
    obtain ⟨_, _, again, -, recorded⟩ := (mem_specializationsOf linked).mp second
    cases found.symm.trans again
    cases origin.symm.trans recorded
    rfl

/-- Two specializations that were asked for by a redeclaration and by a specialization, the
first of them declared twice. -/
theorem specializations_genuine_redeclared : ∃ start program : Program,
    initial (fun _ => 0) {} = .ok start ∧
    start.run [.intern (.ofString "f"), .identifier (.entry 0), .declareTemplate .global ⟨0⟩ ⟨11⟩ .empty,
      .declareTemplate .global ⟨0⟩ ⟨11⟩ .empty, .declareSpecialization ⟨1⟩ [.type ⟨11⟩] ⟨12⟩,
      .declareSpecialization ⟨0⟩ [.type ⟨11⟩] ⟨12⟩, .declareSpecialization ⟨2⟩ [.type ⟨2⟩] ⟨12⟩] =
        .ok program ∧
    program.specializations ⟨0⟩ = .ok [⟨2⟩, ⟨4⟩] ∧
    program.Specializes ⟨2⟩ ⟨0⟩ ∧ program.Specializes ⟨4⟩ ⟨0⟩ := by
  have performed : (do
      let start ← initial (fun _ => 0) {}
      let program ← start.run [.intern (.ofString "f"), .identifier (.entry 0),
        .declareTemplate .global ⟨0⟩ ⟨11⟩ .empty, .declareTemplate .global ⟨0⟩ ⟨11⟩ .empty,
        .declareSpecialization ⟨1⟩ [.type ⟨11⟩] ⟨12⟩, .declareSpecialization ⟨0⟩ [.type ⟨11⟩] ⟨12⟩,
        .declareSpecialization ⟨2⟩ [.type ⟨2⟩] ⟨12⟩]
      let listed ← program.specializations ⟨0⟩
      if listed = [⟨2⟩, ⟨4⟩] ∧ program.decls.specializationsOf ⟨0⟩ = [⟨2⟩, ⟨4⟩] then
        return program
      else .error .outOfRange : Checked Program).isOk := by decide +kernel
  obtain ⟨_, performed⟩ := Checked.exists_of_isOk performed
  obtain ⟨start, began, rest⟩ := Checked.bind_eq_ok.mp performed
  obtain ⟨program, ran, rest⟩ := Checked.bind_eq_ok.mp rest
  obtain ⟨listed, given, rest⟩ := Checked.bind_eq_ok.mp rest
  split at rest
  next lists =>
    obtain ⟨rfl, stored⟩ := lists
    have lists := specializations_genuine began ran
    exact ⟨start, program, began, ran, given, lists.genuine (by simp [stored]),
      lists.genuine (by simp [stored])⟩
  · cases rest

end CanonIR.Program
