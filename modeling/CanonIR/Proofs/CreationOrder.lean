import CanonIR.Proofs.DeclarationChains
import CanonIR.Proofs.NodeLinks

/-! The order of creation. Nodes of all tables are numbered as they are made, and a node is
made of nodes that are there already. So the links that nodes were made with lead down in
number and come to an end; only links that were added later can lead to younger nodes. -/

namespace CanonIR

theorem Slab.mem_rollCall {α : Type} {table : Table} {slab : Slab table α} {handle : Handle table}
    {item : α} (read : α → NodeId × Category) (found : slab.get? handle = some item) :
    read item ∈ slab.rollCall read := by
  obtain ⟨index, -, present⟩ := get?_eq_some.mp found
  exact List.mem_map_of_mem (Array.mem_toList_iff.mpr (Array.mem_of_getElem? present))

namespace Program

variable {known : Answer → Prop} {program after : Program} {ref : NodeRef} {links : Links}

/-! ### Numbers -/

theorem issued_of_links (read : program.links ref = .ok links) : program.issued (.node ref) := by
  cases ref with
  | name id =>
    obtain ⟨node, _, _, found, -⟩ := links_name.mp read
    exact issued_name.mpr ⟨node, found⟩
  | type id =>
    obtain ⟨node, _, _, found, -⟩ := links_type.mp read
    exact issued_type.mpr ⟨node, found⟩
  | expr id =>
    obtain ⟨node, _, found, -⟩ := links_expr.mp read
    exact issued_expr.mpr ⟨node, found⟩
  | stmt id =>
    obtain ⟨node, found, -⟩ := links_stmt.mp read
    exact issued_stmt.mpr ⟨node, found⟩
  | decl id =>
    obtain ⟨node, _, found, -⟩ := links_decl.mp read
    exact issued_decl.mpr ⟨node, found⟩
  | directive id =>
    obtain ⟨node, found, -⟩ := links_directive.mp read
    exact issued_directive.mpr ⟨node, found⟩

theorem Tallied.lt_next (tallied : program.Tallied) (group : Group) {entry : NodeId × Category}
    (listed : entry ∈ program.roster group) : entry.1.raw < program.census.next := by
  have numbers := tallied.toNumbers
  have member : entry.1 ∈ program.roster.all.map Prod.fst :=
    List.mem_map_of_mem (List.mem_flatMap.mpr ⟨group, by cases group <;> decide, listed⟩)
  have inside := ((numbers.mem_iff entry.1).mp member).2
  have started := numbers.started
  simp only [Census.total] at inside
  omega

/-- What all programs share has lower numbers than what a program makes. -/
theorem Tallied.number_lt (tallied : program.Tallied) (read : program.links ref = .ok links) :
    links.number.raw < program.census.next := by
  have started := tallied.toNumbers.started
  cases ref with
  | name id =>
    obtain ⟨node, _, _, found, -, rfl⟩ := links_name.mp read
    exact tallied.lt_next .name (Slab.mem_rollCall _ (Slab.get_eq_ok.mp found))
  | type id =>
    obtain ⟨node, _, _, found, -, rfl⟩ := links_type.mp read
    rcases TypeTable.get_eq_ok.mp found with ⟨fundamental, shared, rfl⟩ | present
    · have low := (List.getElem?_eq_some_iff.mp shared).1
      exact Nat.lt_of_lt_of_le (Nat.lt_of_lt_of_le low (by decide)) started
    · exact tallied.lt_next .type (Slab.mem_rollCall _ present)
  | expr id =>
    obtain ⟨node, _, found, -, rfl⟩ := links_expr.mp read
    rcases ExprTable.get_eq_ok.mp found with shared | present
    · exact Nat.lt_of_lt_of_le (sharedExprs_low node (List.mem_of_getElem? shared)) started
    · exact tallied.lt_next .expr (Slab.mem_rollCall _ present)
  | stmt id =>
    obtain ⟨node, found, rfl⟩ := links_stmt.mp read
    exact tallied.lt_next .stmt (Slab.mem_rollCall _ (Slab.get_eq_ok.mp found))
  | decl id =>
    obtain ⟨node, _, found, -, rfl⟩ := links_decl.mp read
    exact tallied.lt_next .decl (Slab.mem_rollCall _ (Slab.get_eq_ok.mp found))
  | directive id =>
    obtain ⟨node, found, rfl⟩ := links_directive.mp read
    exact tallied.lt_next .directive (Slab.mem_rollCall _ (Slab.get_eq_ok.mp found))

/-! ### What a change keeps -/

/-- The links lead to nodes with smaller numbers. The first declaration of a chain may lead
to itself. -/
def Ordered (program : Program) (ref : NodeRef) (links : Links) : Prop :=
  ∀ target ∈ links.targets,
    (∃ other, program.links target = .ok other ∧ other.number.raw < links.number.raw) ∨
      target = ref ∧ program.LeadsChain ref

structure KeepsLinks (program after : Program) : Prop where
  links : ∀ {ref old}, program.links ref = .ok old → ∃ now, after.links ref = .ok now ∧ old.Extends now
  leads : ∀ {ref}, program.LeadsChain ref → after.LeadsChain ref

theorem KeepsLinks.refl (program : Program) : program.KeepsLinks program :=
  ⟨fun read => ⟨_, read, .refl _⟩, id⟩

theorem KeepsLinks.trans {first second third : Program} (earlier : first.KeepsLinks second)
    (later : second.KeepsLinks third) : first.KeepsLinks third where
  links read := by
    obtain ⟨middle, between, grown⟩ := earlier.links read
    obtain ⟨now, there, larger⟩ := later.links between
    exact ⟨now, there, grown.trans larger⟩
  leads first := later.leads (earlier.leads first)

theorem KeepsLinks.ordered (keeps : program.KeepsLinks after) (ordered : program.Ordered ref links) :
    after.Ordered ref links := by
  intro target member
  rcases ordered target member with ⟨other, read, smaller⟩ | ⟨same, first⟩
  · obtain ⟨now, there, grown⟩ := keeps.links read
    exact .inl ⟨now, there, grown.number ▸ smaller⟩
  · exact .inr ⟨same, keeps.leads first⟩

theorem Change.keepsLinks (change : program.Change known after) (identifies : program.Identifies) :
    program.KeepsLinks after where
  links read := by
    obtain ⟨now, there, grows⟩ := change.links_grow identifies read
    exact ⟨now, there, grows.extends⟩
  leads := by
    intro ref ⟨id, node, same, found, first⟩
    obtain ⟨now, there⟩ := change.keeps_decl found
    refine ⟨id, now, same, there, ?_⟩
    cases change.declSource there with
    | kept before | refilled before =>
      cases found.symm.trans before
      exact first
    | new absent => exact absurd (issued_decl.mpr ⟨node, found⟩) absent

/-- What is kept where requests name only issued handles, with all that is counted and
linked. -/
structure Settled (program : Program) : Prop extends program.Structured where
  tallied : program.Tallied
  closed : program.Closed

/-- Nodes that are not known are in order: nothing can be added to them. -/
def OrderedApart (known : Answer → Prop) (program : Program) : Prop :=
  ∀ ⦃ref links⦄, program.links ref = .ok links → ¬ known (.node ref) → program.Ordered ref links

section Steps

variable (granted : ∀ handle, known handle → program.issued handle) (settled : program.Settled)

include granted settled

theorem Change.keeps_settled (change : program.Change known after) : after.Settled := by
  obtain ⟨⟨identifies, named, grounded⟩, tallied, closed⟩ := settled
  obtain ⟨still, recalls⟩ := change.keeps_identifies identifies
  exact ⟨⟨still, change.keeps_namesIssued recalls.larger (fun _ given => granted _ given) named,
    change.keeps_grounded identifies granted grounded⟩, change.keeps_tallied tallied,
    change.keeps_closed identifies granted grounded closed⟩

theorem Change.keeps_ordered (change : program.Change known after) (ordered : program.OrderedApart known) :
    after.OrderedApart known := by
  obtain ⟨⟨identifies, -, grounded⟩, tallied, closed⟩ := settled
  have keeps := change.keepsLinks identifies
  intro ref links read unknown
  by_cases before : program.issued (.node ref)
  · obtain ⟨old, former, -⟩ := closed.linked before
    obtain ⟨now, there, grows⟩ := change.links_grow identifies former
    cases read.symm.trans there
    cases grows with
    | same => exact keeps.ordered (ordered former unknown)
    | added uses => exact absurd uses.1 unknown
  · obtain ⟨now, there, number, older⟩ :=
      change.follows identifies granted grounded closed (issued_of_links read) before
    cases read.symm.trans there
    intro target member
    refine (older target member).imp_left fun issued => ?_
    obtain ⟨other, former, -⟩ := closed.linked issued
    obtain ⟨now, there, grown⟩ := keeps.links former
    exact ⟨now, there, by rw [grown.number, number]; exact tallied.number_lt former⟩

/-- All of that over a sequence of changes. -/
theorem Reaches.keeps_order (reaches : program.Reaches known after) (ordered : program.OrderedApart known) :
    after.Settled ∧ program.KeepsLinks after ∧ after.OrderedApart known := by
  induction reaches with
  | refl => exact ⟨settled, .refl program, ordered⟩
  | tail earlier change ih =>
    obtain ⟨middle, keeps, ordered⟩ := ih
    have granted := fun handle given =>
      Reaches.keeps_issued earlier settled.identifies (granted handle given)
    exact ⟨change.keeps_settled granted middle, keeps.trans (change.keepsLinks middle.identifies),
      change.keeps_ordered granted middle ordered⟩

end Steps

/-! ### The first program -/

theorem sharedExprs_made : ∀ node ∈ sharedExprs, ∀ type, node.type = some type →
    type.raw < node.id.raw ∧ type.raw < Fundamental.all.length := by
  decide

theorem exprOperands_shared (program : Program) : ∀ node ∈ sharedExprs,
    program.exprOperands node.kind = .ok [] := by
  simp [sharedExprs, exprOperands]

section Shared

variable {sizing : Sizing} {strings : SymbolPool} {exprs : ExprTable}

theorem links_fundamental {id : TypeId} (shared : id.raw < Fundamental.all.length) :
    Program.links { sizing, strings, exprs } (.type id) = .ok ⟨⟨id.raw⟩, [], []⟩ := by
  refine links_type.mpr ⟨⟨⟨id.raw⟩, .builtin (Fundamental.all.get ⟨id.raw, shared⟩)⟩, _, _, ?_, rfl, rfl⟩
  exact TypeTable.get_eq_ok.mpr (.inl ⟨_, by simp [shared], rfl⟩)

/-- Shared nodes are the first ones. An expression among them may have a type. -/
theorem links_shared (unmade : exprs.nodes = {})
    (issued : issued { sizing, strings, exprs } (.node ref)) :
    ∃ links, Program.links { sizing, strings, exprs } ref = .ok links ∧
      ∀ target ∈ links.targets, ∃ other, Program.links { sizing, strings, exprs } target = .ok other ∧
        other.number.raw < links.number.raw := by
  cases ref with
  | name id =>
    obtain ⟨node, found⟩ := issued_name.mp issued
    simp [nameNode, Slab.get, Slab.get?] at found
  | type id =>
    obtain ⟨node, found⟩ := issued_type.mp issued
    rcases TypeTable.get_eq_ok.mp found with ⟨fundamental, shared, -⟩ | present
    · exact ⟨_, links_fundamental (List.getElem?_eq_some_iff.mp shared).1, by simp [Links.targets]⟩
    · simp [Slab.get?] at present
  | expr id =>
    obtain ⟨node, found⟩ := issued_expr.mp issued
    rcases ExprTable.get_eq_ok.mp found with shared | present
    · have member := List.mem_of_getElem? shared
      refine ⟨_, links_expr.mpr ⟨node, [], found, exprOperands_shared _ node member, rfl⟩,
        fun target inside => ?_⟩
      obtain ⟨type, given, rfl⟩ := List.mem_map.mp inside
      obtain ⟨smaller, low⟩ := sharedExprs_made node member type (Option.mem_toList.mp given)
      exact ⟨_, links_fundamental low, smaller⟩
    · simp [unmade, Slab.get?] at present
  | stmt id =>
    obtain ⟨node, found⟩ := issued_stmt.mp issued
    simp [stmtNode, Slab.get, Slab.get?] at found
  | decl id =>
    obtain ⟨node, found⟩ := issued_decl.mp issued
    simp [declNode, Slab.get, Slab.get?] at found
  | directive id =>
    obtain ⟨node, found⟩ := issued_directive.mp issued
    simp [directiveNode, Slab.get, Slab.get?] at found

end Shared

theorem settled_shared (hash : Bytes → UInt64) {sizing : Sizing} {exprs : ExprTable}
    (built : sizing.Built) (seeded : ExprTable.initial = .ok exprs) :
    Settled { sizing, strings := .ofSizing hash sizing, exprs } where
  identifies := identifies_shared hash built seeded
  named := namesIssued_shared
  grounded := grounded_shared (ExprTable.nodes_initial seeded)
  tallied := tallied_shared (ExprTable.nodes_initial seeded)
  closed := by
    refine ⟨fun issued => ?_, fun some => absurd rfl some⟩
    obtain ⟨links, read, older⟩ := links_shared (ExprTable.nodes_initial seeded) issued
    refine ⟨links, read, fun target member => ?_⟩
    obtain ⟨other, there, -⟩ := older target member
    exact issued_of_links there

/-- In a new program all nodes are in order. Nothing has been added to any of them. -/
theorem order_initial {hash : Bytes → UInt64} {sizing : Sizing} (built : sizing.Built)
    (began : initial hash sizing = .ok program) :
    program.Settled ∧ ∀ ref links, program.links ref = .ok links → program.Ordered ref links := by
  obtain ⟨exprs, before, seeded, reaches, equal⟩ := initial_reaches (fun _ => False) began
  have unmade := ExprTable.nodes_initial seeded
  have first : OrderedApart (fun _ => False) { sizing, strings := .ofSizing hash sizing, exprs } := by
    intro ref links read _ target member
    obtain ⟨_, again, older⟩ := links_shared unmade (issued_of_links read)
    cases read.symm.trans again
    exact .inl (older target member)
  obtain ⟨settled, -, ordered⟩ := reaches.keeps_order nofun (settled_shared hash built seeded) first
  -- The namespace that is put down in the end is no link.
  have structured := structured_initial built began
  have tallied := tallied_initial began
  rw [equal] at structured tallied ⊢
  have same : ∀ ref, Program.links { before with globalNamespace := program.globalNamespace } ref =
      before.links ref := by
    intro ref
    cases ref <;> rfl
  have there : ∀ ref, issued { before with globalNamespace := program.globalNamespace } (.node ref) =
      before.issued (.node ref) := by
    intro ref
    cases ref <;> rfl
  have keeps : before.KeepsLinks { before with globalNamespace := program.globalNamespace } :=
    ⟨fun {ref old} read => ⟨old, (same ref).trans read, .refl old⟩, id⟩
  refine ⟨⟨structured, tallied, ⟨fun {ref} issued => ?_, settled.closed.derived⟩⟩, fun ref links read => ?_⟩
  · rw [there] at issued
    simpa only [same, there] using settled.closed.linked issued
  · rw [same] at read
    exact keeps.ordered (ordered read id)

/-! ### Runs -/

/-- The links of a node in the first program of a run that has it. -/
def linksWhenMade (program : Program) (ref : NodeRef) : List Request → Checked Links
  | [] => program.links ref
  | request :: rest =>
    if program.issued (.node ref) then program.links ref
    else do (← program.respond request).2.linksWhenMade ref rest

theorem Settled.respond (settled : program.Settled) {request : Request}
    {outcome : Except BuildError Answer} (uses : ∀ handle ∈ request.handles, program.issued handle)
    (responded : program.respond request = .ok (outcome, after)) :
    after.Settled ∧ program.KeepsLinks after ∧ after.OrderedApart (fun handle => program.issued handle) := by
  have admits := admits_issued settled.identifies.canonical settled.named uses
  refine (perform_moves admits responded).keeps_order (fun _ issued => issued) settled ?_
  intro ref links read unissued
  exact absurd (issued_of_links read) unissued

theorem Settled.run (settled : program.Settled) {requests : List Request}
    (uses : program.usesIssued requests) (ran : program.run requests = .ok after) :
    after.Settled ∧ program.KeepsLinks after := by
  have step : ∀ {middle request outcome last}, middle.Settled ∧ program.KeepsLinks middle →
      (∀ handle ∈ request.handles, middle.issued handle) →
      middle.respond request = .ok (outcome, last) → last.Settled ∧ program.KeepsLinks last := by
    intro middle request outcome last ⟨settled, keeps⟩ uses responded
    obtain ⟨settled, further, -⟩ := settled.respond uses responded
    exact ⟨settled, keeps.trans further⟩
  exact run_induction step ⟨settled, .refl program⟩ uses ran

/-- A node is in order from when it is made, and nothing but additions changes it. -/
theorem Settled.linksWhenMade_ok (settled : program.Settled) {requests : List Request}
    (uses : program.usesIssued requests) (ran : program.run requests = .ok after)
    (ordered : ∀ links, program.links ref = .ok links → program.Ordered ref links)
    (issued : after.issued (.node ref)) :
    ∃ made now, program.linksWhenMade ref requests = .ok made ∧ after.links ref = .ok now ∧
      made.Extends now ∧ after.Ordered ref made := by
  induction requests generalizing program with
  | nil =>
    cases ran
    obtain ⟨links, read, -⟩ := settled.closed.linked issued
    exact ⟨links, links, read, read, .refl links, ordered links read⟩
  | cons request rest ih =>
    by_cases before : program.issued (.node ref)
    · obtain ⟨made, read, -⟩ := settled.closed.linked before
      obtain ⟨-, keeps⟩ := settled.run uses ran
      obtain ⟨now, there, grown⟩ := keeps.links read
      exact ⟨made, now, by simpa [linksWhenMade, before] using read, there, grown,
        keeps.ordered (ordered made read)⟩
    · obtain ⟨⟨outcome, middle⟩, responded, ran⟩ := Checked.bind_eq_ok.mp ran
      simp only [usesIssued, responded, Bool.and_eq_true, List.all_eq_true] at uses
      obtain ⟨further, -, fresh⟩ := settled.respond uses.1 responded
      have rest := ih further uses.2 ran fun links read => fresh read before
      simpa [linksWhenMade, before, responded] using rest

/-- The number of a node, for whoever counts down. -/
def rank (program : Program) (ref : NodeRef) : Nat :=
  (program.links ref).toOption.elim 0 (·.number.raw)

theorem rank_eq (read : program.links ref = .ok links) : program.rank ref = links.number.raw := by
  rw [rank, read]
  rfl

/-- Nodes were made in the order of their numbers, out of older nodes. -/
structure MadeInOrder (start : Program) (requests : List Request) (program : Program) : Prop where
  older : ∀ ref, program.issued (.node ref) → ∃ made now,
    start.linksWhenMade ref requests = .ok made ∧ program.links ref = .ok now ∧
    -- Only additions can lead to younger nodes.
    now.number = made.number ∧ now.operands = made.operands ∧ made.additions <+: now.additions ∧
    ∀ target ∈ made.targets,
      (∃ other, program.links target = .ok other ∧ other.number.raw < made.number.raw) ∨
        ∃ id node, target = .decl id ∧ ref = .decl id ∧ program.declNode id = .ok node ∧ node.isMaster
  ends : WellFounded fun target ref => program.issued (.node ref) ∧ target ≠ ref ∧
    ∃ made, start.linksWhenMade ref requests = .ok made ∧ target ∈ made.targets

/-- After a run of requests that name only issued handles, every node was made of nodes with
smaller numbers, and the way back through what nodes were made of is finite. -/
theorem nodes_made_in_order {hash : Bytes → UInt64} {sizing : Sizing} {start : Program}
    {requests : List Request} (built : sizing.Built) (began : initial hash sizing = .ok start)
    (issued : start.usesIssued requests) (ran : start.run requests = .ok program) :
    start.MadeInOrder requests program := by
  obtain ⟨settled, ordered⟩ := order_initial built began
  have older := fun ref there => settled.linksWhenMade_ok issued ran (ordered ref) there
  refine ⟨fun ref there => ?_, ?_⟩
  · obtain ⟨made, now, first, read, ⟨number, operands, additions⟩, ordered⟩ := older ref there
    refine ⟨made, now, first, read, number, operands, additions, fun target member => ?_⟩
    refine (ordered target member).imp_right fun ⟨same, id, node, decl, found, own⟩ => ?_
    have first := ((filed_run began ran).chainsCohere.isMaster found).mpr own
    exact ⟨id, node, same.trans decl, decl, found, first⟩
  · refine Subrelation.wf (fun {target ref} steps => ?_) (measure program.rank).wf
    obtain ⟨there, apart, made, first, member⟩ := steps
    obtain ⟨_, now, again, read, grown, ordered⟩ := older ref there
    cases first.symm.trans again
    rcases ordered target member with ⟨other, found, smaller⟩ | ⟨same, -⟩
    · change program.rank target < program.rank ref
      rwa [rank_eq found, rank_eq read, grown.number]
    · exact absurd same apart

/-- A specialization leads to its primary template and to itself. The initializer of the
variable is younger than the variable. -/
theorem nodes_made_in_order_initializer : ∃ start program : Program,
    initial (fun _ => 0) {} = .ok start ∧
    start.run [.intern (.ofString "x"), .identifier (.entry 0), .declareTemplate .global ⟨0⟩ ⟨11⟩ .empty,
      .declareSpecialization ⟨0⟩ [.type ⟨11⟩] ⟨12⟩, .declareVar .global ⟨0⟩ ⟨13⟩ .empty,
      .newExpr ⟨11⟩ none, .setInitializer ⟨2⟩ ⟨8⟩] = .ok program ∧
    [.decl ⟨1⟩, .decl ⟨2⟩, .expr ⟨8⟩].mapM program.links =
      .ok [⟨⟨68⟩, [.name ⟨1⟩, .type ⟨12⟩, .decl ⟨1⟩, .decl ⟨0⟩, .type ⟨11⟩], []⟩,
        ⟨⟨69⟩, [.name ⟨0⟩, .type ⟨13⟩, .decl ⟨2⟩], [.expr ⟨8⟩]⟩,
        ⟨⟨71⟩, [.type ⟨11⟩], [.type ⟨33⟩]⟩] ∧
    start.MadeInOrder [.intern (.ofString "x"), .identifier (.entry 0),
      .declareTemplate .global ⟨0⟩ ⟨11⟩ .empty, .declareSpecialization ⟨0⟩ [.type ⟨11⟩] ⟨12⟩,
      .declareVar .global ⟨0⟩ ⟨13⟩ .empty, .newExpr ⟨11⟩ none, .setInitializer ⟨2⟩ ⟨8⟩] program := by
  have performed : (do
      let start ← initial (fun _ => 0) {}
      let program ← start.run [.intern (.ofString "x"), .identifier (.entry 0),
        .declareTemplate .global ⟨0⟩ ⟨11⟩ .empty, .declareSpecialization ⟨0⟩ [.type ⟨11⟩] ⟨12⟩,
        .declareVar .global ⟨0⟩ ⟨13⟩ .empty, .newExpr ⟨11⟩ none, .setInitializer ⟨2⟩ ⟨8⟩]
      let links ← [.decl ⟨1⟩, .decl ⟨2⟩, .expr ⟨8⟩].mapM program.links
      if start.usesIssued [.intern (.ofString "x"), .identifier (.entry 0),
          .declareTemplate .global ⟨0⟩ ⟨11⟩ .empty, .declareSpecialization ⟨0⟩ [.type ⟨11⟩] ⟨12⟩,
          .declareVar .global ⟨0⟩ ⟨13⟩ .empty, .newExpr ⟨11⟩ none, .setInitializer ⟨2⟩ ⟨8⟩] ∧
        links = [⟨⟨68⟩, [.name ⟨1⟩, .type ⟨12⟩, .decl ⟨1⟩, .decl ⟨0⟩, .type ⟨11⟩], []⟩,
          ⟨⟨69⟩, [.name ⟨0⟩, .type ⟨13⟩, .decl ⟨2⟩], [.expr ⟨8⟩]⟩,
          ⟨⟨71⟩, [.type ⟨11⟩], [.type ⟨33⟩]⟩] then return ()
      else .error .outOfRange : Checked Unit).isOk := by decide +kernel
  obtain ⟨_, performed⟩ := Checked.exists_of_isOk performed
  obtain ⟨start, began, rest⟩ := Checked.bind_eq_ok.mp performed
  obtain ⟨program, ran, rest⟩ := Checked.bind_eq_ok.mp rest
  obtain ⟨links, read, rest⟩ := Checked.bind_eq_ok.mp rest
  split at rest
  next held =>
    obtain ⟨uses, rfl⟩ := held
    exact ⟨start, program, began, ran, read, nodes_made_in_order .default began uses ran⟩
  · cases rest

end Program

end CanonIR
