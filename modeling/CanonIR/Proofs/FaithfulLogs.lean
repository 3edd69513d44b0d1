import CanonIR.Proofs.ListRequests

/-! Side lists are faithful logs. What the bases of a class, the directives of a region and
the statements of a block are can be told from the requests that were granted, one entry for
each of them. A list that a node holds reads for ever as it was given when it came into the
node. -/

namespace CanonIR.Program

variable {start program after : Program} {request : Request} {reply : Except BuildError Answer}
  {requests : List Request} {replies : List (Except BuildError Answer)} {ref : NodeRef} {list : ListRef}
  {items : ListItems}

/-! ### What is held stays -/

theorem Preserves.storedList (preserves : program.Preserves request after)
    (held : program.storedList ref = some list) : after.storedList ref = some list := by
  cases ref with
  | name id =>
    obtain ⟨node, read, refers⟩ := bind_toOption.mp held
    exact bind_toOption.mpr ⟨node, preserves.names read, refers⟩
  | type id =>
    obtain ⟨node, read, refers⟩ := bind_toOption.mp held
    rcases preserves.types read with same | ⟨_, _, -, kind, -⟩
    · exact bind_toOption.mpr ⟨node, same, refers⟩
    · rw [TypeNode.list?, kind] at refers
      cases refers
  | expr id =>
    obtain ⟨node, read, refers⟩ := bind_toOption.mp held
    rcases preserves.exprs read with same | ⟨_, -, -, typed⟩
    · exact bind_toOption.mpr ⟨node, same, refers⟩
    · exact bind_toOption.mpr ⟨_, typed, refers⟩
  | decl id =>
    obtain ⟨node, read, refers⟩ := bind_toOption.mp held
    rcases preserves.decls read with same | ⟨kind, filled, refilled⟩
    · exact bind_toOption.mpr ⟨node, same, refers⟩
    · refine bind_toOption.mpr ⟨_, refilled, ?_⟩
      rwa [DeclNode.list?, filled.fills.args?]
  | stmt | directive => cases held

theorem storedList_run (ran : program.run requests = .ok after) (held : program.storedList ref = some list) :
    after.storedList ref = some list :=
  run_effects (fun effect held => effect.preserves.storedList held) held ran

theorem Change.keeps_listItems {known : Answer → Prop} (change : program.Change known after)
    (canonical : program.Canonical) (read : program.listItems list = .ok items) :
    after.listItems list = .ok items := by
  obtain ⟨-, larger⟩ := change.keeps_canonical canonical
  cases list with
  | terms list =>
    obtain ⟨terms, listed, equal⟩ := listItems_terms.mp read
    exact listItems_terms.mpr ⟨terms, larger.names.lists listed, equal⟩
  | types list =>
    obtain ⟨types, listed, equal⟩ := listItems_types.mp read
    exact listItems_types.mpr ⟨types, larger.types.lists listed, equal⟩
  | exprs list =>
    obtain ⟨exprs, listed, equal⟩ := listItems_exprs.mp read
    exact listItems_exprs.mpr ⟨exprs, change.keeps_exprList listed, equal⟩

theorem listItems_run (canonical : program.Canonical) (ran : program.run requests = .ok after)
    (read : program.listItems list = .ok items) : after.listItems list = .ok items := by
  have reaches := run_reaches ran
  clear ran
  induction reaches with
  | refl => exact read
  | tail earlier change ih => exact change.keeps_listItems (Reaches.keeps_canonical earlier canonical).1 ih

theorem HoldsList.run (holds : program.HoldsList ref items) (canonical : program.Canonical)
    (ran : program.run requests = .ok after) : after.HoldsList ref items := by
  obtain ⟨list, held, read⟩ := holds
  exact ⟨list, storedList_run ran held, listItems_run canonical ran read⟩

/-! ### Histories -/

theorem entries_run (canonical : program.Canonical) (ran : program.transcript requests = .ok (replies, after))
    (side : SideList) :
    after.entries side = program.entries side ++ (requests.zip replies).filterMap side.given := by
  induction requests generalizing program replies with
  | nil =>
    cases ran
    exact (List.append_nil _).symm
  | cons request rest ih =>
    obtain ⟨⟨reply, middle⟩, responded, ran⟩ := Checked.bind_eq_ok.mp ran
    obtain ⟨⟨later, _⟩, continued, equal⟩ := Checked.bind_eq_ok.mp ran
    cases equal
    have logs := respond_logs canonical responded
    rw [ih ((respond_reaches responded).keeps_canonical canonical).1 continued, logs.entries,
      List.append_assoc, List.zip_cons_cons, List.filterMap_cons]
    cases side.given (request, reply) <;> rfl

/-- The moment in a run at which a node got the list that it holds: the request gave the items. -/
def StoredDuring (start : Program) (requests : List Request) (ref : NodeRef) (list : ListRef)
    (items : ListItems) : Prop :=
  ∃ early request later reply before middle, requests = early ++ request :: later ∧
    start.run early = .ok before ∧ before.respond request = .ok (reply, middle) ∧
    before.storedList ref = none ∧ middle.storedList ref = some list ∧ request.Stores items ∧
    middle.listItems list = .ok items

theorem stored_run (canonical : program.Canonical) (ran : program.run requests = .ok after)
    (held : after.storedList ref = some list) : program.storedList ref = some list ∨
      ∃ items, StoredDuring program requests ref list items ∧ after.listItems list = .ok items := by
  induction requests generalizing program with
  | nil =>
    cases ran
    exact .inl held
  | cons request rest ih =>
    obtain ⟨⟨reply, middle⟩, responded, continued⟩ := Checked.bind_eq_ok.mp ran
    have between := ((respond_reaches responded).keeps_canonical canonical).1
    rcases ih between continued with there | ⟨items, moment, read⟩
    · cases former : program.storedList ref with
      | some other =>
        have kept := (respond_effect responded).preserves.storedList former
        exact .inl (kept.symm.trans there)
      | none =>
        rcases (respond_logs canonical responded).stored there with before | ⟨items, stores, read⟩
        · cases former.symm.trans before
        · exact .inr ⟨items, ⟨[], request, rest, reply, program, middle, rfl, rfl, responded, former, there,
            stores, read⟩, listItems_run between continued read⟩
    · obtain ⟨early, given, later, answer, before, final, same, began, rest⟩ := moment
      have sooner : program.run (request :: early) = .ok before :=
        Checked.bind_eq_ok.mpr ⟨_, responded, began⟩
      exact .inr ⟨items, ⟨request :: early, given, later, answer, before, final, congrArg _ same, sooner, rest⟩,
        read⟩

/-- The directives of a region record that they are in it. -/
def RecordsRegions (program : Program) : Prop :=
  ∀ region (id : DirectiveId), id ∈ program.entries (.directives region) →
    ∃ node, program.directiveNode id = .ok node ∧ node.region = region

theorem Logs.keeps_recordsRegions (logs : program.Logs request reply after)
    (preserves : program.Preserves request after) (records : program.RecordsRegions) :
    after.RecordsRegions := by
  intro region id member
  rw [logs.entries] at member
  rcases List.mem_append.mp member with former | new
  · obtain ⟨node, read, same⟩ := records region id former
    exact ⟨node, preserves.directives read, same⟩
  · exact logs.recorded (Option.mem_toList.mp new)

theorem recordsRegions_run (canonical : program.Canonical) (records : program.RecordsRegions)
    (ran : program.run requests = .ok after) : after.RecordsRegions := by
  have step : ∀ {program : Program} {request outcome after}, program.respond request = .ok (outcome, after) →
      program.Canonical ∧ program.RecordsRegions → after.Canonical ∧ after.RecordsRegions :=
    fun responded ⟨canonical, records⟩ => ⟨((respond_reaches responded).keeps_canonical canonical).1,
      (respond_logs canonical responded).keeps_recordsRegions (respond_effect responded).preserves records⟩
  exact (run_keeps step ⟨canonical, records⟩ ran).2

theorem answered_run (canonical : program.Canonical)
    (ran : program.transcript requests = .ok (replies, after)) {answer : Answer}
    (replied : (request, .ok answer) ∈ requests.zip replies) (stores : request.Stores items) :
    ∃ ref, answer = .node ref ∧ after.HoldsList ref items := by
  obtain ⟨early, later, said, heard, before, middle, began, responded, ended⟩ := runAll_split ran replied
  have earlier := ((run_reaches (run_of_transcript began)).keeps_canonical canonical).1
  have between := ((respond_reaches responded).keeps_canonical earlier).1
  obtain ⟨ref, same, holds⟩ := (respond_logs earlier responded).answered rfl stores
  exact ⟨ref, same, holds.run between (run_of_transcript ended)⟩

/-- A new program has no lists: it comes from one with shared nodes alone by silent edits. -/
theorem unlisted_initial {hash : Bytes → UInt64} {sizing : Sizing} (began : initial hash sizing = .ok start) :
    (∀ side, start.entries side = []) ∧ ∀ ref, start.storedList ref = none := by
  obtain ⟨exprs, seeded, began⟩ := Checked.bind_eq_ok.mp began
  obtain ⟨⟨region, middle⟩, opened, began⟩ := Checked.bind_eq_ok.mp began
  obtain ⟨⟨globalNamespace, before⟩, owned, equal⟩ := Checked.bind_eq_ok.mp began
  cases equal
  have stays := (newRegion_silent _ opened).trans (newOwningType_silent rfl _ owned)
  have empty := ExprTable.nodes_initial seeded
  refine ⟨fun side => ?_, fun ref => Option.eq_none_iff_forall_ne_some.mpr fun list held => ?_⟩
  · have same : before.entries side = [] := by
      rw [stays.entries]
      cases side <;> rfl
    cases side <;> exact same
  · have held : before.storedList ref = some list := by cases ref <;> exact held
    rcases stays.stored held with stored | impossible
    · have unshown : ∀ {table : Table} {α : Type} {read : α → Option ListRef} {handle : Handle table},
          ¬ Slab.Shows {} read list handle := by simp [Slab.Shows, Slab.get?]
      cases ref with
      | name => exact unshown (storedList_name.mp stored)
      | type => exact unshown (storedList_type.mp stored)
      | expr => exact unshown (empty ▸ storedList_expr.mp stored)
      | decl => exact unshown (storedList_decl.mp stored)
      | stmt | directive => cases stored
    · exact impossible

/-- What a run leaves in the lists. -/
structure KeepsLogs (start program : Program) (requests : List Request)
    (replies : List (Except BuildError Answer)) : Prop where
  /-- A list that grows has an entry for each request that was granted one, in their order. -/
  entries : ∀ side, program.entries side = (requests.zip replies).filterMap side.given
  recorded : program.RecordsRegions
  /-- A list that a node holds came into it by a request that gave the items. -/
  stored : ∀ {ref list}, program.storedList ref = some list →
    ∃ items, StoredDuring start requests ref list items ∧ program.listItems list = .ok items
  answered : ∀ {request answer items}, (request, .ok answer) ∈ requests.zip replies → request.Stores items →
    ∃ ref, answer = .node ref ∧ program.HoldsList ref items
  forever : ∀ {later after ref list items}, program.run later = .ok after →
    program.storedList ref = some list → program.listItems list = .ok items →
    after.storedList ref = some list ∧ after.listItems list = .ok items

/-- Whatever is requested of a new program, and whatever of it is turned down, the lists that
grow have an entry for each request that was granted, and a list that a node holds reads for
ever as it was given. -/
theorem logs_faithful {hash : Bytes → UInt64} {sizing : Sizing} (began : initial hash sizing = .ok start)
    (ran : start.transcript requests = .ok (replies, program)) :
    KeepsLogs start program requests replies := by
  have initially := canonical_initial began
  have went := run_of_transcript ran
  obtain ⟨bare, unlisted⟩ := unlisted_initial began
  have canonical := ((run_reaches went).keeps_canonical initially).1
  have records : start.RecordsRegions := fun _ _ member => by
    rw [bare] at member
    cases member
  refine ⟨fun side => ?_, recordsRegions_run initially records went, fun held => ?_,
    answered_run initially ran, fun later held read => ⟨storedList_run later held, listItems_run canonical later read⟩⟩
  · rw [entries_run initially ran, bare, List.nil_append]
  · refine (stored_run initially went held).resolve_left fun before => ?_
    cases (unlisted _).symm.trans before

/-- A base is given twice, a statement as well, and some requests are turned down; one of the
directives lies in the region of the block. -/
theorem logs_faithful_refused :
    ∃ (start program : Program) (replies : List (Except BuildError Answer)),
      let requests : List Request := [.newClass .global, .newClass .global, .addBase ⟨33⟩ ⟨34⟩,
        .addBase ⟨33⟩ ⟨11⟩, .addBase ⟨11⟩ ⟨33⟩, .addBase ⟨33⟩ ⟨34⟩, .intern (.ofString "x"), .newBlock .global,
        .pragma .global (.entry 0), .usingDirective .global ⟨33⟩, .asm ⟨3⟩ (.entry 0),
        .pragma .global (.entry 0), .breakStmt, .appendToBlock ⟨0⟩ ⟨1⟩, .appendToBlock ⟨1⟩ ⟨0⟩,
        .appendToBlock ⟨0⟩ ⟨1⟩, .sum [⟨11⟩, ⟨1⟩, ⟨11⟩]]
      initial (fun _ => 0) {} = .ok start ∧ start.transcript requests = .ok (replies, program) ∧
      program.entries (.bases ⟨33⟩) = ([⟨34⟩, ⟨11⟩, ⟨34⟩] : List TypeId) ∧
      program.entries (.directives .global) = ([⟨0⟩, ⟨2⟩] : List DirectiveId) ∧
      program.entries (.body ⟨0⟩) = ([⟨1⟩, ⟨1⟩] : List StmtId) ∧
      program.HoldsList (.type ⟨35⟩) (.types [⟨1⟩, ⟨11⟩]) ∧ KeepsLogs start program requests replies := by
  have performed : (do
      let start ← initial (fun _ => 0) {}
      let (_, program) ← start.transcript [.newClass .global, .newClass .global, .addBase ⟨33⟩ ⟨34⟩,
        .addBase ⟨33⟩ ⟨11⟩, .addBase ⟨11⟩ ⟨33⟩, .addBase ⟨33⟩ ⟨34⟩, .intern (.ofString "x"), .newBlock .global,
        .pragma .global (.entry 0), .usingDirective .global ⟨33⟩, .asm ⟨3⟩ (.entry 0),
        .pragma .global (.entry 0), .breakStmt, .appendToBlock ⟨0⟩ ⟨1⟩, .appendToBlock ⟨1⟩ ⟨0⟩,
        .appendToBlock ⟨0⟩ ⟨1⟩, .sum [⟨11⟩, ⟨1⟩, ⟨11⟩]]
      let bases : List TypeId := program.entries (.bases ⟨33⟩)
      let directives : List DirectiveId := program.entries (.directives .global)
      let statements : List StmtId := program.entries (.body ⟨0⟩)
      let items ← program.listItems (.types ⟨1⟩)
      if bases = [⟨34⟩, ⟨11⟩, ⟨34⟩] ∧ directives = [⟨0⟩, ⟨2⟩] ∧ statements = [⟨1⟩, ⟨1⟩] ∧
          program.storedList (.type ⟨35⟩) = some (.types ⟨1⟩) ∧ items = .types [⟨1⟩, ⟨11⟩] then
        return ()
      else .error .outOfRange : Checked Unit).isOk := by decide +kernel
  obtain ⟨_, performed⟩ := Checked.exists_of_isOk performed
  obtain ⟨start, began, rest⟩ := Checked.bind_eq_ok.mp performed
  obtain ⟨⟨replies, program⟩, ran, rest⟩ := Checked.bind_eq_ok.mp rest
  obtain ⟨items, read, rest⟩ := Checked.bind_eq_ok.mp rest
  split at rest
  next same =>
    obtain ⟨bases, directives, statements, held, rfl⟩ := same
    exact ⟨start, program, replies, began, ran, bases, directives, statements, ⟨_, held, read⟩,
      logs_faithful began ran⟩
  · cases rest

end CanonIR.Program
