import CanonIR.Proofs.NodeSources

/-! Regions and what introduces them. User-defined types, functions, templates and blocks
come with a region of their own, and its owner leads back to them. The owner is put down
while nobody else knows the region, so that a request for another owner comes too late. -/

namespace CanonIR

variable {α β : Type}

theorem DeclKind.Fills.parameters? {old new : DeclKind} (filled : old.Fills new) :
    new.parameters? = old.parameters? := by
  cases filled <;> rfl

namespace Program

variable {known : Answer → Prop} {program after : Program} {region : RegionId} {owner : RegionOwner}

/-- The region that a user-defined type, a function, a template or a block comes with. -/
def introduced (program : Program) : RegionOwner → Checked (Option RegionId)
  | .type id => return (← program.typeNode id).kind.region?
  | .decl id => return (← program.declNode id).kind.parameters?
  | .stmt id => return (← program.stmtNode id).kind.region?

theorem introduced_type {id : TypeId} : program.introduced (.type id) = .ok (some region) ↔
    ∃ node, program.typeNode id = .ok node ∧ node.kind.region? = some region := by
  simp [introduced, Checked.bind_eq_ok]

theorem introduced_decl {id : DeclId} : program.introduced (.decl id) = .ok (some region) ↔
    ∃ node, program.declNode id = .ok node ∧ node.kind.parameters? = some region := by
  simp [introduced, Checked.bind_eq_ok]

theorem introduced_stmt {id : StmtId} : program.introduced (.stmt id) = .ok (some region) ↔
    ∃ node, program.stmtNode id = .ok node ∧ node.kind.region? = some region := by
  simp [introduced, Checked.bind_eq_ok]

/-! ### What a change keeps -/

theorem Change.keeps_owned (change : program.Change known after) (owned : program.Owned region owner) :
    after.Owned region owner := by
  obtain ⟨entry, found, owned⟩ := owned
  obtain ⟨now, there, -, still⟩ := change.keeps_region (Slab.get_eq_ok.mpr found)
  exact ⟨now, Slab.get_eq_ok.mp there, still owner owned⟩

/-- What introduces a region after a change did so before, or the region is its own already. -/
theorem Change.introduced_cases (change : program.Change known after)
    (introduces : after.introduced owner = .ok (some region)) :
    program.introduced owner = .ok (some region) ∨ program.Owned region owner := by
  cases owner with
  | type id =>
    obtain ⟨node, found, own⟩ := introduced_type.mp introduces
    cases change.typeSource found with
    | kept found => exact .inl (introduced_type.mpr ⟨node, found, own⟩)
    | filled found filled =>
      rw [filled] at own
      exact .inl (introduced_type.mpr ⟨_, found, own⟩)
    | new _ _ owned => exact .inr (owned region own)
  | decl id =>
    obtain ⟨node, found, own⟩ := introduced_decl.mp introduces
    cases change.declSource found with
    | kept found => exact .inl (introduced_decl.mpr ⟨node, found, own⟩)
    | refilled found filled =>
      rw [filled.parameters?] at own
      exact .inl (introduced_decl.mpr ⟨_, found, own⟩)
    | new _ _ _ _ owned => exact .inr (owned region own).1
  | stmt id =>
    obtain ⟨node, found, own⟩ := introduced_stmt.mp introduces
    cases change.stmtSource found with
    | kept found => exact .inl (introduced_stmt.mpr ⟨node, found, own⟩)
    | longer found longer =>
      rw [longer] at own
      exact .inl (introduced_stmt.mpr ⟨_, found, own⟩)
    | new _ _ owned => exact .inr (owned region own)

/-- The owner of a region that comes with something leads back to it, and the parameters of
a declaration lie in the region that it was made in. -/
structure LeadsBack (program : Program) : Prop where
  owned : ∀ {owner region}, program.introduced owner = .ok (some region) → program.Owned region owner
  inside : ∀ {id node parameters}, program.declNode id = .ok node →
    node.kind.parameters? = some parameters →
    ∃ entry, program.regions.get? parameters = some entry ∧ entry.parent = some node.home

theorem Change.keeps_leadsBack (change : program.Change known after) (leads : program.LeadsBack) :
    after.LeadsBack := by
  refine ⟨fun introduces => ?_, fun {id node parameters} found own => ?_⟩
  · rcases change.introduced_cases introduces with before | owned
    · exact change.keeps_owned (leads.owned before)
    · exact change.keeps_owned owned
  · obtain ⟨entry, present, inside⟩ : ∃ entry, program.regions.get? parameters = some entry ∧
        entry.parent = some node.home := by
      cases change.declSource found with
      | kept found => exact leads.inside found own
      | refilled found filled =>
        rw [filled.parameters?] at own
        have inside := leads.inside found own
        exact inside
      | new _ _ _ _ owned => exact (owned parameters own).2
    obtain ⟨now, there, parent, -⟩ := change.keeps_region (Slab.get_eq_ok.mpr present)
    exact ⟨now, Slab.get_eq_ok.mp there, parent.trans inside⟩

theorem Reaches.keeps_leadsBack (reaches : program.Reaches known after) (leads : program.LeadsBack) :
    after.LeadsBack := by
  induction reaches with
  | refl => exact leads
  | tail _ change ih => exact change.keeps_leadsBack ih

/-- What all programs share comes with no region. -/
theorem leadsBack_shared {sizing : Sizing} {strings : SymbolPool} {exprs : ExprTable} :
    LeadsBack { sizing, strings, exprs } := by
  refine ⟨fun {owner region} introduces => ?_, fun found => ?_⟩
  · cases owner with
    | type id =>
      obtain ⟨node, found, own⟩ := introduced_type.mp introduces
      rcases TypeTable.get_eq_ok.mp found with ⟨fundamental, -, rfl⟩ | present
      · cases own
      · simp [Slab.get?] at present
    | decl id =>
      obtain ⟨node, found, -⟩ := introduced_decl.mp introduces
      simp [declNode, Slab.get, Slab.get?] at found
    | stmt id =>
      obtain ⟨node, found, -⟩ := introduced_stmt.mp introduces
      simp [stmtNode, Slab.get, Slab.get?] at found
  · simp [declNode, Slab.get, Slab.get?] at found

theorem leadsBack_initial {hash : Bytes → UInt64} {sizing : Sizing}
    (began : initial hash sizing = .ok program) : program.LeadsBack := by
  obtain ⟨exprs, before, -, reaches, equal⟩ := initial_reaches (fun _ => True) began
  obtain ⟨owned, inside⟩ := reaches.keeps_leadsBack leadsBack_shared
  rw [equal]
  refine ⟨fun {owner _} introduces => owned ?_, inside⟩
  cases owner <;> exact introduces

end Program

/-! ### Refusals -/

theorem Build.run_lift_bind (edit : Edit α) (next : α → Build β) (program : Program) :
    (liftM edit >>= next).run.run program = (do
      let (value, after) ← edit.run program
      (next value).run.run after) := by
  change Except.bind (Except.bind (edit.run program) _) _ = _
  cases edit.run program <;> rfl

theorem Build.edit_bind_congr {edit : Edit α} {first second : α → Build β} {program : Program}
    (same : ∀ {value after}, edit.run program = .ok (value, after) →
      (first value).run.run after = (second value).run.run after) :
    (liftM edit >>= first).run.run program = (liftM edit >>= second).run.run program := by
  rw [run_lift_bind, run_lift_bind]
  cases performed : edit.run program with
  | error fault => rfl
  | ok result => exact same performed

namespace Program

/-- Opens a region and makes something that comes with it. If the owner cannot be put down,
the request is turned down. -/
def introduce (parent : Option RegionId) (make : RegionId → Edit α) (owner : α → RegionOwner) :
    Build (RegionId × α) := do
  let region ← newRegion parent
  let value ← make region
  setRegionOwner region (owner value)
  return (region, value)

theorem setRegionOwner_unowned {program : Program} {region : RegionId} {entry : Region}
    (found : program.regions.get? region = some entry) (unowned : entry.owner = none) (owner : RegionOwner) :
    ∃ after, (setRegionOwner region owner).run.run program = .ok (.ok (), after) := by
  obtain ⟨regions, changed⟩ : ∃ regions,
      program.regions.modify region ({ · with owner := some owner }) = .ok regions :=
    ⟨_, Slab.modify_eq_ok.mpr ⟨entry, found, rfl⟩⟩
  refine ⟨{ program with regions }, Build.run_get_bind.mpr (Build.run_check_bind.mpr ?_)⟩
  refine ⟨entry, Slab.get_eq_ok.mpr found, ?_⟩
  rw [unowned]
  exact Build.run_check_bind.mpr ⟨regions, changed, rfl⟩

/-- The owner of a new region can always be put down, whatever is made in the meantime. -/
theorem introduce_eq {parent : Option RegionId} {make : RegionId → Edit α} {owner : α → RegionOwner}
    (keeps : ∀ {region program value after}, (make region).run program = .ok (value, after) →
      after.regions = program.regions) :
    introduce parent make owner = liftM (do
      let region ← newRegion parent
      let value ← make region
      ownRegion region (owner value)
      return (region, value) : Edit (RegionId × α)) := by
  refine ExceptT.ext (funext fun program => ?_)
  simp only [introduce, liftM_bind]
  refine Build.edit_bind_congr fun {region opened} first => ?_
  refine Build.edit_bind_congr fun {value made} second => ?_
  obtain ⟨entry, found, unowned, -⟩ := newRegion_unowned first
  rw [← keeps second] at found
  obtain ⟨after, owned⟩ := setRegionOwner_unowned found unowned (owner value)
  simp [ownRegion, owned, Except.map]

/-- A type that owns nothing yet. -/
def freshType (kind : TypeKind) : Edit TypeId := do
  let program ← get
  let (type, types, census) ← program.types.fresh kind program.census
  set { program with types, census }
  return type

theorem freshType_regions {kind : TypeKind} {type : TypeId} {program after : Program}
    (given : (freshType kind).run program = .ok (type, after)) : after.regions = program.regions := by
  obtain ⟨⟨⟨_, types, census⟩, program⟩, first, equal⟩ := Checked.bind_eq_ok.mp given
  obtain ⟨-, rfl⟩ := Edit.run_check.mp first
  cases equal
  rfl

theorem stmtOf_regions {kind : StmtKind} {stmt : StmtId} {program after : Program}
    (given : (stmtOf kind).run program = .ok (stmt, after)) : after.regions = program.regions := by
  obtain ⟨number, census, stmts, -, -, rfl⟩ := stmtOf_eq_ok given
  rfl

theorem newOwningType_eq (kind : RegionId → TypeKind) (parent : Option RegionId) :
    (liftM (newRegion parent >>= fun region => newOwningType (kind region) region) : Build TypeId) =
      Prod.snd <$> introduce parent (fun region => freshType (kind region)) .type := by
  rw [introduce_eq freshType_regions, ← liftM_map]
  simp [newOwningType, freshType]

theorem newBlock_eq (parent : RegionId) : (liftM (newBlock parent) : Build StmtId) =
    Prod.snd <$> introduce (some parent) (fun region => stmtOf (.block region #[])) .stmt := by
  rw [introduce_eq stmtOf_regions, ← liftM_map]
  simp [newBlock]

theorem parameterRegion_eq (home : RegionId) (decl : DeclId) :
    (liftM (parameterRegion home decl) : Build RegionId) =
      Prod.fst <$> introduce (some home) (fun _ => pure decl) .decl := by
  rw [introduce_eq (fun given => by cases given; rfl), ← liftM_map]
  simp [parameterRegion]

/-! ### Runs -/

/-- Regions belong to what introduces them. To ignore that an owner was refused, as is done
where a type, the parameters of a declaration or a block get a region, is to ignore nothing. -/
structure KnowsOwners (program : Program) : Prop where
  owned : ∀ owner region, program.introduced owner = .ok (some region) →
    ∃ entry, program.region region = .ok entry ∧ entry.owner = some owner
  inside : ∀ id node parameters, program.declNode id = .ok node →
    node.kind.parameters? = some parameters →
    ∃ entry, program.region parameters = .ok entry ∧ entry.parent = some node.home
  apart : ∀ first second region, program.introduced first = .ok (some region) →
    program.introduced second = .ok (some region) → first = second
  types : ∀ (kind : RegionId → TypeKind) (parent : Option RegionId),
    (liftM (newRegion parent >>= fun region => newOwningType (kind region) region) : Build TypeId) =
      Prod.snd <$> introduce parent (fun region => freshType (kind region)) .type
  parameters : ∀ home decl, (liftM (parameterRegion home decl) : Build RegionId) =
    Prod.fst <$> introduce (some home) (fun _ => pure decl) .decl
  blocks : ∀ parent, (liftM (newBlock parent) : Build StmtId) =
    Prod.snd <$> introduce (some parent) (fun region => stmtOf (.block region #[])) .stmt

theorem LeadsBack.knowsOwners {program : Program} (leads : program.LeadsBack) : program.KnowsOwners where
  owned owner region introduces := by
    obtain ⟨entry, found, owned⟩ := leads.owned introduces
    exact ⟨entry, Slab.get_eq_ok.mpr found, owned⟩
  inside id node parameters found own := by
    obtain ⟨entry, present, inside⟩ := leads.inside found own
    exact ⟨entry, Slab.get_eq_ok.mpr present, inside⟩
  apart first second region one two := by
    obtain ⟨entry, found, owned⟩ := leads.owned one
    obtain ⟨again, present, other⟩ := leads.owned two
    cases found.symm.trans present
    exact Option.some.inj (owned.symm.trans other)
  types := newOwningType_eq
  parameters := parameterRegion_eq
  blocks := newBlock_eq

/-- Whatever requests are made of a new program, also for owners of regions, each region
that comes with a type, a declaration or a block belongs to that and to nothing else. -/
theorem regions_belong_to_introducers {hash : Bytes → UInt64} {sizing : Sizing} {start program : Program}
    {requests : List Request} (began : initial hash sizing = .ok start)
    (ran : start.run requests = .ok program) : program.KnowsOwners :=
  ((run_reaches ran).keeps_leadsBack (leadsBack_initial began)).knowsOwners

/-- A region is given to a block that is still to be made, which then gets one of its own.
The request to give the region of the class away is turned down. -/
theorem regions_belong_to_introducers_redeclared : ∃ start program : Program,
    initial (fun _ => 0) {} = .ok start ∧
    start.run [.intern (.ofString "f"), .identifier (.entry 0), .newClass .global, .newRegion ⟨1⟩,
      .setRegionOwner ⟨2⟩ (.stmt ⟨0⟩), .newBlock ⟨1⟩, .setRegionOwner ⟨1⟩ (.decl ⟨0⟩),
      .declareFunction .global ⟨0⟩ ⟨11⟩ .empty, .declareFunction .global ⟨0⟩ ⟨11⟩ .empty,
      .declareTemplate .global ⟨0⟩ ⟨12⟩ .empty, .declareSpecialization ⟨2⟩ [.type ⟨11⟩] ⟨12⟩] = .ok program ∧
    [.type ⟨33⟩, .stmt ⟨0⟩, .decl ⟨0⟩, .decl ⟨1⟩, .decl ⟨2⟩, .decl ⟨3⟩].mapM program.introduced =
      .ok [some ⟨1⟩, some ⟨3⟩, some ⟨4⟩, some ⟨5⟩, some ⟨6⟩, some ⟨7⟩] ∧
    program.KnowsOwners := by
  have performed : (do
      let start ← initial (fun _ => 0) {}
      let program ← start.run [.intern (.ofString "f"), .identifier (.entry 0), .newClass .global,
        .newRegion ⟨1⟩, .setRegionOwner ⟨2⟩ (.stmt ⟨0⟩), .newBlock ⟨1⟩, .setRegionOwner ⟨1⟩ (.decl ⟨0⟩),
        .declareFunction .global ⟨0⟩ ⟨11⟩ .empty, .declareFunction .global ⟨0⟩ ⟨11⟩ .empty,
        .declareTemplate .global ⟨0⟩ ⟨12⟩ .empty, .declareSpecialization ⟨2⟩ [.type ⟨11⟩] ⟨12⟩]
      let regions ← [.type ⟨33⟩, .stmt ⟨0⟩, .decl ⟨0⟩, .decl ⟨1⟩, .decl ⟨2⟩, .decl ⟨3⟩].mapM
        program.introduced
      if regions = [some ⟨1⟩, some ⟨3⟩, some ⟨4⟩, some ⟨5⟩, some ⟨6⟩, some ⟨7⟩] then return ()
      else .error .outOfRange : Checked Unit).isOk := by decide +kernel
  obtain ⟨_, performed⟩ := Checked.exists_of_isOk performed
  obtain ⟨start, began, rest⟩ := Checked.bind_eq_ok.mp performed
  obtain ⟨program, ran, rest⟩ := Checked.bind_eq_ok.mp rest
  obtain ⟨regions, read, rest⟩ := Checked.bind_eq_ok.mp rest
  split at rest
  next same =>
    rw [same] at read
    exact ⟨start, program, began, ran, read, regions_belong_to_introducers began ran⟩
  · cases rest

end Program

end CanonIR
