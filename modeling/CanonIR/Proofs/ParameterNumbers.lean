import CanonIR.Proofs.BindingStates
import CanonIR.Proofs.RedeclarationCheck
import CanonIR.Proofs.RegionOwners

/-! Parameters and enumerators are declared where they belong. The parameters of a function are
numbered in the order they were declared, however many of them have one name and type and
whatever else is declared among them. -/

namespace CanonIR

namespace DeclKind

variable {old new : DeclKind}

/-- The number of a parameter among those of its function. -/
def number? : DeclKind → Option Nat
  | .parameter number _ => some number
  | _ => none

theorem Fills.number? (filled : old.Fills new) : new.number? = old.number? := by
  cases filled <;> rfl

theorem isSome_number? (kind : DeclKind) : kind.number?.isSome = (kind.category == .parameter) := by
  cases kind <;> rfl

end DeclKind

namespace Program

variable {program after : Program} {request : Request} {home : RegionId} {type : TypeId}

/-- The numbers of the parameters in a region, oldest first. -/
def numbersIn (program : Program) (home : RegionId) : List Nat :=
  (program.decls.nodes.items.toList.filter (·.home = home)).filterMap (·.kind.number?)

/-! ### Where declarations belong -/

theorem Preserves.belongs (preserves : program.Preserves request after) {kind : DeclKind}
    (belongs : program.Belongs home type kind) : after.Belongs home type kind := by
  cases kind with
  | parameter number default =>
    obtain ⟨function, node, body, found, own⟩ := belongs
    rcases preserves.decls found with same | ⟨kind, filled, refilled⟩
    · exact ⟨function, node, body, same, own⟩
    · rw [own] at filled
      cases filled with
      | function => exact ⟨function, _, _, refilled, rfl⟩
  | enumerator value =>
    obtain ⟨node, underlying, found, own⟩ := belongs
    rcases preserves.types found with same | ⟨region, now, -, bare, filled⟩
    · exact ⟨node, underlying, same, own⟩
    · cases bare.symm.trans own
      exact ⟨_, some now, filled, rfl⟩
  | _ => trivial

theorem belongs_filled {old new : DeclKind} (filled : old.Fills new)
    (belongs : program.Belongs home type old) : program.Belongs home type new := by
  cases filled <;> exact belongs

/-- Every declaration is where it belongs. -/
def AllBelong (program : Program) : Prop :=
  ∀ id node, program.declNode id = .ok node → program.Belongs node.home node.type node.kind

theorem Effect.keeps_allBelong (effect : program.Effect request after) (belong : program.AllBelong) :
    after.AllBelong := by
  intro id node found
  apply effect.preserves.belongs
  rcases effect.decl_cases with same | ⟨decl, former, kind, there, filled, changed⟩ | ⟨_, _, pushed, placed⟩
  · rw [declNode, same] at found
    exact belong id node found
  · rcases Slab.modify_cases changed (Slab.get_eq_ok.mp found) with kept | ⟨rfl, old, present, rfl⟩
    · exact belong _ _ (Slab.get_eq_ok.mpr kept)
    · cases there.symm.trans present
      exact belongs_filled filled.fills (belong _ _ (Slab.get_eq_ok.mpr there))
  · rcases Slab.push_cases pushed (Slab.get_eq_ok.mp found) with kept | ⟨-, rfl, rfl⟩
    · exact belong _ _ (Slab.get_eq_ok.mpr kept)
    · exact placed.belongs

/-! ### Counting parameters -/

theorem length_numbersIn : (program.numbersIn home).length =
    (program.decls.nodes.items.toList.filter (·.home = home)).countP (·.category == .parameter) := by
  simp only [numbersIn, List.length_filterMap_eq_countP, DeclKind.isSome_number?, DeclNode.category]

theorem Filed.parameterCount_eq (filed : program.Filed) {region : Region}
    (here : program.region home = .ok region) :
    program.parameterCount region.scope = .ok (program.numbersIn home).length := by
  obtain ⟨entry, opened, rfl, -⟩ := filed.scan_members here
  have read : (entry.members.toList.mapM fun member => return (← program.declNode member).category) =
      (.ok ((program.decls.nodes.items.toList.filter (·.home = entry.region)).map DeclNode.category) :
        Checked _) := by
    rw [Checked.mapM_eq_ok, filed.members_eq opened, List.forall₂_map_right_iff]
    exact Slab.forall₂_select.imp fun _ _ found => by simp [declNode, Slab.get_eq_ok.mpr found]
  rw [parameterCount, opened, Checked.ok_bind, read, Checked.ok_bind, length_numbersIn]
  simp only [Checked.pure_eq_ok, List.count, List.countP_map, Function.comp_def]

theorem numbersIn_push {id : DeclId} {node : DeclNode}
    (pushed : program.decls.nodes.push node = .ok (id, after.decls.nodes)) (home : RegionId) :
    after.numbersIn home =
      program.numbersIn home ++ if node.home = home then node.kind.number?.toList else [] := by
  obtain ⟨-, -, grown⟩ := Slab.push_eq_ok.mp pushed
  rw [numbersIn, grown, Array.toList_push, List.filter_append, List.filterMap_append, List.filter_singleton,
    Bool.cond_decide]
  split
  · cases numbered : node.kind.number? <;> simp [numbersIn, numbered]
  · rfl

/-- The parameters in every region are numbered from zero on, in the order they came. -/
def Numbered (program : Program) : Prop :=
  ∀ home, program.numbersIn home = List.range (program.numbersIn home).length

theorem Effect.keeps_numbered (effect : program.Effect request after) (filed : program.Filed)
    (numbered : program.Numbered) : after.Numbered := by
  intro home
  rcases effect.decl_cases with same | ⟨decl, former, kind, there, filled, changed⟩ | ⟨id, node, pushed, placed⟩
  · rw [numbersIn, same]
    exact numbered home
  · have shown : (after.decls.nodes.items.toList.filter (·.home = home)).map (·.kind.number?) =
        (program.decls.nodes.items.toList.filter (·.home = home)).map (·.kind.number?) := by
      refine Slab.map_filter_modify changed (fun _ _ => rfl) fun item found => ?_
      cases there.symm.trans found
      exact filled.fills.number?
    have same : after.numbersIn home = program.numbersIn home := by
      simpa [numbersIn, List.filterMap_map] using congrArg (List.filterMap id) shown
    rw [same]
    exact numbered home
  · rw [numbersIn_push pushed]
    split
    next here =>
      subst here
      cases kind : node.kind with
      | parameter number default =>
        -- The new number is the count of those before it.
        obtain ⟨region, opened, counted⟩ := placed.counted number default kind
        cases (filed.parameterCount_eq opened).symm.trans counted
        rw [DeclKind.number?, Option.toList_some, List.length_append, List.length_singleton,
          List.range_succ, ← numbered]
      | _ => simpa [DeclKind.number?] using numbered node.home
    next elsewhere =>
      rw [List.append_nil]
      exact numbered home

/-! ### Programs that requests lead to -/

/-- Parameters and enumerators are members of the region they belong in, and the parameters of
a function are numbered in the order of its members. -/
structure NumbersParameters (program : Program) : Prop where
  functions : ∀ function node parameters body, program.declNode function = .ok node →
    node.kind = .function parameters body →
    ∃ members nodes, program.membersOf parameters = .ok members ∧ members.mapM program.declNode = .ok nodes ∧
      nodes.filterMap (·.kind.number?) = List.range (nodes.countP (·.category == .parameter))
  parameters : ∀ id node number default, program.declNode id = .ok node →
    node.kind = .parameter number default →
    (∃ members, program.membersOf node.home = .ok members ∧ id ∈ members) ∧
    ∃! function, ∃ owner body, program.declNode function = .ok owner ∧ owner.kind = .function node.home body
  enumerators : ∀ id node value, program.declNode id = .ok node → node.kind = .enumerator value →
    (∃ members, program.membersOf node.home = .ok members ∧ id ∈ members) ∧
    ∃ enumeration underlying, program.typeNode node.type = .ok enumeration ∧
      enumeration.kind = .enumType node.home underlying

theorem Filed.member_home (filed : program.Filed) {id : DeclId} {node : DeclNode}
    (found : program.declNode id = .ok node) :
    ∃ members, program.membersOf node.home = .ok members ∧ id ∈ members := by
  have present := Slab.get_eq_ok.mp found
  obtain ⟨scope, opens⟩ := filed.homes present
  obtain ⟨region, there, -⟩ := Option.map_eq_some_iff.mp opens
  exact ⟨_, filed.membersOf_eq (Slab.get_eq_ok.mpr there),
    Slab.mem_select.mpr ⟨node, present, by simp⟩⟩

theorem Filed.numbersParameters (filed : program.Filed) (leads : program.LeadsBack)
    (belong : program.AllBelong) (numbered : program.Numbered) : program.NumbersParameters where
  functions function node parameters body found own := by
    have introduces : program.introduced (.decl function) = .ok (some parameters) :=
      introduced_decl.mpr ⟨node, found, by rw [own]; rfl⟩
    obtain ⟨region, there, -⟩ := leads.owned introduces
    have listed := filed.membersOf_eq (Slab.get_eq_ok.mpr there)
    refine ⟨_, _, listed, Slab.mapM_select, ?_⟩
    have each := numbered parameters
    rw [length_numbersIn] at each
    simpa [numbersIn] using each
  parameters id node number default found kind := by
    have belongs := belong id node found
    rw [kind] at belongs
    obtain ⟨function, owner, body, there, own⟩ := belongs
    refine ⟨filed.member_home found, function, ⟨owner, body, there, own⟩, ?_⟩
    rintro other ⟨rival, rest, present, claims⟩
    have one : program.introduced (.decl other) = .ok (some node.home) :=
      introduced_decl.mpr ⟨rival, present, by rw [claims]; rfl⟩
    have two : program.introduced (.decl function) = .ok (some node.home) :=
      introduced_decl.mpr ⟨owner, there, by rw [own]; rfl⟩
    cases leads.knowsOwners.apart _ _ _ one two
    rfl
  enumerators id node value found kind := by
    have belongs := belong id node found
    rw [kind] at belongs
    exact ⟨filed.member_home found, belongs⟩

/-- Whatever is requested of a new program, every function has its parameters numbered from zero
on in the order of its members, and parameters and enumerators lie in the region of the one
function and of the enumeration that they belong to. -/
theorem parameters_numbered {hash : Bytes → UInt64} {sizing : Sizing} {start : Program}
    {requests : List Request} (began : initial hash sizing = .ok start)
    (ran : start.run requests = .ok program) : program.NumbersParameters := by
  have none : start.decls = {} := decls_initial began
  have belong : start.AllBelong := fun _ _ found => by
    simp [declNode, none, Slab.get, Slab.get?] at found
  have numbered : start.Numbered := fun home => by simp [numbersIn, none]
  have filed : start.Filed := filed_run began (show start.run [] = .ok start from rfl)
  have step : ∀ {program : Program} {request outcome after}, program.respond request = .ok (outcome, after) →
      program.Filed ∧ program.Numbered → after.Filed ∧ after.Numbered :=
    fun responded both => ⟨(respond_reaches responded).keeps_filed both.1,
      (respond_effect responded).keeps_numbered both.1 both.2⟩
  have kept : program.Filed ∧ program.Numbered := run_keeps step ⟨filed, numbered⟩ ran
  exact kept.1.numbersParameters ((run_reaches ran).keeps_leadsBack (leadsBack_initial began))
    (run_effects (fun effect belong => effect.keeps_allBelong belong) belong ran) kept.2

/-- Two parameters are alike and a variable is declared between them; the function is declared
again and has a parameter of its own then. -/
theorem parameters_numbered_alike : ∃ start program : Program,
    initial (fun _ => 0) {} = .ok start ∧
    start.run [.intern (.ofString "x"), .identifier (.entry 0), .declareFunction .global ⟨0⟩ ⟨11⟩ .empty,
      .declareParameter ⟨0⟩ ⟨0⟩ ⟨11⟩, .declareVar ⟨1⟩ ⟨0⟩ ⟨12⟩ .empty, .declareParameter ⟨0⟩ ⟨0⟩ ⟨11⟩,
      .declareFunction .global ⟨0⟩ ⟨11⟩ .empty, .declareParameter ⟨4⟩ ⟨0⟩ ⟨11⟩, .newEnum .global,
      .declareEnumerator ⟨33⟩ ⟨0⟩ none] = .ok program ∧
    [⟨1⟩, ⟨2⟩, ⟨3⟩, ⟨5⟩].mapM (fun decl => return (← program.declNode decl).kind.number?) =
      (.ok [some 0, none, some 1, some 0] : Checked _) ∧
    program.NumbersParameters := by
  have performed : (do
      let start ← initial (fun _ => 0) {}
      let program ← start.run [.intern (.ofString "x"), .identifier (.entry 0),
        .declareFunction .global ⟨0⟩ ⟨11⟩ .empty, .declareParameter ⟨0⟩ ⟨0⟩ ⟨11⟩,
        .declareVar ⟨1⟩ ⟨0⟩ ⟨12⟩ .empty, .declareParameter ⟨0⟩ ⟨0⟩ ⟨11⟩,
        .declareFunction .global ⟨0⟩ ⟨11⟩ .empty, .declareParameter ⟨4⟩ ⟨0⟩ ⟨11⟩, .newEnum .global,
        .declareEnumerator ⟨33⟩ ⟨0⟩ none]
      let numbers ← [⟨1⟩, ⟨2⟩, ⟨3⟩, ⟨5⟩].mapM fun decl => return (← program.declNode decl).kind.number?
      if numbers = [some 0, none, some 1, some 0] then return ()
      else .error .outOfRange : Checked Unit).isOk := by decide +kernel
  obtain ⟨_, performed⟩ := Checked.exists_of_isOk performed
  obtain ⟨start, began, rest⟩ := Checked.bind_eq_ok.mp performed
  obtain ⟨program, ran, rest⟩ := Checked.bind_eq_ok.mp rest
  obtain ⟨numbers, read, rest⟩ := Checked.bind_eq_ok.mp rest
  split at rest
  next same =>
    rw [same] at read
    exact ⟨start, program, began, ran, read, parameters_numbered began ran⟩
  · cases rest

end Program

end CanonIR
