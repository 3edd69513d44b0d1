import CanonIR.Proofs.ScopeScans
import CanonIR.Proofs.WriteOnce

/-! How a name is bound in a scope. It is read off the index of the scope; it tells how many
members of the scope have the name and whether they have one type, and it never goes back. -/

namespace CanonIR

namespace Slab

variable {α β : Type} {table : Table} {slab after : Slab table α} {handle : Handle table} {test : α → Bool}

theorem forall₂_handles :
    List.Forall₂ (fun handle item => slab.get? handle = some item) slab.handles slab.items.toList := by
  rw [List.forall₂_iff_get]
  refine ⟨by simp [handles, size], fun index inside _ => ?_⟩
  simp only [handles, List.length_map, List.length_range] at inside
  simp only [handles, List.get_eq_getElem, List.getElem_map, List.getElem_range, get?]
  rw [if_neg (by simp), Nat.add_sub_cancel_left, Array.getElem?_eq_getElem inside]
  rfl

/-- What passes a test is found under the handles that a selection lists. -/
theorem forall₂_select : List.Forall₂ (fun handle item => slab.get? handle = some item)
    (slab.select test) (slab.items.toList.filter test) := by
  refine List.rel_filter (fun handle item found => ?_) forall₂_handles
  simp [found]

theorem mapM_select : (slab.select test).mapM slab.get = .ok (slab.items.toList.filter test) :=
  Checked.mapM_eq_ok.mpr (forall₂_select.imp fun _ _ => get_eq_ok.mpr)

theorem length_select : (slab.select test).length = (slab.items.toList.filter test).length :=
  forall₂_select.length_eq

/-- Only the entry that is changed can make a difference to what a selection shows. -/
theorem map_filter_modify {change : α → α} {view : α → β} (changed : slab.modify handle change = .ok after)
    (passes : ∀ item, slab.get? handle = some item → test (change item) = test item)
    (same : ∀ item, slab.get? handle = some item → view (change item) = view item) :
    (after.items.toList.filter test).map view = (slab.items.toList.filter test).map view := by
  obtain ⟨item, found, rfl⟩ := modify_eq_ok.mp changed
  replace passes := passes item found
  replace same := same item found
  obtain ⟨index, rfl, present⟩ := get?_eq_some.mp found
  rw [Array.toList_modify, Nat.add_sub_cancel_left]
  rw [← Array.getElem?_toList] at present
  clear changed found
  generalize slab.items.toList = items at present
  induction items generalizing index with
  | nil => simp
  | cons first rest ih =>
    cases index with
    | zero =>
      cases present
      rw [List.modify_zero_cons, List.filter_cons, List.filter_cons, passes]
      split
      · rw [List.map_cons, List.map_cons, same]
      · rfl
    | succ index =>
      rw [List.modify_succ_cons, List.filter_cons, List.filter_cons]
      split
      · rw [List.map_cons, List.map_cons, ih index present]
      · exact ih index present

end Slab

namespace Binding

variable {state next : Binding} {types : List TypeId} {type : TypeId}

/-- What a binding tells of the types that a name is declared with, one for each time. -/
def Fits : Binding → List TypeId → Prop
  | .unbound, types => types = []
  | .declared, types => types.length = 1
  | .redeclared, types => 2 ≤ types.length ∧ ∃ type, ∀ other ∈ types, other = type
  | .overloaded, types => ∃ first ∈ types, ∃ second ∈ types, first ≠ second

/-- The ways in which a binding may change. -/
inductive Steps : Binding → Binding → Prop where
  | declare : Steps .unbound .declared
  | redeclare : Steps .declared .redeclared
  | overload : Steps .declared .overloaded
  | overloadAgain : Steps .redeclared .overloaded

/-- How often a name must be declared for a binding, from two times on alike. -/
def times : Binding → Nat
  | .unbound => 0
  | .declared => 1
  | .redeclared | .overloaded => 2

theorem Fits.times (fits : state.Fits types) : min types.length 2 = state.times := by
  cases state with
  | unbound =>
    obtain rfl : types = [] := fits
    rfl
  | declared =>
    have once : types.length = 1 := fits
    rw [once]
    rfl
  | redeclared => exact Nat.min_eq_right fits.1
  | overloaded =>
    obtain ⟨first, one, second, two, differ⟩ := fits
    match types with
    | [] => cases one
    | [type] => exact absurd ((List.mem_singleton.mp one).trans (List.mem_singleton.mp two).symm) differ
    | _ :: _ :: rest => exact Nat.min_eq_right (by simp)

theorem Fits.not_overloaded (fits : Fits .redeclared types) : ¬ Fits .overloaded types := by
  rintro ⟨first, one, second, two, differ⟩
  obtain ⟨-, type, all⟩ := fits
  exact differ ((all first one).trans (all second two).symm)

/-- No two bindings tell the same. -/
theorem Fits.unique (fits : state.Fits types) (again : next.Fits types) : state = next := by
  have times : state.times = next.times := fits.times.symm.trans again.times
  cases state with
  | unbound => cases next <;> trivial
  | declared => cases next <;> trivial
  | redeclared =>
    cases next with
    | unbound | declared => cases times
    | redeclared => rfl
    | overloaded => exact absurd again fits.not_overloaded
  | overloaded =>
    cases next with
    | unbound | declared => cases times
    | redeclared => exact absurd fits again.not_overloaded
    | overloaded => rfl

/-- One declaration more takes a binding one step further, or leaves it. -/
theorem Fits.concat (fits : state.Fits types) (later : next.Fits (types ++ [type])) :
    Relation.ReflGen Steps state next := by
  have times := later.times
  rw [List.length_append, List.length_singleton] at times
  cases state with
  | unbound =>
    obtain rfl : types = [] := fits
    cases later.unique (show Fits .declared [type] from rfl)
    exact .single .declare
  | declared =>
    have once : types.length = 1 := fits
    rw [once] at times
    cases next with
    | unbound | declared => cases times
    | redeclared => exact .single .redeclare
    | overloaded => exact .single .overload
  | redeclared =>
    rw [Nat.min_eq_right (Nat.le_succ_of_le fits.1)] at times
    cases next with
    | unbound | declared => cases times
    | redeclared => exact .refl
    | overloaded => exact .single .overloadAgain
  | overloaded =>
    obtain ⟨first, one, second, two, differ⟩ := fits
    have still : Fits .overloaded (types ++ [type]) :=
      ⟨first, List.mem_append_left _ one, second, List.mem_append_left _ two, differ⟩
    cases later.unique still
    exact .refl

end Binding

namespace Program

variable {program after : Program} {request : Request} {home : RegionId} {scope : ScopeId} {name : NameId}
  {type : TypeId} {state : Binding}

/-- The members of a scope that have a name. -/
def namesakes (program : Program) (entry : Scope) (name : NameId) : Checked (List DeclNode) := do
  return (← entry.members.toList.mapM program.declNode).filter (·.name = name)

/-- All declarations of a name in a region, oldest first. -/
def declared (program : Program) (home : RegionId) (name : NameId) : List DeclNode :=
  program.decls.nodes.items.toList.filter fun node => node.home = home && node.name = name

def declaredTypes (program : Program) (home : RegionId) (name : NameId) : List TypeId :=
  (program.declared home name).map (·.type)

/-! ### Bindings and scans -/

theorem length_scan : (program.scan home (·.name = name)).length = (program.declaredTypes home name).length :=
  Slab.length_select.trans (List.length_map _).symm

theorem length_alike : (program.alike home name type).length =
    ((program.declared home name).filter (·.type = type)).length := by
  rw [alike, scan, Slab.length_select, declared, List.filter_filter]
  congr 2
  funext node
  rw [← Bool.and_assoc, Bool.and_comm]

theorem mem_declaredTypes : type ∈ program.declaredTypes home name ↔ program.alike home name type ≠ [] := by
  rw [← List.length_pos_iff, length_alike, List.length_pos_iff_exists_mem]
  simp [declaredTypes]

/-- The index of a scope knows how a name is bound. -/
theorem Filed.binding_fits (filed : program.Filed) {region : Region} (here : program.region home = .ok region)
    (name : NameId) : ∃ state, program.binding region.scope name = .ok state ∧
      state.Fits (program.declaredTypes home name) := by
  obtain ⟨result, looked, bound⟩ := filed.scan_lookup here name
  rw [binding, looked]
  cases result with
  | none =>
    have unbound : program.scan home (·.name = name) = [] := by simpa using bound
    have undeclared : (program.declaredTypes home name).length = 0 := by
      rw [← length_scan, unbound]
      rfl
    exact ⟨.unbound, rfl, List.length_eq_zero_iff.mp undeclared⟩
  | some overload =>
    obtain ⟨types, listed, ascends, exact⟩ := filed.scan_entries here looked
    simp only [← mem_declaredTypes] at exact
    simp only [Checked.ok_bind, listed]
    have inhabited : 0 < (program.declaredTypes home name).length := by
      rw [← length_scan]
      exact List.length_pos_iff.mpr (bound.mp rfl)
    match types with
    | [] =>
      obtain ⟨type, member⟩ := List.length_pos_iff_exists_mem.mp inhabited
      cases (exact type).mpr member
    | [type] =>
      -- All declarations of the name are in one chain.
      have one : ∀ other ∈ program.declaredTypes home name, other = type :=
        fun other member => List.mem_singleton.mp ((exact other).mpr member)
      have whole : (program.alike home name type).length = (program.declaredTypes home name).length := by
        rw [length_alike, declaredTypes, List.length_map, List.filter_eq_self.mpr]
        exact fun node member => decide_eq_true (one _ (List.mem_map_of_mem member))
      refine ⟨_, rfl, ?_⟩
      split
      next once => exact whole.symm.trans once
      next more => exact ⟨by omega, type, one⟩
    | first :: second :: rest =>
      have lower := (List.pairwise_cons.mp ascends).1 second (by simp)
      refine ⟨.overloaded, rfl, first, (exact first).mp (by simp), second, (exact second).mp (by simp), ?_⟩
      rintro rfl
      exact Nat.lt_irrefl _ lower

section Scope

variable {entry : Scope} (filed : program.Filed) (opened : program.scope scope = .ok entry)

include filed opened

omit filed in
theorem outline?_eq : program.scopes.outline? scope = some (entry.region, entry.members) := by
  simp [ScopeTable.outline?, Slab.get_eq_ok.mp opened]

theorem Filed.members_eq : entry.members.toList = program.decls.nodes.select (·.home = entry.region) :=
  filed.members (outline?_eq opened)

theorem Filed.scope_binding (name : NameId) : ∃ state, program.binding scope name = .ok state ∧
    state.Fits (program.declaredTypes entry.region name) := by
  obtain ⟨region, found, same⟩ :=
    Option.map_eq_some_iff.mp ((filed.paired _ _).mpr ⟨_, outline?_eq opened⟩)
  rw [← same]
  exact filed.binding_fits (Slab.get_eq_ok.mpr found) name

theorem Filed.namesakes_eq (name : NameId) :
    program.namesakes entry name = .ok (program.declared entry.region name) := by
  have read : entry.members.toList.mapM program.declNode =
      .ok (program.decls.nodes.items.toList.filter (·.home = entry.region)) :=
    filed.members_eq opened ▸ Slab.mapM_select
  rw [namesakes, read, declared]
  simp only [Checked.ok_bind, Checked.pure_eq_ok, List.filter_filter, Bool.and_comm]

theorem Filed.members_nodup : entry.members.toList.Nodup := by
  rw [filed.members_eq opened]
  exact Slab.select_ascends.imp fun lower same => by simp [same] at lower

end Scope

/-! ### From step to step -/

theorem Gains.declaredTypes {id : DeclId} {node : DeclNode} {listed : Array (DeclId × DeclId)}
    (gains : program.Gains after id node listed) (home : RegionId) (name : NameId) :
    after.declaredTypes home name = program.declaredTypes home name ++
      if node.home = home ∧ node.name = name then [node.type] else [] := by
  obtain ⟨-, -, pushed⟩ := Slab.push_eq_ok.mp gains.pushed
  rw [Program.declaredTypes, Program.declared, pushed, Array.toList_push, List.filter_append, List.map_append,
    List.filter_singleton, ← Bool.decide_and, Bool.cond_decide]
  split <;> rfl

/-- A request declares a name in a region once at most. -/
theorem Effect.declaredTypes (effect : program.Effect request after) (home : RegionId) (name : NameId) :
    after.declaredTypes home name = program.declaredTypes home name ∨
      ∃ type, after.declaredTypes home name = program.declaredTypes home name ++ [type] := by
  cases effect with
  | quiet quiet =>
    rw [Program.declaredTypes, Program.declared, quiet.undeclared]
    exact .inl rfl
  | underlyingType | exprType | regionOwner | blockEnd => exact .inl rfl
  | refill _ _ changed => exact .inl (Slab.map_filter_modify changed (fun _ _ => rfl) fun _ _ => rfl)
  | declaration _ gains | template _ gains | specialization _ _ _ _ _ _ gains =>
    rw [gains.declaredTypes]
    split
    · exact .inr ⟨_, rfl⟩
    · exact .inl (List.append_nil _)

theorem exists_scope_of_binding (bound : program.binding scope name = .ok state) :
    ∃ entry, program.scope scope = .ok entry := by
  obtain ⟨_, looked, -⟩ := Checked.bind_eq_ok.mp bound
  obtain ⟨entry, opened, -⟩ := Checked.bind_eq_ok.mp looked
  exact ⟨entry, opened⟩

theorem Filed.binding_step (filed : program.Filed) {outcome : Except BuildError Answer}
    (responded : program.respond request = .ok (outcome, after))
    (bound : program.binding scope name = .ok state) :
    ∃ next, after.binding scope name = .ok next ∧ Relation.ReflGen Binding.Steps state next := by
  have effect := respond_effect responded
  have refiled : after.Filed := (respond_reaches responded).keeps_filed filed
  obtain ⟨entry, opened⟩ := exists_scope_of_binding bound
  obtain ⟨current, -, still, region, -⟩ := effect.preserves.members opened
  obtain ⟨_, same, fits⟩ := filed.scope_binding opened name
  cases bound.symm.trans same
  obtain ⟨next, rebound, later⟩ := refiled.scope_binding still name
  refine ⟨next, rebound, ?_⟩
  rw [region] at later
  rcases effect.declaredTypes entry.region name with kept | ⟨type, longer⟩
  · rw [kept] at later
    cases fits.unique later
    exact .refl
  · rw [longer] at later
    exact fits.concat later

theorem Filed.binding_run (filed : program.Filed) {requests : List Request}
    (ran : program.run requests = .ok after) (bound : program.binding scope name = .ok state) :
    ∃ next, after.binding scope name = .ok next ∧ Relation.ReflTransGen Binding.Steps state next := by
  induction requests generalizing program state with
  | nil =>
    cases ran
    exact ⟨state, bound, .refl⟩
  | cons request rest ih =>
    obtain ⟨⟨outcome, middle⟩, responded, ran⟩ := Checked.bind_eq_ok.mp ran
    obtain ⟨between, rebound, step⟩ := filed.binding_step responded bound
    obtain ⟨next, last, steps⟩ := ih ((respond_reaches responded).keeps_filed filed) ran rebound
    exact ⟨next, last, step.to_reflTransGen.trans steps⟩

/-- In every program that requests lead to, the binding of a name in a scope tells how many
members of the scope have the name and whether they have one type; and whatever is requested
then, it stays or goes one step further. -/
theorem bindings_follow_declarations {hash : Bytes → UInt64} {sizing : Sizing} {start : Program}
    {requests : List Request} (began : initial hash sizing = .ok start)
    (ran : start.run requests = .ok program) :
    (∀ scope entry, program.scope scope = .ok entry → entry.members.toList.Nodup ∧
      ∀ name, ∃ nodes state, program.namesakes entry name = .ok nodes ∧
        program.binding scope name = .ok state ∧
        ∀ other : Binding, state = other ↔ other.Fits (nodes.map (·.type))) ∧
    (∀ request outcome after scope name state, program.respond request = .ok (outcome, after) →
      program.binding scope name = .ok state →
      ∃ next, after.binding scope name = .ok next ∧ Relation.ReflGen Binding.Steps state next) ∧
    ∀ later after scope name state, program.run later = .ok after →
      program.binding scope name = .ok state →
      ∃ next, after.binding scope name = .ok next ∧ Relation.ReflTransGen Binding.Steps state next := by
  have filed := filed_run began ran
  refine ⟨fun scope entry opened => ⟨filed.members_nodup opened, fun name => ?_⟩,
    fun _ _ _ _ _ _ responded bound => filed.binding_step responded bound,
    fun _ _ _ _ _ continued bound => filed.binding_run continued bound⟩
  obtain ⟨state, bound, fits⟩ := filed.scope_binding opened name
  refine ⟨_, state, filed.namesakes_eq opened name, bound, fun other => ⟨?_, fits.unique⟩⟩
  rintro rfl
  exact fits

/-- A name is declared once, then again, and then with another type. -/
theorem bindings_follow_declarations_overloaded :
    ∃ (start program after : Program) (entry : Scope) (nodes : List DeclNode),
      initial (fun _ => 0) {} = .ok start ∧
      start.run [.intern (.ofString "x"), .identifier (.entry 0),
        .declareVar .global ⟨0⟩ ⟨12⟩ .empty] = .ok program ∧
      program.run [.declareVar .global ⟨0⟩ ⟨12⟩ .empty, .declareVar .global ⟨0⟩ ⟨11⟩ .empty] = .ok after ∧
      program.scope ⟨0⟩ = .ok entry ∧ program.namesakes entry ⟨0⟩ = .ok nodes ∧
      program.binding ⟨0⟩ ⟨0⟩ = .ok .declared ∧ nodes.length = 1 ∧
      after.binding ⟨0⟩ ⟨0⟩ = .ok .overloaded ∧
      Relation.ReflTransGen Binding.Steps .declared .overloaded := by
  have performed : (do
      let start ← initial (fun _ => 0) {}
      let program ← start.run [.intern (.ofString "x"), .identifier (.entry 0),
        .declareVar .global ⟨0⟩ ⟨12⟩ .empty]
      let after ← program.run [.declareVar .global ⟨0⟩ ⟨12⟩ .empty, .declareVar .global ⟨0⟩ ⟨11⟩ .empty]
      let entry ← program.scope ⟨0⟩
      let early ← program.binding ⟨0⟩ ⟨0⟩
      let late ← after.binding ⟨0⟩ ⟨0⟩
      if early = .declared ∧ late = .overloaded then return entry
      else .error .outOfRange : Checked Scope).isOk := by decide +kernel
  obtain ⟨_, performed⟩ := Checked.exists_of_isOk performed
  obtain ⟨start, began, rest⟩ := Checked.bind_eq_ok.mp performed
  obtain ⟨program, ran, rest⟩ := Checked.bind_eq_ok.mp rest
  obtain ⟨after, continued, rest⟩ := Checked.bind_eq_ok.mp rest
  obtain ⟨entry, opened, rest⟩ := Checked.bind_eq_ok.mp rest
  obtain ⟨early, bound, rest⟩ := Checked.bind_eq_ok.mp rest
  obtain ⟨late, rebound, rest⟩ := Checked.bind_eq_ok.mp rest
  split at rest
  next states =>
    obtain ⟨rfl, rfl⟩ := states
    obtain ⟨follows, -, forward⟩ := bindings_follow_declarations began ran
    obtain ⟨nodes, _, listed, again, exact⟩ := (follows _ entry opened).2 ⟨0⟩
    cases bound.symm.trans again
    obtain ⟨_, last, steps⟩ := forward _ after _ _ _ continued bound
    cases rebound.symm.trans last
    have once := (exact .declared).mp rfl
    exact ⟨start, program, after, entry, nodes, began, ran, continued, opened, listed, bound,
      (List.length_map _).symm.trans once, rebound, steps⟩
  · cases rest

end Program

end CanonIR
