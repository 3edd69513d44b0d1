import CanonIR.Proofs.DeclarationRoom
import CanonIR.Proofs.RefusedRequests
import CanonIR.Proofs.ScopeScans
import CanonIR.Proofs.TemplateLinks

/-! Checking redeclarations. Before a declaration is made it is compared with the first of
the chain that it would join, and with no other. That is as good as to compare it with all
that its scope has, since a chain has all declarations of one name and type in a scope, and
they are of one category. -/

namespace CanonIR

/-- What a request asks to declare, and where. -/
structure Proposal where
  region : RegionId
  name : NameId
  type : TypeId
  specifiers : Specifiers
  category : Category
  deriving DecidableEq

theorem Checked.exists_bind {α β : Type} {first : Checked α} {next : α → Checked β} {value : α}
    (given : first = .ok value) (goes : ∃ result, next value = .ok result) :
    ∃ result, (first >>= next) = .ok result := by
  obtain ⟨result, goes⟩ := goes
  exact ⟨result, Checked.bind_eq_ok.mpr ⟨value, given, goes⟩⟩

theorem Build.run_checked_bind {α β : Type} {program after : Program} {checked : Checked α} {value : α}
    {next : α → Build β} {outcome : Except BuildError β} (given : checked = .ok value) :
    ((liftM checked : Build α) >>= next).run.run program = .ok (outcome, after) ↔
      (next value).run.run program = .ok (outcome, after) := by
  subst given
  rfl

namespace Program

variable {program after : Program} {proposal : Proposal} {region : Region} {existing : Category}

/-- Parameters are declared in the region of their function, enumerators in that of their
type, which is their own type too, and specializations beside their primary by the
template-id. -/
def proposal? (program : Program) : Request → Checked (Option Proposal)
  | .declareVar region name type specifiers => return some ⟨region, name, type, specifiers, .var⟩
  | .declareField region name type specifiers => return some ⟨region, name, type, specifiers, .field⟩
  | .declareBitfield region name type _ specifiers =>
    return some ⟨region, name, type, specifiers, .bitfield⟩
  | .declareFunction region name type specifiers =>
    return some ⟨region, name, type, specifiers, .function⟩
  | .declareAlias region name specifiers =>
    return some ⟨region, name, Fundamental.typename.typeId, specifiers, .alias⟩
  | .declareType region name specifiers =>
    return some ⟨region, name, Fundamental.typename.typeId, specifiers, .typeDecl⟩
  | .declareTemplate region name type specifiers =>
    return some ⟨region, name, type, specifiers, .template⟩
  | .declareParameter function name type => do
    match (← program.declNode function).kind with
    | .function parameters _ => return some ⟨parameters, name, type, .empty, .parameter⟩
    | _ => return none
  | .declareEnumerator enumType name _ => do
    match (← program.typeNode enumType).kind with
    | .enumType region _ => return some ⟨region, name, enumType, .empty, .enumerator⟩
    | _ => return none
  | .declareSpecialization template args type => do
    match (← program.declNode template).kind with
    | .template _ _ primary _ =>
      let lead ← program.declNode primary
      let (name, _) ← (templateId lead.name args).run program
      return some ⟨lead.home, name, type, .empty, .template⟩
    | _ => return none
  | _ => return none

/-- The declarations in a region, as its scope lists them. -/
def membersOf (program : Program) (region : RegionId) : Checked (List DeclId) := do
  return (← program.scope (← program.region region).scope).members.toList

/-- The chain of a name and a type in a region, where there is one. -/
def chainOf (program : Program) (region : RegionId) (name : NameId) (type : TypeId) :
    Checked (List DeclId) := do
  match ← program.scopes.findChain? (← program.region region).scope name type with
  | none => return []
  | some chain => program.chain chain

/-- The region has a member of this category with the name and type that are proposed. -/
def Holds (program : Program) (proposal : Proposal) (existing : Category) : Prop :=
  ∃ members id node, program.membersOf proposal.region = .ok members ∧ id ∈ members ∧
    program.declNode id = .ok node ∧ node.name = proposal.name ∧ node.type = proposal.type ∧
    node.category = existing

/-- What is compared with a declaration that is proposed. -/
abbrev compared (program : Program) (proposal : Proposal) : Checked (Except BuildError (Option DeclId)) :=
  program.joinedMaster proposal.region proposal.name proposal.type proposal.category

/-! ### What a region holds -/

theorem Filed.membersOf_eq (filed : program.Filed) {home : RegionId}
    (here : program.region home = .ok region) :
    program.membersOf home = .ok (program.scan home fun _ => true) := by
  obtain ⟨entry, opened, -, exact⟩ := filed.scan_members here
  simp only [membersOf, here, opened, exact, Checked.ok_bind, Checked.pure_eq_ok]

section Holds

variable (filed : program.Filed) (here : program.region proposal.region = .ok region)

include filed here

theorem Filed.chainOf_eq : program.chainOf proposal.region proposal.name proposal.type =
    .ok (program.alike proposal.region proposal.name proposal.type) := by
  obtain ⟨entry, opened⟩ := filed.exists_scope here
  by_cases begun : ∃ chain, program.Binds region.scope proposal.name proposal.type chain
  · obtain ⟨chain, binds⟩ := begun
    have found := (filed.bound.findChain?_eq_some opened).mpr binds
    simp only [chainOf, here, found, Checked.ok_bind, filed.chain_alike here binds]
  · have missing : program.scopes.findChain? region.scope proposal.name proposal.type = .ok none :=
      (filed.bound.findChain?_eq_ok opened).mpr fun chain => by simp [not_exists.mp begun chain]
    have empty := not_not.mp (mt (filed.alike_ne_nil here).mp begun)
    simp only [chainOf, here, missing, Checked.ok_bind, Checked.pure_eq_ok, empty]

theorem Filed.holds_iff : program.Holds proposal existing ↔
    ∃ id node, program.decls.nodes.get? id = some node ∧ node.home = proposal.region ∧
      node.name = proposal.name ∧ node.type = proposal.type ∧ node.category = existing := by
  constructor
  · rintro ⟨members, id, node, listed, member, found, rest⟩
    cases (filed.membersOf_eq here).symm.trans listed
    obtain ⟨_, again, placed⟩ := Slab.mem_select.mp member
    cases (Slab.get_eq_ok.mp found).symm.trans again
    exact ⟨id, node, again, by simpa using placed, rest⟩
  · rintro ⟨id, node, found, placed, rest⟩
    refine ⟨_, id, node, filed.membersOf_eq here, ?_, Slab.get_eq_ok.mpr found, rest⟩
    exact Slab.mem_select.mpr ⟨node, found, by simpa using placed⟩

/-- All that a region holds of one name and type is in one chain, and so of one category. -/
theorem Filed.holds_unique {other : Category} (first : program.Holds proposal existing)
    (second : program.Holds proposal other) : existing = other := by
  obtain ⟨entry, opened⟩ := filed.exists_scope here
  obtain ⟨_, one, found, placed, name, type, rfl⟩ := (filed.holds_iff here).mp first
  obtain ⟨_, two, there, beside, label, typed, rfl⟩ := (filed.holds_iff here).mp second
  have bindsOne : program.Binds region.scope proposal.name proposal.type one.chain :=
    ⟨_, one, found, placed ▸ scopeOf?_eq here, name, type, rfl⟩
  have bindsTwo : program.Binds region.scope proposal.name proposal.type two.chain :=
    ⟨_, two, there, beside ▸ scopeOf?_eq here, label, typed, rfl⟩
  have alike := filed.peers there found (filed.bound.chain_unique opened bindsOne bindsTwo)
  simp only [DeclNode.subject, Prod.mk.injEq] at alike
  exact alike.2.2.2

theorem Filed.compared_held (held : program.Holds proposal existing) : ∃ master,
    program.compared proposal = .ok (if existing = proposal.category then .ok (some master)
      else .error (.incompatibleRedeclaration proposal.name existing proposal.category)) := by
  obtain ⟨_, node, found, placed, name, type, rfl⟩ := (filed.holds_iff here).mp held
  have binds : program.Binds region.scope proposal.name proposal.type node.chain :=
    ⟨_, node, found, placed ▸ scopeOf?_eq here, name, type, rfl⟩
  obtain ⟨_, master, lead, -, -, leading, joined, looked⟩ := filed.joinedMaster_bound here binds
  have alike := filed.peers found leading joined
  simp only [DeclNode.subject, Prod.mk.injEq] at alike
  exact ⟨master, alike.2.2.2 ▸ looked⟩

theorem Filed.compared_new (absent : ∀ existing, ¬ program.Holds proposal existing) :
    program.compared proposal = .ok (.ok none) := by
  refine filed.joinedMaster_unbound here fun chain binds => ?_
  obtain ⟨id, node, found, opened, name, type, -⟩ := binds
  exact absent node.category ((filed.holds_iff here).mpr
    ⟨id, node, found, (filed.opens_iff here _).mp opened, name, type, rfl⟩)

/-- The comparison with one declaration is the comparison with all. -/
theorem Filed.compared_cases :
    (∃ existing, existing ≠ proposal.category ∧ program.Holds proposal existing ∧ program.compared proposal =
      .ok (.error (.incompatibleRedeclaration proposal.name existing proposal.category))) ∨
    (∀ existing, program.Holds proposal existing → existing = proposal.category) ∧
      ∃ master, program.compared proposal = .ok (.ok master) := by
  by_cases held : ∃ existing, program.Holds proposal existing
  · obtain ⟨existing, held⟩ := held
    obtain ⟨master, looked⟩ := filed.compared_held here held
    by_cases same : existing = proposal.category
    · rw [if_pos same] at looked
      exact .inr ⟨fun other also => (filed.holds_unique here also held).trans same, some master, looked⟩
    · rw [if_neg same] at looked
      exact .inl ⟨existing, same, held, looked⟩
  · have absent := not_exists.mp held
    exact .inr ⟨fun existing held => absurd held (absent existing), none, filed.compared_new here absent⟩

end Holds

/-! ### Declarations -/

/-- What is proposed is declared, unless its specifiers conflict or the comparison fails. -/
structure Settles (program : Program) (proposal : Proposal) (build : Build DeclId) : Prop where
  conflicting : proposal.specifiers.isConflicting →
    build.run.run program = .ok (.error (.conflictingSpecifiers proposal.specifiers), program)
  refused : ¬ proposal.specifiers.isConflicting → ∀ {error}, program.compared proposal = .ok (.error error) →
    build.run.run program = .ok (.error error, program)
  declared : ¬ proposal.specifiers.isConflicting → ∀ {master}, program.compared proposal = .ok (.ok master) →
    ∀ {outcome after}, build.run.run program = .ok (outcome, after) → ∃ id node listed, outcome = .ok id ∧
      DeclaredAs node proposal.region proposal.name proposal.type proposal.specifiers ∧
      node.category = proposal.category ∧ program.Gains after id node listed
  returns : ¬ proposal.specifiers.isConflicting → ∀ {master}, program.compared proposal = .ok (.ok master) →
    program.HasRoom → ∃ outcome after, build.run.run program = .ok (outcome, after)

/-- A request that gives what another one gives settles the same. -/
theorem Settles.congr {build other : Build DeclId} (settles : program.Settles proposal build)
    (same : ∀ {outcome after}, other.run.run program = .ok (outcome, after) ↔
      build.run.run program = .ok (outcome, after)) : program.Settles proposal other where
  conflicting conflict := same.mpr (settles.conflicting conflict)
  refused allowed _ looked := same.mpr (settles.refused allowed looked)
  declared allowed _ agreed _ _ given := settles.declared allowed agreed (same.mp given)
  returns allowed _ agreed room := by
    obtain ⟨outcome, after, given⟩ := settles.returns allowed agreed room
    exact ⟨outcome, after, same.mpr given⟩

section Declare

variable {make : DeclId → Option DeclId → Edit DeclKind}
  (here : program.region proposal.region = .ok region)

include here

theorem declare_settles (tallied : program.Tallied) (quiet : ∀ id master, (make id master).Quiet)
    (fits : ∀ {id master kind prepared}, (make id master).run program = .ok (kind, prepared) →
      kind.category = proposal.category)
    (supplies : program.HasRoom → ∀ id master, program.Supplies (make id master)) :
    program.Settles proposal (declare proposal.region proposal.name proposal.type proposal.specifiers
      proposal.category make) where
  conflicting conflict := by
    unfold declare
    rw [if_pos conflict]
    rfl
  refused allowed error looked := by
    unfold declare
    rw [if_neg allowed]
    refine Build.run_get_bind.mpr (Build.run_check_bind.mpr ⟨region, here, ?_⟩)
    exact Build.run_get_bind.mpr (Build.run_check_bind.mpr ⟨.error error, looked, rfl⟩)
  declared allowed master agreed outcome after given := by
    rcases declare_cases given quiet with
      ⟨⟨error, rfl⟩, -⟩ | ⟨id, lead, prepared, node, same, made, -, asked, gains⟩
    · have never : (declare proposal.region proposal.name proposal.type proposal.specifiers
          proposal.category make).Refuses (fun _ => False) program :=
        declare_refuses allowed fun refused => nomatch agreed.symm.trans refused
      exact (never given).elim
    · exact ⟨id, node, #[], same, asked, fits made, gains⟩
  returns allowed master agreed room := by
    have numbers := room.nodes
    obtain ⟨id, after, given⟩ :=
      exists_declare tallied (by omega) here allowed agreed fun id => supplies room id master
    exact ⟨.ok id, after, given⟩

end Declare

section Kinds

variable {home : RegionId} {name : NameId} {type : TypeId} {specifiers : Specifiers}
  (filed : program.Filed) (tallied : program.Tallied)

include filed tallied

theorem declareWith_settles (here : program.region home = .ok region) {kind : DeclKind}
    {category : Category} (fits : kind.category = category) :
    program.Settles ⟨home, name, type, specifiers, category⟩
      (declareWith home name type specifiers kind) := by
  subst fits
  refine declare_settles here tallied (fun _ _ => Edit.quiet_pure kind) (fun given => ?_)
    fun _ _ _ => supplies_pure filed kind
  cases given
  rfl

theorem parametrized_settles (here : program.region home = .ok region) {category : Category}
    {kind : DeclId → Option DeclId → RegionId → DeclKind}
    (fits : ∀ id master parameters, (kind id master parameters).category = category) :
    program.Settles ⟨home, name, type, specifiers, category⟩
      (declare home name type specifiers category fun id master => do
        return kind id master (← parameterRegion home id)) := by
  refine declare_settles here tallied (fun _ _ => parametrized_quiet) (fun given => ?_)
    fun room id master => supplies_parameterRegion filed room.regions here id (kind id master)
  obtain ⟨parameters, rfl⟩ := parametrized_eq_ok given
  exact fits _ _ parameters

/-- The parameters are counted first. -/
theorem declareParameter_settles (inRange : program.InRange) (leads : program.LeadsBack) {function : DeclId}
    {node : DeclNode} {parameters : RegionId} {body : Option StmtId}
    (found : program.declNode function = .ok node) (kind : node.kind = .function parameters body) :
    program.Settles ⟨parameters, name, type, .empty, .parameter⟩ (declareParameter function name type) := by
  obtain ⟨entry, present, -⟩ := leads.inside found (by rw [kind]; rfl)
  have here : program.region parameters = .ok entry := Slab.get_eq_ok.mpr present
  obtain ⟨count, counted, placed⟩ := exists_parameterCount filed tallied inRange here
  have fits : (DeclKind.parameter count none).category = .parameter := rfl
  refine (declareWith_settles filed tallied here fits).congr fun {outcome after} => ?_
  refine Build.run_get_bind.trans ((Build.run_checked_bind found).trans ?_)
  rw [kind]
  exact (Build.run_checked_bind here).trans
    ((Build.run_checked_bind counted).trans (Build.run_checked_bind placed))

theorem declareEnumerator_settles (leads : program.LeadsBack) {enumType : TypeId} {value : Option ExprId}
    {node : TypeNode} {underlying : Option TypeId} (found : program.typeNode enumType = .ok node)
    (kind : node.kind = .enumType home underlying) :
    program.Settles ⟨home, name, enumType, .empty, .enumerator⟩ (declareEnumerator enumType name value) := by
  obtain ⟨entry, present, -⟩ := leads.owned (introduced_type.mpr ⟨node, found, by rw [kind]; rfl⟩)
  have here : program.region home = .ok entry := Slab.get_eq_ok.mpr present
  have fits : (DeclKind.enumerator value).category = .enumerator := rfl
  refine (declareWith_settles filed tallied here fits).congr fun {outcome after} => ?_
  refine Build.run_get_bind.trans ((Build.run_checked_bind found).trans ?_)
  rw [kind]

end Kinds

/-! ### Specializations -/

section Specialization

variable {template primary : DeclId} {named lead : DeclNode} {own : RegionId} {pattern : Option DeclId}
  {applied : Option TermListId} {args : List Term} {type : TypeId} {name : NameId}
  {former : Option NameId} {outcome : Except BuildError DeclId}
  (searched : program.names.templateId? lead.name args = .ok former)

include searched

/-- A template-id that is found is the one that is made. -/
theorem templateId_found (canonical : program.Canonical) (known : former = some name) :
    ∃ middle, (templateId lead.name args).run program = .ok (name, middle) := by
  have applies := (NameTable.templateId?_eq_ok canonical.names searched name).mp known
  obtain ⟨list, kept, given⟩ := NameTable.templateId_known canonical.names applies program.census
  exact ⟨_, templateId_eq_ok.mpr ⟨list, _, _, _, kept, given, rfl⟩⟩

variable (found : program.declNode template = .ok named)
  (recorded : named.kind = .template own pattern primary applied)
  (leading : program.declNode primary = .ok lead)

include found recorded leading

theorem declareSpecialization_agreed (agreed : ∀ other, former = some other →
      ∃ master, program.joinedMaster lead.home other type .template = .ok (.ok master)) :
    (declareSpecialization template args type).run.run program = .ok (outcome, after) ↔
      (specialize lead.home lead.name args type primary).run.run program = .ok (outcome, after) := by
  refine Build.run_get_bind.trans ((Build.run_checked_bind found).trans ?_)
  rw [recorded]
  refine (Build.run_checked_bind leading).trans ((Build.run_checked_bind searched).trans ?_)
  cases former with
  | none => exact Iff.rfl
  | some other =>
    obtain ⟨master, agreed⟩ := agreed other rfl
    exact Build.run_checked_bind agreed

theorem declareSpecialization_refused (known : former = some name) {error : BuildError}
    (refused : program.joinedMaster lead.home name type .template = .ok (.error error)) :
    (declareSpecialization template args type).run.run program = .ok (.error error, program) := by
  refine Build.run_get_bind.mpr (Build.run_check_bind.mpr ⟨named, found, ?_⟩)
  rw [recorded]
  refine Build.run_check_bind.mpr ⟨lead, leading, Build.run_check_bind.mpr ⟨former, searched, ?_⟩⟩
  subst known
  exact Build.run_check_bind.mpr ⟨_, refused, rfl⟩

omit searched in
/-- A specialization that returns has a name. -/
theorem exists_name (canonical : program.Canonical)
    (given : (declareSpecialization template args type).run.run program = .ok (outcome, after)) :
    ∃ name middle, (templateId lead.name args).run program = .ok (name, middle) := by
  obtain ⟨former, searched⟩ := canonical.names.exists_templateId? lead.name args
  cases former with
  | some name =>
    obtain ⟨middle, made⟩ := templateId_found searched canonical rfl
    exact ⟨name, middle, made⟩
  | none =>
    have passed := (declareSpecialization_agreed searched found recorded leading nofun).mp given
    obtain ⟨name, middle, made, -⟩ := Build.run_edit_bind.mp passed
    exact ⟨name, middle, made⟩

end Specialization

/-- The check is made for a template-id that there is, and then again for the one that is
made. A new template-id is declared nowhere. -/
theorem declareSpecialization_settles (orderly : program.Orderly) (tallied : program.Tallied)
    {template primary : DeclId} {named lead : DeclNode} {own : RegionId} {pattern : Option DeclId}
    {applied : Option TermListId} {args : List Term} {type : TypeId} {name : NameId} {middle : Program}
    (found : program.declNode template = .ok named)
    (recorded : named.kind = .template own pattern primary applied)
    (leading : program.declNode primary = .ok lead) (here : program.region lead.home = .ok region)
    (made : (templateId lead.name args).run program = .ok (name, middle)) :
    program.Settles ⟨lead.home, name, type, .empty, .template⟩
      (declareSpecialization template args type) := by
  obtain ⟨former, searched⟩ := orderly.canonical.names.exists_templateId? lead.name args
  have passes : ∀ {master}, program.joinedMaster lead.home name type .template = .ok (.ok master) →
      ∀ {outcome after}, (declareSpecialization template args type).run.run program = .ok (outcome, after) ↔
        (specialize lead.home lead.name args type primary).run.run program = .ok (outcome, after) := by
    intro master agreed outcome after
    refine declareSpecialization_agreed searched found recorded leading fun other known => ⟨master, ?_⟩
    obtain ⟨_, again⟩ := templateId_found searched orderly.canonical known
    cases made.symm.trans again
    exact agreed
  have plain : ¬ Specifiers.empty.isConflicting := by decide
  refine ⟨fun conflict => absurd conflict plain, fun _ _ refused => ?_,
    fun _ _ agreed outcome after given => ?_, fun _ _ agreed room => ?_⟩
  · rcases templateId_former orderly.canonical orderly.named searched made with known | unbound
    · exact declareSpecialization_refused searched found recorded leading known refused
    · cases refused.symm.trans (orderly.filed.joinedMaster_unbound here (unbound _ _))
  · have never : (specialize lead.home lead.name args type primary).Refuses (fun _ => False) program := by
      refine specialize_refuses fun again _ refused => ?_
      cases made.symm.trans again
      cases agreed.symm.trans refused
    have given := (passes agreed).mp given
    rcases specialize_cases given with ⟨⟨_, rfl⟩, -⟩ |
      ⟨id, node, _, list, same, kind, asked, ⟨_, _, again, -⟩, gains⟩
    · exact (never given).elim
    · cases made.symm.trans again
      exact ⟨id, node, _, same, asked, by rw [DeclNode.category, kind]; rfl, gains⟩
  · obtain ⟨id, after, given⟩ :=
      exists_specialize orderly.canonical orderly.filed tallied room here made agreed
    exact ⟨.ok id, after, (passes agreed).mpr given⟩

/-! ### Requests -/

/-- The request returns this outcome, whatever it changes. -/
def Returns (program : Program) (request : Request) (outcome : Except BuildError Answer) : Prop :=
  ∃ after, program.respond request = .ok (outcome, after)

theorem answerDecl_eq_ok {build : Build DeclId} {outcome : Except BuildError Answer} :
    (answerDecl build).run.run program = .ok (outcome, after) ↔ ∃ result,
      build.run.run program = .ok (result, after) ∧ outcome = result.map fun id => .node (.decl id) := by
  refine Checked.bind_eq_ok.trans ⟨?_, ?_⟩
  · rintro ⟨⟨result, middle⟩, given, rest⟩
    cases result <;> cases rest <;> exact ⟨_, given, rfl⟩
  · rintro ⟨result, given, rfl⟩
    refine ⟨_, given, ?_⟩
    cases result <;> rfl

/-- A request that proposes a declaration settles the proposal, in a region that there is. -/
theorem exists_settles (orderly : program.Orderly) (tallied : program.Tallied) (inRange : program.InRange)
    (leads : program.LeadsBack) {request : Request} (uses : ∀ handle ∈ request.handles, program.issued handle)
    (asked : program.proposal? request = .ok (some proposal)) :
    ∃ build region, perform request = answerDecl build ∧ program.region proposal.region = .ok region ∧
      program.Settles proposal build := by
  have opened : ∀ {id}, .region id ∈ request.handles → ∃ region, program.region id = .ok region :=
    fun member => Checked.exists_of_isOk (uses _ member)
  have filed := orderly.filed
  cases request with
  | declareVar | declareField | declareBitfield | declareAlias | declareType =>
    cases asked
    obtain ⟨region, here⟩ := opened (List.mem_cons_self ..)
    exact ⟨_, region, rfl, here, declareWith_settles filed tallied here rfl⟩
  | declareFunction | declareTemplate =>
    cases asked
    obtain ⟨region, here⟩ := opened (List.mem_cons_self ..)
    exact ⟨_, region, rfl, here, parametrized_settles filed tallied here fun _ _ _ => rfl⟩
  | declareParameter =>
    obtain ⟨node, found, asked⟩ := Checked.bind_eq_ok.mp asked
    split at asked
    next kind =>
      cases asked
      obtain ⟨region, here, -⟩ := leads.inside found (by rw [kind]; rfl)
      exact ⟨_, region, rfl, Slab.get_eq_ok.mpr here,
        declareParameter_settles filed tallied inRange leads found kind⟩
    · cases asked
  | declareEnumerator =>
    obtain ⟨node, found, asked⟩ := Checked.bind_eq_ok.mp asked
    split at asked
    next kind =>
      cases asked
      obtain ⟨region, here, -⟩ := leads.owned (introduced_type.mpr ⟨node, found, by rw [kind]; rfl⟩)
      exact ⟨_, region, rfl, Slab.get_eq_ok.mpr here,
        declareEnumerator_settles filed tallied leads found kind⟩
    · cases asked
  | declareSpecialization =>
    obtain ⟨named, found, asked⟩ := Checked.bind_eq_ok.mp asked
    split at asked
    next recorded =>
      obtain ⟨lead, leading, asked⟩ := Checked.bind_eq_ok.mp asked
      obtain ⟨⟨name, middle⟩, made, asked⟩ := Checked.bind_eq_ok.mp asked
      cases asked
      obtain ⟨scope, placed⟩ := filed.homes (Slab.get_eq_ok.mp leading)
      obtain ⟨region, present, -⟩ := Option.map_eq_some_iff.mp placed
      have here : program.region lead.home = .ok region := Slab.get_eq_ok.mpr present
      exact ⟨_, region, rfl, here,
        declareSpecialization_settles orderly tallied found recorded leading here made⟩
    · cases asked
  | _ => cases asked

/-- A request that names issued handles tells what it proposes, if it returns or has room. -/
theorem exists_proposal (orderly : program.Orderly) (tallied : program.Tallied)
    (linked : program.decls.Linked) {request : Request} (uses : ∀ handle ∈ request.handles, program.issued handle)
    (room : program.HasRoom ∨ ∃ outcome, program.Returns request outcome) :
    ∃ proposed, program.proposal? request = .ok proposed := by
  cases request with
  | declareParameter =>
    obtain ⟨node, found⟩ := issued_decl.mp (uses _ (List.mem_cons_self ..))
    refine Checked.exists_bind found ?_
    split <;> exact ⟨_, rfl⟩
  | declareEnumerator =>
    obtain ⟨node, found⟩ := issued_type.mp (uses _ (List.mem_cons_self ..))
    refine Checked.exists_bind found ?_
    split <;> exact ⟨_, rfl⟩
  | declareSpecialization template args type =>
    obtain ⟨node, found⟩ := issued_decl.mp (uses _ (List.mem_cons_self ..))
    refine Checked.exists_bind found ?_
    split
    next primary applied recorded =>
      have origin : node.kind.origin? = some (primary, applied) := by
        rw [recorded]
        rfl
      obtain ⟨lead, _, _, leading, -⟩ := exists_lead orderly.filed linked found origin
      obtain ⟨name, middle, made⟩ : ∃ name middle,
          (templateId lead.name args).run program = .ok (name, middle) := by
        rcases room with room | ⟨outcome, after, responded⟩
        · exact exists_templateId orderly.canonical tallied (Nat.lt_of_succ_lt room.nodes) room.lists
            lead.name args
        · obtain ⟨result, given, -⟩ := answerDecl_eq_ok.mp responded
          exact exists_name found recorded leading orderly.canonical given
      exact Checked.exists_bind leading (Checked.exists_bind made ⟨_, rfl⟩)
    · exact ⟨_, rfl⟩
  | _ => exact ⟨_, rfl⟩

/-! ### The law -/

/-- What is proposed became the newest declaration, the last member of its region and the
last of its chain. -/
structure Adopts (program after : Program) (proposal : Proposal) (id : DeclId) : Prop where
  next : program.decls.nodes.next = .ok id
  node : ∃ node, after.declNode id = .ok node ∧ node.category = proposal.category ∧
    DeclaredAs node proposal.region proposal.name proposal.type proposal.specifiers
  members : ∃ former, program.membersOf proposal.region = .ok former ∧
    after.membersOf proposal.region = .ok (former ++ [id])
  chain : ∃ former, program.chainOf proposal.region proposal.name proposal.type = .ok former ∧
    after.chainOf proposal.region proposal.name proposal.type = .ok (former ++ [id])

/-- The check of a proposal is exact. -/
structure ChecksExactly (program : Program) (request : Request) (proposal : Proposal) : Prop where
  conflicting : program.Returns request (.error (.conflictingSpecifiers proposal.specifiers)) ↔
    proposal.specifiers.isConflicting
  incompatible : ¬ proposal.specifiers.isConflicting → ∀ existing,
    program.Returns request (.error (.incompatibleRedeclaration proposal.name existing proposal.category)) ↔
      existing ≠ proposal.category ∧ program.Holds proposal existing
  /-- What the region holds of the name and type is of one category. -/
  alike : ∀ {first second}, program.Holds proposal first → program.Holds proposal second → first = second
  adopts : ¬ proposal.specifiers.isConflicting →
    (∀ existing, program.Holds proposal existing → existing = proposal.category) →
    ∀ {outcome after}, program.respond request = .ok (outcome, after) →
      ∃ id, outcome = .ok (.node (.decl id)) ∧ program.Adopts after proposal id
  /-- The limits of the tables are the only reason not to return. -/
  returns : program.HasRoom → ∃ outcome, program.Returns request outcome

theorem Gains.adopts (filed : program.Filed) (now : after.Filed)
    (here : program.region proposal.region = .ok region) {id : DeclId} {node : DeclNode}
    {listed : Array (DeclId × DeclId)} (gains : program.Gains after id node listed)
    (asked : DeclaredAs node proposal.region proposal.name proposal.type proposal.specifiers)
    (category : node.category = proposal.category) : program.Adopts after proposal id := by
  obtain ⟨added, present⟩ := gains.grows.regions (Slab.get_eq_ok.mp here)
  have still : after.region proposal.region = .ok _ := Slab.get_eq_ok.mpr present
  obtain ⟨rfl, fits, -⟩ := Slab.push_eq_ok.mp gains.pushed
  refine ⟨Slab.next_eq_ok.mpr ⟨rfl, fits⟩,
    ⟨node, Slab.get_eq_ok.mpr (Slab.get?_pushed gains.pushed), category, asked⟩,
    ⟨_, filed.membersOf_eq here, ?_⟩, ⟨_, filed.chainOf_eq here, ?_⟩⟩
  · rw [now.membersOf_eq still, scan, Slab.select_push gains.pushed]
    simp [asked.home, scan]
  · rw [now.chainOf_eq still, alike, scan, Slab.select_push gains.pushed]
    simp [asked.home, asked.name, asked.type, alike, scan]

theorem Settles.checksExactly (filed : program.Filed) (here : program.region proposal.region = .ok region)
    {request : Request} {build : Build DeclId} (performs : perform request = answerDecl build)
    (settles : program.Settles proposal build) : program.ChecksExactly request proposal := by
  have responds : ∀ {outcome after}, program.respond request = .ok (outcome, after) ↔ ∃ result,
      build.run.run program = .ok (result, after) ∧ outcome = result.map fun id => .node (.decl id) := by
    intro outcome after
    rw [respond, performs]
    exact answerDecl_eq_ok
  have turnsDown : ∀ {error}, program.Returns request (.error error) ↔
      ∃ after, build.run.run program = .ok (.error error, after) := by
    intro error
    refine exists_congr fun after => responds.trans ⟨?_, fun given => ⟨_, given, rfl⟩⟩
    rintro ⟨result, given, equal⟩
    cases result <;> cases equal
    exact given
  have outcomes := filed.compared_cases here
  refine ⟨⟨fun returned => ?_, fun conflict => turnsDown.mpr ⟨_, settles.conflicting conflict⟩⟩,
    fun allowed existing => ⟨fun returned => ?_, fun ⟨different, held⟩ => ?_⟩, filed.holds_unique here,
    fun allowed same outcome after responded => ?_, fun room => ?_⟩
  · by_contra allowed
    obtain ⟨after, given⟩ := turnsDown.mp returned
    rcases outcomes with ⟨_, -, -, looked⟩ | ⟨-, master, agreed⟩
    · cases given.symm.trans (settles.refused allowed looked)
    · obtain ⟨_, _, _, impossible, -⟩ := settles.declared allowed agreed given
      cases impossible
  · obtain ⟨after, given⟩ := turnsDown.mp returned
    rcases outcomes with ⟨_, different, held, looked⟩ | ⟨-, master, agreed⟩
    · cases given.symm.trans (settles.refused allowed looked)
      exact ⟨different, held⟩
    · obtain ⟨_, _, _, impossible, -⟩ := settles.declared allowed agreed given
      cases impossible
  · obtain ⟨master, looked⟩ := filed.compared_held here held
    rw [if_neg different] at looked
    exact turnsDown.mpr ⟨_, settles.refused allowed looked⟩
  · have now : after.Filed := (respond_reaches responded).keeps_filed filed
    rcases outcomes with ⟨existing, different, held, -⟩ | ⟨-, master, agreed⟩
    · exact absurd (same existing held) different
    · obtain ⟨result, given, rfl⟩ := responds.mp responded
      obtain ⟨id, node, listed, rfl, asked, category, gains⟩ := settles.declared allowed agreed given
      exact ⟨id, rfl, gains.adopts filed now here asked category⟩
  · by_cases conflict : proposal.specifiers.isConflicting
    · exact ⟨_, turnsDown.mpr ⟨_, settles.conflicting conflict⟩⟩
    rcases outcomes with ⟨_, -, -, looked⟩ | ⟨-, master, agreed⟩
    · exact ⟨_, turnsDown.mpr ⟨_, settles.refused conflict looked⟩⟩
    · obtain ⟨result, after, given⟩ := settles.returns conflict agreed room
      exact ⟨_, after, responds.mpr ⟨result, given, rfl⟩⟩

/-- After every run of requests that name issued handles, one more such request that proposes
a declaration is checked exactly; and it tells what it proposes, if it returns or has room. -/
theorem redeclarations_checked {hash : Bytes → UInt64} {sizing : Sizing} {start : Program}
    {requests : List Request} (began : initial hash sizing = .ok start)
    (ran : start.run requests = .ok program) (issued : start.usesIssued requests)
    {request : Request} (uses : ∀ handle ∈ request.handles, program.issued handle) :
    (∀ proposal, program.proposal? request = .ok (some proposal) → program.ChecksExactly request proposal) ∧
      (program.HasRoom ∨ (∃ outcome, program.Returns request outcome) →
        ∃ proposed, program.proposal? request = .ok proposed) := by
  have orderly : program.Orderly :=
    run_induction (fun orderly uses responded => orderly.respond uses responded)
      (orderly_initial began) issued ran
  have reaches := run_reaches ran
  have tallied := reaches.keeps_tallied (tallied_initial began)
  refine ⟨fun proposal asked => ?_, exists_proposal orderly tallied (linked_run began ran) uses⟩
  have inRange := reaches.keeps_inRange (inRange_initial began)
  have leads := reaches.keeps_leadsBack (leadsBack_initial began)
  obtain ⟨build, region, performs, here, settles⟩ :=
    exists_settles orderly tallied inRange leads uses asked
  exact settles.checksExactly orderly.filed here performs

/-- The template-id of a specialization was declared as a variable, with one of two types. -/
theorem redeclarations_checked_specialization : ∃ start program after : Program,
    initial (fun _ => 0) {} = .ok start ∧
    start.usesIssued [.intern (.ofString "f"), .identifier (.entry 0), .templateId ⟨0⟩ [.type ⟨11⟩],
      .declareVar .global ⟨1⟩ ⟨12⟩ .empty, .declareTemplate .global ⟨0⟩ ⟨11⟩ .empty] ∧
    start.run [.intern (.ofString "f"), .identifier (.entry 0), .templateId ⟨0⟩ [.type ⟨11⟩],
      .declareVar .global ⟨1⟩ ⟨12⟩ .empty, .declareTemplate .global ⟨0⟩ ⟨11⟩ .empty] = .ok program ∧
    program.Returns (.declareSpecialization ⟨1⟩ [.type ⟨11⟩] ⟨12⟩)
      (.error (.incompatibleRedeclaration ⟨1⟩ .var .template)) ∧
    program.respond (.declareSpecialization ⟨1⟩ [.type ⟨11⟩] ⟨13⟩) = .ok (.ok (.node (.decl ⟨2⟩)), after) ∧
    program.Adopts after ⟨.global, ⟨1⟩, ⟨13⟩, .empty, .template⟩ ⟨2⟩ := by
  have performed : (do
      let requests : List Request := [.intern (.ofString "f"), .identifier (.entry 0),
        .templateId ⟨0⟩ [.type ⟨11⟩], .declareVar .global ⟨1⟩ ⟨12⟩ .empty,
        .declareTemplate .global ⟨0⟩ ⟨11⟩ .empty]
      let start ← initial (fun _ => 0) {}
      let program ← start.run requests
      let members ← program.membersOf .global
      let var ← program.declNode ⟨0⟩
      let template ← program.declNode ⟨1⟩
      let taken ← program.proposal? (.declareSpecialization ⟨1⟩ [.type ⟨11⟩] ⟨12⟩)
      let free ← program.proposal? (.declareSpecialization ⟨1⟩ [.type ⟨11⟩] ⟨13⟩)
      let next ← program.decls.nodes.next
      if start.usesIssued requests ∧
          (Request.declareSpecialization ⟨1⟩ [.type ⟨11⟩] ⟨12⟩).handles.all program.issued ∧
          (Request.declareSpecialization ⟨1⟩ [.type ⟨11⟩] ⟨13⟩).handles.all program.issued ∧
          members = [⟨0⟩, ⟨1⟩] ∧ var.name = ⟨1⟩ ∧ var.type = ⟨12⟩ ∧ var.category = .var ∧
          template.name = ⟨0⟩ ∧
          taken = some ⟨.global, ⟨1⟩, ⟨12⟩, .empty, .template⟩ ∧
          free = some ⟨.global, ⟨1⟩, ⟨13⟩, .empty, .template⟩ ∧ next = ⟨2⟩ ∧
          program.census.next + 2 < positionLimit ∧ program.regions.size < positionLimit ∧
          program.names.terms.size < positionLimit then
        return program
      else .error .outOfRange : Checked Program).isOk := by decide +kernel
  obtain ⟨_, performed⟩ := Checked.exists_of_isOk performed
  obtain ⟨start, began, rest⟩ := Checked.bind_eq_ok.mp performed
  obtain ⟨program, ran, rest⟩ := Checked.bind_eq_ok.mp rest
  obtain ⟨members, listed, rest⟩ := Checked.bind_eq_ok.mp rest
  obtain ⟨var, first, rest⟩ := Checked.bind_eq_ok.mp rest
  obtain ⟨template, second, rest⟩ := Checked.bind_eq_ok.mp rest
  obtain ⟨taken, proposed, rest⟩ := Checked.bind_eq_ok.mp rest
  obtain ⟨free, beside, rest⟩ := Checked.bind_eq_ok.mp rest
  obtain ⟨next, planned, rest⟩ := Checked.bind_eq_ok.mp rest
  split at rest
  next facts =>
    obtain ⟨issued, uses, also, rfl, name, type, category, other, rfl, rfl, rfl,
      nodes, regions, lists⟩ := facts
    have refuses := (redeclarations_checked began ran issued (List.all_eq_true.mp uses)).1 _ proposed
    have adopts := (redeclarations_checked began ran issued (List.all_eq_true.mp also)).1 _ beside
    have plain : ¬ Specifiers.empty.isConflicting := by decide
    have refused := (refuses.incompatible plain .var).mpr
      ⟨by decide, _, ⟨0⟩, var, listed, by simp, first, name, type, category⟩
    -- the variable has the other type, and the primary template another name
    have alone : ∀ existing, program.Holds ⟨.global, ⟨1⟩, ⟨13⟩, .empty, .template⟩ existing →
        existing = .template := by
      rintro existing ⟨_, id, node, again, member, found, label, typed, -⟩
      cases listed.symm.trans again
      rcases List.mem_pair.mp member with rfl | rfl
      · cases first.symm.trans found
        cases type.symm.trans typed
      · cases second.symm.trans found
        cases other.symm.trans label
    obtain ⟨outcome, after, responded⟩ := adopts.returns ⟨nodes, regions, lists⟩
    obtain ⟨id, rfl, adopted⟩ := adopts.adopts plain alone responded
    cases planned.symm.trans adopted.next
    exact ⟨start, program, after, began, issued, ran, refused, responded, adopted⟩
  · cases rest

end Program

end CanonIR
