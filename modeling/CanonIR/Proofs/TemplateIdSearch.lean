import CanonIR.Proofs.DeclarationRoom
import CanonIR.Proofs.QualifierMerging
import CanonIR.Proofs.IssuedAnswers

/-! The search for a template-id against the request for one. The search looks up the list of
arguments and then the name that has it, and makes neither. It finds a name where the request
would make none, and it finds the name that the request gives; where it finds none the
request gives a name that was not there before. -/

namespace CanonIR

variable {program after : Program} {template name : NameId} {args : List Term}
  {requests : List Request} {replies : List (Except BuildError Answer)}

namespace NameTable

variable {names : NameTable}

theorem Applies.unique (canonical : names.Canonical) {other : NameId}
    (first : names.Applies template args name) (second : names.Applies template args other) :
    name = other := by
  obtain ⟨result, searched⟩ := canonical.exists_templateId? template args
  have found := (templateId?_eq_ok canonical searched name).mpr first
  rw [(templateId?_eq_ok canonical searched other).mpr second] at found
  cases found
  rfl

theorem Applies.inj {other : NameId} {others : List Term} (first : names.Applies template args name)
    (second : names.Applies other others name) : template = other ∧ args = others := by
  obtain ⟨list, ⟨node, found, kind⟩, read⟩ := first
  obtain ⟨_, ⟨_, again, same⟩, reread⟩ := second
  cases found.symm.trans again
  cases kind.symm.trans same
  cases read.symm.trans reread
  exact ⟨rfl, rfl⟩

theorem templateId?_eq_some (canonical : names.Canonical) :
    names.templateId? template args = .ok (some name) ↔ names.Applies template args name := by
  obtain ⟨result, searched⟩ := canonical.exists_templateId? template args
  rw [searched, Except.ok.injEq, templateId?_eq_ok canonical searched]

theorem templateId?_eq_none (canonical : names.Canonical) :
    names.templateId? template args = .ok none ↔ ∀ name, ¬ names.Applies template args name := by
  obtain ⟨result, searched⟩ := canonical.exists_templateId? template args
  simp only [← templateId?_eq_ok canonical searched, searched, Except.ok.injEq]
  exact Option.eq_none_iff_forall_ne_some

end NameTable

namespace Program

/-- The request for the template-id gives `name`. -/
def Gives (program : Program) (template : NameId) (args : List Term) (name : NameId)
    (after : Program) : Prop :=
  program.respond (.templateId template args) = .ok (.ok (.node (.name name)), after)

/-- It gives `name` and makes no node. -/
def Finds (program : Program) (template : NameId) (args : List Term) (name : NameId) : Prop :=
  ∃ after, program.Gives template args name after ∧
    ∀ group, after.nodeCount group = program.nodeCount group

/-- It gives `name` and makes a name and no other node. -/
def Makes (program : Program) (template : NameId) (args : List Term) (name : NameId) : Prop :=
  ∃ after, program.Gives template args name after ∧
    ∀ group, after.nodeCount group = program.nodeCount group + if group = .name then 1 else 0

theorem provides_gives (canonical : program.Canonical) (template : NameId) (args : List Term) :
    program.Provides (.templateId template args) (program.respond (.templateId template args)) :=
  provides_respond canonical rfl

theorem Gives.applies (canonical : program.Canonical) (gives : program.Gives template args name after) :
    after.names.Applies template args name := by
  obtain ⟨-, larger⟩ := (respond_reaches gives).keeps_canonical canonical
  have bears := (provides_gives canonical template args).bears larger gives
  obtain ⟨_, same, applies⟩ := bears_templateId.mp bears
  cases same
  exact applies

/-- A template-id that has a name is given it. -/
theorem finds_of_applies (canonical : program.Canonical)
    (applies : program.names.Applies template args name) : program.Finds template args name :=
  (provides_gives canonical template args).known (bears_templateId.mpr ⟨name, rfl, applies⟩)

/-- One that has none is given a name of its own. -/
theorem makes_of_gives (canonical : program.Canonical) (gives : program.Gives template args name after)
    (missing : ∀ other, ¬ program.names.Applies template args other) :
    program.Makes template args name := by
  have unborn : ∀ ref, ¬ program.Bears (.templateId template args) ref := by
    intro ref bears
    obtain ⟨other, -, applies⟩ := bears_templateId.mp bears
    exact missing other applies
  obtain ⟨_, same, -, counts⟩ := (provides_gives canonical template args).new unborn gives
  cases same
  exact ⟨after, gives, counts⟩

/-- The number of names tells the two cases apart. -/
theorem Makes.not_finds {other : NameId} (makes : program.Makes template args name) :
    ¬ program.Finds template args other := by
  intro ⟨_, found, same⟩
  obtain ⟨after, gives, counts⟩ := makes
  cases found.symm.trans gives
  have more := counts .name
  rw [same] at more
  simp at more

theorem finds_iff_applies (canonical : program.Canonical) :
    program.Finds template args name ↔ program.names.Applies template args name := by
  refine ⟨fun finds => ?_, finds_of_applies canonical⟩
  have ⟨after, gives, _⟩ := finds
  by_cases known : ∃ other, program.names.Applies template args other
  · obtain ⟨other, applies⟩ := known
    obtain ⟨_, given, -⟩ := finds_of_applies canonical applies
    cases given.symm.trans gives
    exact applies
  · exact absurd finds (makes_of_gives canonical gives (not_exists.mp known)).not_finds

/-- A name is made only for a template-id that has none, and it was not there before. -/
theorem Makes.new (canonical : program.Canonical) (makes : program.Makes template args name) :
    (∀ other, ¬ program.names.Applies template args other) ∧ ¬ program.issued (.name name) := by
  have missing : ∀ other, ¬ program.names.Applies template args other :=
    fun other applies => makes.not_finds (finds_of_applies canonical applies)
  refine ⟨missing, fun issued => ?_⟩
  obtain ⟨node, found⟩ := issued_name.mp issued
  obtain ⟨after, gives, -⟩ := makes
  obtain ⟨-, larger⟩ := (respond_reaches gives).keeps_canonical canonical
  exact missing name (NameTable.applies_former canonical.names larger.names
    (Slab.get_eq_ok.mp found) (gives.applies canonical))

/-- Somewhere in the run the template-id was asked for, which gave `name`. -/
def WasApplied (requests : List Request) (replies : List (Except BuildError Answer))
    (template : NameId) (args : List Term) (name : NameId) : Prop :=
  (.templateId template args, .ok (.node (.name name))) ∈ requests.zip replies

/-- What was given once, has its template and arguments for ever. -/
theorem WasApplied.applies (canonical : program.Canonical)
    (ran : program.transcript requests = .ok (replies, after))
    (given : WasApplied requests replies template args name) :
    after.names.Applies template args name := by
  obtain ⟨before, middle, earlier, responded, larger⟩ := respond_of_transcript canonical ran given
  obtain ⟨list, ⟨node, found, kind⟩, read⟩ := Gives.applies earlier responded
  exact ⟨list, ⟨node, larger.names.nodes found, kind⟩, larger.names.lists read⟩

/-- Whatever was handed out is issued. -/
theorem issued_of_reply (identifies : program.Identifies)
    (ran : program.transcript requests = .ok (replies, after)) {answer : Answer}
    (replied : .ok answer ∈ replies) : after.issued answer := by
  obtain ⟨index, inside, same⟩ := List.mem_iff_getElem.mp replied
  have counted := length_runAll ran
  have member : (requests[index], .ok answer) ∈ requests.zip replies := by
    rw [List.mem_iff_getElem]
    exact ⟨index, by simpa [← counted] using inside, by simp [same]⟩
  obtain ⟨early, later, said, heard, before, middle, began, responded, ended⟩ := runAll_split ran member
  have earlier := (run_reaches (run_of_transcript began)).keeps_identifies identifies
  exact earlier.answers_stay_issued responded (run_of_transcript ended)

/-- The search for a template-id agrees with the request for one. -/
structure SearchAgrees (program : Program) (requests : List Request)
    (replies : List (Except BuildError Answer)) : Prop where
  searched : ∀ template args, ∃ result, program.names.templateId? template args = .ok result
  /-- Only a program that has no number left for a node, or no handle for a list, cannot give
  a name. -/
  granted : program.census.next + 1 < positionLimit → program.names.terms.size < positionLimit →
    ∀ template args, ∃ name after, program.Gives template args name after
  found : ∀ template args name, program.names.templateId? template args = .ok (some name) ↔
    program.Finds template args name
  missing : ∀ {template args name after}, program.Gives template args name after →
    (program.names.templateId? template args = .ok none ↔ program.Makes template args name)
  /-- A name that is made differs from all that are there and from all that were given. -/
  new : ∀ {template args name}, program.Makes template args name → ∀ other,
    program.issued (.name other) ∨ .ok (.node (.name other)) ∈ replies → name ≠ other
  remembered : ∀ {template args name}, WasApplied requests replies template args name →
    program.names.templateId? template args = .ok (some name)
  same_iff : ∀ {template args first other others second},
    WasApplied requests replies template args first →
    WasApplied requests replies other others second →
    (first = second ↔ template = other ∧ args = others)

/-- In every program that requests lead to, the search and the request agree. -/
theorem templateId_search_agrees {hash : Bytes → UInt64} {sizing : Sizing} {start : Program}
    (built : sizing.Built) (began : initial hash sizing = .ok start)
    (ran : start.transcript requests = .ok (replies, program)) :
    program.SearchAgrees requests replies := by
  have identifies := identifies_initial built began
  have reaches := run_reaches (run_of_transcript ran)
  obtain ⟨canonical, -⟩ := reaches.keeps_canonical identifies.canonical
  have tallied := reaches.keeps_tallied (tallied_initial began)
  have applies : ∀ {template args name}, WasApplied requests replies template args name →
      program.names.Applies template args name :=
    fun given => given.applies identifies.canonical ran
  exact {
    searched := canonical.names.exists_templateId?
    granted := by
      intro numbers lists template args
      obtain ⟨name, after, made⟩ := exists_templateId canonical tallied numbers lists template args
      exact ⟨name, after, Build.run_edit_bind.mpr ⟨name, after, made, rfl⟩⟩
    found := by
      intro template args name
      rw [NameTable.templateId?_eq_some canonical.names, finds_iff_applies canonical]
    missing := by
      intro template args name after gives
      rw [NameTable.templateId?_eq_none canonical.names]
      exact ⟨makes_of_gives canonical gives, fun makes => (makes.new canonical).1⟩
    new := by
      intro template args name makes other before same
      subst same
      apply (makes.new canonical).2
      rcases before with issued | replied
      · exact issued
      · exact issued_of_reply identifies ran replied
    remembered := by
      intro template args name given
      exact (NameTable.templateId?_eq_some canonical.names).mpr (applies given)
    same_iff := by
      intro template args first other others second one two
      constructor
      · intro same
        subst same
        exact (applies one).inj (applies two)
      · intro ⟨sameTemplate, sameArgs⟩
        subst sameTemplate sameArgs
        exact (applies one).unique canonical.names (applies two) }

/-- The arguments of `f<int>` are kept, which does not make a `g<int>`. -/
theorem templateId_search_agrees_kept_args : ∃ start program replies,
    let requests : List Request := [.intern (.ofString "f"), .intern (.ofString "g"),
      .identifier (.entry 0), .identifier (.entry 1), .templateId ⟨0⟩ [.type ⟨11⟩]]
    initial (fun _ => 0) {} = .ok start ∧ start.transcript requests = .ok (replies, program) ∧
    program.Finds ⟨0⟩ [.type ⟨11⟩] ⟨2⟩ ∧ (∃ name, program.Makes ⟨1⟩ [.type ⟨11⟩] name) ∧
    program.SearchAgrees requests replies := by
  have performed : (do
      let start ← initial (fun _ => 0) {}
      let (_, program) ← start.transcript [.intern (.ofString "f"), .intern (.ofString "g"),
        .identifier (.entry 0), .identifier (.entry 1), .templateId ⟨0⟩ [.type ⟨11⟩]]
      let known ← program.names.templateId? ⟨0⟩ [.type ⟨11⟩]
      let unknown ← program.names.templateId? ⟨1⟩ [.type ⟨11⟩]
      if known = some ⟨2⟩ ∧ unknown = none ∧ program.census.next + 1 < positionLimit ∧
          program.names.terms.size < positionLimit then
        return ()
      else .error .outOfRange : Checked Unit).isOk := by decide +kernel
  obtain ⟨_, performed⟩ := Checked.exists_of_isOk performed
  obtain ⟨start, began, rest⟩ := Checked.bind_eq_ok.mp performed
  obtain ⟨⟨replies, program⟩, ran, rest⟩ := Checked.bind_eq_ok.mp rest
  obtain ⟨known, sought, rest⟩ := Checked.bind_eq_ok.mp rest
  obtain ⟨unknown, missed, rest⟩ := Checked.bind_eq_ok.mp rest
  split at rest
  next held =>
    obtain ⟨rfl, rfl, numbers, lists⟩ := held
    have agrees := templateId_search_agrees .default began ran
    obtain ⟨name, after, gives⟩ := agrees.granted numbers lists ⟨1⟩ [.type ⟨11⟩]
    exact ⟨start, program, replies, began, ran, (agrees.found _ _ _).mp sought,
      ⟨name, (agrees.missing gives).mp missed⟩, agrees⟩
  · cases rest

end Program

end CanonIR
