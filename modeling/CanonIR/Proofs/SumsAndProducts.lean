import CanonIR.Proofs.QualifierMerging

/-! Sums are sets of types, and products are lists of them. Both are types over a list that
is kept once for all, so that the list and the kind decide which type is given, in whatever
order and with whatever requests in between. Every list that is kept besides the empty one
came with a type, and so there is room for a list wherever there is room for a type. -/

namespace CanonIR

namespace TypeTable

variable {types after : TypeTable} {kind : TypeKind} {id other : TypeId} {census counted : Census}
  {wrap : TypeListId → TypeKind} {members others : List TypeId} {list : TypeListId}

/-! ### One type for one list -/

/-- What a type is made of can be told from it. -/
theorem Combines.kinds {again : TypeListId → TypeKind} (one : types.Combines wrap members id)
    (two : types.Combines again others id) : ∃ first second, wrap first = again second ∧
      types.list first = .ok members ∧ types.list second = .ok others := by
  obtain ⟨first, ⟨node, found, labelled⟩, read⟩ := one
  obtain ⟨second, ⟨same, present, shown⟩, listed⟩ := two
  cases found.symm.trans present
  exact ⟨first, second, Option.some.inj (labelled.symm.trans shown), read, listed⟩

theorem Combines.eq_iff (canonical : types.Canonical) (structural : ∀ list, (wrap list).IsStructural)
    (wraps : ∀ list, (wrap list).list? = some list) (one : types.Combines wrap members id)
    (two : types.Combines wrap others other) : id = other ↔ members = others := by
  constructor
  · intro same
    subst same
    obtain ⟨first, second, kinds, read, listed⟩ := one.kinds two
    have lists : some first = some second := by rw [← wraps first, kinds, wraps]
    cases lists
    exact Except.ok.inj (read.symm.trans listed)
  · intro same
    subst same
    obtain ⟨first, kept, given⟩ := combined_known canonical structural one {}
    obtain ⟨second, again, taken⟩ := combined_known canonical structural two {}
    cases kept.symm.trans again
    cases given.symm.trans taken
    rfl

/-! ### Room for a list -/

/-- There are no more lists than types, apart from the empty one. -/
def FewLists (types : TypeTable) : Prop := types.lists.size ≤ types.nodes.size + 1

theorem FewLists.grow (few : types.FewLists) (lists : after.lists = types.lists)
    (nodes : types.nodes.size ≤ after.nodes.size) : after.FewLists := by
  rw [FewLists, lists]
  exact Nat.le_trans few (Nat.succ_le_succ nodes)

theorem canonical_lists (structural : kind.IsStructural)
    (given : types.canonical kind census = .ok (id, after, counted)) : after.lists = types.lists := by
  rw [canonical_eq structural.2] at given
  obtain ⟨_, -, equal⟩ := Checked.bind_eq_ok.mp given
  cases equal
  rfl

theorem FewLists.canonical (few : types.FewLists) (structural : kind.IsStructural)
    (given : types.canonical kind census = .ok (id, after, counted)) : after.FewLists := by
  refine few.grow (canonical_lists structural given) ?_
  rcases canonical_cases structural.2 given with ⟨rfl, -⟩ | ⟨_, ⟨_, _, -, pushed⟩, -⟩
  · exact Nat.le_refl _
  · rw [Slab.size_push pushed]
    exact Nat.le_succ _

/-- A list that is new comes with a type that is new. -/
theorem FewLists.combined (few : types.FewLists) (canonical : types.Canonical)
    (structural : ∀ list, (wrap list).IsStructural) (wraps : ∀ list, (wrap list).list? = some list)
    {listed : TypeTable} (kept : types.keepList members = .ok (list, listed))
    (given : listed.canonical (wrap list) census = .ok (id, after, counted)) : after.FewLists := by
  obtain ⟨-, -, -, ⟨known, -⟩ | ⟨-, larger⟩⟩ := combined_eq_ok canonical structural wraps kept given
  · obtain ⟨_, again, -⟩ := combined_known canonical structural known census
    cases kept.symm.trans again
    exact few.canonical (structural list) given
  · obtain ⟨⟨_, lists⟩, interned, equal⟩ := Checked.bind_eq_ok.mp kept
    cases equal
    have more : lists.size ≤ types.lists.size + 1 := canonical.sound.size_intern_le interned
    rw [FewLists, canonical_lists (structural _) given, larger]
    exact Nat.le_trans more (Nat.succ_le_succ few)

theorem exists_combined (canonical : types.Canonical) (few : types.FewLists)
    (room : census.next + 1 < positionLimit)
    (fits : Table.firstFree .type + types.nodes.size < positionLimit)
    (structural : ∀ list, (wrap list).IsStructural) (members : List TypeId) :
    ∃ list listed id after counted, types.keepList members = .ok (list, listed) ∧
      listed.canonical (wrap list) census = .ok (id, after, counted) := by
  have free : types.lists.size < positionLimit := by
    simp only [FewLists, Table.firstFree] at few fits
    omega
  obtain ⟨⟨slot, _⟩, larger, interned⟩ := canonical.sound.exists_intern free members
  have kept : types.keepList members = .ok (⟨slot.raw⟩, { types with lists := larger }) :=
    Checked.bind_eq_ok.mpr ⟨_, interned, rfl⟩
  obtain ⟨middle, -⟩ := keepList_eq_ok canonical kept
  obtain ⟨id, after, counted, given⟩ := exists_canonical middle room fits (structural ⟨slot.raw⟩)
  exact ⟨_, _, id, after, counted, kept, given⟩

end TypeTable

namespace Program

variable {known : Answer → Prop} {program after : Program} {id : TypeId} {types xs ys : List TypeId}

theorem Change.keeps_fewLists (change : program.Change known after) (canonical : program.Canonical)
    (few : program.types.FewLists) : after.types.FewLists := by
  cases change with
  | simpleType simple _ given => exact few.canonical (TypeKind.structural_of_isSimple simple) given
  | qualifiedType _ _ given => exact few.canonical (TypeKind.structural_qualifiedWith ..) given
  | product _ kept given =>
    exact few.combined canonical.types TypeKind.structural_product (fun _ => rfl) kept given
  | sum _ kept given =>
    exact few.combined canonical.types TypeKind.structural_sum (fun _ => rfl) kept given
  | userType _ given =>
    obtain ⟨⟨_, nodes, _⟩, made, equal⟩ := Checked.bind_eq_ok.mp given
    cases equal
    obtain ⟨number, pushed⟩ := TypeTable.push_eq_ok made
    refine few.grow rfl ?_
    rw [Slab.size_push pushed]
    exact Nat.le_succ _
  | underlyingType _ changed => exact few.grow rfl (Nat.le_of_eq (Slab.size_modify changed).symm)
  | _ => exact few

theorem Reaches.keeps_fewLists (reaches : program.Reaches known after) (canonical : program.Canonical)
    (few : program.types.FewLists) : after.types.FewLists := by
  induction reaches with
  | refl => exact few
  | tail earlier change ih =>
    obtain ⟨between, -⟩ := Reaches.keeps_canonical earlier canonical
    exact change.keeps_fewLists between ih

theorem fewLists_initial {hash : Bytes → UInt64} {sizing : Sizing}
    (began : initial hash sizing = .ok program) : program.types.FewLists := by
  obtain ⟨exprs, before, seeded, reaches, equal⟩ := initial_reaches (fun _ => True) began
  have few : before.types.FewLists := reaches.keeps_fewLists
    ⟨NameTable.canonical_empty, TypeTable.canonical_empty, ExprTable.canonical_initial seeded⟩
    (Nat.le_refl 1)
  rw [equal]
  exact few

/-- With a number left for a node, a type can be made of any types. -/
theorem exists_answerCombined (canonical : program.Canonical) (tallied : program.Tallied)
    (few : program.types.FewLists) (room : program.census.next + 1 < positionLimit)
    {wrap : TypeListId → TypeKind} (structural : ∀ list, (wrap list).IsStructural)
    (members : List TypeId) : ∃ id after,
      (answerType (liftM (do typeOf (wrap (← keepTypes members)) : Edit TypeId))).run.run program =
        .ok (.ok (.node (.type id)), after) := by
  obtain ⟨list, listed, id, types, census, kept, given⟩ := TypeTable.exists_combined canonical.types few
    room (tallied.fits room .type (by decide)) structural members
  have combined := combined_eq_ok.mpr ⟨list, listed, types, census, kept, given, rfl⟩
  exact ⟨id, _, Build.run_edit_bind.mpr ⟨id, _, combined, rfl⟩⟩

/-! ### Runs -/

variable {requests : List Request} {replies : List (Except BuildError Answer)}

/-- Somewhere in the run the request was answered with the type `id`. -/
def Gave (requests : List Request) (replies : List (Except BuildError Answer)) (request : Request)
    (id : TypeId) : Prop :=
  (request, .ok (.node (.type id))) ∈ requests.zip replies

section Combinations

variable {request : Request} {key : Key} {wrap : TypeListId → TypeKind} {members : List TypeId}
  {reply : Except BuildError Answer}

/-- A request for a combination is answered with it, and it stays one for ever. -/
theorem combines_of_transcript (canonical : program.Canonical)
    (ran : program.transcript requests = .ok (replies, after))
    (asked : ∀ program : Program, program.key? request = some key)
    (bears : ∀ {ref}, after.Bears key ref ↔ ∃ id, ref = .type id ∧ after.types.Combines wrap members id)
    (replied : (request, reply) ∈ requests.zip replies) :
    ∃ id, reply = .ok (.node (.type id)) ∧ after.types.Combines wrap members id := by
  obtain ⟨before, middle, earlier, responded, later⟩ := respond_of_transcript canonical ran replied
  obtain ⟨-, larger⟩ := (respond_reaches responded).keeps_canonical earlier
  obtain ⟨ref, given, held⟩ := (provides_respond earlier (asked before)).answers larger responded
  obtain ⟨id, rfl, combines⟩ := bears.mp (held.kept later)
  exact ⟨id, given, combines⟩

theorem Gave.combines (canonical : program.Canonical)
    (ran : program.transcript requests = .ok (replies, after))
    (asked : ∀ program : Program, program.key? request = some key)
    (bears : ∀ {ref}, after.Bears key ref ↔ ∃ id, ref = .type id ∧ after.types.Combines wrap members id)
    (gave : Gave requests replies request id) : after.types.Combines wrap members id := by
  obtain ⟨_, given, combines⟩ := combines_of_transcript canonical ran asked bears gave
  cases given
  exact combines

end Combinations

theorem ascending_eq_iff : ascending xs = ascending ys ↔ ∀ type, type ∈ xs ↔ type ∈ ys := by
  constructor
  · intro same type
    rw [← mem_ascending, same, mem_ascending]
  · intro same
    refine (ascends_ascending xs).unique (ascends_ascending ys) ?_
    ext type
    rw [List.mem_toFinset, List.mem_toFinset, mem_ascending, mem_ascending, same]

/-- The type `id` is a combination of `types`, as the program can read it. -/
def Lists (program : Program) (wrap : TypeListId → TypeKind) (id : TypeId) (types : List TypeId) : Prop :=
  ∃ node list, program.typeNode id = .ok node ∧ node.kind = wrap list ∧
    program.typeList list = .ok types

theorem lists_of_combines {wrap : TypeListId → TypeKind}
    (combines : program.types.Combines wrap types id) : program.Lists wrap id types := by
  obtain ⟨list, shows, read⟩ := combines
  obtain ⟨node, found, kind⟩ := typeNode_of_shows shows
  exact ⟨node, list, found, kind, read⟩

/-- Sums are sets and products are lists. -/
structure SumsAndProducts (program : Program) (requests : List Request)
    (replies : List (Except BuildError Answer)) : Prop where
  /-- Only a program that has no number left for a node cannot make them. -/
  granted : program.census.next + 1 < positionLimit → ∀ types,
    (∃ id after, program.respond (.sum types) = .ok (.ok (.node (.type id)), after)) ∧
      ∃ id after, program.respond (.product types) = .ok (.ok (.node (.type id)), after)
  answered : ∀ {request types reply}, request = .sum types ∨ request = .product types →
    (request, reply) ∈ requests.zip replies → ∃ id, reply = .ok (.node (.type id))
  sums : ∀ {xs ys first second}, Gave requests replies (.sum xs) first →
    Gave requests replies (.sum ys) second → (first = second ↔ ∀ type, type ∈ xs ↔ type ∈ ys)
  products : ∀ {xs ys first second}, Gave requests replies (.product xs) first →
    Gave requests replies (.product ys) second → (first = second ↔ xs = ys)
  apart : ∀ {xs ys first second}, Gave requests replies (.sum xs) first →
    Gave requests replies (.product ys) second → first ≠ second
  elements : ∀ {xs id}, Gave requests replies (.sum xs) id →
    ∃ types, program.Lists .sum id types ∧ Ascends types ∧ ∀ type, type ∈ types ↔ type ∈ xs
  factors : ∀ {xs id}, Gave requests replies (.product xs) id → program.Lists .product id xs

/-- In every run, whatever else it asks for, sums are sets and products are lists. -/
theorem sums_and_products {hash : Bytes → UInt64} {sizing : Sizing} {start : Program}
    (began : initial hash sizing = .ok start)
    (ran : start.transcript requests = .ok (replies, program)) :
    program.SumsAndProducts requests replies := by
  have initially := canonical_initial began
  have reaches := run_reaches (run_of_transcript ran)
  obtain ⟨canonical, -⟩ := reaches.keeps_canonical initially
  have tallied := reaches.keeps_tallied (tallied_initial began)
  have few := reaches.keeps_fewLists initially (fewLists_initial began)
  have sum : ∀ {types id}, Gave requests replies (.sum types) id →
      program.types.Combines .sum (ascending types) id :=
    fun gave => gave.combines initially ran (fun _ => rfl) bears_sum
  have product : ∀ {types id}, Gave requests replies (.product types) id →
      program.types.Combines .product types id :=
    fun gave => gave.combines initially ran (fun _ => rfl) bears_product
  refine ⟨fun room types => ⟨?_, ?_⟩, fun kind replied => ?_, fun one two => ?_, fun one two => ?_,
    fun one two same => ?_, fun gave => ?_, fun gave => ?_⟩
  · exact exists_answerCombined canonical tallied few room TypeKind.structural_sum _
  · exact exists_answerCombined canonical tallied few room TypeKind.structural_product _
  · rcases kind with rfl | rfl
    · obtain ⟨id, given, -⟩ :=
        combines_of_transcript initially ran (fun _ => rfl) bears_sum replied
      exact ⟨id, given⟩
    · obtain ⟨id, given, -⟩ :=
        combines_of_transcript initially ran (fun _ => rfl) bears_product replied
      exact ⟨id, given⟩
  · rw [← ascending_eq_iff]
    exact (sum one).eq_iff canonical.types TypeKind.structural_sum (fun _ => rfl) (sum two)
  · exact (product one).eq_iff canonical.types TypeKind.structural_product (fun _ => rfl) (product two)
  · subst same
    obtain ⟨_, _, kinds, -⟩ := (sum one).kinds (product two)
    cases kinds
  · exact ⟨_, lists_of_combines (sum gave), ascends_ascending _, fun _ => mem_ascending⟩
  · exact lists_of_combines (product gave)

/-- Two sums of the same types and the product of their common list, with a pointer made in
between, and the empty sum and product. -/
theorem sums_and_products_shared_list :
    ∃ (start program : Program) (replies : List (Except BuildError Answer)),
      let requests : List Request := [.sum [⟨11⟩, ⟨1⟩, ⟨11⟩], .pointer ⟨33⟩, .product [⟨1⟩, ⟨11⟩],
        .sum [⟨1⟩, ⟨11⟩], .product [], .sum []]
      initial (fun _ => 0) {} = .ok start ∧
      start.transcript requests = .ok (replies, program) ∧
      Gave requests replies (.sum [⟨11⟩, ⟨1⟩, ⟨11⟩]) ⟨33⟩ ∧
      Gave requests replies (.product [⟨1⟩, ⟨11⟩]) ⟨35⟩ ∧
      Gave requests replies (.sum [⟨1⟩, ⟨11⟩]) ⟨33⟩ ∧
      Gave requests replies (.product []) ⟨36⟩ ∧ Gave requests replies (.sum []) ⟨37⟩ ∧
      program.census.next + 1 < positionLimit ∧ program.SumsAndProducts requests replies := by
  have performed : (do
      let start ← initial (fun _ => 0) {}
      match ← start.transcript [.sum [⟨11⟩, ⟨1⟩, ⟨11⟩], .pointer ⟨33⟩, .product [⟨1⟩, ⟨11⟩],
        .sum [⟨1⟩, ⟨11⟩], .product [], .sum []] with
      | (.ok (.node first) :: _ :: .ok (.node second) :: .ok (.node third) :: .ok (.node fourth) ::
          .ok (.node last) :: _, program) =>
        if first = .type ⟨33⟩ ∧ second = .type ⟨35⟩ ∧ third = .type ⟨33⟩ ∧ fourth = .type ⟨36⟩ ∧
            last = .type ⟨37⟩ ∧ program.census.next + 1 < positionLimit then
          return program
        else .error .outOfRange
      | _ => .error .outOfRange : Checked Program).isOk := by decide +kernel
  obtain ⟨_, performed⟩ := Checked.exists_of_isOk performed
  obtain ⟨start, began, rest⟩ := Checked.bind_eq_ok.mp performed
  obtain ⟨⟨replies, program⟩, ran, rest⟩ := Checked.bind_eq_ok.mp rest
  split at rest
  next equal =>
    cases equal
    split at rest
    next answers =>
      obtain ⟨rfl, rfl, rfl, rfl, rfl, room⟩ := answers
      refine ⟨start, program, _, began, ran, ?_, ?_, ?_, ?_, ?_, room, sums_and_products began ran⟩
      all_goals simp [Gave]
    · cases rest
  · cases rest

end Program

end CanonIR
