import CanonIR.Proofs.CanonicalRuns
import Mathlib.Data.Finset.Dedup

/-! Canonical nodes. A request for a name, a structural type or a literal asks for a
structural key. It gives the node that has the key, and makes one only where there is none. -/

namespace CanonIR

theorem Slab.firstFree_le_of_get? {α : Type} {table : Table} {slab : Slab table α}
    {handle : Handle table} {item : α} (found : slab.get? handle = some item) :
    table.firstFree ≤ handle.raw := by
  obtain ⟨index, rfl, -⟩ := Slab.get?_eq_some.mp found
  exact Nat.le_add_right _ _

theorem TypeTable.get_eq_ok {types : TypeTable} {id : TypeId} {node : TypeNode} :
    types.get id = .ok node ↔
      (∃ fundamental, Fundamental.all[id.raw]? = some fundamental ∧
        node = ⟨⟨id.raw⟩, .builtin fundamental⟩) ∨ types.nodes.get? id = some node := by
  constructor
  · intro read
    unfold TypeTable.get at read
    split at read
    next fundamental shared =>
      cases read
      exact .inl ⟨fundamental, shared, rfl⟩
    next =>
      split at read
      · cases read
      · exact .inr (Slab.get_eq_ok.mp read)
  · rintro (⟨fundamental, shared, rfl⟩ | found)
    · simp [TypeTable.get, shared]
    · have free := Slab.firstFree_le_of_get? found
      have unshared : Fundamental.all[id.raw]? = none :=
        List.getElem?_eq_none (Nat.le_trans (by decide) free)
      simp only [TypeTable.get, unshared, if_neg (Nat.not_lt_of_le free)]
      exact Slab.get_eq_ok.mpr found

theorem ExprTable.get_eq_ok {exprs : ExprTable} {id : ExprId} {node : ExprNode} :
    exprs.get id = .ok node ↔
      sharedExprs[id.raw]? = some node ∨ exprs.nodes.get? id = some node := by
  constructor
  · intro read
    unfold ExprTable.get at read
    split at read
    next shared =>
      cases read
      exact .inl shared
    next =>
      split at read
      · cases read
      · exact .inr (Slab.get_eq_ok.mp read)
  · rintro (shared | found)
    · simp [ExprTable.get, shared]
    · have free := Slab.firstFree_le_of_get? found
      have unshared : sharedExprs[id.raw]? = none :=
        List.getElem?_eq_none (Nat.le_trans (by decide) free)
      simp only [ExprTable.get, unshared, if_neg (Nat.not_lt_of_le free)]
      exact Slab.get_eq_ok.mpr found

/-- What a request for a canonical node asks for. A sum is a set of types. -/
inductive Key where
  | name (kind : NameKind)
  | templateId (template : NameId) (args : List Term)
  | type (kind : TypeKind)
  | product (types : List TypeId)
  | sum (types : Finset TypeId)
  | literal (type : TypeId) (text : Symbol)

namespace Program

variable {program after : Program} {key : Key} {ref : NodeRef}

/-- Strictly ascending, so that no type comes twice. -/
def Ascends (types : List TypeId) : Prop :=
  types.Pairwise fun first second => first.raw < second.raw

/-- The node that `ref` refers to has the key. The elements of a sum are listed once, in
ascending order. A word that stands for a shared constant has the constant for a node. -/
inductive Bears (program : Program) : Key → NodeRef → Prop where
  | name {id : NameId} {node : NameNode} (found : program.nameNode id = .ok node) :
      Bears program (.name node.kind) (.name id)
  | templateId {id template : NameId} {node : NameNode} {list : TermListId} {args : List Term}
      (found : program.nameNode id = .ok node) (kind : node.kind = .templateId template list)
      (listed : program.termList list = .ok args) :
      Bears program (.templateId template args) (.name id)
  | type {id : TypeId} {node : TypeNode} (found : program.typeNode id = .ok node)
      (canonical : node.category.isCanonical) : Bears program (.type node.kind) (.type id)
  | product {id : TypeId} {node : TypeNode} {list : TypeListId} {types : List TypeId}
      (found : program.typeNode id = .ok node) (kind : node.kind = .product list)
      (listed : program.typeList list = .ok types) : Bears program (.product types) (.type id)
  | sum {id : TypeId} {node : TypeNode} {list : TypeListId} {types : List TypeId}
      (found : program.typeNode id = .ok node) (kind : node.kind = .sum list)
      (listed : program.typeList list = .ok types) (ascends : Ascends types) :
      Bears program (.sum types.toFinset) (.type id)
  | literal {id : ExprId} {node : ExprNode} {type : TypeId} {text : Symbol}
      (found : program.exprNode id = .ok node) (typed : node.type = some type)
      (spelled : node.kind = .literal type text ∨ LiteralKey.Denotes ⟨type, text⟩ id) :
      Bears program (.literal type text) (.expr id)

/-! ### Keys in the tables -/

theorem bears_name {kind : NameKind} : program.Bears (.name kind) ref ↔
    ∃ id, ref = .name id ∧ program.names.nodes.Shows NameNode.key? kind id := by
  constructor
  · intro bears
    cases bears with
    | name found => exact ⟨_, rfl, _, Slab.get_eq_ok.mp found, rfl⟩
  · intro ⟨id, same, node, found, labelled⟩
    subst same
    cases Option.some.inj labelled
    exact .name (Slab.get_eq_ok.mpr found)

theorem bears_templateId {template : NameId} {args : List Term} :
    program.Bears (.templateId template args) ref ↔
      ∃ id, ref = .name id ∧ program.names.Applies template args id := by
  constructor
  · intro bears
    cases bears with
    | templateId found kind listed =>
      exact ⟨_, rfl, _, ⟨_, Slab.get_eq_ok.mp found, congrArg some kind⟩, listed⟩
  · intro ⟨id, same, list, ⟨node, found, labelled⟩, listed⟩
    subst same
    exact .templateId (Slab.get_eq_ok.mpr found) (Option.some.inj labelled) listed

/-- A structural type is not a fundamental one, so it is in the table. -/
theorem get?_of_typeNode {id : TypeId} {node : TypeNode} (structural : node.kind.IsStructural)
    (found : program.typeNode id = .ok node) : program.types.nodes.get? id = some node := by
  rcases TypeTable.get_eq_ok.mp found with ⟨_, -, rfl⟩ | present
  · exact absurd rfl structural.2
  · exact present

theorem shows_of_typeNode {kind : TypeKind} (structural : kind.IsStructural) {id : TypeId}
    {node : TypeNode} (found : program.typeNode id = .ok node) (same : node.kind = kind) :
    program.types.nodes.Shows TypeNode.key? kind id := by
  subst same
  exact ⟨node, get?_of_typeNode structural found, TypeNode.key?_eq_some.mpr ⟨rfl, structural.1⟩⟩

theorem typeNode_of_shows {kind : TypeKind} {id : TypeId}
    (shows : program.types.nodes.Shows TypeNode.key? kind id) :
    ∃ node, program.typeNode id = .ok node ∧ node.kind = kind := by
  obtain ⟨node, present, labelled⟩ := shows
  exact ⟨node, TypeTable.get_eq_ok.mpr (.inr present), (TypeNode.key?_eq_some.mp labelled).1⟩

theorem bears_type {kind : TypeKind} (structural : kind.IsStructural) :
    program.Bears (.type kind) ref ↔
      ∃ id, ref = .type id ∧ program.types.nodes.Shows TypeNode.key? kind id := by
  constructor
  · intro bears
    cases bears with
    | type found canonical => exact ⟨_, rfl, shows_of_typeNode structural found rfl⟩
  · intro ⟨id, same, shows⟩
    subst same
    obtain ⟨node, found, rfl⟩ := typeNode_of_shows shows
    exact .type found structural.1

theorem bears_product {types : List TypeId} : program.Bears (.product types) ref ↔
    ∃ id, ref = .type id ∧ program.types.Combines .product types id := by
  constructor
  · intro bears
    cases bears with
    | product found kind listed =>
      exact ⟨_, rfl, _, shows_of_typeNode (TypeKind.structural_product _) found kind, listed⟩
  · intro ⟨id, same, list, shows, listed⟩
    subst same
    obtain ⟨node, found, kind⟩ := typeNode_of_shows shows
    exact .product found kind listed

/-! ### What a program can read, it can read for ever -/

theorem Extends.typeNode (larger : program.Extends after) {id : TypeId} {node : TypeNode}
    (found : program.typeNode id = .ok node) :
    ∃ now, after.typeNode id = .ok now ∧ (now = node ∨ node.key? = none ∧ now.key? = none) := by
  rcases TypeTable.get_eq_ok.mp found with shared | present
  · exact ⟨node, TypeTable.get_eq_ok.mpr (.inl shared), .inl rfl⟩
  · obtain ⟨now, present, same⟩ := larger.types.nodes present
    exact ⟨now, TypeTable.get_eq_ok.mpr (.inr present), same⟩

theorem Extends.canonicalType (larger : program.Extends after) {id : TypeId} {node : TypeNode}
    (found : program.typeNode id = .ok node) (canonical : node.category.isCanonical) :
    after.typeNode id = .ok node := by
  obtain ⟨now, present, rfl | ⟨user, -⟩⟩ := larger.typeNode found
  · exact present
  · rw [TypeNode.key?, if_pos canonical] at user
    cases user

theorem Extends.exprNode (larger : program.Extends after) {id : ExprId} {node : ExprNode}
    (found : program.exprNode id = .ok node) :
    ∃ now, after.exprNode id = .ok now ∧ now.kind = node.kind ∧
      (node.type.isSome → now.type = node.type) := by
  rcases ExprTable.get_eq_ok.mp found with shared | present
  · exact ⟨node, ExprTable.get_eq_ok.mpr (.inl shared), rfl, fun _ => rfl⟩
  · obtain ⟨now, present, kind, type⟩ := larger.exprs.nodes present
    exact ⟨now, ExprTable.get_eq_ok.mpr (.inr present), kind, type⟩

theorem Bears.kept (larger : program.Extends after) (bears : program.Bears key ref) :
    after.Bears key ref := by
  cases bears with
  | name found => exact .name (Slab.get_eq_ok.mpr (larger.names.nodes (Slab.get_eq_ok.mp found)))
  | templateId found kind listed =>
    have present := Slab.get_eq_ok.mpr (larger.names.nodes (Slab.get_eq_ok.mp found))
    exact .templateId present kind (larger.names.lists listed)
  | type found canonical => exact .type (larger.canonicalType found canonical) canonical
  | product found kind listed =>
    have present := larger.canonicalType found (by rw [TypeNode.category, kind]; rfl)
    exact .product present kind (larger.types.lists listed)
  | sum found kind listed ascends =>
    have present := larger.canonicalType found (by rw [TypeNode.category, kind]; rfl)
    exact .sum present kind (larger.types.lists listed) ascends
  | literal found typed spelled =>
    obtain ⟨now, present, kind, type⟩ := larger.exprNode found
    refine .literal present ?_ (kind ▸ spelled)
    rw [type (by simp [typed]), typed]

/-! ### The order of a sum -/

theorem mem_insertAscending {type member : TypeId} {types : List TypeId} :
    member ∈ insertAscending type types ↔ member = type ∨ member ∈ types := by
  induction types with
  | nil => simp [insertAscending]
  | cons head rest ih =>
    simp only [insertAscending]
    split
    · simp
    · split
      next same => simp [same]
      · simp only [List.mem_cons, ih]
        exact or_left_comm

theorem ascends_insertAscending {type : TypeId} {types : List TypeId} (ascends : Ascends types) :
    Ascends (insertAscending type types) := by
  induction types with
  | nil => simp [insertAscending, Ascends]
  | cons head rest ih =>
    obtain ⟨least, ordered⟩ := List.pairwise_cons.mp ascends
    simp only [insertAscending]
    split
    next before =>
      refine List.pairwise_cons.mpr ⟨fun member inside => ?_, ascends⟩
      rcases List.mem_cons.mp inside with rfl | later
      · exact before
      · exact Nat.lt_trans before (least member later)
    next notBefore =>
      split
      · exact ascends
      next different =>
        refine List.pairwise_cons.mpr ⟨fun member inside => ?_, ih ordered⟩
        rcases mem_insertAscending.mp inside with rfl | later
        · have apart : member.raw ≠ head.raw := fun same => different (Handle.raw_inj.mp same)
          omega
        · exact least member later

/-- The elements of a sum, in the order in which it lists them. -/
def ascending (types : List TypeId) : List TypeId := types.foldr insertAscending []

theorem ascends_ascending (types : List TypeId) : Ascends (ascending types) := by
  induction types with
  | nil => exact List.Pairwise.nil
  | cons head rest ih => exact ascends_insertAscending ih

theorem mem_ascending {types : List TypeId} {member : TypeId} :
    member ∈ ascending types ↔ member ∈ types := by
  induction types with
  | nil => rfl
  | cons head rest ih =>
    rw [List.mem_cons, ← ih]
    exact mem_insertAscending

theorem toFinset_ascending (types : List TypeId) : (ascending types).toFinset = types.toFinset := by
  ext member
  rw [List.mem_toFinset, List.mem_toFinset, mem_ascending]

theorem Ascends.unique {first second : List TypeId} (one : Ascends first) (two : Ascends second)
    (same : first.toFinset = second.toFinset) : first = second := by
  have distinct : ∀ {types : List TypeId}, Ascends types → types.Nodup := by
    intro types ascends
    refine List.Pairwise.imp ?_ ascends
    intro type _ before same
    subst same
    exact Nat.lt_irrefl _ before
  have perm : first.Perm second := by
    rw [List.perm_ext_iff_of_nodup (distinct one) (distinct two)]
    intro member
    rw [← List.mem_toFinset, same, List.mem_toFinset]
  exact perm.eq_of_pairwise (fun _ _ _ _ before after => absurd before (Nat.lt_asymm after)) one two

theorem bears_sum {types : List TypeId} : program.Bears (.sum types.toFinset) ref ↔
    ∃ id, ref = .type id ∧ program.types.Combines .sum (ascending types) id := by
  constructor
  · generalize same : Key.sum types.toFinset = key
    intro bears
    cases bears with
    | sum found kind listed ascends =>
      have equal := ascends.unique (ascends_ascending types)
        ((Key.sum.inj same).symm.trans (toFinset_ascending types).symm)
      subst equal
      exact ⟨_, rfl, _, shows_of_typeNode (TypeKind.structural_sum _) found kind, listed⟩
    | _ => cases same
  · intro ⟨id, same, list, shows, listed⟩
    subst same
    obtain ⟨node, found, kind⟩ := typeNode_of_shows shows
    rw [← toFinset_ascending]
    exact .sum found kind listed (ascends_ascending types)

theorem sharedExprs_distinct : ∀ node ∈ sharedExprs, node.category ≠ .literal := by decide

/-- The shared expressions are not literals, so these are in the table. -/
theorem get?_of_exprNode {id : ExprId} {node : ExprNode} {type : TypeId} {text : Symbol}
    (found : program.exprNode id = .ok node) (kind : node.kind = .literal type text) :
    program.exprs.nodes.get? id = some node := by
  rcases ExprTable.get_eq_ok.mp found with shared | present
  · have distinct := sharedExprs_distinct node (List.mem_of_getElem? shared)
    rw [ExprNode.category, kind] at distinct
    exact absurd rfl distinct
  · exact present

theorem exprNode_of_denotes {type : TypeId} {text : Symbol} {id : ExprId}
    (denotes : LiteralKey.Denotes ⟨type, text⟩ id) :
    ∃ node, program.exprNode id = .ok node ∧ node.type = some type := by
  obtain ⟨fundamental, word, member, typed, -⟩ := denotes
  cases typed
  simp only [sharedWords, List.mem_cons, Prod.mk.injEq, List.not_mem_nil, or_false] at member
  rcases member with ⟨rfl, rfl, rfl⟩ | ⟨rfl, rfl, rfl⟩ | ⟨rfl, rfl, rfl⟩
  all_goals exact ⟨_, rfl, rfl⟩

theorem bears_literal (canonical : program.Canonical) {type : TypeId} {text : Symbol} :
    program.Bears (.literal type text) ref ↔
      ∃ id, ref = .expr id ∧ (LiteralKey.Denotes ⟨type, text⟩ id ∨
        program.exprs.nodes.Shows ExprNode.key? ⟨type, text⟩ id) := by
  constructor
  · intro bears
    cases bears with
    | @literal id node _ _ found typed spelled =>
      refine ⟨id, rfl, ?_⟩
      rcases spelled with kind | denotes
      · exact .inr ⟨node, get?_of_exprNode found kind, ExprNode.key?_eq_some.mpr kind⟩
      · exact .inl denotes
  · rintro ⟨id, rfl, denotes | ⟨node, present, labelled⟩⟩
    · obtain ⟨node, found, typed⟩ := exprNode_of_denotes denotes
      exact .literal found typed (.inr denotes)
    · have kind := ExprNode.key?_eq_some.mp labelled
      exact .literal (ExprTable.get_eq_ok.mpr (.inr present)) (canonical.exprs.typed present kind)
        (.inl kind)

/-! ### Requests -/

/-- The key that a request asks for, if it is one for a canonical node. Qualifying a
qualified type asks for all qualifiers together. -/
def key? (program : Program) : Request → Option Key
  | .identifier text => some (.name (.identifier text))
  | .operator text => some (.name (.operator text))
  | .suffix text => some (.name (.suffix text))
  | .conversion target => some (.name (.conversion target))
  | .typeName type => some (.name (.typeName type))
  | .constructorName type => some (.name (.constructor type))
  | .destructorName type => some (.name (.destructor type))
  | .qualifiedName scope member => some (.name (.qualified scope member))
  | .templateId template args => some (.templateId template args)
  | .pointer target => some (.type (.pointer target))
  | .reference target => some (.type (.reference target))
  | .rvalueReference target => some (.type (.rvalueReference target))
  | .qualified qualifiers main =>
    if qualifiers.isEmpty then none
    else match program.typeNode main with
      | .ok node => some (.type (node.kind.qualifiedWith qualifiers main))
      | .error _ => none
  | .array element bound => some (.type (.array element bound))
  | .functionType source target throws linkage =>
    some (.type (.function source target throws linkage))
  | .pointerToMember owner member => some (.type (.pointerToMember owner member))
  | .product types => some (.product types)
  | .sum types => some (.sum types.toFinset)
  | .templateType source target => some (.type (.template source target))
  | .decltype expr => some (.type (.decltype expr))
  | .namedType name => some (.type (.named name))
  | .literal type text => some (.literal type text)
  | _ => none

theorem key?_qualified {qualifiers : Qualifiers} {main : TypeId} :
    program.key? (.qualified qualifiers main) = some key ↔
      qualifiers.isEmpty = false ∧ ∃ node, program.typeNode main = .ok node ∧
        key = .type (node.kind.qualifiedWith qualifiers main) := by
  cases empty : qualifiers.isEmpty with
  | true => simp [key?, empty]
  | false =>
    cases read : program.typeNode main with
    | error fault => simp [key?, empty, read]
    | ok node =>
      simp only [key?, empty, read, Bool.false_eq_true, if_false, Option.some.injEq, true_and,
        Except.ok.injEq, exists_eq_left']
      exact eq_comm

/-- What a request for a key has to do: give the node that has it, or make the first one. -/
structure Provides (program : Program) (key : Key)
    (response : Checked (Except BuildError Answer × Program)) : Prop where
  known : ∀ {ref}, program.Bears key ref → ∃ after, response = .ok (.ok (.node ref), after) ∧
    ∀ group, after.nodeCount group = program.nodeCount group
  new : (∀ ref, ¬ program.Bears key ref) → ∀ {outcome after}, response = .ok (outcome, after) →
    ∃ ref, outcome = .ok (.node ref) ∧ after.Bears key ref ∧ ∀ group,
      after.nodeCount group = program.nodeCount group + if group = ref.group then 1 else 0

/-- A request for a key is never refused, and what it gives has the key. -/
theorem Provides.answers {response : Checked (Except BuildError Answer × Program)}
    {outcome : Except BuildError Answer} (provides : program.Provides key response)
    (larger : program.Extends after) (responded : response = .ok (outcome, after)) :
    ∃ ref, outcome = .ok (.node ref) ∧ after.Bears key ref := by
  by_cases known : ∃ former, program.Bears key former
  · obtain ⟨former, bears⟩ := known
    obtain ⟨_, given, -⟩ := provides.known bears
    cases given.symm.trans responded
    exact ⟨former, rfl, bears.kept larger⟩
  · obtain ⟨made, equal, bears, -⟩ := provides.new (not_exists.mp known) responded
    exact ⟨made, equal, bears⟩

theorem Provides.bears {response : Checked (Except BuildError Answer × Program)}
    (provides : program.Provides key response) (larger : program.Extends after)
    (responded : response = .ok (.ok (.node ref), after)) : after.Bears key ref := by
  obtain ⟨_, equal, bears⟩ := provides.answers larger responded
  cases equal
  exact bears

theorem provides_edit {ρ : Type} {edit : Edit ρ} (refer : ρ → NodeRef)
    (known : ∀ {ref}, program.Bears key ref → ∃ id after, edit.run program = .ok (id, after) ∧
      refer id = ref ∧ ∀ group, after.nodeCount group = program.nodeCount group)
    (new : (∀ ref, ¬ program.Bears key ref) → ∀ {id after}, edit.run program = .ok (id, after) →
      after.Bears key (refer id) ∧ ∀ group,
        after.nodeCount group = program.nodeCount group + if group = (refer id).group then 1 else 0) :
    program.Provides key
      (((liftM edit : Build ρ) >>= fun id => pure (.node (refer id))).run.run program) := by
  constructor
  · intro ref bears
    obtain ⟨id, after, performed, rfl, counts⟩ := known bears
    exact ⟨after, Build.run_edit_bind.mpr ⟨id, after, performed, rfl⟩, counts⟩
  · intro missing outcome after responded
    obtain ⟨id, middle, performed, equal⟩ := Build.run_edit_bind.mp responded
    cases equal
    obtain ⟨bears, counts⟩ := new missing performed
    exact ⟨refer id, rfl, bears, counts⟩

theorem nodeCount_names {names : NameTable} {census : Census}
    (larger : names.nodes.size = program.names.nodes.size + 1) (group : Group) :
    { program with names, census }.nodeCount group =
      program.nodeCount group + if group = .name then 1 else 0 := by
  cases group <;> simp [nodeCount, larger]

theorem nodeCount_types {types : TypeTable} {census : Census}
    (larger : types.nodes.size = program.types.nodes.size + 1) (group : Group) :
    { program with types, census }.nodeCount group =
      program.nodeCount group + if group = .type then 1 else 0 := by
  cases group <;> simp [nodeCount, larger]

theorem nodeCount_exprs {exprs : ExprTable} {census : Census}
    (larger : exprs.nodes.size = program.exprs.nodes.size + 1) (group : Group) :
    { program with exprs, census }.nodeCount group =
      program.nodeCount group + if group = .expr then 1 else 0 := by
  cases group <;> simp [nodeCount, larger]

theorem nodeCount_census {census : Census} (group : Group) :
    { program with census }.nodeCount group = program.nodeCount group := by
  cases group <;> rfl

variable (canonical : program.Canonical)
include canonical

theorem provides_name {kind : NameKind} (simple : kind.isSimple) :
    program.Provides (.name kind) ((answerName (nameOf kind)).run.run program) := by
  refine provides_edit .name (fun bears => ?_) fun missing id after given => ?_
  · obtain ⟨id, rfl, shows⟩ := bears_name.mp bears
    have found := NameTable.canonical_known canonical.names shows program.census
    exact ⟨id, _, nameOf_eq_ok.mpr ⟨_, _, found, rfl⟩, rfl, nodeCount_census⟩
  · obtain ⟨names, census, asked, rfl⟩ := nameOf_eq_ok.mp given
    have unlisted := NameKind.list?_of_isSimple simple
    obtain ⟨-, -, shows, rfl | ⟨-, larger⟩⟩ := NameTable.canonical_eq_ok canonical.names
      (fun refers => nomatch unlisted.symm.trans refers) asked
    · exact absurd (bears_name.mpr ⟨id, rfl, shows⟩) (missing _)
    · exact ⟨bears_name.mpr ⟨id, rfl, shows⟩, nodeCount_names larger⟩

theorem provides_templateId {template : NameId} {args : List Term} :
    program.Provides (.templateId template args)
      ((answerName (templateId template args)).run.run program) := by
  refine provides_edit .name (fun bears => ?_) fun missing id after given => ?_
  · obtain ⟨id, rfl, applies⟩ := bears_templateId.mp bears
    obtain ⟨list, kept, found⟩ := NameTable.templateId_known canonical.names applies program.census
    have given := templateId_eq_ok.mpr ⟨list, _, _, _, kept, found, rfl⟩
    exact ⟨id, _, given, rfl, nodeCount_census⟩
  · obtain ⟨list, listed, names, census, kept, asked, rfl⟩ := templateId_eq_ok.mp given
    obtain ⟨-, -, applies, ⟨known, -⟩ | ⟨-, larger⟩⟩ :=
      NameTable.templateId_eq_ok canonical.names kept asked
    · exact absurd (bears_templateId.mpr ⟨id, rfl, known⟩) (missing _)
    · exact ⟨bears_templateId.mpr ⟨id, rfl, applies⟩, nodeCount_names larger⟩

theorem provides_type {kind : TypeKind} (structural : kind.IsStructural) (unlisted : kind.list? = none) :
    program.Provides (.type kind) ((answerType (liftM (typeOf kind))).run.run program) := by
  refine provides_edit .type (fun bears => ?_) fun missing id after given => ?_
  · obtain ⟨id, rfl, shows⟩ := (bears_type structural).mp bears
    have found := TypeTable.canonical_known canonical.types structural shows program.census
    exact ⟨id, _, typeOf_eq_ok.mpr ⟨_, _, found, rfl⟩, rfl, nodeCount_census⟩
  · obtain ⟨types, census, asked, rfl⟩ := typeOf_eq_ok.mp given
    obtain ⟨-, -, shows, rfl | ⟨-, larger⟩⟩ := TypeTable.canonical_eq_ok canonical.types structural
      (fun refers => nomatch unlisted.symm.trans refers) asked
    · exact absurd ((bears_type structural).mpr ⟨id, rfl, shows⟩) (missing _)
    · exact ⟨(bears_type structural).mpr ⟨id, rfl, shows⟩, nodeCount_types larger⟩

theorem provides_combined {wrap : TypeListId → TypeKind} {members : List TypeId}
    (structural : ∀ list, (wrap list).IsStructural) (wraps : ∀ list, (wrap list).list? = some list)
    (bears : ∀ {program ref}, Bears program key ref ↔
      ∃ id, ref = .type id ∧ program.types.Combines wrap members id) :
    program.Provides key
      ((answerType (liftM (do typeOf (wrap (← keepTypes members))))).run.run program) := by
  refine provides_edit .type (fun known => ?_) fun missing id after given => ?_
  · obtain ⟨id, rfl, combines⟩ := bears.mp known
    obtain ⟨list, kept, found⟩ :=
      TypeTable.combined_known canonical.types structural combines program.census
    have given := combined_eq_ok.mpr ⟨list, _, _, _, kept, found, rfl⟩
    exact ⟨id, _, given, rfl, nodeCount_census⟩
  · obtain ⟨list, listed, types, census, kept, asked, rfl⟩ := combined_eq_ok.mp given
    obtain ⟨-, -, combines, ⟨known, -⟩ | ⟨-, larger⟩⟩ :=
      TypeTable.combined_eq_ok canonical.types structural wraps kept asked
    · exact absurd (bears.mpr ⟨id, rfl, known⟩) (missing _)
    · exact ⟨bears.mpr ⟨id, rfl, combines⟩, nodeCount_types larger⟩

theorem provides_literal {type : TypeId} {text : Symbol} :
    program.Provides (.literal type text) ((answerExpr (literal type text)).run.run program) := by
  refine provides_edit .expr (fun bears => ?_) fun missing id after given => ?_
  · obtain ⟨id, rfl, shows⟩ := (bears_literal canonical).mp bears
    have found := ExprTable.literal_known canonical.exprs shows program.census
    exact ⟨id, _, literal_eq_ok.mpr ⟨_, _, found, rfl⟩, rfl, nodeCount_census⟩
  · obtain ⟨exprs, census, asked, rfl⟩ := literal_eq_ok.mp given
    obtain ⟨kept, -, shows, rfl | ⟨-, larger⟩⟩ := ExprTable.literal_eq_ok canonical.exprs asked
    · exact absurd ((bears_literal canonical).mpr ⟨id, rfl, shows⟩) (missing _)
    · have after : { program with exprs, census }.Canonical := ⟨canonical.names, canonical.types, kept⟩
      exact ⟨(bears_literal after).mpr ⟨id, rfl, shows⟩, nodeCount_exprs larger⟩

theorem provides_qualified {qualifiers : Qualifiers} {main : TypeId} {node : TypeNode}
    (qualifying : qualifiers.isEmpty = false) (found : program.typeNode main = .ok node) :
    program.Provides (.type (node.kind.qualifiedWith qualifiers main))
      ((answerType (qualified qualifiers main)).run.run program) := by
  have provides := provides_type canonical (TypeKind.structural_qualifiedWith qualifiers main node.kind)
    (TypeKind.list?_qualifiedWith ..)
  have same : (qualified qualifiers main).run.run program =
      (liftM (typeOf (node.kind.qualifiedWith qualifiers main)) : Build TypeId).run.run program := by
    rw [qualified_eq, qualifying]
    change (liftM (program.typeNode main) >>= fun node =>
      (typeOf (node.kind.qualifiedWith qualifiers main) : Build TypeId)).run.run program = _
    rw [found]
    rfl
  have answered : ∀ build : Build TypeId, (answerType build).run.run program =
      (build.run.run program >>= fun pair =>
        (ExceptT.bindCont (fun id => (pure (Answer.node (.type id)) : Build Answer)) pair.1).run
          pair.2) :=
    fun _ => rfl
  rw [answered, same, ← answered]
  exact provides

theorem provides_respond {request : Request} (asked : program.key? request = some key) :
    program.Provides key (program.respond request) := by
  cases request with
  | identifier | operator | suffix | conversion | typeName | constructorName | destructorName
  | qualifiedName =>
    cases asked
    exact provides_name canonical rfl
  | templateId =>
    cases asked
    exact provides_templateId canonical
  | pointer | reference | rvalueReference | array | functionType | pointerToMember | templateType
  | decltype | namedType =>
    cases asked
    exact provides_type canonical (TypeKind.structural_of_isSimple rfl) rfl
  | qualified =>
    obtain ⟨qualifying, node, found, rfl⟩ := key?_qualified.mp asked
    exact provides_qualified canonical qualifying found
  | product =>
    cases asked
    exact provides_combined canonical TypeKind.structural_product (fun _ => rfl) bears_product
  | sum =>
    cases asked
    exact provides_combined canonical TypeKind.structural_sum (fun _ => rfl) bears_sum
  | literal =>
    cases asked
    exact provides_literal canonical
  | _ => cases asked

omit canonical

theorem qualifiedWith_user {node : TypeNode} (user : node.key? = none) (qualifiers : Qualifiers)
    (main : TypeId) : node.kind.qualifiedWith qualifiers main = .qualified qualifiers main := by
  obtain ⟨number, kind⟩ := node
  cases kind with
  | qualified => cases user
  | _ => rfl

/-- What a request asks for does not change while the program grows. -/
theorem key?_kept (larger : program.Extends after) {request : Request}
    (asked : program.key? request = some key) : after.key? request = some key := by
  cases request with
  | qualified qualifiers main =>
    obtain ⟨qualifying, node, found, rfl⟩ := key?_qualified.mp asked
    obtain ⟨now, present, rfl | ⟨user, remains⟩⟩ := larger.typeNode found
    · exact key?_qualified.mpr ⟨qualifying, now, present, rfl⟩
    · refine key?_qualified.mpr ⟨qualifying, now, present, ?_⟩
      rw [qualifiedWith_user user, qualifiedWith_user remains]
  | _ => exact asked

/-! ### One node for each key -/

/-- No two nodes of a canonical category are alike, and each index leads to the nodes that
have its keys and to nothing else, except that words may lead to shared constants. -/
structure OneNodePerKey (program : Program) : Prop where
  names : ∀ {first second node other}, program.names.nodes.get? first = some node →
    program.names.nodes.get? second = some other → node.kind = other.kind → first = second
  types : ∀ {first second node other}, program.types.nodes.get? first = some node →
    program.types.nodes.get? second = some other → node.category.isCanonical →
    node.kind = other.kind → first = second
  literals : ∀ {first second node other type text}, program.exprs.nodes.get? first = some node →
    program.exprs.nodes.get? second = some other → node.kind = .literal type text →
    other.kind = .literal type text → first = second
  nameIndex : ∀ kind id, program.names.index.get? kind = .ok (some id) ↔
    ∃ node, program.names.nodes.get? id = some node ∧ node.kind = kind
  typeIndex : ∀ kind id, program.types.index.get? kind = .ok (some id) ↔
    kind.category.isCanonical ∧ ∃ node, program.types.nodes.get? id = some node ∧ node.kind = kind
  literalIndex : ∀ key id, program.exprs.literals.get? key = .ok (some id) ↔
    key.Denotes id ∨
      ∃ node, program.exprs.nodes.get? id = some node ∧ node.kind = .literal key.type key.text
  constants : ∀ key id, id.raw < Table.firstFree .expr →
    (program.exprs.literals.get? key = .ok (some id) ↔ key.Denotes id)

theorem Canonical.nameIndex (canonical : program.Canonical) {kind : NameKind} {id : NameId} :
    program.names.index.get? kind = .ok (some id) ↔
      ∃ node, program.names.nodes.get? id = some node ∧ node.kind = kind := by
  rw [Index.Indexes.get?_eq_some canonical.names.covers]
  simp [Slab.Shows, NameNode.key?]

theorem Canonical.typeIndex (canonical : program.Canonical) {kind : TypeKind} {id : TypeId} :
    program.types.index.get? kind = .ok (some id) ↔ kind.category.isCanonical ∧
      ∃ node, program.types.nodes.get? id = some node ∧ node.kind = kind := by
  rw [Index.Indexes.get?_eq_some canonical.types.covers]
  simp only [Slab.Shows, TypeNode.key?_eq_some, List.not_mem_nil, false_or]
  constructor
  · intro shown
    obtain ⟨node, found, same, structural⟩ := shown
    exact ⟨structural, node, found, same⟩
  · intro shown
    obtain ⟨structural, node, found, same⟩ := shown
    exact ⟨node, found, same, structural⟩

theorem Canonical.literalIndex (canonical : program.Canonical) {key : LiteralKey} {id : ExprId} :
    program.exprs.literals.get? key = .ok (some id) ↔ key.Denotes id ∨
      ∃ node, program.exprs.nodes.get? id = some node ∧
        node.kind = .literal key.type key.text := by
  rw [Index.Indexes.get?_eq_some canonical.exprs.covers, mem_sharedLiterals]
  simp only [Slab.Shows, ExprNode.key?_eq_some]

theorem Canonical.oneNodePerKey (canonical : program.Canonical) : program.OneNodePerKey where
  names one two same := by
    have first := canonical.nameIndex.mpr ⟨_, one, same⟩
    rw [canonical.nameIndex.mpr ⟨_, two, rfl⟩] at first
    cases first
    rfl
  types {_ _ node other} one two structural same := by
    have canonicalKind : other.kind.category.isCanonical := same ▸ structural
    have first := canonical.typeIndex.mpr ⟨canonicalKind, node, one, same⟩
    rw [canonical.typeIndex.mpr ⟨canonicalKind, other, two, rfl⟩] at first
    cases first
    rfl
  literals {_ _ node other type text} one two kind same := by
    let key : LiteralKey := ⟨type, text⟩
    have first := canonical.literalIndex.mpr (.inr ⟨node, one, kind⟩ : key.Denotes _ ∨ _)
    rw [canonical.literalIndex.mpr (.inr ⟨other, two, same⟩)] at first
    cases first
    rfl
  nameIndex _ _ := canonical.nameIndex
  typeIndex _ _ := canonical.typeIndex
  literalIndex _ _ := canonical.literalIndex
  constants key id shared := by
    rw [canonical.literalIndex]
    apply or_iff_left
    intro shown
    obtain ⟨node, found, -⟩ := shown
    exact Nat.not_lt_of_le (Slab.firstFree_le_of_get? found) shared

end Program

end CanonIR
