import CanonIR.Proofs.RequestChanges
import CanonIR.Proofs.ScopeTables

/-! Where declarations are found. Every declaration is in one chain, in the members of
one scope and under its name and type in the index of that scope; and these hold nothing
else. What they hold is compared with a plain scan of all declarations. -/

namespace CanonIR

namespace Slab

variable {α : Type} {table : Table} {slab after : Slab table α} {handle : Handle table} {item : α}
  {test : α → Bool}

/-- The handles of all entries, oldest first. -/
def handles (slab : Slab table α) : List (Handle table) :=
  (List.range slab.size).map fun index => ⟨table.firstFree + index⟩

/-- The handles of the entries that pass a test, oldest first. -/
def select (slab : Slab table α) (test : α → Bool) : List (Handle table) :=
  slab.handles.filter fun handle => (slab.get? handle).any test

theorem mem_handles : handle ∈ slab.handles ↔ ∃ item, slab.get? handle = some item := by
  simp only [handles, List.mem_map, List.mem_range, get?_eq_some]
  constructor
  · rintro ⟨index, inside, rfl⟩
    exact ⟨slab.items[index], index, rfl, Array.getElem?_eq_getElem inside⟩
  · rintro ⟨item, index, rfl, found⟩
    exact ⟨index, (Array.getElem?_eq_some_iff.mp found).1, rfl⟩

theorem mem_select : handle ∈ slab.select test ↔ ∃ item, slab.get? handle = some item ∧ test item := by
  simp only [select, List.mem_filter, mem_handles, Option.any_eq_true]
  exact ⟨fun both => both.2, fun ⟨item, found, passes⟩ => ⟨⟨item, found⟩, item, found, passes⟩⟩

theorem select_eq_nil : slab.select test = [] ↔
    ∀ handle item, slab.get? handle = some item → test item = false := by
  simp [List.eq_nil_iff_forall_not_mem, mem_select]

theorem select_ascends : (slab.select test).Pairwise fun first second => first.raw < second.raw := by
  refine List.Pairwise.filter _ (List.pairwise_map.mpr (List.pairwise_lt_range.imp ?_))
  intro first second lower
  simpa using lower

theorem handles_push (pushed : slab.push item = .ok (handle, after)) :
    after.handles = slab.handles ++ [handle] := by
  have larger := size_push pushed
  obtain ⟨rfl, -, -⟩ := push_eq_ok.mp pushed
  simp [handles, larger, List.range_succ]

theorem select_push (pushed : slab.push item = .ok (handle, after)) :
    after.select test = slab.select test ++ if test item then [handle] else [] := by
  have old : (slab.handles.filter fun other => (after.get? other).any test) = slab.select test := by
    refine List.filter_congr fun other member => ?_
    obtain ⟨item, found⟩ := mem_handles.mp member
    rw [get?_kept pushed found, found]
  rw [select, handles_push pushed, List.filter_append, old]
  by_cases passes : test item <;> simp [get?_pushed pushed, passes]

theorem select_modify {change : α → α} (changed : slab.modify handle change = .ok after)
    (same : ∀ item, slab.get? handle = some item → test (change item) = test item) :
    after.select test = slab.select test := by
  have handles : after.handles = slab.handles := by
    obtain ⟨item, -, rfl⟩ := modify_eq_ok.mp changed
    simp [Slab.handles, size]
  rw [select, handles]
  refine List.filter_congr fun other member => ?_
  obtain ⟨item, found⟩ := mem_handles.mp member
  rw [get?_modify changed]
  split
  next equal =>
    subst equal
    simp [found, same item found]
  · rfl

theorem select_congr {other : α → Bool}
    (same : ∀ {handle item}, slab.get? handle = some item → test item = other item) :
    slab.select test = slab.select other := by
  refine List.filter_congr fun handle member => ?_
  obtain ⟨item, found⟩ := mem_handles.mp member
  simp [found, same found]

end Slab

/-- What all declarations of a chain have in common. -/
def DeclNode.subject (node : DeclNode) : RegionId × NameId × TypeId × Category :=
  (node.home, node.name, node.type, node.category)

/-- The scope of a region. -/
def scopeOf? (regions : Slab .region Region) (id : RegionId) : Option ScopeId :=
  (regions.get? id).map Region.scope

/-- A declaration with this name and type in the region of the scope is in the chain. -/
def Declares (nodes : Slab .decl DeclNode) (scopeOf : RegionId → Option ScopeId) (scope : ScopeId)
    (name : NameId) (type : TypeId) (chain : ChainId) : Prop :=
  ∃ id node, nodes.get? id = some node ∧ scopeOf node.home = some scope ∧ node.name = name ∧
    node.type = type ∧ node.chain = chain

/-- Chains and scopes hold every declaration where it belongs, and nothing else. -/
structure Filing (nodes : Slab .decl DeclNode) (chains : Slab .chain (Array DeclId))
    (scopeOf : RegionId → Option ScopeId) (scopes : ScopeTable) : Prop where
  paired : ∀ region scope, scopeOf region = some scope ↔
    ∃ members, scopes.outline? scope = some (region, members)
  homes : ∀ {id node}, nodes.get? id = some node → ∃ scope, scopeOf node.home = some scope
  members : ∀ {scope region members}, scopes.outline? scope = some (region, members) →
    members.toList = nodes.select (·.home = region)
  bound : scopes.Indexes (Declares nodes scopeOf)
  lists : ∀ {id chain}, chains.get? id = some chain →
    chain.toList = nodes.select (·.chain = id) ∧ chain ≠ #[]
  chained : ∀ {id node}, nodes.get? id = some node → ∃ chain, chains.get? node.chain = some chain ∧
    chain[node.position]? = some id ∧ chain[0]? = some node.master
  peers : ∀ {id other node peer}, nodes.get? id = some node → nodes.get? other = some peer →
    peer.chain = node.chain → peer.subject = node.subject

theorem filing_empty : Filing {} {} (fun _ => none) {} where
  paired := by simp [ScopeTable.outline?, Slab.get?]
  homes found := by simp [Slab.get?] at found
  members found := by simp [ScopeTable.outline?, Slab.get?] at found
  bound := ScopeTable.indexes_empty.congr fun _ _ _ _ => by simp [Declares, Slab.get?]
  lists found := by simp [Slab.get?] at found
  chained found := by simp [Slab.get?] at found
  peers found := by simp [Slab.get?] at found

namespace Filing

variable {nodes after : Slab .decl DeclNode} {chains : Slab .chain (Array DeclId)}
  {scopeOf : RegionId → Option ScopeId} {scopes : ScopeTable}

/-! ### Regions -/

theorem newRegion (filing : Filing nodes chains scopeOf scopes) {region : RegionId} {scope : ScopeId}
    {larger : Slab .scope Scope} (fresh : scopeOf region = none)
    (opened : scopes.scopes.push { region } = .ok (scope, larger)) :
    Filing nodes chains (fun id => if id = region then some scope else scopeOf id)
      { scopes with scopes := larger } := by
  have outlines := ScopeTable.outline?_push opened
  have unused : scopes.outline? scope = none := by
    simp [ScopeTable.outline?, Slab.fresh_of_push opened]
  have elsewhere : ∀ {id node}, nodes.get? id = some node → node.home ≠ region := by
    intro id node found same
    obtain ⟨_, opened⟩ := filing.homes found
    simp [same, fresh] at opened
  refine { filing with
    paired := fun id set => ?_
    homes := fun found => ?_
    members := fun {set id members} outlined => ?_
    bound := (filing.bound.push opened).congr fun set name type chain => ?_ }
  · have former := filing.paired id set
    have unopened := filing.paired region set
    rw [outlines]
    grind
  · simpa [elsewhere found] using filing.homes found
  · rw [outlines] at outlined
    split at outlined
    · cases outlined
      refine (Slab.select_eq_nil.mpr fun other node found => ?_).symm
      simpa using elsewhere found
    · exact filing.members outlined
  · unfold Declares
    grind

/-! ### Declarations -/

theorem declares_push {node : DeclNode} {id : DeclId} {scope : ScopeId}
    (made : nodes.push node = .ok (id, after)) (here : scopeOf node.home = some scope)
    {set : ScopeId} {name : NameId} {type : TypeId} {chain : ChainId} :
    Declares after scopeOf set name type chain ↔ Declares nodes scopeOf set name type chain ∨
      set = scope ∧ name = node.name ∧ type = node.type ∧ chain = node.chain := by
  constructor
  · rintro ⟨other, peer, found, rest⟩
    rw [Slab.get?_of_push made] at found
    split at found
    · cases found
      obtain ⟨opened, rfl, rfl, rfl⟩ := rest
      exact .inr ⟨Option.some.inj (opened.symm.trans here), rfl, rfl, rfl⟩
    · exact .inl ⟨other, peer, found, rest⟩
  · rintro (⟨other, peer, found, rest⟩ | ⟨rfl, rfl, rfl, rfl⟩)
    · exact ⟨other, peer, Slab.get?_kept made found, rest⟩
    · exact ⟨id, node, Slab.get?_pushed made, here, rfl, rfl, rfl⟩

/-- A new declaration goes to the end of its chain, of which `list` is what was declared
alike before. The other chains are as they were. -/
structure Joins (nodes : Slab .decl DeclNode) (chains joined : Slab .chain (Array DeclId))
    (node : DeclNode) (id : DeclId) (list : Array DeclId) : Prop where
  own : joined.get? node.chain = some (list.push id)
  others : ∀ {other}, other ≠ node.chain → joined.get? other = chains.get? other
  exact : list.toList = nodes.select (·.chain = node.chain)
  alike : ∀ {other peer}, nodes.get? other = some peer → peer.chain = node.chain →
    peer.subject = node.subject
  last : node.position = list.size
  first : node.master = list[0]?.getD id

section Declare

variable {joined : Slab .chain (Array DeclId)} {node : DeclNode} {id : DeclId} {list : Array DeclId}
  (filing : Filing nodes chains scopeOf scopes) (joins : Joins nodes chains joined node id list)
  (made : nodes.push node = .ok (id, after))

include filing joins made

theorem lists_declare {other : ChainId} {chain : Array DeclId} (found : joined.get? other = some chain) :
    chain.toList = after.select (·.chain = other) ∧ chain ≠ #[] := by
  rw [Slab.select_push made]
  by_cases same : other = node.chain
  · subst same
    cases found.symm.trans joins.own
    simp [joins.exact]
  · rw [joins.others same] at found
    simpa [Ne.symm same] using filing.lists found

theorem chained_declare {other : DeclId} {peer : DeclNode} (found : after.get? other = some peer) :
    ∃ chain, joined.get? peer.chain = some chain ∧ chain[peer.position]? = some other ∧
      chain[0]? = some peer.master := by
  rw [Slab.get?_of_push made] at found
  split at found
  next equal =>
    subst equal
    cases found
    refine ⟨_, joins.own, by simp [joins.last], ?_⟩
    rw [joins.first]
    cases old : list[0]? <;> grind
  · obtain ⟨chain, present, place, first⟩ := filing.chained found
    by_cases same : peer.chain = node.chain
    · have equal : chain = list := by
        rw [← Array.toList_inj, (filing.lists present).1, joins.exact, same]
      subst equal
      exact ⟨_, same ▸ joins.own, by grind, by grind⟩
    · exact ⟨chain, (joins.others same).trans present, place, first⟩

theorem peers_declare {one two : DeclId} {first second : DeclNode} (foundOne : after.get? one = some first)
    (foundTwo : after.get? two = some second) (same : second.chain = first.chain) :
    second.subject = first.subject := by
  rw [Slab.get?_of_push made] at foundOne foundTwo
  split at foundOne <;> split at foundTwo
  · cases foundOne
    cases foundTwo
    rfl
  · cases foundOne
    exact joins.alike foundTwo same
  · cases foundTwo
    exact (joins.alike foundOne same.symm).symm
  · exact filing.peers foundOne foundTwo same

variable {scope : ScopeId} {bound listed : ScopeTable} (here : scopeOf node.home = some scope)
  (outlines : ∀ other, bound.outline? other = scopes.outline? other)
  (member : bound.pushMember scope id = .ok listed)

include here outlines member

omit joins in
theorem members_declare {set : ScopeId} {region : RegionId} {members : Array DeclId}
    (outline : listed.outline? set = some (region, members)) :
    members.toList = after.select (·.home = region) := by
  simp only [ScopeTable.outline?_pushMember member, outlines] at outline
  rw [Slab.select_push made]
  split at outline
  next equal =>
    subst equal
    obtain ⟨⟨_, former⟩, found, equal⟩ := Option.map_eq_some_iff.mp outline
    cases equal
    obtain ⟨_, home⟩ := (filing.paired node.home set).mp here
    obtain ⟨rfl, -⟩ := Prod.mk.inj (Option.some.inj (home.symm.trans found))
    simp [filing.members found]
  next different =>
    have apart : node.home ≠ region := by
      intro same
      have opened := (filing.paired region set).mpr ⟨members, outline⟩
      rw [← same, here] at opened
      exact different (Option.some.inj opened).symm
    simp [filing.members outline, apart]

theorem declare (indexes : bound.Indexes fun set name type chain =>
      Declares nodes scopeOf set name type chain ∨
        set = scope ∧ name = node.name ∧ type = node.type ∧ chain = node.chain) :
    Filing after joined scopeOf listed where
  paired region set := by
    rw [filing.paired, ScopeTable.outline?_pushMember member, outlines, outlines]
    split
    next equal =>
      subst equal
      rcases scopes.outline? set with _ | ⟨home, members⟩ <;> simp
    · rfl
  homes found := by
    rw [Slab.get?_of_push made] at found
    split at found
    · cases found
      exact ⟨scope, here⟩
    · exact filing.homes found
  members := filing.members_declare made here outlines member
  bound := (indexes.pushMember member).congr fun _ _ _ _ => (declares_push made here).symm
  lists := filing.lists_declare joins made
  chained := filing.chained_declare joins made
  peers := filing.peers_declare joins made

end Declare

/-- Filling a field keeps a declaration where it is. -/
theorem refill (filing : Filing nodes chains scopeOf scopes) {id : DeclId} {node : DeclNode}
    {kind : DeclKind} (found : nodes.get? id = some node) (filled : node.kind.Fills kind)
    (changed : nodes.modify id ({ · with kind }) = .ok after) : Filing after chains scopeOf scopes := by
  have former : ∀ {other peer}, after.get? other = some peer → ∃ old, nodes.get? other = some old ∧
      peer = { old with kind := peer.kind } ∧ peer.subject = old.subject := by
    intro other peer present
    rw [Slab.get?_modify changed] at present
    split at present
    next same =>
      subst same
      rw [found] at present
      cases present
      exact ⟨node, found, rfl, by simp [DeclNode.subject, DeclNode.category, filled.category]⟩
    · exact ⟨peer, present, rfl, rfl⟩
  have latter : ∀ {other old}, nodes.get? other = some old →
      ∃ kind, after.get? other = some { old with kind } := by
    intro other old present
    rw [Slab.get?_modify changed]
    split
    next same =>
      subst same
      exact ⟨kind, by simp [present]⟩
    · exact ⟨old.kind, present⟩
  have selected : ∀ {test : DeclNode → Bool}, (∀ item, test { item with kind } = test item) →
      after.select test = nodes.select test := fun same =>
    Slab.select_modify changed fun item _ => same item
  refine ⟨filing.paired, fun present => ?_, fun outlined => ?_, filing.bound.congr fun set name type chain => ?_,
    fun listed => ?_, fun present => ?_, fun one two same => ?_⟩
  · obtain ⟨old, present, equal, -⟩ := former present
    have placed := filing.homes present
    rw [equal]
    exact placed
  · rw [selected fun _ => rfl]
    exact filing.members outlined
  · constructor
    · rintro ⟨other, old, present, rest⟩
      obtain ⟨_, present⟩ := latter present
      exact ⟨other, _, present, rest⟩
    · rintro ⟨other, peer, present, rest⟩
      obtain ⟨old, present, equal, -⟩ := former present
      rw [equal] at rest
      exact ⟨other, old, present, rest⟩
  · rw [selected fun _ => rfl]
    exact filing.lists listed
  · obtain ⟨old, present, equal, -⟩ := former present
    have chained := filing.chained present
    rw [equal]
    exact chained
  · obtain ⟨_, one, first, alike⟩ := former one
    obtain ⟨_, two, second, agrees⟩ := former two
    rw [alike, agrees]
    rw [first, second] at same
    exact filing.peers one two same

end Filing

namespace Program

variable {known : Answer → Prop} {program after : Program}

/-- All declarations of the program are filed. -/
def Filed (program : Program) : Prop :=
  Filing program.decls.nodes program.decls.chains (scopeOf? program.regions) program.scopes

/-- The scope has a declaration of this name and type, and it is in the chain. -/
abbrev Binds (program : Program) : ScopeId → NameId → TypeId → ChainId → Prop :=
  Declares program.decls.nodes (scopeOf? program.regions)

theorem scopeOf?_modify {regions : Slab .region Region} {region : RegionId} {change : Region → Region}
    (changed : program.regions.modify region change = .ok regions)
    (same : ∀ entry, (change entry).scope = entry.scope) :
    scopeOf? regions = scopeOf? program.regions := by
  funext id
  simp only [scopeOf?, Slab.get?_modify changed]
  split
  next equal =>
    subst equal
    simp [Function.comp_def, same]
  · rfl

theorem scopeOf?_push {regions : Slab .region Region} {id : RegionId} {region : Region}
    (made : program.regions.push region = .ok (id, regions)) : scopeOf? regions = fun other =>
      if other = id then some region.scope else scopeOf? program.regions other := by
  funext other
  simp only [scopeOf?, Slab.get?_of_push made]
  split <;> rfl

/-! ### The master of a chain -/

section Master

variable {home : RegionId} {region : Region} {name : NameId} {type : TypeId} {category : Category}
  (filed : program.Filed) (here : program.region home = .ok region)

include filed here

omit filed in
theorem scopeOf?_eq : scopeOf? program.regions home = some region.scope := by
  simp [scopeOf?, Slab.get_eq_ok.mp here]

theorem Filed.outlined : ∃ members, program.scopes.outline? region.scope = some (home, members) :=
  (filed.paired _ _).mp (scopeOf?_eq here)

theorem Filed.exists_scope : ∃ entry, program.scopes.scopes.get? region.scope = some entry := by
  obtain ⟨members, outlined⟩ := filed.outlined here
  obtain ⟨entry, found, -⟩ := Option.map_eq_some_iff.mp outlined
  exact ⟨entry, found⟩

/-- No two regions have one scope. -/
theorem Filed.opens_iff (other : RegionId) :
    scopeOf? program.regions other = some region.scope ↔ other = home := by
  constructor
  · intro opened
    obtain ⟨_, first⟩ := (filed.paired _ _).mp opened
    obtain ⟨_, second⟩ := filed.outlined here
    exact (Prod.mk.inj (Option.some.inj (first.symm.trans second))).1
  · rintro rfl
    exact scopeOf?_eq here

theorem Filed.joinedMaster_unbound (unbound : ∀ chain, ¬ program.Binds region.scope name type chain) :
    program.joinedMaster home name type category = .ok (.ok none) := by
  obtain ⟨entry, opened⟩ := filed.exists_scope here
  have missing : program.scopes.findChain? region.scope name type = .ok none :=
    (filed.bound.findChain?_eq_ok opened).mpr fun chain => by simp [unbound]
  simp [joinedMaster, here, missing]

theorem Filed.joinedMaster_bound {chain : ChainId} (binds : program.Binds region.scope name type chain) :
    ∃ list master node, program.decls.chains.get? chain = some list ∧ list[0]? = some master ∧
      program.decls.nodes.get? master = some node ∧ node.chain = chain ∧
      program.joinedMaster home name type category = .ok (if node.category = category then
        .ok (some master) else .error (.incompatibleRedeclaration name node.category category)) := by
  obtain ⟨entry, opened⟩ := filed.exists_scope here
  have looked := (filed.bound.findChain?_eq_some opened).mpr binds
  obtain ⟨id, member, found, -, -, -, rfl⟩ := binds
  obtain ⟨list, listed, -, first⟩ := filed.chained found
  have inside : member.master ∈ list.toList := by
    rw [Array.mem_toList_iff]
    exact Array.mem_of_getElem? first
  rw [(filed.lists listed).1] at inside
  obtain ⟨node, present, same⟩ := Slab.mem_select.mp inside
  refine ⟨list, _, node, listed, first, present, by simpa using same, ?_⟩
  have head : list.toList.head? = some member.master := by
    rw [List.head?_eq_getElem?, Array.getElem?_toList]
    exact first
  simp only [joinedMaster, here, Checked.ok_bind, looked, Program.chain, Slab.get_eq_ok.mpr listed,
    Checked.pure_eq_ok, head, declNode, Slab.get_eq_ok.mpr present]
  split <;> rfl

end Master

/-! ### Changes -/

theorem appendToChain_eq_ok {table after : DeclTable} {chain : ChainId} {decl : DeclId} {index : Nat}
    (appended : table.appendToChain chain decl = .ok (index, after)) :
    ∃ list chains, table.chains.get? chain = some list ∧ index = list.size ∧
      table.chains.modify chain (·.push decl) = .ok chains ∧ after = { table with chains } := by
  obtain ⟨list, read, given⟩ := Checked.bind_eq_ok.mp appended
  obtain ⟨place, room, given⟩ := Checked.bind_eq_ok.mp given
  obtain ⟨chains, changed, equal⟩ := Checked.bind_eq_ok.mp given
  cases equal
  exact ⟨list, chains, Slab.get_eq_ok.mp read, (position_eq_ok.mp room).1, changed, rfl⟩

section Joins

variable {node : DeclNode} {id : DeclId} {region : Region} {master : Option DeclId} {list : Array DeclId}
  {chains longer : Slab .chain (Array DeclId)} (filed : program.Filed)
  (home : program.region node.home = .ok region)
  (agreed : program.joinedMaster node.home node.name node.type node.category = .ok (.ok master))
  (mastered : node.master = master.getD id) (present : chains.get? node.chain = some list)
  (last : node.position = list.size) (changed : chains.modify node.chain (·.push id) = .ok longer)

include filed home agreed mastered present last changed

/-- The chain is that of an older declaration, which the master agrees with. -/
theorem Filed.joins_bound (same : chains = program.decls.chains)
    (binds : program.Binds region.scope node.name node.type node.chain) :
    Filing.Joins program.decls.nodes program.decls.chains longer node id list := by
  subst same
  obtain ⟨_, first, lead, found, head, leading, chained, looked⟩ := filed.joinedMaster_bound home binds
  cases found.symm.trans present
  rw [agreed, Except.ok.injEq] at looked
  split at looked
  next compatible =>
    cases looked
    obtain ⟨peer, old, there, opened, name, type, chain⟩ := binds
    have subject : old.subject = node.subject := by
      have homes : old.home = node.home := (filed.opens_iff home _).mp opened
      have category : old.category = node.category := by
        have alike := filed.peers leading there (chain.trans chained.symm)
        simp only [DeclNode.subject, Prod.mk.injEq] at alike
        exact alike.2.2.2.trans compatible
      simp [DeclNode.subject, homes, name, type, category]
    refine ⟨by simp [Slab.get?_modify changed, present], fun different => ?_, (filed.lists present).1,
      fun other joined => ?_, last, by simp [mastered, head]⟩
    · simp [Slab.get?_modify changed, different]
    · exact (filed.peers there other (joined.trans chain.symm)).trans subject
  · cases looked

/-- The chain is new, so that no older declaration is in it. -/
theorem Filed.joins_unbound
    (unbound : ∀ chain, ¬ program.Binds region.scope node.name node.type chain)
    (opened : program.decls.chains.push #[] = .ok (node.chain, chains)) :
    Filing.Joins program.decls.nodes program.decls.chains longer node id list := by
  rw [filed.joinedMaster_unbound home unbound] at agreed
  cases agreed
  cases present.symm.trans (Slab.get?_pushed opened)
  have fresh : ∀ {other peer}, program.decls.nodes.get? other = some peer → peer.chain ≠ node.chain := by
    intro other peer found same
    obtain ⟨chain, listed, -⟩ := filed.chained found
    rw [same, Slab.fresh_of_push opened] at listed
    cases listed
  refine ⟨by simp [Slab.get?_modify changed, present], fun different => ?_, ?_,
    fun found same => absurd same (fresh found), last, by simp [mastered]⟩
  · simp [Slab.get?_modify changed, different, Slab.get?_of_push opened]
  · refine (Slab.select_eq_nil.mpr fun other peer found => ?_).symm
    simpa using fresh found

end Joins

/-- A declaration is filed with those that are alike. -/
theorem Filed.declare (filed : program.Filed) {node : DeclNode} {id : DeclId} {region : Region}
    {master : Option DeclId} {bound scopes : ScopeTable} {chains : Slab .chain (Array DeclId)}
    {joined : DeclTable} {nodes : Slab .decl DeclNode} (home : program.region node.home = .ok region)
    (agreed : program.joinedMaster node.home node.name node.type node.category = .ok (.ok master))
    (mastered : node.master = master.getD id)
    (chained : program.scopes.bind region.scope node.name node.type (Slab.push #[])
      program.decls.chains = .ok (node.chain, bound, chains))
    (appended : { program.decls with chains }.appendToChain node.chain id = .ok (node.position, joined))
    (made : joined.nodes.push node = .ok (id, nodes))
    (listed : bound.pushMember region.scope id = .ok scopes) :
    Filing nodes joined.chains (scopeOf? program.regions) scopes := by
  obtain ⟨list, longer, present, last, changed, rfl⟩ := appendToChain_eq_ok appended
  have placed := scopeOf?_eq home
  obtain ⟨outlines, outcome⟩ := filed.bound.bind_eq_ok chained
  rcases outcome with ⟨binds, same, indexes⟩ | ⟨unbound, opened, indexes⟩
  · have joins := filed.joins_bound home agreed mastered present last changed same binds
    refine Filing.declare filed joins made placed outlines listed (indexes.congr fun set name type chain => ?_)
    refine (or_iff_left_of_imp ?_).symm
    rintro ⟨rfl, rfl, rfl, rfl⟩
    exact binds
  · have joins := filed.joins_unbound home agreed mastered present last changed unbound opened
    exact Filing.declare filed joins made placed outlines listed indexes

theorem Change.keeps_filed (change : program.Change known after) (filed : program.Filed) :
    after.Filed := by
  cases change with
  | region opened _ _ made =>
    have filing := Filing.newRegion filed (by simp [scopeOf?, Slab.fresh_of_push made]) opened
    rw [← scopeOf?_push made] at filing
    exact filing
  | regionOwner _ _ changed =>
    rw [Filed, ← scopeOf?_modify changed fun _ => rfl] at filed
    exact filed
  | directive _ _ changed =>
    rw [Filed, ← scopeOf?_modify changed fun _ => rfl] at filed
    exact filed
  | decl _ _ home agreed mastered chained appended _ made listed =>
    have filing := filed.declare home agreed mastered chained appended made listed
    exact filing
  | refill found filled changed =>
    exact Filing.refill filed (Slab.get_eq_ok.mp found) filled changed
  | _ => exact filed

theorem Reaches.keeps_filed (reaches : program.Reaches known after) (filed : program.Filed) :
    after.Filed := by
  induction reaches with
  | refl => exact filed
  | tail _ change ih => exact change.keeps_filed ih

/-- In every program that requests lead to, all declarations are filed. -/
theorem filed_run {hash : Bytes → UInt64} {sizing : Sizing} {start : Program} {requests : List Request}
    (began : initial hash sizing = .ok start) (ran : start.run requests = .ok program) :
    program.Filed := by
  refine (run_reaches ran).keeps_filed ?_
  obtain ⟨exprs, before, -, reaches, equal⟩ := initial_reaches (fun _ => True) began
  have filed : before.Filed := reaches.keeps_filed filing_empty
  rw [equal]
  exact filed

end Program

end CanonIR
