import CanonIR.Proofs.DeclarationTables

/-! Chains of declarations. A declaration and its chain agree on each other, and the
index of its scope leads back to the chain. -/

namespace CanonIR.Program

variable {program : Program}

/-- Declarations and chains, as they are read, tell the same. -/
structure ChainsCohere (program : Program) : Prop where
  /-- A declaration is in one chain and there at one index, both of which it records. -/
  place : ∀ {id node chain list index}, program.declNode id = .ok node → program.chain chain = .ok list →
    (list[index]? = some id ↔ chain = node.chain ∧ index = node.position)
  master : ∀ {id node}, program.declNode id = .ok node →
    ∃ list, program.chain node.chain = .ok list ∧ list[0]? = some node.master
  isMaster : ∀ {id node}, program.declNode id = .ok node → (node.isMaster ↔ node.master = id)
  alike : ∀ {id other node list}, program.declNode id = .ok node → program.chain node.chain = .ok list →
    other ∈ list → ∃ peer, program.declNode other = .ok peer ∧ peer.name = node.name ∧
      peer.type = node.type ∧ peer.home = node.home ∧ peer.category = node.category
  ascending : ∀ {chain list}, program.chain chain = .ok list →
    list ≠ [] ∧ list.Pairwise fun first second => first.raw < second.raw
  found : ∀ {id node}, program.declNode id = .ok node → ∃ region overload set,
    program.region node.home = .ok region ∧
    program.scopeLookup region.scope node.name = .ok (some overload) ∧
    program.overload overload = .ok set ∧ set.entries.get? node.type = .ok (some node.chain)
  joined : ∀ {id other node peer}, program.declNode id = .ok node → program.declNode other = .ok peer →
    peer.home = node.home → peer.name = node.name → peer.type = node.type → peer.chain = node.chain

theorem chain_eq_ok {chain : ChainId} {list : List DeclId} : program.chain chain = .ok list ↔
    ∃ members, program.decls.chains.get? chain = some members ∧ list = members.toList := by
  apply Checked.bind_eq_ok.trans
  simp [Slab.get_eq_ok, @eq_comm _ _ list]

theorem Filed.ascending (filed : program.Filed) {chain : ChainId} {list : List DeclId}
    (listed : program.chain chain = .ok list) :
    list ≠ [] ∧ list.Pairwise fun first second => first.raw < second.raw := by
  obtain ⟨members, present, rfl⟩ := chain_eq_ok.mp listed
  obtain ⟨exact, nonempty⟩ := filed.lists present
  refine ⟨by simpa using nonempty, ?_⟩
  rw [exact]
  exact Slab.select_ascends

theorem Filed.place (filed : program.Filed) {id : DeclId} {node : DeclNode} {chain : ChainId}
    {list : List DeclId} {index : Nat} (found : program.declNode id = .ok node)
    (listed : program.chain chain = .ok list) :
    list[index]? = some id ↔ chain = node.chain ∧ index = node.position := by
  have distinct : list.Nodup := (filed.ascending listed).2.imp fun lower same => by simp [same] at lower
  obtain ⟨members, present, rfl⟩ := chain_eq_ok.mp listed
  obtain ⟨own, there, position, -⟩ := filed.chained (Slab.get_eq_ok.mp found)
  constructor
  · intro here
    have member := List.mem_of_getElem? here
    rw [(filed.lists present).1] at member
    obtain ⟨same, again, joined⟩ := Slab.mem_select.mp member
    cases again.symm.trans (Slab.get_eq_ok.mp found)
    obtain rfl : node.chain = chain := by simpa using joined
    cases present.symm.trans there
    refine ⟨rfl, ?_⟩
    have inside := (List.getElem?_eq_some_iff.mp here).1
    exact (List.getElem?_inj inside distinct).mp (by simp [here, position])
  · rintro ⟨rfl, rfl⟩
    cases present.symm.trans there
    simpa using position

/-- The index of a scope leads to the chain of each declaration in its region. -/
theorem Filed.binds (filed : program.Filed) {id : DeclId} {node : DeclNode}
    (found : program.declNode id = .ok node) :
    ∃ region entry, program.region node.home = .ok region ∧
      program.scopes.scopes.get? region.scope = some entry ∧
      program.Binds region.scope node.name node.type node.chain := by
  have there := Slab.get_eq_ok.mp found
  obtain ⟨scope, opened⟩ := filed.homes there
  obtain ⟨region, present, rfl⟩ := Option.map_eq_some_iff.mp opened
  have here : program.region node.home = .ok region := Slab.get_eq_ok.mpr present
  obtain ⟨entry, placed⟩ := filed.exists_scope here
  exact ⟨region, entry, here, placed, id, node, there, opened, rfl, rfl, rfl⟩

theorem Filed.chainsCohere (filed : program.Filed) : program.ChainsCohere where
  place := filed.place
  master found := by
    obtain ⟨members, present, -, first⟩ := filed.chained (Slab.get_eq_ok.mp found)
    exact ⟨members.toList, chain_eq_ok.mpr ⟨members, present, rfl⟩, by simpa using first⟩
  isMaster {id node} found := by
    obtain ⟨members, present, position, first⟩ := filed.chained (Slab.get_eq_ok.mp found)
    have listed : program.chain node.chain = .ok members.toList :=
      chain_eq_ok.mpr ⟨members, present, rfl⟩
    simp only [DeclNode.isMaster, decide_eq_true_eq]
    constructor
    · intro zero
      rw [zero] at position
      exact Option.some.inj (first.symm.trans position)
    · intro same
      have zero : members.toList[0]? = some id := by simpa [same] using first
      exact ((filed.place found listed).mp zero).2.symm
  alike found listed member := by
    obtain ⟨members, present, rfl⟩ := chain_eq_ok.mp listed
    rw [(filed.lists present).1] at member
    obtain ⟨peer, there, joined⟩ := Slab.mem_select.mp member
    have same := filed.peers (Slab.get_eq_ok.mp found) there (by simpa using joined)
    simp only [DeclNode.subject, Prod.mk.injEq] at same
    exact ⟨peer, Slab.get_eq_ok.mpr there, same.2.1, same.2.2.1, same.1, same.2.2.2⟩
  ascending := filed.ascending
  found found := by
    obtain ⟨region, entry, here, placed, binds⟩ := filed.binds found
    obtain ⟨id, overload, looked, present, leads⟩ := filed.bound.exists_overload placed binds
    exact ⟨region, id, overload, here, looked, Slab.get_eq_ok.mpr present, leads⟩
  joined found other home name type := by
    obtain ⟨region, entry, here, placed, binds⟩ := filed.binds found
    obtain ⟨_, _, again, -, alike⟩ := filed.binds other
    rw [home, here] at again
    cases again
    rw [name, type] at alike
    exact filed.bound.chain_unique placed alike binds

/-- In every program that requests lead to, declarations and chains cohere. -/
theorem coherent_chains {hash : Bytes → UInt64} {sizing : Sizing} {start : Program}
    {requests : List Request} (began : initial hash sizing = .ok start)
    (ran : start.run requests = .ok program) : program.ChainsCohere :=
  (filed_run began ran).chainsCohere

/-- A variable that is declared twice, with a namesake of another type in between. -/
theorem coherent_chains_twice : ∃ start program : Program,
    initial (fun _ => 0) {} = .ok start ∧
    start.run [.intern (.ofString "x"), .identifier (.entry 0), .declareVar .global ⟨0⟩ ⟨11⟩ .empty,
      .declareVar .global ⟨0⟩ ⟨12⟩ .empty, .declareVar .global ⟨0⟩ ⟨11⟩ .empty] = .ok program ∧
    program.chain ⟨0⟩ = .ok [⟨0⟩, ⟨2⟩] ∧ program.chain ⟨1⟩ = .ok [⟨1⟩] ∧ program.ChainsCohere := by
  have performed : (do
      let start ← initial (fun _ => 0) {}
      let program ← start.run [.intern (.ofString "x"), .identifier (.entry 0),
        .declareVar .global ⟨0⟩ ⟨11⟩ .empty, .declareVar .global ⟨0⟩ ⟨12⟩ .empty,
        .declareVar .global ⟨0⟩ ⟨11⟩ .empty]
      if (← program.chain ⟨0⟩) = [⟨0⟩, ⟨2⟩] ∧ (← program.chain ⟨1⟩) = [⟨1⟩] then return program
      else .error .outOfRange : Checked Program).isOk := by decide +kernel
  obtain ⟨program, performed⟩ := Checked.exists_of_isOk performed
  obtain ⟨start, began, rest⟩ := Checked.bind_eq_ok.mp performed
  obtain ⟨program, ran, rest⟩ := Checked.bind_eq_ok.mp rest
  obtain ⟨first, one, rest⟩ := Checked.bind_eq_ok.mp rest
  obtain ⟨second, two, rest⟩ := Checked.bind_eq_ok.mp rest
  split at rest
  next same =>
    obtain ⟨rfl, rfl⟩ := same
    exact ⟨start, program, began, ran, one, two, coherent_chains began ran⟩
  · cases rest

end CanonIR.Program
