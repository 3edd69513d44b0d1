import CanonIR.Proofs.CanonicalTables
import CanonIR.Proofs.ScopeTables

/-! How tables grow. Entries stay where and what they are. A request for a canonical node
finds it and changes nothing, or enrols a new one and puts it at the end of its table;
which of the two it did is what is counted. No law of an index is needed for that. -/

namespace CanonIR

variable {α : Type} {table : Table}

namespace Slab

/-- Every entry is where it was, as it was. -/
def Extends (slab after : Slab table α) : Prop :=
  ∀ ⦃handle item⦄, slab.get? handle = some item → after.get? handle = some item

theorem Extends.refl (slab : Slab table α) : slab.Extends slab := fun _ _ found => found

theorem Extends.of_eq {slab after : Slab table α} (same : after = slab) : slab.Extends after :=
  same ▸ .refl after

theorem Extends.trans {first second third : Slab table α} (earlier : first.Extends second)
    (later : second.Extends third) : first.Extends third :=
  fun _ _ found => later (earlier found)

theorem extends_push {slab after : Slab table α} {handle : Handle table} {item : α}
    (pushed : slab.push item = .ok (handle, after)) : slab.Extends after :=
  fun _ _ found => get?_kept pushed found

/-- One node more: it was enrolled in the census, and it was put at the end of its table. -/
def Enrols (slab : Slab table α) (census : Census) (category : Category) (node : NodeId → α)
    (after : Slab table α) (counted : Census) : Prop :=
  ∃ number handle, census.enroll category = .ok (number, counted) ∧
    slab.push (node number) = .ok (handle, after)

theorem enrols {slab after : Slab table α} {census counted : Census} {category : Category}
    {node : NodeId → α} {handle : Handle table} (made : (do
      let (number, census) ← census.enroll category
      let (id, nodes) ← slab.push (node number)
      return (id, nodes, census) : Checked (Handle table × Slab table α × Census)) =
        .ok (handle, after, counted)) : slab.Enrols census category node after counted := by
  obtain ⟨number, enrolled, pushed⟩ := enrolled_parts made
  exact ⟨number, handle, enrolled, pushed⟩

theorem Enrols.extends {slab after : Slab table α} {census counted : Census} {category : Category}
    {node : NodeId → α} (enrols : slab.Enrols census category node after counted) : slab.Extends after := by
  obtain ⟨number, handle, -, pushed⟩ := enrols
  exact extends_push pushed

end Slab

namespace NameTable

variable {names after : NameTable} {kind : NameKind} {id : NameId} {census counted : Census}

theorem canonical_cases (given : names.canonical kind census = .ok (id, after, counted)) :
    after = names ∧ counted = census.countRequest .name false ∨
      ∃ enrolled, names.nodes.Enrols census kind.category (⟨·, kind⟩) after.nodes enrolled ∧
        counted = enrolled.countRequest .name true := by
  obtain ⟨⟨⟨_, fresh⟩, index, nodes, enrolled⟩, asked, equal⟩ := Checked.bind_eq_ok.mp given
  cases equal
  rcases Index.getOrMake_cases asked with ⟨rfl, rfl, same⟩ | ⟨rfl, handle, made⟩
  · cases same
    exact .inl ⟨rfl, rfl⟩
  · exact .inr ⟨enrolled, Slab.enrols made, rfl⟩

theorem canonical_extends (given : names.canonical kind census = .ok (id, after, counted)) :
    names.nodes.Extends after.nodes := by
  rcases canonical_cases given with ⟨rfl, -⟩ | ⟨enrolled, enrols, -⟩
  · exact .refl _
  · exact enrols.extends

theorem keepTerms_nodes {terms : List Term} {list : TermListId}
    (kept : names.keepTerms terms = .ok (list, after)) : after.nodes = names.nodes := by
  obtain ⟨_, -, equal⟩ := Checked.bind_eq_ok.mp kept
  cases equal
  rfl

end NameTable

namespace TypeTable

variable {types after : TypeTable} {kind : TypeKind} {id : TypeId} {census counted : Census}

theorem canonical_cases (made : kind.category ≠ .builtin)
    (given : types.canonical kind census = .ok (id, after, counted)) :
    after = types ∧ counted = census.countRequest .type false ∨
      ∃ enrolled, types.nodes.Enrols census kind.category (⟨·, kind⟩) after.nodes enrolled ∧
        counted = enrolled.countRequest .type true := by
  rw [canonical_eq made] at given
  obtain ⟨⟨⟨_, fresh⟩, index, nodes, enrolled⟩, asked, equal⟩ := Checked.bind_eq_ok.mp given
  cases equal
  rcases Index.getOrMake_cases asked with ⟨rfl, rfl, same⟩ | ⟨rfl, handle, made⟩
  · cases same
    exact .inl ⟨rfl, rfl⟩
  · exact .inr ⟨enrolled, Slab.enrols made, rfl⟩

theorem canonical_extends (given : types.canonical kind census = .ok (id, after, counted)) :
    types.nodes.Extends after.nodes := by
  by_cases builtin : kind.category = .builtin
  · cases kind with
    | builtin fundamental =>
      cases given
      exact .refl _
    | _ => cases builtin
  · rcases canonical_cases builtin given with ⟨rfl, -⟩ | ⟨enrolled, enrols, -⟩
    · exact .refl _
    · exact enrols.extends

theorem fresh_parts (given : types.fresh kind census = .ok (id, after, counted)) :
    ∃ number, census.enroll kind.category = .ok (number, counted) ∧
      types.nodes.push ⟨number, kind⟩ = .ok (id, after.nodes) := by
  obtain ⟨⟨_, nodes, _⟩, made, equal⟩ := Checked.bind_eq_ok.mp given
  cases equal
  exact enrolled_parts made

theorem fresh_enrols (given : types.fresh kind census = .ok (id, after, counted)) :
    types.nodes.Enrols census kind.category (⟨·, kind⟩) after.nodes counted := by
  obtain ⟨number, enrolled, pushed⟩ := fresh_parts given
  exact ⟨number, id, enrolled, pushed⟩

theorem keepList_nodes {members : List TypeId} {list : TypeListId}
    (kept : types.keepList members = .ok (list, after)) : after.nodes = types.nodes := by
  obtain ⟨_, -, equal⟩ := Checked.bind_eq_ok.mp kept
  cases equal
  rfl

end TypeTable

namespace ExprTable

variable {exprs after : ExprTable} {id : ExprId} {census counted : Census}

theorem literal_cases {type : TypeId} {text : Symbol}
    (given : exprs.literal type text census = .ok (id, after, counted)) :
    after = exprs ∧ counted = census.countRequest .expr false ∨
      ∃ enrolled, exprs.nodes.Enrols census .literal (⟨·, .literal type text, some type⟩) after.nodes enrolled ∧
        counted = enrolled.countRequest .expr true := by
  obtain ⟨⟨⟨_, fresh⟩, literals, nodes, enrolled⟩, asked, equal⟩ := Checked.bind_eq_ok.mp given
  cases equal
  rcases Index.getOrMake_cases asked with ⟨rfl, rfl, same⟩ | ⟨rfl, handle, made⟩
  · cases same
    exact .inl ⟨rfl, rfl⟩
  · exact .inr ⟨enrolled, Slab.enrols made, rfl⟩

theorem literal_extends {type : TypeId} {text : Symbol}
    (given : exprs.literal type text census = .ok (id, after, counted)) :
    exprs.nodes.Extends after.nodes := by
  rcases literal_cases given with ⟨rfl, -⟩ | ⟨enrolled, enrols, -⟩
  · exact .refl _
  · exact enrols.extends

theorem fresh_enrols {kind : ExprKind} {type : Option TypeId}
    (given : exprs.fresh kind type census = .ok (id, after, counted)) :
    exprs.nodes.Enrols census kind.category (⟨·, kind, type⟩) after.nodes counted := by
  obtain ⟨⟨_, nodes, _⟩, made, equal⟩ := Checked.bind_eq_ok.mp given
  cases equal
  exact Slab.enrols made

theorem keepList_nodes {members : List ExprId} {list : ExprListId}
    (kept : exprs.keepList members = .ok (list, after)) : after.nodes = exprs.nodes := by
  obtain ⟨_, -, equal⟩ := Checked.bind_eq_ok.mp kept
  cases equal
  rfl

end ExprTable

/-- Binding a name changes no members. -/
theorem ScopeTable.outline?_bind {σ : Type} {scopes after : ScopeTable} {scope : ScopeId} {name : NameId}
    {type : TypeId} {newChain : σ → Checked (ChainId × σ)} {state final : σ} {chain : ChainId}
    (bound : scopes.bind scope name type newChain state = .ok (chain, after, final)) (other : ScopeId) :
    after.outline? other = scopes.outline? other := by
  obtain ⟨entry, -, bound⟩ := Checked.bind_eq_ok.mp bound
  obtain ⟨⟨⟨id, _⟩, names, opened⟩, -, bound⟩ := Checked.bind_eq_ok.mp bound
  obtain ⟨slab, changed, bound⟩ := Checked.bind_eq_ok.mp bound
  obtain ⟨overload, -, bound⟩ := Checked.bind_eq_ok.mp bound
  obtain ⟨⟨⟨_, _⟩, types, _⟩, -, bound⟩ := Checked.bind_eq_ok.mp bound
  obtain ⟨overloads, -, equal⟩ := Checked.bind_eq_ok.mp bound
  cases equal
  exact outline?_congr changed (fun _ => ⟨rfl, rfl⟩) other

end CanonIR
