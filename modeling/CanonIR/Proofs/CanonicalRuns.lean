import CanonIR.Proofs.CanonicalTables
import CanonIR.Proofs.RequestChanges

/-! Every change keeps the tables of a program canonical and loses nothing that could be
read, and so does every run. -/

namespace CanonIR

theorem NameKind.list?_of_isSimple {kind : NameKind} (simple : kind.isSimple) : kind.list? = none := by
  cases kind <;> first | rfl | cases simple

theorem TypeKind.list?_of_isSimple {kind : TypeKind} (simple : kind.isSimple) : kind.list? = none := by
  cases kind <;> first | rfl | cases simple

theorem TypeKind.structural_of_isSimple {kind : TypeKind} (simple : kind.isSimple) :
    kind.IsStructural := by
  cases kind with
  | builtin | qualified | product | sum | classType | unionType | enumType | namespaceType => cases simple
  | _ => exact ⟨rfl, nofun⟩

theorem TypeKind.structural_qualifiedWith (qualifiers : Qualifiers) (main : TypeId)
    (kind : TypeKind) : (kind.qualifiedWith qualifiers main).IsStructural := by
  cases kind <;> exact ⟨rfl, nofun⟩

theorem TypeKind.list?_qualifiedWith (qualifiers : Qualifiers) (main : TypeId) (kind : TypeKind) :
    (kind.qualifiedWith qualifiers main).list? = none := by
  cases kind <;> rfl

theorem TypeKind.structural_product (list : TypeListId) : (TypeKind.product list).IsStructural :=
  ⟨rfl, nofun⟩

theorem TypeKind.structural_sum (list : TypeListId) : (TypeKind.sum list).IsStructural :=
  ⟨rfl, nofun⟩

namespace Program

variable {known : Answer → Prop} {program after : Program}

/-- Names, structural types and literals are one node for one key. -/
structure Canonical (program : Program) : Prop where
  names : program.names.Canonical
  types : program.types.Canonical
  exprs : program.exprs.Canonical

/-- What `program` knows, `after` knows. -/
structure Extends (program after : Program) : Prop where
  names : program.names.Extends after.names
  types : program.types.Extends after.types
  exprs : program.exprs.Extends after.exprs

theorem Extends.refl (program : Program) : program.Extends program := ⟨.refl _, .refl _, .refl _⟩

theorem Extends.trans {first second third : Program} (earlier : first.Extends second)
    (later : second.Extends third) : first.Extends third :=
  ⟨earlier.names.trans later.names, earlier.types.trans later.types,
    earlier.exprs.trans later.exprs⟩

theorem Change.keeps_canonical (change : program.Change known after) (canonical : program.Canonical) :
    after.Canonical ∧ program.Extends after := by
  obtain ⟨names, types, exprs⟩ := canonical
  cases change with
  | strings | region | regionOwner | stmt | blockEnd | directive | decl | refill | specialization =>
    exact ⟨⟨names, types, exprs⟩, .refl _, .refl _, .refl _⟩
  | name simple _ given =>
    have unlisted := NameKind.list?_of_isSimple simple
    obtain ⟨kept, larger, -⟩ := NameTable.canonical_eq_ok names
      (fun refers => nomatch unlisted.symm.trans refers) given
    exact ⟨⟨kept, types, exprs⟩, larger, .refl _, .refl _⟩
  | terms listed =>
    obtain ⟨kept, larger, -⟩ := NameTable.keepTerms_eq_ok names listed
    exact ⟨⟨kept, types, exprs⟩, larger, .refl _, .refl _⟩
  | templateId _ listed given =>
    obtain ⟨kept, larger, -⟩ := NameTable.templateId_eq_ok names listed given
    exact ⟨⟨kept, types, exprs⟩, larger, .refl _, .refl _⟩
  | simpleType simple _ given =>
    have unlisted := TypeKind.list?_of_isSimple simple
    obtain ⟨kept, larger, -⟩ := TypeTable.canonical_eq_ok types
      (TypeKind.structural_of_isSimple simple) (fun refers => nomatch unlisted.symm.trans refers) given
    exact ⟨⟨names, kept, exprs⟩, .refl _, larger, .refl _⟩
  | qualifiedType _ _ given =>
    have unlisted := TypeKind.list?_qualifiedWith
    obtain ⟨kept, larger, -⟩ := TypeTable.canonical_eq_ok types
      (TypeKind.structural_qualifiedWith ..) (fun refers => nomatch (unlisted ..).symm.trans refers) given
    exact ⟨⟨names, kept, exprs⟩, .refl _, larger, .refl _⟩
  | product _ listed given =>
    obtain ⟨kept, larger, -⟩ := TypeTable.combined_eq_ok types TypeKind.structural_product
      (fun _ => rfl) listed given
    exact ⟨⟨names, kept, exprs⟩, .refl _, larger, .refl _⟩
  | sum _ listed given =>
    obtain ⟨kept, larger, -⟩ := TypeTable.combined_eq_ok types TypeKind.structural_sum
      (fun _ => rfl) listed given
    exact ⟨⟨names, kept, exprs⟩, .refl _, larger, .refl _⟩
  | userType owning given =>
    obtain ⟨kept, larger⟩ := TypeTable.fresh_eq_ok types owning given
    exact ⟨⟨names, kept, exprs⟩, .refl _, larger, .refl _⟩
  | base =>
    exact ⟨⟨names, ⟨types.covers, types.sound, types.issued⟩, exprs⟩, .refl _,
      ⟨(TypeTable.Extends.refl _).nodes, fun read => read⟩, .refl _⟩
  | underlyingType found changed =>
    obtain ⟨kept, larger⟩ := TypeTable.modify_eq_ok types found changed
    exact ⟨⟨names, kept, exprs⟩, .refl _, larger, .refl _⟩
  | literal _ given =>
    obtain ⟨kept, larger, -⟩ := ExprTable.literal_eq_ok exprs given
    exact ⟨⟨names, types, kept⟩, .refl _, .refl _, larger⟩
  | expr distinct given =>
    obtain ⟨kept, larger⟩ := ExprTable.fresh_eq_ok exprs distinct given
    exact ⟨⟨names, types, kept⟩, .refl _, .refl _, larger⟩
  | exprs listed =>
    obtain ⟨_, -, equal⟩ := Checked.bind_eq_ok.mp listed
    cases equal
    exact ⟨⟨names, types, ⟨exprs.covers, exprs.typed⟩⟩, .refl _, .refl _,
      ⟨(ExprTable.Extends.refl _).nodes⟩⟩
  | exprType found untyped changed =>
    obtain ⟨kept, larger⟩ := ExprTable.modify_eq_ok exprs found untyped changed
    exact ⟨⟨names, types, kept⟩, .refl _, .refl _, larger⟩

theorem Reaches.keeps_canonical (reaches : program.Reaches known after) (canonical : program.Canonical) :
    after.Canonical ∧ program.Extends after := by
  induction reaches with
  | refl => exact ⟨canonical, .refl _⟩
  | tail _ change ih =>
    obtain ⟨kept, earlier⟩ := ih
    obtain ⟨canonical, later⟩ := change.keeps_canonical kept
    exact ⟨canonical, earlier.trans later⟩

theorem canonical_initial {hash : Bytes → UInt64} {sizing : Sizing}
    (began : initial hash sizing = .ok program) : program.Canonical := by
  obtain ⟨exprs, before, seeded, reaches, equal⟩ := initial_reaches (fun _ => True) began
  obtain ⟨⟨names, types, exprs⟩, -⟩ := reaches.keeps_canonical
    ⟨NameTable.canonical_empty, TypeTable.canonical_empty, ExprTable.canonical_initial seeded⟩
  rw [equal]
  exact ⟨names, types, exprs⟩

end Program

end CanonIR
