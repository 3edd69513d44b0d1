import CanonIR.Proofs.DeclarationRoom
import CanonIR.Proofs.SumsAndProducts

/-! Requests for structural keys. A run answers all requests for one key with one node: the
first one makes it, where there is room for it, and whatever else is asked in between, it
keeps the key. -/

namespace CanonIR.Program

variable {program : Program} {key : Key}

/-! ### Room -/

section Room

variable (canonical : program.Canonical) (tallied : program.Tallied)
  (numbers : program.census.next + 1 < positionLimit)

include canonical tallied numbers

theorem exists_answerName (kind : NameKind) : ∃ ref after,
    (answerName (nameOf kind)).run.run program = .ok (.ok (.node ref), after) := by
  have fits : program.names.nodes.size < positionLimit :=
    Nat.lt_of_le_of_lt (Nat.le_add_left ..) (tallied.fits numbers .name (Nat.le_refl _))
  obtain ⟨id, names, census, given⟩ := NameTable.exists_canonical canonical.names numbers fits kind
  have named := nameOf_eq_ok.mpr ⟨names, census, given, rfl⟩
  exact ⟨.name id, _, Build.run_edit_bind.mpr ⟨id, _, named, rfl⟩⟩

theorem exists_answerType {kind : TypeKind} (simple : kind.isSimple) : ∃ ref after,
    (answerType (liftM (typeOf kind))).run.run program = .ok (.ok (.node ref), after) := by
  obtain ⟨id, types, census, given⟩ := TypeTable.exists_canonical canonical.types numbers
    (tallied.fits numbers .type (by decide)) (TypeKind.structural_of_isSimple simple)
  have typed := typeOf_eq_ok.mpr ⟨types, census, given, rfl⟩
  exact ⟨.type id, _, Build.run_edit_bind.mpr ⟨id, _, typed, rfl⟩⟩

theorem exists_answerLiteral (type : TypeId) (text : Symbol) : ∃ ref after,
    (answerExpr (literal type text)).run.run program = .ok (.ok (.node ref), after) := by
  obtain ⟨id, exprs, census, given⟩ :=
    ExprTable.exists_literal canonical.exprs numbers (tallied.fits numbers .expr (by decide)) type text
  have spelled := literal_eq_ok.mpr ⟨exprs, census, given, rfl⟩
  exact ⟨.expr id, _, Build.run_edit_bind.mpr ⟨id, _, spelled, rfl⟩⟩

/-- With a number left for a node and a handle for a list of terms, every request for a key is
granted. A list of types needs no room of its own. -/
theorem exists_respond (few : program.types.FewLists) (lists : program.names.terms.size < positionLimit)
    {request : Request} (asked : program.key? request = some key) :
    ∃ ref after, program.respond request = .ok (.ok (.node ref), after) := by
  cases request with
  | identifier | operator | suffix | conversion | typeName | constructorName | destructorName
  | qualifiedName =>
    exact exists_answerName canonical tallied numbers _
  | templateId template args =>
    obtain ⟨id, after, made⟩ := exists_templateId canonical tallied numbers lists template args
    exact ⟨.name id, after, Build.run_edit_bind.mpr ⟨id, after, made, rfl⟩⟩
  | pointer | reference | rvalueReference | array | functionType | pointerToMember | templateType
  | decltype | namedType =>
    exact exists_answerType canonical tallied numbers rfl
  | qualified =>
    obtain ⟨qualifying, node, found, -⟩ := key?_qualified.mp asked
    obtain ⟨id, after, given⟩ := respond_qualified canonical tallied numbers qualifying found
    exact ⟨.type id, after, given⟩
  | product types =>
    obtain ⟨id, after, given⟩ :=
      exists_answerCombined canonical tallied few numbers TypeKind.structural_product types
    exact ⟨.type id, after, given⟩
  | sum types =>
    obtain ⟨id, after, given⟩ :=
      exists_answerCombined canonical tallied few numbers TypeKind.structural_sum (ascending types)
    exact ⟨.type id, after, given⟩
  | literal type text =>
    exact exists_answerLiteral canonical tallied numbers type text
  | _ => cases asked

end Room

/-! ### Runs -/

/-- In every program that requests lead to, equal nodes are one node. A request for a key
gives the node that has it and makes one only if there is none; it is granted where a number
for the node and a handle for a list are left. Whatever is asked after that, the node keeps
its key, and every later request for the key gives the same node and makes nothing. -/
theorem canonical_requests {hash : Bytes → UInt64} {sizing : Sizing} {start : Program}
    {requests : List Request} (began : initial hash sizing = .ok start)
    (ran : start.run requests = .ok program) :
    program.OneNodePerKey ∧
      ∀ request key, program.key? request = some key →
        program.Provides key (program.respond request) ∧
        (program.census.next + 1 < positionLimit → program.names.terms.size < positionLimit →
          ∃ ref after, program.respond request = .ok (.ok (.node ref), after)) ∧
        ∀ ref after, program.respond request = .ok (.ok (.node ref), after) →
          ∀ later last, after.run later = .ok last →
            last.Bears key ref ∧ last.key? request = some key ∧
              ∀ again, last.key? again = some key →
                ∃ final, last.respond again = .ok (.ok (.node ref), final) ∧
                  ∀ group, final.nodeCount group = last.nodeCount group := by
  have initially := canonical_initial began
  have reaches := run_reaches ran
  obtain ⟨canonical, -⟩ := reaches.keeps_canonical initially
  have tallied := reaches.keeps_tallied (tallied_initial began)
  have few := reaches.keeps_fewLists initially (fewLists_initial began)
  refine ⟨canonical.oneNodePerKey, fun request key asked => ?_⟩
  have provides := provides_respond canonical asked
  refine ⟨provides, fun numbers lists => exists_respond canonical tallied numbers few lists asked,
    fun ref after responded later last continued => ?_⟩
  obtain ⟨middle, first⟩ := (respond_reaches responded).keeps_canonical canonical
  obtain ⟨final, second⟩ := (run_reaches continued).keeps_canonical middle
  have bears : last.Bears key ref := (provides.bears first responded).kept second
  refine ⟨bears, key?_kept (first.trans second) asked, fun again repeated => ?_⟩
  exact (provides_respond final repeated).known bears

/-- A sum that is asked for three times, each time in another way. In between an
enumeration is made and completed. -/
theorem canonical_requests_sum :
    ∃ (start program after last final : Program) (ref : NodeRef),
      initial (fun _ => 0) {} = .ok start ∧
      start.run [.sum [⟨11⟩, ⟨1⟩], .newEnum .global] = .ok program ∧
      program.respond (.sum [⟨1⟩, ⟨11⟩, ⟨1⟩]) = .ok (.ok (.node ref), after) ∧
      after.run [.setUnderlyingType ⟨34⟩ ⟨11⟩, .pointer ⟨34⟩] = .ok last ∧
      last.Bears (.sum [⟨1⟩, ⟨11⟩].toFinset) ref ∧
      last.respond (.sum [⟨11⟩, ⟨11⟩, ⟨1⟩]) = .ok (.ok (.node ref), final) ∧
      ∀ group, final.nodeCount group = last.nodeCount group := by
  have performed : (do
      let start ← initial (fun _ => 0) {}
      let program ← start.run [.sum [⟨11⟩, ⟨1⟩], .newEnum .global]
      match ← program.respond (.sum [⟨1⟩, ⟨11⟩, ⟨1⟩]) with
      | (.ok (.node _), after) => after.run [.setUnderlyingType ⟨34⟩ ⟨11⟩, .pointer ⟨34⟩]
      | _ => .error .outOfRange : Checked Program).isOk := by decide +kernel
  obtain ⟨last, performed⟩ := Checked.exists_of_isOk performed
  obtain ⟨start, began, rest⟩ := Checked.bind_eq_ok.mp performed
  obtain ⟨program, ran, rest⟩ := Checked.bind_eq_ok.mp rest
  obtain ⟨⟨outcome, after⟩, responded, rest⟩ := Checked.bind_eq_ok.mp rest
  split at rest
  next ref _ equal =>
    cases equal
    have set : [⟨1⟩, ⟨11⟩, ⟨1⟩].toFinset = ([⟨1⟩, ⟨11⟩] : List TypeId).toFinset := by decide
    obtain ⟨-, requests⟩ := canonical_requests began ran
    obtain ⟨-, -, later⟩ := requests (.sum [⟨1⟩, ⟨11⟩, ⟨1⟩]) _ (congrArg (some ∘ Key.sum) set)
    obtain ⟨bears, -, same⟩ := later ref after responded _ last rest
    obtain ⟨final, repeated, counts⟩ := same (.sum [⟨11⟩, ⟨11⟩, ⟨1⟩])
      (congrArg (some ∘ Key.sum) (by decide))
    exact ⟨start, program, after, last, final, ref, began, ran, responded, rest, bears, repeated,
      counts⟩
  · cases rest

end CanonIR.Program
