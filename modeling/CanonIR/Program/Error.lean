import CanonIR.Node.Category
import CanonIR.Node.Flags
import CanonIR.Node.Reference

/-! Why a request to build part of a program was turned down. -/

namespace CanonIR

inductive BuildError where
  | emptyQualifiers
  | conflictingSpecifiers (specifiers : Specifiers)
  /-- A field that can be filled once was filled before. -/
  | alreadySet (field : String) (node : NodeRef)
  | noSuchField (field : String) (category : Category)
  | regionOwned (region : RegionId) (owner : RegionOwner)
  /-- The same name and type were declared as something else. -/
  | incompatibleRedeclaration (name : NameId) (existing new : Category)
  | notATemplate (decl : DeclId)
  | notAClass (type : TypeId)
  | notAUserType (type : TypeId)
  | notANamespace (type : TypeId)
  | notAnEnum (type : TypeId)
  | notAFunction (decl : DeclId)
  | notABlock (stmt : StmtId)
  | intern (error : InternError)
  deriving DecidableEq

def BuildError.label : BuildError → String
  | .emptyQualifiers => "EmptyQualifiers"
  | .conflictingSpecifiers _ => "ConflictingSpecifiers"
  | .alreadySet .. => "AlreadySet"
  | .noSuchField .. => "NoSuchField"
  | .regionOwned .. => "RegionOwned"
  | .incompatibleRedeclaration .. => "IncompatibleRedeclaration"
  | .notATemplate _ => "NotATemplate"
  | .notAClass _ => "NotAClass"
  | .notAUserType _ => "NotAUserType"
  | .notANamespace _ => "NotANamespace"
  | .notAnEnum _ => "NotAnEnum"
  | .notAFunction _ => "NotAFunction"
  | .notABlock _ => "NotABlock"
  | .intern _ => "Intern"

def BuildError.message : BuildError → String
  | .emptyQualifiers => "qualified type needs at least one qualifier"
  | .conflictingSpecifiers specifiers =>
    s!"conflicting declaration specifiers: {specifiers.describe}"
  | .alreadySet field node => s!"{field} of {node.describe} is already set"
  | .noSuchField field category => s!"{category.label} nodes have no {field}"
  | .regionOwned region owner =>
    s!"region {region.describe} is already owned by {owner.toRef.describe}"
  | .incompatibleRedeclaration name existing new =>
    s!"{name.describe} redeclared as {new.label}, previously declared as {existing.label}"
  | .notATemplate decl => s!"{decl.describe} is not a template"
  | .notAClass type => s!"{type.describe} is not a class type"
  | .notAUserType type => s!"{type.describe} is not a user-defined type"
  | .notANamespace type => s!"{type.describe} is not a namespace type"
  | .notAnEnum type => s!"{type.describe} is not an enum type"
  | .notAFunction decl => s!"{decl.describe} is not a function declaration"
  | .notABlock stmt => s!"{stmt.describe} is not a block statement"
  | .intern error => error.message

end CanonIR
