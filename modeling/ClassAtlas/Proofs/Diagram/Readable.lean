import ClassAtlas.Proofs.Diagram.Names

/-!
# Models that a diagram can hold

A diagram keeps what a model says if names are identifiers, declared types are
in display form, literals are upper-case names of enumerations, and supertypes
are ones that the declaration accepts. The words that open the clauses of a
header cannot stand for types.
-/

namespace ClassAtlas

open Text Diagram TypeText

/-- A parameter that a diagram can hold. -/
@[mk_iff]
structure Parameter.Readable (parameter : Parameter) : Prop where
  identifier : isIdentifier parameter.name.toList = true
  type : DisplayForm parameter.declaredType.toList

/-- An attribute that a diagram can hold. -/
@[mk_iff]
structure Field.Readable (field : Field) : Prop where
  identifier : isIdentifier field.name.toList = true
  type : DisplayForm field.declaredType.toList

/-- An operation that a diagram can hold. -/
@[mk_iff]
structure Operation.Readable (operation : Operation) : Prop where
  identifier : isIdentifier operation.name.toList = true
  parameters : ∀ parameter ∈ operation.parameters, parameter.Readable
  type : DisplayForm operation.returnType.toList

instance (parameter : Parameter) : Decidable parameter.Readable :=
  decidable_of_iff' _ (Parameter.readable_iff parameter)

instance (field : Field) : Decidable field.Readable :=
  decidable_of_iff' _ (Field.readable_iff field)

instance (operation : Operation) : Decidable operation.Readable :=
  decidable_of_iff' _ (Operation.readable_iff operation)

theorem Parameter.Readable.isName {parameter : Parameter} (h : parameter.Readable) :
    IsName parameter.name.toList :=
  .of_isIdentifier h.identifier

theorem Field.Readable.isName {field : Field} (h : field.Readable) :
    IsName field.name.toList :=
  .of_isIdentifier h.identifier

theorem Operation.Readable.isName {operation : Operation} (h : operation.Readable) :
    IsName operation.name.toList :=
  .of_isIdentifier h.identifier

/-- A name that a type or supertype can have: an identifier other than the
words of header clauses. -/
def isTypeName (name : String) : Bool :=
  isIdentifier name.toList && name != "extends" && name != "implements"

theorem isName_of_isTypeName {name : String} (h : isTypeName name = true) :
    IsName name.toList := by
  simp only [isTypeName, Bool.and_eq_true] at h
  exact .of_isIdentifier h.1.1

/-- The supertypes are ones that the declaration accepts: a superclass for
classes only, extended interfaces for interfaces only, each name once, and
never the declaration itself. -/
@[mk_iff]
structure Declaration.Lawful (decl : Declaration) : Prop where
  superclass : ∀ name ∈ decl.superclass, decl.kind = .«class» ∧ name ≠ "" ∧ name ≠ decl.name
  extended : ∀ name ∈ decl.extendedInterfaces,
    decl.kind = .interface ∧ name ≠ "" ∧ name ≠ decl.name
  extended_nodup : decl.extendedInterfaces.Nodup
  implemented : ∀ name ∈ decl.implementedInterfaces, name ≠ "" ∧ name ≠ decl.name
  implemented_nodup : decl.implementedInterfaces.Nodup

/-- The names of all supertypes. -/
def Declaration.supertypeNames (decl : Declaration) : List String :=
  decl.superclass.toList ++ decl.extendedInterfaces ++ decl.implementedInterfaces

/-- A declaration that a diagram can hold. -/
@[mk_iff]
structure Declaration.Readable (decl : Declaration) : Prop where
  identifier : isTypeName decl.name = true
  supertypes : ∀ name ∈ decl.supertypeNames, isTypeName name = true
  lawful : decl.Lawful
  fields : ∀ field ∈ decl.fields, field.Readable
  operations : ∀ operation ∈ decl.operations, operation.Readable
  literals : ∀ literal ∈ decl.literals,
    decl.kind = .enumeration ∧ isLiteralName literal.toList = true
  literals_nodup : decl.literals.Nodup
  abstract_class : decl.isAbstract = true → decl.kind = .«class»

instance (decl : Declaration) : Decidable decl.Lawful :=
  decidable_of_iff' _ (Declaration.lawful_iff decl)

instance (decl : Declaration) : Decidable decl.Readable :=
  decidable_of_iff' _ (Declaration.readable_iff decl)

end ClassAtlas
