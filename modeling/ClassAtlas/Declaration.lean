/-!
# Declared types

A model is made of declarations: classes, interfaces and enumerations with
their members, literals and supertypes. Supertypes are kept by name. A class
has at most one superclass, only interfaces extend interfaces, and no type is
its own supertype; the functions that add supertypes refuse anything else.
-/

namespace ClassAtlas

/-- The kinds of declared types. -/
inductive TypeKind where
  | «class»
  | interface
  | enumeration
  deriving DecidableEq, Repr, Inhabited

namespace TypeKind

/-- The word that declares a type of this kind. -/
def keyword : TypeKind → String
  | «class» => "class"
  | interface => "interface"
  | enumeration => "enum"

/-- The kind that a word declares. -/
def ofKeyword? : String → Option TypeKind
  | "class" => some «class»
  | "interface" => some interface
  | "enum" => some enumeration
  | _ => none

/-- The name of the kind in written models. -/
def name : TypeKind → String
  | «class» => "class"
  | interface => "interface"
  | enumeration => "enumeration"

theorem ofKeyword?_keyword (kind : TypeKind) : ofKeyword? kind.keyword = some kind := by
  cases kind <;> rfl

end TypeKind

/-- Who can see a member. -/
inductive Visibility where
  | «public»
  | «private»
  | «protected»
  | package
  deriving DecidableEq, Repr, Inhabited

namespace Visibility

/-- The name of the visibility in written models. -/
def name : Visibility → String
  | «public» => "public"
  | «private» => "private"
  | «protected» => "protected"
  | package => "package"

/-- The sign of the visibility in diagrams. -/
def symbol : Visibility → Char
  | «public» => '+'
  | «private» => '-'
  | «protected» => '#'
  | package => '~'

/-- The visibility that a sign stands for; without a sign, or with an unknown
one, a member is public. -/
def ofSymbol : Option Char → Visibility
  | some '-' => «private»
  | some '#' => «protected»
  | some '~' => package
  | _ => «public»

theorem ofSymbol_symbol (visibility : Visibility) :
    ofSymbol (some visibility.symbol) = visibility := by
  cases visibility <;> rfl

end Visibility

/-- A typed attribute of a declared type. -/
structure Field where
  name : String
  /-- The type in its display form. -/
  declaredType : String
  visibility : Visibility
  isStatic : Bool
  isReadonly : Bool
  deriving DecidableEq, Repr, Inhabited

/-- A parameter of an operation. -/
structure Parameter where
  name : String
  /-- The type in its display form. -/
  declaredType : String
  deriving DecidableEq, Repr, Inhabited

/-- The return type of an operation that returns nothing. -/
def voidName : String :=
  "void"

/-- An operation of a declared type. -/
structure Operation where
  name : String
  parameters : List Parameter := []
  returnType : String := voidName
  visibility : Visibility := .package
  isStatic : Bool := false
  isAbstract : Bool := false
  deriving DecidableEq, Repr, Inhabited

/-- A member of a declared type. -/
inductive Member where
  | field (field : Field)
  | operation (operation : Operation)
  deriving DecidableEq, Repr, Inhabited

namespace Member

/-- The attribute that a member is. -/
def field? : Member → Option Field
  | field f => some f
  | operation _ => none

/-- The operation that a member is. -/
def operation? : Member → Option Operation
  | field _ => none
  | operation o => some o

end Member

/-- A declared class, interface or enumeration. -/
structure Declaration where
  name : String
  kind : TypeKind
  /-- The package the declaration stands in, empty if there is none. -/
  package : String := ""
  isAbstract : Bool := false
  superclass : Option String := none
  implementedInterfaces : List String := []
  extendedInterfaces : List String := []
  /-- The members in the order of their declaration. -/
  members : List Member := []
  literals : List String := []
  deriving DecidableEq, Repr, Inhabited

namespace Declaration

/-- The attributes in the order of their declaration. -/
def fields (decl : Declaration) : List Field :=
  decl.members.filterMap Member.field?

/-- The operations in the order of their declaration. -/
def operations (decl : Declaration) : List Operation :=
  decl.members.filterMap Member.operation?

/-- The name with the package in front of it. -/
def qualifiedName (decl : Declaration) : String :=
  if decl.package.isEmpty then decl.name else decl.package ++ "." ++ decl.name

/-- The declaration with a superclass, in place of any earlier one. Refused for
a type that is no class, for an empty name and for the type itself. -/
def setSuperclass? (decl : Declaration) (name : String) : Option Declaration :=
  if decl.kind ≠ .«class» || name.isEmpty || name = decl.name then none
  else some { decl with superclass := some name }

/-- The declaration with one more implemented interface. Refused for an empty
name, for the type itself and for an interface already listed. -/
def implement? (decl : Declaration) (name : String) : Option Declaration :=
  if name.isEmpty || name = decl.name || decl.implementedInterfaces.contains name then none
  else some { decl with implementedInterfaces := decl.implementedInterfaces ++ [name] }

/-- The declaration with one more extended interface. Refused for a type that
is no interface, for an empty name, for the type itself and for an interface
already listed. -/
def extend? (decl : Declaration) (name : String) : Option Declaration :=
  if decl.kind ≠ .interface || name.isEmpty || name = decl.name ||
      decl.extendedInterfaces.contains name then none
  else some { decl with extendedInterfaces := decl.extendedInterfaces ++ [name] }

/-- The declaration with a superclass, or unchanged where that is refused. -/
def setSuperclass (decl : Declaration) (name : String) : Declaration :=
  (decl.setSuperclass? name).getD decl

/-- The declaration with one more implemented interface, or unchanged where
that is refused. -/
def implement (decl : Declaration) (name : String) : Declaration :=
  (decl.implement? name).getD decl

/-- The declaration with one more extended interface, or unchanged where that
is refused. -/
def extend (decl : Declaration) (name : String) : Declaration :=
  (decl.extend? name).getD decl

/-- The declaration with one more literal, or unchanged if it has the literal
already. -/
def addLiteral (decl : Declaration) (literal : String) : Declaration :=
  if decl.literals.contains literal then decl
  else { decl with literals := decl.literals ++ [literal] }

/-- The declaration with one more member. -/
def addMember (decl : Declaration) (member : Member) : Declaration :=
  { decl with members := decl.members ++ [member] }

end Declaration

end ClassAtlas
