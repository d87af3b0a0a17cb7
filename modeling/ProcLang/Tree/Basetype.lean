/-
  Basetypes, and the attribute that every node of a syntax tree carries.

  A basetype is what a name, an expression or a declaration is worth to the checker.  Declared
  types are what a program can write; each denotes a basetype, and all string sizes denote the
  same one.
-/

namespace ProcLang

/-- What the checker knows of a value. -/
inductive Basetype where
  /-- Not worked out yet. -/
  | unknown
  | integer
  | boolean
  | char
  /-- An array of characters, of any size. -/
  | string
  | intPtr
  | charPtr
  /-- The literal `null`, which compares with either pointer. -/
  | null
  | procedure
deriving DecidableEq, Repr

/-- The name of a basetype. -/
def Basetype.name : Basetype → String
  | .unknown => "unknown"
  | .integer => "integer"
  | .boolean => "boolean"
  | .char => "char"
  | .string => "string"
  | .intPtr => "intptr"
  | .charPtr => "charptr"
  | .null => "null"
  | .procedure => "procedure"

/-- The pointers, `null` among them. -/
def Basetype.isPointer : Basetype → Bool
  | .intPtr | .charPtr | .null => true
  | _ => false

/-- The pointers that point somewhere. -/
def Basetype.isTypedPointer : Basetype → Bool
  | .intPtr | .charPtr => true
  | _ => false

/-! ## Attributes -/

/-- What every node carries: its basetype, once a check has found it, and its source line. -/
structure Attribute where
  basetype : Basetype
  line : Nat
deriving DecidableEq, Repr

/-- The attribute of a node that no check has visited. -/
def Attribute.bare (line : Nat) : Attribute := ⟨.unknown, line⟩

/-- The attribute with a basetype that a check has found. -/
def Attribute.mark (a : Attribute) (b : Basetype) : Attribute := { a with basetype := b }

/-- The basetype of a marked attribute is the one it was marked with. -/
@[simp] theorem Attribute.basetype_mark (a : Attribute) (b : Basetype) :
    (a.mark b).basetype = b := rfl

/-- A mark leaves the line. -/
@[simp] theorem Attribute.line_mark (a : Attribute) (b : Basetype) :
    (a.mark b).line = a.line := rfl

/-- The last mark counts. -/
@[simp] theorem Attribute.mark_mark (a : Attribute) (b b' : Basetype) :
    (a.mark b).mark b' = a.mark b' := rfl

/-! ## Declared types -/

/-- A type as a declaration writes it. -/
inductive DeclaredType where
  | integer
  | boolean
  | char
  | string (size : Nat)
  | intPtr
  | charPtr
deriving DecidableEq, Repr

/-- The basetype that a declared type denotes. -/
def DeclaredType.basetype : DeclaredType → Basetype
  | .integer => .integer
  | .boolean => .boolean
  | .char => .char
  | .string _ => .string
  | .intPtr => .intPtr
  | .charPtr => .charPtr

/-- A declared type at its place in the tree. -/
structure TypeMark where
  declared : DeclaredType
  attr : Attribute
deriving DecidableEq, Repr

/-- The basetype that a type in the tree denotes. -/
def TypeMark.basetype (t : TypeMark) : Basetype := t.declared.basetype

end ProcLang
