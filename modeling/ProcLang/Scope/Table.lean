/-
  Symbol tables.

  A table keeps every scope that was ever opened, numbered in the order of their opening, and
  the path of the scopes that are open now, innermost first.  Closing a scope takes it off the
  path and keeps its bindings, so that a procedure body can be checked in the scope that was
  made for its parameters.  Names are looked up along the path only.

  The operations never take the global scope, number 0, off the path.
-/
import ProcLang.Scope.Symbol

namespace ProcLang

/-- A scope: its number, the scope around it, and its bindings in the order they were made. -/
structure Scope where
  id : Nat
  parent? : Option Nat
  bindings : List (String × Symbol)
deriving DecidableEq

/-- The entry of a name in a scope. -/
def Scope.find? (s : Scope) (name : String) : Option Symbol := s.bindings.lookup name

/-- The scope with one more binding. -/
def Scope.bind (s : Scope) (name : String) (entity : Entity) : Scope :=
  { s with bindings := s.bindings ++ [(name, ⟨entity, s.id⟩)] }

/-- A name that its scope has already. -/
structure DuplicateName where
  name : String
deriving DecidableEq

/-- The text of a refused binding. -/
def DuplicateName.message (d : DuplicateName) : String :=
  "`" ++ d.name ++ "` is already declared in this scope"

/-- A symbol table. -/
structure Table where
  scopes : Array Scope
  path : List Nat
deriving DecidableEq

namespace Table

/-- The table that holds the open global scope and nothing else. -/
def initial : Table := ⟨#[⟨0, none, []⟩], [0]⟩

/-- The number of the global scope. -/
def globalId : Nat := 0

/-- The number of the innermost open scope. -/
def current (t : Table) : Nat := t.path.headD globalId

/-- The scope of a number. -/
def scope? (t : Table) (id : Nat) : Option Scope := t.scopes[id]?

/-! ## Opening and closing -/

/-- The table with a new scope open inside the current one. -/
def openScope (t : Table) : Table :=
  ⟨t.scopes.push ⟨t.scopes.size, some t.current, []⟩, t.scopes.size :: t.path⟩

/-- The table with the current scope closed, unless it is the last one that is open. -/
def closeScope (t : Table) : Table :=
  match t.path with
  | _ :: id :: ids => { t with path := id :: ids }
  | _ => t

/-- The table with a closed scope open again, provided it is a child of the current scope. -/
def reenter? (t : Table) (id : Nat) : Option Table :=
  match t.scope? id with
  | some s => if s.parent? = some t.current then some { t with path := id :: t.path } else none
  | none => none

/-! ## Binding and looking up -/

/-- Binds a name in the scope `id`. -/
def bindIn (t : Table) (id : Nat) (name : String) (entity : Entity) :
    Except DuplicateName Table :=
  if ((t.scope? id).bind (·.find? name)).isSome then .error ⟨name⟩
  else .ok { t with scopes := t.scopes.modify id (·.bind name entity) }

/-- Binds a name in the current scope. -/
def insert (t : Table) (name : String) (entity : Entity) : Except DuplicateName Table :=
  t.bindIn t.current name entity

/-- The scope around the current one, or the current one when there is none around it. -/
def enclosing (t : Table) : Nat := ((t.scope? t.current).bind (·.parent?)).getD t.current

/-- Binds a name in the scope around the current one. -/
def insertOutside (t : Table) (name : String) (entity : Entity) : Except DuplicateName Table :=
  t.bindIn t.enclosing name entity

/-- The symbol of a name in the innermost open scope that has it. -/
def lookup (t : Table) (name : String) : Option Symbol :=
  t.path.findSome? fun id => (t.scope? id).bind (·.find? name)

/-! ## The path -/

/-- A scope that is opened becomes the innermost one, under the next number. -/
@[simp] theorem path_openScope (t : Table) : t.openScope.path = t.scopes.size :: t.path := rfl

/-- A scope that is closed keeps its bindings. -/
@[simp] theorem scopes_closeScope (t : Table) : t.closeScope.scopes = t.scopes := by
  unfold closeScope
  split <;> rfl

/-- Closing takes the innermost scope off the path, if there is another one. -/
theorem path_closeScope {t : Table} {id : Nat} {ids : List Nat} (h : t.path = id :: ids)
    (hne : ids ≠ []) : t.closeScope.path = ids := by
  obtain ⟨j, js, rfl⟩ := List.exists_cons_of_ne_nil hne
  unfold closeScope
  rw [h]

/-- Binding a name opens and closes nothing. -/
theorem path_of_bindIn {t t' : Table} {id : Nat} {name : String} {entity : Entity}
    (h : t.bindIn id name entity = .ok t') : t'.path = t.path := by
  unfold bindIn at h
  split at h
  · simp at h
  · obtain rfl := Except.ok.inj h
    rfl

/-- Binding a name makes no scope. -/
theorem size_of_bindIn {t t' : Table} {id : Nat} {name : String} {entity : Entity}
    (h : t.bindIn id name entity = .ok t') : t'.scopes.size = t.scopes.size := by
  unfold bindIn at h
  split at h
  · simp at h
  · obtain rfl := Except.ok.inj h
    simp

end Table
end ProcLang
