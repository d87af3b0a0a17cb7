/-
  Symbol tables under other names.

  A `Renaming` knows which names are in use, and gives each of them another name, different names
  to different ones.  It carries a table over to a table that has the names in use under their
  other names, and has lost all others (`Renaming.table`).  Two cases are of interest: all names
  are in use, so that the table is only renamed (`Table.rename`), and one name is not in use and
  the others stay what they are, so that only this name is lost (`Table.without`).

  As far as names in use are concerned, the operations on tables do the same on both sides: a
  scope is opened, closed and entered again, and a name is bound, refused or looked up on one
  side as it is on the other.
-/
import ProcLang.Typing.Visit

namespace ProcLang

/-- Other names for the names in use. -/
structure Renaming where
  inUse : String → Bool
  other : String → String
  injOn : ∀ x y, inUse x = true → inUse y = true → other x = other y → x = y

namespace Renaming

/-- The renaming knows all of the names. -/
def Covers (ρ : Renaming) (names : List String) : Prop := ∀ x ∈ names, ρ.inUse x = true

/-- The bindings of the names in use, under their other names. -/
def bindings (ρ : Renaming) (bs : List (String × Symbol)) : List (String × Symbol) :=
  (bs.filter fun b => ρ.inUse b.1).map fun b => (ρ.other b.1, b.2)

/-- The scope with the bindings carried over. -/
def scope (ρ : Renaming) (s : Scope) : Scope := { s with bindings := ρ.bindings s.bindings }

/-- The table with every scope carried over. -/
def table (ρ : Renaming) (t : Table) : Table := { t with scopes := t.scopes.map ρ.scope }

variable {ρ : Renaming}

/-! ## Scopes -/

/-- A name in use has the entry under its other name that it had: no other name in use has become
    the same. -/
theorem find?_scope {x : String} (hx : ρ.inUse x = true) (s : Scope) :
    (ρ.scope s).find? (ρ.other x) = s.find? x := by
  show (ρ.bindings s.bindings).lookup (ρ.other x) = s.bindings.lookup x
  induction s.bindings with
  | nil => rfl
  | cons b bs ih =>
    obtain ⟨y, sym⟩ := b
    by_cases hy : ρ.inUse y = true
    · have hcons : ρ.bindings ((y, sym) :: bs) = (ρ.other y, sym) :: ρ.bindings bs := by
        simp [bindings, hy]
      rw [hcons]
      by_cases hxy : x = y
      · subst hxy
        rw [List.lookup_cons_self, List.lookup_cons_self]
      · have hne : ρ.other x ≠ ρ.other y := fun h => hxy (ρ.injOn x y hx hy h)
        rw [List.lookup_cons, List.lookup_cons, beq_false_of_ne hne, beq_false_of_ne hxy]
        exact ih
    · have hxy : x ≠ y := by
        rintro rfl
        exact hy hx
      have hcons : ρ.bindings ((y, sym) :: bs) = ρ.bindings bs := by simp [bindings, hy]
      rw [hcons, List.lookup_cons, beq_false_of_ne hxy]
      exact ih

/-- A name in use can be bound before the scope is carried over, or under its other name
    afterwards. -/
theorem scope_bind {x : String} (hx : ρ.inUse x = true) (s : Scope) (e : Entity) :
    ρ.scope (s.bind x e) = (ρ.scope s).bind (ρ.other x) e := by
  simp [scope, bindings, Scope.bind, hx]

/-- A name that is not in use leaves no trace. -/
theorem scope_bind_of_unused {x : String} (hx : ρ.inUse x = false) (s : Scope) (e : Entity) :
    ρ.scope (s.bind x e) = ρ.scope s := by
  simp [scope, bindings, Scope.bind, hx]

/-! ## Tables -/

/-- The path is carried over as it is. -/
@[simp] theorem path_table (t : Table) : (ρ.table t).path = t.path := rfl

/-- There are as many scopes as before. -/
@[simp] theorem size_scopes_table (t : Table) :
    (ρ.table t).scopes.size = t.scopes.size := Array.size_map

/-- Each scope is carried over under its number. -/
theorem scope?_table (t : Table) (id : Nat) :
    (ρ.table t).scope? id = (t.scope? id).map ρ.scope := Array.getElem?_map

/-- The current scope is the same. -/
@[simp] theorem current_table (t : Table) : (ρ.table t).current = t.current := rfl

/-- The first table has no names. -/
@[simp] theorem table_initial : ρ.table .initial = .initial := by
  simp [table, Table.initial, scope, bindings]

/-- A scope can be opened before the table is carried over, or afterwards. -/
theorem openScope_table (t : Table) : (ρ.table t).openScope = ρ.table t.openScope := by
  have hnew : ∀ id around, ρ.scope ⟨id, around, []⟩ = ⟨id, around, []⟩ := fun _ _ => rfl
  simp [Table.openScope, table, Table.current, hnew]

/-- Closing a scope commutes with renaming the table. -/
theorem closeScope_table (t : Table) : (ρ.table t).closeScope = ρ.table t.closeScope := by
  obtain ⟨scopes, path⟩ := t
  match path with
  | [] => rfl
  | [_] => rfl
  | _ :: _ :: _ => rfl

/-- Entering a scope again commutes with renaming, and is allowed or not on both sides. -/
theorem reenter?_table (t : Table) (id : Nat) :
    (ρ.table t).reenter? id = (t.reenter? id).map ρ.table := by
  unfold Table.reenter?
  rw [scope?_table]
  cases t.scope? id with
  | none => rfl
  | some s =>
    show (if s.parent? = some t.current then _ else _) = Option.map ρ.table (if _ then _ else _)
    split <;> rfl

/-- The scope around the current one is the same. -/
theorem enclosing_table (t : Table) : (ρ.table t).enclosing = t.enclosing := by
  unfold Table.enclosing
  rw [current_table, scope?_table]
  cases t.scope? t.current <;> rfl

/-- What becomes of a name is the same in the scope of a number on both sides. -/
theorem bindIn_table {x : String} (hx : ρ.inUse x = true) (t : Table) (id : Nat) (e : Entity) :
    (ρ.table t).bindIn id (ρ.other x) e =
      ((t.bindIn id x e).map ρ.table).mapError fun d => ⟨ρ.other d.name⟩ := by
  unfold Table.bindIn
  have hfind : ((ρ.table t).scope? id).bind (·.find? (ρ.other x)) =
      (t.scope? id).bind (·.find? x) := by
    rw [scope?_table]
    cases t.scope? id with
    | none => rfl
    | some s => exact find?_scope hx s
  rw [hfind]
  split
  · rfl
  · have hscopes : (t.scopes.map ρ.scope).modify id (·.bind (ρ.other x) e) =
        (t.scopes.modify id (·.bind x e)).map ρ.scope := by
      refine Array.ext_getElem? fun k => ?_
      rw [Array.getElem?_modify, Array.getElem?_map, Array.getElem?_map, Array.getElem?_modify]
      split
      · cases t.scopes[k]? with
        | none => rfl
        | some s => exact congrArg some (scope_bind hx s e).symm
      · rfl
    exact congrArg (fun scopes => Except.ok (Table.mk scopes t.path)) hscopes

/-- A name in use is bound or refused as on the other side. -/
theorem insert_table {x : String} (hx : ρ.inUse x = true) (t : Table) (e : Entity) :
    (ρ.table t).insert (ρ.other x) e =
      ((t.insert x e).map ρ.table).mapError fun d => ⟨ρ.other d.name⟩ :=
  bindIn_table hx t t.current e

/-- Binding a renamed name in the scope around the current one commutes with renaming the table. -/
theorem insertOutside_table {x : String} (hx : ρ.inUse x = true) (t : Table) (e : Entity) :
    (ρ.table t).insertOutside (ρ.other x) e =
      ((t.insertOutside x e).map ρ.table).mapError fun d => ⟨ρ.other d.name⟩ := by
  unfold Table.insertOutside
  rw [enclosing_table]
  exact bindIn_table hx t t.enclosing e

/-- A name in use is looked up as on the other side. -/
theorem lookup_table {x : String} (hx : ρ.inUse x = true) (t : Table) :
    (ρ.table t).lookup (ρ.other x) = t.lookup x := by
  unfold Table.lookup
  rw [path_table]
  congr 1
  funext id
  rw [scope?_table]
  cases t.scope? id with
  | none => rfl
  | some s => exact find?_scope hx s

/-- A renamed name stands in the renamed table for what it stood for. -/
theorem env_table {x : String} (hx : ρ.inUse x = true) (t : Table) :
    (ρ.table t).env (ρ.other x) = t.env x := congrArg (Option.map Symbol.entity) (lookup_table hx t)

/-- A binding of a name that is not in use leaves no trace. -/
theorem table_of_insert_unused {x : String} (hx : ρ.inUse x = false) {t t' : Table} {e : Entity}
    (h : t.insert x e = .ok t') : ρ.table t' = ρ.table t := by
  unfold Table.insert Table.bindIn at h
  split at h
  · cases h
  · obtain rfl := Except.ok.inj h
    have hscopes : (t.scopes.modify t.current (·.bind x e)).map ρ.scope =
        t.scopes.map ρ.scope := by
      refine Array.ext_getElem? fun k => ?_
      rw [Array.getElem?_map, Array.getElem?_map, Array.getElem?_modify]
      split
      · cases t.scopes[k]? with
        | none => rfl
        | some s => exact congrArg some (scope_bind_of_unused hx s e)
      · rfl
    exact congrArg (fun scopes => Table.mk scopes t.path) hscopes

end Renaming
end ProcLang
