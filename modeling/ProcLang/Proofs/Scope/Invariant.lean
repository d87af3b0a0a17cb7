/-
  The representation invariant of symbol tables.

  A table is built by five operations, which may come in any order, with any arguments, and may
  be refused.  `Valid` is what all of them keep:

  * scope `k` of the arena has the number `k`; scope 0 lies in nothing, and every other scope in
    one of a smaller number;
  * the path is `Linked`: it ends with the global scope, and each open scope lies in the next;
  * a symbol knows the scope that holds it, and no scope has a name twice.

  Visibility follows the path and `insertOutside` follows the links of the arena.  On a valid
  table the two agree: `lookup` is resolution along the links (`lookup_eq_iff_resolves`), and
  the scope around the current one is the second of the path (`enclosing_eq`).  The main
  statement, `reachable_representation`, has all of this for every run of operations.
-/
import ProcLang.Scope.Table

namespace ProcLang

/-- A name that is bound last is found, unless it was bound before. -/
theorem Scope.find?_bind (s : Scope) (x y : String) (e : Entity) :
    (s.bind x e).find? y =
      (s.find? y).or (if y = x then some ⟨e, s.id⟩ else none) := by
  show (s.bindings ++ [(x, (⟨e, s.id⟩ : Symbol))]).lookup y = (s.bindings.lookup y).or _
  rw [List.lookup_append]
  by_cases h : y = x
  · simp [h]
  · have hb : (y == x) = false := by simp [h]
    simp [List.lookup_cons, hb, h]

/-- A name is not found exactly when it is not bound. -/
theorem Scope.find?_eq_none_iff {s : Scope} {x : String} :
    s.find? x = none ↔ x ∉ s.bindings.map Prod.fst := by
  unfold Scope.find?
  rw [List.lookup_eq_none_iff]
  constructor
  · intro h hx
    obtain ⟨b, hb, rfl⟩ := List.mem_map.mp hx
    have hne := h b hb
    simp at hne
  · intro h b hb
    have hne : x ≠ b.1 := fun he => h (he ▸ List.mem_map_of_mem hb)
    simpa using hne

/-- A name that is found is bound, and to what was found. -/
theorem Scope.mem_of_find? {s : Scope} {x : String} {y : Symbol} (h : s.find? x = some y) :
    (x, y) ∈ s.bindings := by
  obtain ⟨l₁, l₂, hl, -⟩ := List.lookup_eq_some_iff.mp h
  rw [hl]
  simp

namespace Table

/-! ## The view of a table: scopes by number -/

/-- The number of the scope around the scope `id`. -/
def parent? (t : Table) (id : Nat) : Option Nat := (t.scope? id).bind (·.parent?)

/-- A scope has the parent to which its link in the arena leads. -/
theorem parent?_eq_some_iff {t : Table} {k p : Nat} :
    t.parent? k = some p ↔ ∃ s, t.scope? k = some s ∧ s.parent? = some p :=
  Option.bind_eq_some_iff

/-- Numbers of scopes are positions of the arena. -/
theorem lt_size_of_scope? {t : Table} {k : Nat} {s : Scope} (h : t.scope? k = some s) :
    k < t.scopes.size := (Array.getElem?_eq_some_iff.mp h).1

/-- Every position of the arena holds a scope. -/
theorem exists_scope? {t : Table} {k : Nat} (h : k < t.scopes.size) :
    ∃ s, t.scope? k = some s := ⟨t.scopes[k], Array.getElem?_eq_getElem h⟩

/-- Opening puts one scope behind those of the arena, inside of the current one. -/
theorem scope?_openScope (t : Table) (k : Nat) :
    t.openScope.scope? k =
      if k = t.scopes.size then some ⟨t.scopes.size, some t.current, []⟩ else t.scope? k :=
  Array.getElem?_push

/-- Closing leaves the arena as it is. -/
@[simp] theorem scope?_closeScope (t : Table) (k : Nat) : t.closeScope.scope? k = t.scope? k := by
  unfold scope?
  rw [scopes_closeScope]

/-- A scope that is opened again is a child of the current one, and the arena stays. -/
theorem reenter?_eq_some_iff {t t' : Table} {id : Nat} :
    t.reenter? id = some t' ↔
      t.parent? id = some t.current ∧ t' = { t with path := id :: t.path } := by
  unfold reenter? parent?
  cases t.scope? id with
  | none => simp
  | some s =>
    by_cases hp : s.parent? = some t.current
    · simp [hp, eq_comm]
    · simp [hp]

/-- A binding changes the scope that it goes to, and no other. -/
theorem scope?_of_bindIn {t t' : Table} {id : Nat} {x : String} {e : Entity}
    (h : t.bindIn id x e = .ok t') (k : Nat) :
    t'.scope? k = if k = id then (t.scope? k).map (·.bind x e) else t.scope? k := by
  have ht' : t' = { t with scopes := t.scopes.modify id (·.bind x e) } := by
    unfold bindIn at h
    split at h
    · simp at h
    · exact (Except.ok.inj h).symm
  subst ht'
  show (t.scopes.modify id (·.bind x e))[k]? = _
  rw [Array.getElem?_modify]
  by_cases hk : id = k
  · rw [if_pos hk, if_pos hk.symm]
    rfl
  · rw [if_neg hk, if_neg fun h => hk h.symm]
    rfl

/-- A name is bound in a scope unless the scope has it already. -/
theorem bindIn_spec {t : Table} {id : Nat} {s : Scope} (hs : t.scope? id = some s) (x : String)
    (e : Entity) :
    ((s.find? x).isSome ∧ t.bindIn id x e = .error ⟨x⟩) ∨
    (s.find? x = none ∧ ∃ t', t.bindIn id x e = .ok t' ∧ t'.path = t.path ∧
      ∀ k, t'.scope? k = if k = id then some (s.bind x e) else t.scope? k) := by
  cases hf : s.find? x with
  | some y => exact Or.inl ⟨rfl, by simp [bindIn, hs, hf]⟩
  | none =>
    have hb : t.bindIn id x e = .ok { t with scopes := t.scopes.modify id (·.bind x e) } := by
      simp [bindIn, hs, hf]
    refine Or.inr ⟨rfl, _, hb, rfl, fun k => ?_⟩
    rw [scope?_of_bindIn hb]
    by_cases hk : k = id
    · rw [if_pos hk, if_pos hk, hk, hs, Option.map_some]
    · rw [if_neg hk, if_neg hk]

/-- A name that could be bound was not there before. -/
theorem bind_of_bindIn_ok {t t' : Table} {id : Nat} {x : String} {e : Entity}
    (h : t.bindIn id x e = .ok t') {s : Scope} (hs : t.scope? id = some s) :
    s.find? x = none := by
  rcases bindIn_spec hs x e with ⟨-, herr⟩ | ⟨hf, -⟩
  · rw [herr] at h
    cases h
  · exact hf

/-! ## Links -/

/-- A path of scopes, innermost first: each lies in the next, and the last is the global one. -/
inductive Linked (t : Table) : List Nat → Prop
  | global : Linked t [globalId]
  | inside {id p : Nat} {ids : List Nat} (hp : t.parent? id = some p) (h : Linked t (p :: ids)) :
      Linked t (id :: p :: ids)

/-- Links depend on nothing but the parents in the arena. -/
theorem Linked.imp {t t' : Table} (hp : ∀ k p, t.parent? k = some p → t'.parent? k = some p)
    {ids : List Nat} (h : t.Linked ids) : t'.Linked ids := by
  induction h with
  | global => exact .global
  | inside hk _ ih => exact .inside (hp _ _ hk) ih

/-- Without its innermost scope a path is still linked. -/
theorem Linked.tail {t : Table} {id p : Nat} {ids : List Nat} (h : t.Linked (id :: p :: ids)) :
    t.Linked (p :: ids) := by
  cases h with
  | inside _ h => exact h

/-- A linked path ends with the global scope, so it is not empty. -/
theorem Linked.ne_nil {t : Table} {ids : List Nat} (h : t.Linked ids) : ids ≠ [] := by
  cases h <;> simp

/-! ## The invariant -/

/-- What every operation keeps. -/
structure Valid (t : Table) : Prop where
  /-- Scope `k` has the number `k`. -/
  id_eq : ∀ k s, t.scope? k = some s → s.id = k
  /-- The global scope exists and lies in nothing. -/
  global : ∃ s, t.scope? globalId = some s ∧ s.parent? = none
  /-- Every other scope lies in one of a smaller number. -/
  parent_lt : ∀ k s, t.scope? k = some s → k ≠ globalId → ∃ p, s.parent? = some p ∧ p < k
  /-- The open scopes lie in one another. -/
  linked : t.Linked t.path
  /-- A symbol knows its scope. -/
  symbol_scope : ∀ k s, t.scope? k = some s → ∀ b ∈ s.bindings, b.2.scope = k
  /-- A scope has no name twice. -/
  names_nodup : ∀ k s, t.scope? k = some s → (s.bindings.map Prod.fst).Nodup

variable {t t' : Table}

/-- Links lead to smaller numbers, so following them comes to an end. -/
theorem Valid.parent?_lt (h : t.Valid) {k p : Nat} (hp : t.parent? k = some p) : p < k := by
  obtain ⟨s, hs, hp⟩ := parent?_eq_some_iff.mp hp
  have hk : k ≠ globalId := by
    rintro rfl
    obtain ⟨g, hg, hn⟩ := h.global
    rw [hg] at hs
    obtain rfl := Option.some.inj hs
    rw [hn] at hp
    cases hp
  obtain ⟨q, hq, hlt⟩ := h.parent_lt k s hs hk
  rw [hq] at hp
  obtain rfl := Option.some.inj hp
  exact hlt

/-- The links of a path stay inside the arena. -/
theorem Valid.lt_size_of_mem (h : t.Valid) {ids : List Nat} (hl : t.Linked ids) :
    ∀ k ∈ ids, k < t.scopes.size := by
  induction hl with
  | global =>
    intro k hk
    obtain rfl := List.mem_singleton.mp hk
    obtain ⟨s, hs, -⟩ := h.global
    exact lt_size_of_scope? hs
  | inside hp _ ih =>
    intro k hk
    rcases List.mem_cons.mp hk with rfl | hk
    · obtain ⟨s, hs, -⟩ := parent?_eq_some_iff.mp hp
      exact lt_size_of_scope? hs
    · exact ih k hk

/-- The current scope is in the arena. -/
theorem Valid.current_lt_size (h : t.Valid) : t.current < t.scopes.size := by
  refine h.lt_size_of_mem h.linked _ ?_
  obtain ⟨id, ids, hp⟩ := List.exists_cons_of_ne_nil h.linked.ne_nil
  rw [current, hp]
  simp

/-- There is at least the global scope. -/
theorem Valid.size_pos (h : t.Valid) : 0 < t.scopes.size :=
  Nat.lt_of_le_of_lt (Nat.zero_le _) h.current_lt_size

/-- A path runs down in number, so it meets no scope twice. -/
theorem Valid.lt_of_linked (h : t.Valid) {id : Nat} {ids : List Nat} (hl : t.Linked (id :: ids)) :
    ∀ k ∈ ids, k < id := by
  induction ids generalizing id with
  | nil => simp
  | cons p ids ih =>
    cases hl with
    | inside hp hl =>
      have hlt := h.parent?_lt hp
      intro k hk
      rcases List.mem_cons.mp hk with rfl | hk
      · exact hlt
      · exact Nat.lt_trans (ih hl k hk) hlt

/-! ## The operations keep the invariant -/

/-- The first table has the global scope alone, without names. -/
theorem eq_of_scope?_initial {k : Nat} {s : Scope} (h : initial.scope? k = some s) :
    k = globalId ∧ s = ⟨0, none, []⟩ := by
  have hk : k < 1 := lt_size_of_scope? h
  obtain rfl : k = 0 := by omega
  exact ⟨rfl, (Option.some.inj h).symm⟩

/-- The first table is valid. -/
theorem valid_initial : initial.Valid where
  id_eq := by
    intro k s hs
    obtain ⟨rfl, rfl⟩ := eq_of_scope?_initial hs
    rfl
  global := ⟨⟨0, none, []⟩, rfl, rfl⟩
  parent_lt := fun k s hs hk => absurd (eq_of_scope?_initial hs).1 hk
  linked := .global
  symbol_scope := by
    intro k s hs b hb
    obtain ⟨-, rfl⟩ := eq_of_scope?_initial hs
    exact absurd hb List.not_mem_nil
  names_nodup := by
    intro k s hs
    obtain ⟨-, rfl⟩ := eq_of_scope?_initial hs
    exact List.nodup_nil

/-- A new scope is the last of the arena, so what was there keeps its place. -/
theorem scope?_openScope_of_lt {k : Nat} (h : k < t.scopes.size) :
    t.openScope.scope? k = t.scope? k := by
  rw [scope?_openScope, if_neg (by omega)]

/-- Opening keeps the links of the scopes that were there. -/
theorem parent?_openScope_of_lt {k : Nat} (h : k < t.scopes.size) :
    t.openScope.parent? k = t.parent? k := by
  unfold parent?
  rw [scope?_openScope_of_lt h]

/-- Opening a scope inside of the current one keeps the path linked. -/
theorem Valid.linked_openScope (h : t.Valid) : t.openScope.Linked t.openScope.path := by
  have hold : t.openScope.Linked t.path := h.linked.imp fun k p hk => by
    obtain ⟨s, hs, -⟩ := parent?_eq_some_iff.mp hk
    rw [parent?_openScope_of_lt (lt_size_of_scope? hs)]
    exact hk
  obtain ⟨id, ids, hp⟩ := List.exists_cons_of_ne_nil h.linked.ne_nil
  have hc : t.current = id := by rw [current, hp]; rfl
  rw [path_openScope, hp]
  rw [hp] at hold
  refine .inside ?_ hold
  rw [parent?, scope?_openScope, if_pos rfl, ← hc]
  rfl

/-- Opening keeps a table valid. -/
theorem Valid.openScope (h : t.Valid) : t.openScope.Valid where
  -- a scope is the new one, or as it was
  id_eq := by
    intro k s hs
    rw [scope?_openScope] at hs
    split at hs
    · rename_i hk
      obtain rfl := Option.some.inj hs
      exact hk.symm
    · exact h.id_eq k s hs
  global := by
    obtain ⟨s, hs, hn⟩ := h.global
    exact ⟨s, by rw [scope?_openScope_of_lt (lt_size_of_scope? hs)]; exact hs, hn⟩
  parent_lt := by
    intro k s hs hk
    rw [scope?_openScope] at hs
    split at hs
    · rename_i hsize
      obtain rfl := Option.some.inj hs
      exact ⟨t.current, rfl, by rw [hsize]; exact h.current_lt_size⟩
    · exact h.parent_lt k s hs hk
  linked := h.linked_openScope
  symbol_scope := by
    intro k s hs b hb
    rw [scope?_openScope] at hs
    split at hs
    · obtain rfl := Option.some.inj hs
      exact absurd hb List.not_mem_nil
    · exact h.symbol_scope k s hs b hb
  names_nodup := by
    intro k s hs
    rw [scope?_openScope] at hs
    split at hs
    · obtain rfl := Option.some.inj hs
      exact List.nodup_nil
    · exact h.names_nodup k s hs

/-- The invariant is one of the arena and one of the path. -/
theorem Valid.of_scope?_eq (h : t.Valid) (hs : ∀ k, t'.scope? k = t.scope? k)
    (hl : t.Linked t'.path) : t'.Valid where
  id_eq := fun k s hk => h.id_eq k s (by rw [← hs k]; exact hk)
  global := by rw [hs]; exact h.global
  parent_lt := fun k s hk => h.parent_lt k s (by rw [← hs k]; exact hk)
  linked := hl.imp fun k p hk => by rw [parent?, hs]; exact hk
  symbol_scope := fun k s hk => h.symbol_scope k s (by rw [← hs k]; exact hk)
  names_nodup := fun k s hk => h.names_nodup k s (by rw [← hs k]; exact hk)

/-- Closing keeps a table valid, also when only the global scope is open. -/
theorem Valid.closeScope (h : t.Valid) : t.closeScope.Valid := by
  refine h.of_scope?_eq (fun k => scope?_closeScope t k) ?_
  have hl := h.linked
  unfold Table.closeScope
  -- the last open scope stays open
  split
  · rename_i id p ids hp
    rw [hp] at hl
    exact hl.tail
  · exact hl

/-- Entering a scope again keeps a table valid, since its parent is the current scope. -/
theorem Valid.reenter (h : t.Valid) {id : Nat} (hr : t.reenter? id = some t') : t'.Valid := by
  obtain ⟨hp, rfl⟩ := reenter?_eq_some_iff.mp hr
  refine h.of_scope?_eq (fun _ => rfl) ?_
  obtain ⟨c, ids, hpath⟩ := List.exists_cons_of_ne_nil h.linked.ne_nil
  have hl := h.linked
  have hc : t.current = c := by rw [current, hpath]; rfl
  show t.Linked (id :: t.path)
  rw [hpath] at hl ⊢
  rw [hc] at hp
  exact .inside hp hl

/-- What a binding leaves of a scope. -/
theorem eq_or_bind_of_bindIn {id k : Nat} {x : String} {e : Entity} {s' : Scope}
    (hb : t.bindIn id x e = .ok t') (hs : t'.scope? k = some s') :
    ∃ s, t.scope? k = some s ∧ (s' = s ∨ k = id ∧ s.find? x = none ∧ s' = s.bind x e) := by
  rw [scope?_of_bindIn hb] at hs
  split at hs
  · rename_i hk
    obtain ⟨s, hs₀, rfl⟩ := Option.map_eq_some_iff.mp hs
    exact ⟨s, hs₀, Or.inr ⟨hk, bind_of_bindIn_ok hb (hk ▸ hs₀), rfl⟩⟩
  · exact ⟨s', hs, Or.inl rfl⟩

/-- Binding keeps the links. -/
theorem parent?_of_bindIn {id : Nat} {x : String} {e : Entity} (hb : t.bindIn id x e = .ok t')
    (k : Nat) : t'.parent? k = t.parent? k := by
  rw [parent?, parent?, scope?_of_bindIn hb]
  split
  · cases t.scope? k <;> rfl
  · rfl

/-- Binding keeps a table valid: the scope gets one name, which it did not have. -/
theorem Valid.bindIn (h : t.Valid) {id : Nat} {x : String} {e : Entity}
    (hb : t.bindIn id x e = .ok t') : t'.Valid where
  id_eq := by
    intro k s' hs'
    -- a scope is as it was, or is the one with the new name
    obtain ⟨s, hs, rfl | ⟨-, -, rfl⟩⟩ := eq_or_bind_of_bindIn hb hs'
    · exact h.id_eq k s' hs
    · exact h.id_eq k s hs
  global := by
    obtain ⟨s, hs, hn⟩ := h.global
    rw [scope?_of_bindIn hb, hs]
    split
    · exact ⟨s.bind x e, rfl, hn⟩
    · exact ⟨s, rfl, hn⟩
  parent_lt := by
    intro k s' hs' hk
    obtain ⟨s, hs, rfl | ⟨-, -, rfl⟩⟩ := eq_or_bind_of_bindIn hb hs'
    · exact h.parent_lt k s' hs hk
    · exact h.parent_lt k s hs hk
  linked := by
    rw [path_of_bindIn hb]
    exact h.linked.imp fun k p hk => by rw [parent?_of_bindIn hb]; exact hk
  symbol_scope := by
    intro k s' hs' b hmem
    obtain ⟨s, hs, rfl | ⟨-, -, rfl⟩⟩ := eq_or_bind_of_bindIn hb hs'
    · exact h.symbol_scope k s' hs b hmem
    · rcases List.mem_append.mp hmem with hmem | hmem
      · exact h.symbol_scope k s hs b hmem
      · obtain rfl := List.mem_singleton.mp hmem
        exact h.id_eq k s hs
  names_nodup := by
    intro k s' hs'
    obtain ⟨s, hs, rfl | ⟨-, hx, rfl⟩⟩ := eq_or_bind_of_bindIn hb hs'
    · exact h.names_nodup k s' hs
    · show ((s.bindings ++ [(x, (⟨e, s.id⟩ : Symbol))]).map Prod.fst).Nodup
      rw [List.map_append]
      refine List.nodup_append.mpr ⟨h.names_nodup k s hs, List.pairwise_singleton _ _, ?_⟩
      -- the name was free, or the binding would have been refused
      intro y hy z hz hyz
      obtain rfl : z = x := List.mem_singleton.mp hz
      exact Scope.find?_eq_none_iff.mp hx (hyz ▸ hy)

/-! ## Runs of operations -/

/-- The operations on a table, with their arguments. -/
inductive Operation where
  | openScope
  | closeScope
  | reenter (id : Nat)
  | insert (name : String) (entity : Entity)
  | insertOutside (name : String) (entity : Entity)

/-- The table after an operation; one that is refused changes nothing. -/
def apply (t : Table) : Operation → Table
  | .openScope => t.openScope
  | .closeScope => t.closeScope
  | .reenter id => (t.reenter? id).getD t
  | .insert x e => (t.insert x e).toOption.getD t
  | .insertOutside x e => (t.insertOutside x e).toOption.getD t

/-- The table after operations, first to last. -/
def run (t : Table) (ops : List Operation) : Table := ops.foldl apply t

/-- A binding that is refused leaves the table, so it is valid either way. -/
theorem Valid.apply_bindIn (h : t.Valid) (id : Nat) (x : String) (e : Entity) :
    ((t.bindIn id x e).toOption.getD t).Valid := by
  cases hb : t.bindIn id x e with
  | error d => exact h
  | ok t' => exact h.bindIn hb

/-- The step: every operation keeps the invariant. -/
theorem Valid.apply (h : t.Valid) (op : Operation) : (t.apply op).Valid := by
  cases op with
  | openScope => exact h.openScope
  | closeScope => exact h.closeScope
  | reenter id =>
    show ((t.reenter? id).getD t).Valid
    cases hr : t.reenter? id with
    | none => exact h
    | some t' => exact h.reenter hr
  | insert x e => exact h.apply_bindIn _ x e
  | insertOutside x e => exact h.apply_bindIn _ x e

/-- The run: so does every sequence of operations. -/
theorem Valid.run (h : t.Valid) (ops : List Operation) : (t.run ops).Valid := by
  induction ops generalizing t with
  | nil => exact h
  | cons op ops ih => exact ih (h.apply op)

/-! ## Resolution along the links -/

/-- `t.Resolves x id r`: looked for from scope `id` outwards along the links of the arena, the
    name `x` is bound to `r`, or to nothing. -/
inductive Resolves (t : Table) (x : String) : Nat → Option Symbol → Prop
  | here {id : Nat} {s : Scope} {y : Symbol} (hs : t.scope? id = some s)
      (hf : s.find? x = some y) : Resolves t x id (some y)
  | outwards {id p : Nat} {s : Scope} {r : Option Symbol} (hs : t.scope? id = some s)
      (hf : s.find? x = none) (hp : s.parent? = some p) (h : Resolves t x p r) :
      Resolves t x id r
  | unbound {id : Nat} {s : Scope} (hs : t.scope? id = some s) (hf : s.find? x = none)
      (hp : s.parent? = none) : Resolves t x id none

/-- A name resolves to one thing only, starting from one scope. -/
theorem Resolves.unique {x : String} {id : Nat} {r r' : Option Symbol} (h : t.Resolves x id r)
    (h' : t.Resolves x id r') : r = r' := by
  induction h generalizing r' with
  -- both must stop at the first scope that has the name
  | here hs hf => cases h' <;> simp_all
  | outwards hs hf hp _ ih =>
    cases h' with
    | outwards hs' hf' hp' h' =>
      rw [hs] at hs'
      obtain rfl := Option.some.inj hs'
      rw [hp] at hp'
      obtain rfl := Option.some.inj hp'
      exact ih h'
    | _ => simp_all
  | unbound hs hf hp => cases h' <;> simp_all

/-- The first scope of a path that has the name is the first along the links. -/
theorem Valid.resolves_path (h : t.Valid) (x : String) {id : Nat} {ids : List Nat}
    (hl : t.Linked (id :: ids)) :
    t.Resolves x id ((id :: ids).findSome? fun k => (t.scope? k).bind (·.find? x)) := by
  induction ids generalizing id with
  | nil =>
    obtain ⟨s, hs, hn⟩ := h.global
    cases hl with
    | global =>
      rw [List.findSome?_cons, hs, Option.bind_some]
      cases hf : s.find? x with
      | some y => exact .here hs hf
      | none => exact .unbound hs hf hn
  | cons p ids ih =>
    cases hl with
    | inside hp hl =>
      obtain ⟨s, hs, hp⟩ := parent?_eq_some_iff.mp hp
      rw [List.findSome?_cons, hs, Option.bind_some]
      cases hf : s.find? x with
      | some y => exact .here hs hf
      | none => exact .outwards hs hf hp (ih hl)

/-- On a valid table, looking a name up along the path resolves it along the links. -/
theorem Valid.lookup_eq_iff_resolves (h : t.Valid) (x : String) (r : Option Symbol) :
    t.lookup x = r ↔ t.Resolves x t.current r := by
  obtain ⟨id, ids, hp⟩ := List.exists_cons_of_ne_nil h.linked.ne_nil
  have hl := h.linked
  rw [hp] at hl
  have hr : t.Resolves x t.current (t.lookup x) := by
    rw [lookup, current, hp]
    exact h.resolves_path x hl
  constructor
  · rintro rfl
    exact hr
  · intro hr'
    exact hr.unique hr'

/-! ## The scope around the current one -/

/-- On a valid table, the scope around the current one is the second of the path, and the
    global scope when no other one is open. -/
theorem Valid.enclosing_eq (h : t.Valid) : t.enclosing = t.path.getD 1 globalId := by
  have hl := h.linked
  show (t.parent? t.current).getD t.current = _
  rw [current]
  generalize t.path = ids at hl
  cases hl with
  | global =>
    obtain ⟨s, hs, hn⟩ := h.global
    show (t.parent? globalId).getD globalId = globalId
    rw [parent?, hs, Option.bind_some, hn]
    rfl
  | inside hp _ =>
    rw [List.headD_cons, hp]
    rfl

/-- The scope around the current one is in the arena. -/
theorem Valid.enclosing_lt_size (h : t.Valid) : t.enclosing < t.scopes.size := by
  rw [h.enclosing_eq, List.getD_eq_getElem?_getD]
  cases hk : t.path[1]? with
  | none => exact h.size_pos
  | some k => exact h.lt_size_of_mem h.linked k (List.mem_of_getElem? hk)

/-! ## Reachable tables -/

/-- **Every reachable table is valid.**  So no operation reaches outside the arena, looking a
    name up along the path resolves it along the links, and `insertOutside` binds in the second
    innermost open scope, or in the global one. -/
theorem reachable_representation (ops : List Operation) :
    let t := initial.run ops
    t.Valid ∧
    (∀ id ∈ t.path, ∃ s, t.scope? id = some s) ∧
    (∃ s, t.scope? t.enclosing = some s) ∧
    (∀ x r, t.lookup x = r ↔ t.Resolves x t.current r) ∧
    ∀ x e, ∃ s, t.scope? (t.path.getD 1 globalId) = some s ∧
      ((s.find? x).isSome ∧ t.insertOutside x e = .error ⟨x⟩ ∨
        s.find? x = none ∧ ∃ t', t.insertOutside x e = .ok t' ∧ t'.path = t.path ∧
          ∀ k, t'.scope? k =
            if k = t.path.getD 1 globalId then some (s.bind x e) else t.scope? k) := by
  intro t
  have h : t.Valid := valid_initial.run ops
  refine ⟨h, ?_, ?_, h.lookup_eq_iff_resolves, ?_⟩
  · intro id hid
    exact exists_scope? (h.lt_size_of_mem h.linked id hid)
  · exact exists_scope? h.enclosing_lt_size
  · intro x e
    obtain ⟨s, hs⟩ := exists_scope? h.enclosing_lt_size
    rw [← h.enclosing_eq]
    exact ⟨s, hs, bindIn_spec hs x e⟩

end Table
end ProcLang
