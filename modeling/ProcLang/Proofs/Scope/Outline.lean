/-
  Declaration structures, and the tables that hold them.

  An `Outline` is a scope without its number: the names that it binds, and the outlines of the
  scopes inside.  A place in an outline is an address, the list of the positions to be taken on
  the way down.

  `t.Lays around o ids`: the table `t` has the scopes of `o`, the outermost one inside `around`,
  and `ids` are their numbers.  It grows with the outline, is kept when the scopes `ids` stay, and
  holds of every order of the outlines inside (`LaysAll.of_perm`).  When no number comes twice it
  is a bijection between addresses and numbers (`Lays.exists_bijOn`), under which scopes have the
  names of the outline, and lie in one another as the addresses say (`Numbers`).
-/
import Mathlib.Data.Set.Function
import ProcLang.Proofs.Scope.Invariant

namespace ProcLang

/-! ## Outlines -/

/-- The names of a scope with what they stand for, and the scopes inside. -/
inductive Outline where
  | mk (names : List (String × Entity)) (inner : List Outline)

namespace Outline

/-- The names that the scope binds, with what they stand for. -/
def names : Outline → List (String × Entity)
  | mk ns _ => ns

/-- The outlines of the scopes inside, in the order in which they were opened. -/
def inner : Outline → List Outline
  | mk _ os => os

/-- What stands at an address, if it leads anywhere. -/
def at? : Outline → List Nat → Option Outline
  | o, [] => some o
  | o, i :: a => o.inner[i]?.bind fun c => c.at? a

/-- One step down, and then the rest of the address. -/
theorem at?_cons {o o' : Outline} {i : Nat} {a : List Nat} :
    o.at? (i :: a) = some o' ↔ ∃ c, o.inner[i]? = some c ∧ c.at? a = some o' := by
  rw [at?, Option.bind_eq_some_iff]

/-- An address that leads somewhere does so up to each of its steps. -/
theorem isSome_at?_of_append {o : Outline} {a b : List Nat} (h : (o.at? (a ++ b)).isSome) :
    (o.at? a).isSome := by
  induction a generalizing o with
  | nil => rfl
  | cons i a ih =>
    obtain ⟨o', ho'⟩ := Option.isSome_iff_exists.mp h
    obtain ⟨c, hc, hrest⟩ := at?_cons.mp ho'
    have hsome := ih (Option.isSome_iff_exists.mpr ⟨o', hrest⟩)
    obtain ⟨o'', ho''⟩ := Option.isSome_iff_exists.mp hsome
    exact Option.isSome_iff_exists.mpr ⟨o'', at?_cons.mpr ⟨c, hc, ho''⟩⟩

end Outline

/-- Names, bound in the scope `id`. -/
def bound (id : Nat) (names : List (String × Entity)) : List (String × Symbol) :=
  names.map fun b => (b.1, ⟨b.2, id⟩)

/-- Symbols are made from names one by one. -/
theorem bound_append (id : Nat) (ns ns' : List (String × Entity)) :
    bound id (ns ++ ns') = bound id ns ++ bound id ns' := List.map_append

namespace Table

variable {t t' : Table} {around : Option Nat} {o : Outline} {os os' : List Outline}
  {ids ids' : List Nat}

/-! ## Tables that hold an outline -/

mutual

/-- The table has the scopes of an outline, with the numbers `ids`, the outermost one inside
    `around`.  In a scope the order of the names does not matter. -/
inductive Lays (t : Table) : Option Nat → Outline → List Nat → Prop
  | mk {around : Option Nat} {id : Nat} {names : List (String × Entity)} {inner : List Outline}
      {bindings : List (String × Symbol)} {ids : List Nat}
      (hs : t.scope? id = some ⟨id, around, bindings⟩) (hb : bindings.Perm (bound id names))
      (h : LaysAll t (some id) inner ids) : Lays t around (.mk names inner) (id :: ids)

/-- The table has the scopes of outlines, side by side inside `around`. -/
inductive LaysAll (t : Table) : Option Nat → List Outline → List Nat → Prop
  | nil {around : Option Nat} : LaysAll t around [] []
  | cons {around : Option Nat} {o : Outline} {os : List Outline} {ids ids' : List Nat}
      (h : Lays t around o ids) (hs : LaysAll t around os ids') :
      LaysAll t around (o :: os) (ids ++ ids')

end

/-- Outlines in a row are laid when both halves are. -/
theorem LaysAll.append (h : t.LaysAll around os ids) (h' : t.LaysAll around os' ids') :
    t.LaysAll around (os ++ os') (ids ++ ids') := by
  induction os generalizing ids with
  | nil =>
    cases h
    exact h'
  | cons o os ih =>
    cases h with
    | cons ho hos =>
      rw [List.append_assoc]
      exact .cons ho (ih hos)

/-- Outlines come with their scopes, in order. -/
theorem LaysAll.exists_of_append (h : t.LaysAll around (os ++ os') ids) :
    ∃ ids₁ ids₂, ids = ids₁ ++ ids₂ ∧ t.LaysAll around os ids₁ ∧ t.LaysAll around os' ids₂ := by
  induction os generalizing ids with
  | nil => exact ⟨[], ids, rfl, .nil, h⟩
  | cons o os ih =>
    cases h with
    | cons ho hos =>
      obtain ⟨ids₁, ids₂, rfl, h₁, h₂⟩ := ih hos
      exact ⟨_, ids₂, (List.append_assoc _ _ _).symm, .cons ho h₁, h₂⟩

/-- No outlines take no numbers. -/
theorem LaysAll.eq_nil (h : t.LaysAll around [] ids) : ids = [] := by
  cases h
  rfl

/-- The first outline has a scope, and those inside of it, in front of the others. -/
theorem LaysAll.exists_of_cons (h : t.LaysAll around (o :: os) ids) :
    ∃ id ids₁ ids₂, ids = id :: ids₁ ++ ids₂ ∧ t.Lays around o (id :: ids₁) ∧
      t.LaysAll (some id) o.inner ids₁ ∧ t.LaysAll around os ids₂ := by
  cases h with
  | cons ho hos =>
    cases ho with
    | mk hs hb hinner => exact ⟨_, _, _, rfl, .mk hs hb hinner, hinner, hos⟩

/-- One outline is a row of one. -/
theorem laysAll_singleton (h : t.Lays around o ids) : t.LaysAll around [o] ids := by
  rw [← List.append_nil ids]
  exact .cons h .nil

mutual

/-- An outline stays where its scopes stay. -/
theorem Lays.of_scope?_eq {around : Option Nat} {o : Outline} {ids : List Nat}
    (h : t.Lays around o ids) (hs : ∀ k ∈ ids, t'.scope? k = t.scope? k) :
    t'.Lays around o ids := by
  cases h with
  | mk hscope hb hinner =>
    refine .mk ?_ hb (hinner.of_scope?_eq fun k hk => hs k (List.mem_cons_of_mem _ hk))
    rw [hs _ List.mem_cons_self]
    exact hscope

/-- Outlines stay laid when their scopes stay. -/
theorem LaysAll.of_scope?_eq {around : Option Nat} {os : List Outline} {ids : List Nat}
    (h : t.LaysAll around os ids) (hs : ∀ k ∈ ids, t'.scope? k = t.scope? k) :
    t'.LaysAll around os ids := by
  cases h with
  | nil => exact .nil
  | cons ho hos =>
    exact .cons (ho.of_scope?_eq fun k hk => hs k (List.mem_append_left _ hk))
      (hos.of_scope?_eq fun k hk => hs k (List.mem_append_right _ hk))

end

mutual

/-- The numbers of a laid outline are positions of the arena. -/
theorem Lays.lt_size {around : Option Nat} {o : Outline} {ids : List Nat}
    (h : t.Lays around o ids) : ∀ k ∈ ids, k < t.scopes.size := by
  intro k hk
  cases h with
  | mk hs _ hinner =>
    rcases List.mem_cons.mp hk with rfl | hk
    · exact lt_size_of_scope? hs
    · exact hinner.lt_size k hk

/-- The numbers of laid outlines are positions of the arena. -/
theorem LaysAll.lt_size {around : Option Nat} {os : List Outline} {ids : List Nat}
    (h : t.LaysAll around os ids) : ∀ k ∈ ids, k < t.scopes.size := by
  intro k hk
  cases h with
  | nil => exact absurd hk List.not_mem_nil
  | cons ho hos =>
    rcases List.mem_append.mp hk with hk | hk
    · exact ho.lt_size k hk
    · exact hos.lt_size k hk

end

/-- Outlines that stand side by side can be put into another order. -/
theorem LaysAll.of_perm (h : t.LaysAll around os ids) (hos : os.Perm os') :
    ∃ ids', ids'.Perm ids ∧ t.LaysAll around os' ids' := by
  induction hos generalizing ids with
  | nil => exact ⟨ids, .refl _, h⟩
  | cons o _ ih =>
    cases h with
    | cons ho hos =>
      obtain ⟨ids', hperm, hos'⟩ := ih hos
      exact ⟨_, hperm.append_left _, .cons ho hos'⟩
  | swap o o' os =>
    cases h with
    | cons ho hrest =>
      cases hrest with
      | cons ho' hos =>
        refine ⟨_, ?_, .cons ho' (.cons ho hos)⟩
        rw [← List.append_assoc, ← List.append_assoc]
        exact List.perm_append_comm.append_right _
  | trans _ _ ih₁ ih₂ =>
    obtain ⟨ids₁, hperm₁, h₁⟩ := ih₁ h
    obtain ⟨ids₂, hperm₂, h₂⟩ := ih₂ h₁
    exact ⟨ids₂, hperm₂.trans hperm₁, h₂⟩

/-! ## Addresses and numbers -/

/-- `number` gives every address of the outline a scope of the table: it has the names of the
    outline there, and lies in the scope of the address that is one step shorter. -/
structure Numbers (t : Table) (around : Option Nat) (o : Outline) (number : List Nat → Nat) :
    Prop where
  scope : ∀ a o', o.at? a = some o' → ∃ s, t.scope? (number a) = some s ∧ s.id = number a ∧
    s.bindings.Perm (bound (number a) o'.names)
  root : t.parent? (number []) = around
  inside : ∀ a i, (o.at? (a ++ [i])).isSome → t.parent? (number (a ++ [i])) = some (number a)

/-- The numbers `ids` are those of the addresses. -/
def Onto (o : Outline) (number : List Nat → Nat) (ids : List Nat) : Prop :=
  ∀ k, k ∈ ids ↔ ∃ a, (o.at? a).isSome ∧ number a = k

/-- No two addresses have the same number. -/
def OneToOne (o : Outline) (number : List Nat → Nat) : Prop :=
  Set.InjOn number {a | (o.at? a).isSome}

/-- A numbering for each of the outlines that stand side by side. -/
structure Numberings (t : Table) (around : Option Nat) (os : List Outline) (ids : List Nat)
    (number : Nat → List Nat → Nat) : Prop where
  numbers : ∀ i o, os[i]? = some o → t.Numbers around o (number i)
  onto : ∀ k, k ∈ ids ↔ ∃ i o a, os[i]? = some o ∧ (o.at? a).isSome ∧ number i a = k
  oneToOne : ids.Nodup → ∀ i j o o' a b, os[i]? = some o → os[j]? = some o' →
    (o.at? a).isSome → (o'.at? b).isSome → number i a = number j b → i = j ∧ a = b

/-- An address is one of the outline when its first step is and the rest is one of the outline
    there. -/
theorem isSome_at?_cons {o : Outline} {i : Nat} {a : List Nat} :
    (o.at? (i :: a)).isSome ↔ ∃ c, o.inner[i]? = some c ∧ (c.at? a).isSome := by
  rw [Outline.at?]
  cases o.inner[i]? <;> simp

/-- One more outline in front gets the position `0`, and those of the others move up by one. -/
theorem Numberings.cons {number : List Nat → Nat} {numbers : Nat → List Nat → Nat}
    (hn : t.Numbers around o number) (honto : Onto o number ids)
    (hone : ids.Nodup → OneToOne o number) (h : t.Numberings around os ids' numbers) :
    t.Numberings around (o :: os) (ids ++ ids') fun
      | 0 => number
      | i + 1 => numbers i where
  numbers := by
    intro i o' ho
    cases i with
    | zero =>
      obtain rfl := Option.some.inj ho
      exact hn
    | succ i => exact h.numbers i o' ho
  onto := by
    intro k
    rw [List.mem_append, honto k, h.onto k]
    constructor
    · rintro (⟨a, ha, hk⟩ | ⟨i, o', a, ho, ha, hk⟩)
      · exact ⟨0, o, a, rfl, ha, hk⟩
      · exact ⟨i + 1, o', a, ho, ha, hk⟩
    · rintro ⟨i, o', a, ho, ha, hk⟩
      cases i with
      | zero =>
        obtain rfl := Option.some.inj ho
        exact Or.inl ⟨a, ha, hk⟩
      | succ i => exact Or.inr ⟨i, o', a, ho, ha, hk⟩
  oneToOne := by
    intro hnodup i j o₁ o₂ a b hi hj ha hb hk
    obtain ⟨hids, hids', hdisjoint⟩ := List.nodup_append.mp hnodup
    -- the numbers of the first outline are not those of the others
    cases i with
    | zero =>
      obtain rfl := Option.some.inj hi
      cases j with
      | zero =>
        obtain rfl := Option.some.inj hj
        exact ⟨rfl, hone hids ha hb hk⟩
      | succ j =>
        have h₁ : number a ∈ ids := (honto _).mpr ⟨a, ha, rfl⟩
        have h₂ : numbers j b ∈ ids' := (h.onto _).mpr ⟨j, o₂, b, hj, hb, rfl⟩
        exact absurd hk (hdisjoint _ h₁ _ h₂)
    | succ i =>
      cases j with
      | zero =>
        obtain rfl := Option.some.inj hj
        have h₁ : number b ∈ ids := (honto _).mpr ⟨b, hb, rfl⟩
        have h₂ : numbers i a ∈ ids' := (h.onto _).mpr ⟨i, o₁, a, hi, ha, rfl⟩
        exact absurd hk.symm (hdisjoint _ h₁ _ h₂)
      | succ j =>
        obtain ⟨rfl, rfl⟩ := h.oneToOne hids' i j o₁ o₂ a b hi hj ha hb hk
        exact ⟨rfl, rfl⟩

/-- The number of a scope, and the numbers of those inside. -/
def numberFrom (id : Nat) (numbers : Nat → List Nat → Nat) : List Nat → Nat
  | [] => id
  | i :: a => numbers i a

/-- A scope around numbered outlines is numbered, with the empty address for the scope itself. -/
theorem Numberings.numbers_mk {id : Nat} {names : List (String × Entity)}
    {bindings : List (String × Symbol)} {numbers : Nat → List Nat → Nat}
    (hs : t.scope? id = some ⟨id, around, bindings⟩) (hb : bindings.Perm (bound id names))
    (h : t.Numberings (some id) os ids numbers) :
    t.Numbers around (.mk names os) (numberFrom id numbers) where
  scope := by
    intro a o' ho
    cases a with
    | nil =>
      obtain rfl := Option.some.inj ho
      exact ⟨_, hs, rfl, hb⟩
    | cons i a =>
      obtain ⟨c, hc, ho⟩ := Outline.at?_cons.mp ho
      exact (h.numbers i c hc).scope a o' ho
  root := by
    show t.parent? id = around
    rw [parent?, hs]
    rfl
  inside := by
    intro a i hsome
    cases a with
    | nil =>
      obtain ⟨c, hc, -⟩ := isSome_at?_cons.mp hsome
      exact (h.numbers i c hc).root
    | cons j a =>
      obtain ⟨c, hc, hsome⟩ := isSome_at?_cons.mp hsome
      exact (h.numbers j c hc).inside a i hsome

/-- Every number is that of the scope or of one inside. -/
theorem Numberings.onto_mk {id : Nat} {names : List (String × Entity)}
    {numbers : Nat → List Nat → Nat} (h : t.Numberings (some id) os ids numbers) :
    Onto (.mk names os) (numberFrom id numbers) (id :: ids) := by
  intro k
  rw [List.mem_cons, h.onto k]
  constructor
  · rintro (rfl | ⟨i, c, a, hc, ha, hk⟩)
    · exact ⟨[], rfl, rfl⟩
    · exact ⟨i :: a, isSome_at?_cons.mpr ⟨c, hc, ha⟩, hk⟩
  · rintro ⟨a, ha, hk⟩
    cases a with
    | nil => exact Or.inl hk.symm
    | cons i a =>
      obtain ⟨c, hc, ha⟩ := isSome_at?_cons.mp ha
      exact Or.inr ⟨i, c, a, hc, ha, hk⟩

/-- When no number comes twice, the scope itself has another number than any inside. -/
theorem Numberings.oneToOne_mk {id : Nat} {names : List (String × Entity)}
    {numbers : Nat → List Nat → Nat} (h : t.Numberings (some id) os ids numbers)
    (hnodup : (id :: ids).Nodup) : OneToOne (.mk names os) (numberFrom id numbers) := by
  obtain ⟨hnew, hnodup⟩ := List.nodup_cons.mp hnodup
  have hne : ∀ i a, ((Outline.mk names os).at? (i :: a)).isSome → numbers i a ≠ id := by
    intro i a ha hk
    obtain ⟨c, hc, ha⟩ := isSome_at?_cons.mp ha
    exact hnew ((h.onto id).mpr ⟨i, c, a, hc, ha, hk⟩)
  intro a ha b hb hk
  cases a with
  | nil =>
    cases b with
    | nil => rfl
    | cons j b => exact absurd hk.symm (hne j b hb)
  | cons i a =>
    cases b with
    | nil => exact absurd hk (hne i a ha)
    | cons j b =>
      obtain ⟨c, hc, ha⟩ := isSome_at?_cons.mp ha
      obtain ⟨d, hd, hb⟩ := isSome_at?_cons.mp hb
      obtain ⟨rfl, rfl⟩ := h.oneToOne hnodup i j c d a b hc hd ha hb hk
      rfl

mutual

/-- A laid outline has its addresses numbered. -/
theorem Lays.exists_numbers {around : Option Nat} {o : Outline} {ids : List Nat}
    (h : t.Lays around o ids) :
    ∃ number, ids.head? = some (number []) ∧ t.Numbers around o number ∧ Onto o number ids ∧
      (ids.Nodup → OneToOne o number) := by
  cases h with
  | mk hs hb hinner =>
    obtain ⟨numbers, hn⟩ := hinner.exists_numberings
    exact ⟨numberFrom _ numbers, rfl, hn.numbers_mk hs hb, hn.onto_mk, hn.oneToOne_mk⟩

/-- Laid outlines have their addresses numbered, each behind its position in the row. -/
theorem LaysAll.exists_numberings {around : Option Nat} {os : List Outline} {ids : List Nat}
    (h : t.LaysAll around os ids) : ∃ numbers, t.Numberings around os ids numbers := by
  cases h with
  | nil => exact ⟨fun _ _ => 0, by simp, by simp, by simp⟩
  | cons ho hos =>
    obtain ⟨number, -, hn, honto, hone⟩ := ho.exists_numbers
    obtain ⟨numbers, hns⟩ := hos.exists_numberings
    exact ⟨_, hns.cons hn honto hone⟩

end

/-- When the scopes of an outline are all those of the table, each of them once, then addresses
    and numbers correspond one to one. -/
theorem Lays.exists_bijOn {id : Nat} (h : t.Lays around o (id :: ids))
    (hids : (id :: ids).Perm (List.range t.scopes.size)) :
    ∃ number, number [] = id ∧ t.Numbers around o number ∧
      Set.BijOn number {a | (o.at? a).isSome} {k | k < t.scopes.size} := by
  obtain ⟨number, hhead, hn, honto, hone⟩ := h.exists_numbers
  have hmem : ∀ k, k < t.scopes.size ↔ ∃ a, (o.at? a).isSome ∧ number a = k := by
    intro k
    rw [← honto k, hids.mem_iff, List.mem_range]
  have hbij : Set.BijOn number {a | (o.at? a).isSome} {k | k < t.scopes.size} := by
    refine ⟨?_, hone (hids.nodup_iff.mpr List.nodup_range), ?_⟩
    · intro a ha
      exact (hmem _).mpr ⟨a, ha, rfl⟩
    · intro k hk
      obtain ⟨a, ha, hk⟩ := (hmem k).mp hk
      exact ⟨a, ha, hk⟩
  exact ⟨number, (Option.some.inj hhead).symm, hn, hbij⟩

end Table
end ProcLang
