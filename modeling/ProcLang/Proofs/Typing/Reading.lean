/-
  Expressions and locations only read the symbol table, and only at the names in them.

  A check of an expression is given what names stand for and hands back no table.  `checkIn` is
  the check that is given the table itself: every part is visited in the table that the parts in
  front of it leave, and a name is looked up in the table of that moment.

  1. The two are the same check (`Expr.checkIn_eq`): no part changes the table, whether it
     succeeds or not, so all names are looked up in the first one.
  2. A check looks at names only for their basetypes (`Expr.check_congr`).  This is the check
     under other names (`Expr.check_rename`), for the renaming that leaves all names as they are.

  The main statement, `check_only_reads`, puts the two together for a pair of tables.
-/
import ProcLang.Proofs.Typing.Renaming

namespace ProcLang

variable {α β γ δ : Type}

/-! ## Checks that pass the table on -/

open Found

mutual

/-- Checks an expression in a table, and passes the table on from part to part. -/
def Expr.checkIn (t : Table) : Expr → Visit Expr Basetype
  | .binary a op l r =>
    (l.checkIn t).andThen (fun l => .binary a op l r) fun l t left =>
      (r.checkIn t).andThen (fun r => .binary a op l r) fun r t right =>
        (conclude a (Rule.binary op left right) fun a => .binary a op l r).within t
  | .unary a op e =>
    (e.checkIn t).andThen (fun e => .unary a op e) fun e t operand =>
      (conclude a (Rule.unary op operand) fun a => .unary a op e).within t
  | .addressOf a l =>
    (l.checkIn t).andThen (fun l => .addressOf a l) fun l t target =>
      (conclude a (Rule.addressOf target) fun a => .addressOf a l).within t
  | .element a x i =>
    (i.checkIn t).andThen (fun i => .element a x i) fun i t index =>
      (conclude a (Rule.element (t.env x) index) fun a => .element a x i).within t
  | .named a x => (conclude a (Rule.named (t.env x)) fun a => .named a x).within t
  | .integer a n => (conclude a (.ok .integer) fun a => .integer a n).within t
  | .char a c => (conclude a (.ok .char) fun a => .char a c).within t
  | .boolean a b => (conclude a (.ok .boolean) fun a => .boolean a b).within t
  | .null a => (conclude a (.ok .null) fun a => .null a).within t

/-- Checks a location in a table, and passes the table on from part to part. -/
def Location.checkIn (t : Table) : Location → Visit Location Basetype
  | .named a x => (conclude a (Rule.named (t.env x)) fun a => .named a x).within t
  | .pointee a x =>
    (conclude a (Rule.named (t.env x) >>= Rule.deref) fun a => .pointee a x).within t
  | .element a x i =>
    (i.checkIn t).andThen (fun i => .element a x i) fun i t index =>
      (conclude a (Rule.element (t.env x) index) fun a => .element a x i).within t

end

/-- A sequence that leaves the table alone, when the part behind the first one does. -/
theorem Found.within_andThen {t : Table} (f : Found α β) {stop : α → γ}
    {go : α → β → Found γ δ} {goIn : α → Table → β → Visit γ δ}
    (h : ∀ x b, goIn x t b = (go x b).within t) :
    (f.within t).andThen stop goIn = (f.andThen stop go).within t := by
  obtain ⟨x, result⟩ := f
  cases result with
  | ok b => exact h x b
  | error e => rfl

mutual

/-- No part of an expression changes the table. -/
theorem Expr.checkIn_eq (e : Expr) (t : Table) : e.checkIn t = (e.check t.env).within t := by
  cases e with
  | binary a op l r =>
    rw [Expr.checkIn, Expr.check, Expr.checkIn_eq l t]
    refine within_andThen _ fun l left => ?_
    rw [Expr.checkIn_eq r t]
    exact within_andThen _ fun r right => rfl
  | unary a op e =>
    rw [Expr.checkIn, Expr.check, Expr.checkIn_eq e t]
    exact within_andThen _ fun e operand => rfl
  | addressOf a l =>
    rw [Expr.checkIn, Expr.check, Location.checkIn_eq l t]
    exact within_andThen _ fun l target => rfl
  | element a x i =>
    -- `x` is looked up behind the index, in the table that the index leaves
    rw [Expr.checkIn, Expr.check, Expr.checkIn_eq i t]
    exact within_andThen _ fun i index => rfl
  | named a x => rfl
  | integer a n => rfl
  | char a c => rfl
  | boolean a b => rfl
  | null a => rfl

/-- No part of a location changes the table. -/
theorem Location.checkIn_eq (l : Location) (t : Table) :
    l.checkIn t = (l.check t.env).within t := by
  cases l with
  | named a x => rfl
  | pointee a x => rfl
  | element a x i =>
    rw [Location.checkIn, Location.check, Expr.checkIn_eq i t]
    exact within_andThen _ fun i index => rfl

end

/-! ## Names of the same basetypes -/

/-- The basetype of a name, if the table has the name. -/
def Table.basetype? (t : Table) (name : String) : Option Basetype :=
  (t.lookup name).map fun s => s.entity.basetype

/-- The basetype of a name is that of what it stands for. -/
theorem Table.basetype_env (t : Table) (name : String) :
    (t.env name).map Entity.basetype = t.basetype? name := by
  rw [Table.env, Option.map_map]
  rfl

/-- Tables that agree on the basetypes of names agree on them, no name being renamed. -/
theorem agreeOn_id {names : List String} {t t' : Table}
    (h : ∀ x ∈ names, t.basetype? x = t'.basetype? x) : AgreeOn id names t'.env t.env := by
  intro x hx
  rw [id, Table.basetype_env, Table.basetype_env, h x hx]

/-- A function that changes no node changes no check. -/
theorem Found.carry_eq_self {g : α → α} (hg : ∀ x, g x = x) (f : Found α β) : f.carry g = f :=
  congrArg (Found.mk · f.result) (hg f.node)

section

variable {t t' : Table}

/-- Tables that agree on the names of an expression make the same of it. -/
theorem Expr.check_congr {e : Expr} (h : ∀ x ∈ e.names, t.basetype? x = t'.basetype? x) :
    e.check t.env = e.check t'.env := by
  have hcheck := Expr.check_rename e (agreeOn_id h)
  rwa [Expr.rename_id, Found.carry_eq_self Expr.rename_id] at hcheck

/-- Tables that agree on the names of a location make the same of it. -/
theorem Location.check_congr {l : Location}
    (h : ∀ x ∈ l.names, t.basetype? x = t'.basetype? x) : l.check t.env = l.check t'.env := by
  have hcheck := Location.check_rename l (agreeOn_id h)
  rwa [Location.rename_id, Found.carry_eq_self Location.rename_id] at hcheck

/-- Two checks that find the same and leave the same node have one outcome, each with the table
    that it leaves alone. -/
theorem Found.exists_outcome {f f' : Found α β} {v v' : Visit α β} (hf : f = f')
    (hv : v = f.within t) (hv' : v' = f'.within t') :
    ∃ g, f = g ∧ f' = g ∧ v = ⟨g.node, t, g.result⟩ ∧ v' = ⟨g.node, t', g.result⟩ := by
  subst hf
  exact ⟨f, rfl, rfl, hv, hv'⟩

end

/-- **Reading only.**  When every name in an expression or location has the same basetype in two
    tables, or is in neither, then there is one outcome for both: the same basetype or the same
    error, and the same basetypes put into the tree as far as the check gets.  The check that is
    given the table and passes it on has this outcome too, and leaves each table as it was. -/
theorem check_only_reads (t t' : Table) :
    (∀ e : Expr, (∀ x ∈ e.names, t.basetype? x = t'.basetype? x) →
      ∃ f, e.check t.env = f ∧ e.check t'.env = f ∧
        e.checkIn t = ⟨f.node, t, f.result⟩ ∧ e.checkIn t' = ⟨f.node, t', f.result⟩) ∧
    ∀ l : Location, (∀ x ∈ l.names, t.basetype? x = t'.basetype? x) →
      ∃ f, l.check t.env = f ∧ l.check t'.env = f ∧
        l.checkIn t = ⟨f.node, t, f.result⟩ ∧ l.checkIn t' = ⟨f.node, t', f.result⟩ := by
  constructor
  · intro e h
    exact Found.exists_outcome (Expr.check_congr h) (Expr.checkIn_eq e t) (Expr.checkIn_eq e t')
  · intro l h
    exact Found.exists_outcome (Location.check_congr h) (Location.checkIn_eq l t)
      (Location.checkIn_eq l t')

/-- The global scope has `s`, `i` and the procedure `f`. -/
def flatTable : Table where
  scopes := #[⟨0, none,
    [("s", ⟨.value .string, 0⟩), ("i", ⟨.value .integer, 0⟩), ("f", ⟨.procedure [] .integer, 0⟩)]⟩]
  path := [0]

/-- An inner scope hides another `s`, and `f` has another signature. -/
def nestedTable : Table where
  scopes := #[⟨0, none,
      [("f", ⟨.procedure [.char] .boolean, 0⟩), ("s", ⟨.value .integer, 0⟩)]⟩,
    ⟨1, some 0, [("s", ⟨.value .string, 1⟩), ("i", ⟨.value .integer, 1⟩)]⟩]
  path := [1, 0]

/-- `s[i]` on line 4. -/
def indexedLocation : Location := .element (.bare 4) "s" (.named (.bare 4) "i")

/-- `&s[i] + (f * x)` on line 4, where `x` is not declared. -/
def undeclaredSum : Expr :=
  .binary (.bare 4) .plus (.addressOf (.bare 4) indexedLocation)
    (.binary (.bare 4) .times (.named (.bare 4) "f") (.named (.bare 4) "x"))

/-- The location is checked; the sum fails at `x`, with its parts in front of `x` annotated. -/
theorem check_only_reads_hidden :
    (∀ x ∈ undeclaredSum.names, flatTable.basetype? x = nestedTable.basetype? x) ∧
    flatTable.env "f" ≠ nestedTable.env "f" ∧
    (∃ e, undeclaredSum.checkIn flatTable = ⟨e, flatTable, .error ⟨.variableUndefined, 4⟩⟩ ∧
      undeclaredSum.checkIn nestedTable = ⟨e, nestedTable, .error ⟨.variableUndefined, 4⟩⟩ ∧
      e ≠ undeclaredSum) ∧
    (∀ x ∈ indexedLocation.names, flatTable.basetype? x = nestedTable.basetype? x) ∧
    ∃ l, indexedLocation.checkIn flatTable = ⟨l, flatTable, .ok .char⟩ ∧
      indexedLocation.checkIn nestedTable = ⟨l, nestedTable, .ok .char⟩ := by
  have hnames : ∀ x ∈ undeclaredSum.names, flatTable.basetype? x = nestedTable.basetype? x := by
    decide +kernel
  have hindexed : ∀ x ∈ indexedLocation.names, flatTable.basetype? x = nestedTable.basetype? x :=
    by decide +kernel
  have hresult : (undeclaredSum.check flatTable.env).result = .error ⟨.variableUndefined, 4⟩ := by
    decide +kernel
  have hfound : (indexedLocation.check flatTable.env).result = .ok .char := by decide +kernel
  obtain ⟨_, rfl, -, hflat, hnested⟩ := (check_only_reads flatTable nestedTable).1 _ hnames
  obtain ⟨_, rfl, -, hflat', hnested'⟩ := (check_only_reads flatTable nestedTable).2 _ hindexed
  rw [hresult] at hflat hnested
  rw [hfound] at hflat' hnested'
  exact ⟨hnames, by decide +kernel, ⟨_, hflat, hnested, by decide +kernel⟩, hindexed, _, hflat',
    hnested'⟩

end ProcLang
