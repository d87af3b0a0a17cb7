/-
  A symbol table as a stack of frames.

  `t.frame id` is what the names of scope `id` stand for, and `t.frames` are the frames of the
  open scopes.  On valid tables each operation is an operation on frames:

  * opening a scope puts an empty frame on the stack, and opening one again puts its frame there;
  * `insert` binds in the first frame, `insertOutside` in the second one;
  * a name stands for what the frames say.

  What an operation leaves alone is said by `Keeps`: `t.Keeps changed t'` when `t'` has all scopes
  of `t`, each in its place, with the same names but for those that `changed` tells.  It is kept
  apart from the path, so it holds across opening and closing and composes.
-/
import ProcLang.Proofs.Scope.Invariant
import ProcLang.Proofs.Typing.Reference

namespace ProcLang
namespace Table

open Static

variable {t t' t'' : Table}

/-- What the names of the scope `id` stand for. -/
def frame (t : Table) (id : Nat) : Frame :=
  fun x => ((t.scope? id).bind (·.find? x)).map Symbol.entity

/-- The frames of the open scopes, innermost first. -/
def frames (t : Table) : Frames := t.path.map t.frame

/-- A name stands for what the frames say. -/
theorem env_eq_find (t : Table) : t.env = t.frames.find := by
  funext x
  show (t.lookup x).map Symbol.entity = (t.path.map t.frame).findSome? fun f => f x
  unfold lookup
  induction t.path with
  | nil => rfl
  | cons id ids ih =>
    have hf : t.frame id x = ((t.scope? id).bind (·.find? x)).map Symbol.entity := rfl
    rw [List.map_cons, List.findSome?_cons, List.findSome?_cons, ← ih, hf]
    cases (t.scope? id).bind (·.find? x) <;> rfl

/-! ## What is left alone -/

/-- `t'` has the scopes of `t` in their places, and the names of all but the `changed` ones. -/
structure Keeps (t : Table) (changed : Nat → Prop) (t' : Table) : Prop where
  size_le : t.scopes.size ≤ t'.scopes.size
  parent?_eq : ∀ id < t.scopes.size, t'.parent? id = t.parent? id
  frame_eq : ∀ id < t.scopes.size, ¬ changed id → t'.frame id = t.frame id

/-- Nothing is changed. -/
abbrev nowhere : Nat → Prop := fun _ => False

/-- A table keeps what it has. -/
theorem Keeps.refl (t : Table) (changed : Nat → Prop) : t.Keeps changed t :=
  ⟨Nat.le_refl _, fun _ _ => rfl, fun _ _ _ => rfl⟩

/-- What is kept twice is kept. -/
theorem Keeps.trans {changed : Nat → Prop} (h : t.Keeps changed t') (h' : t'.Keeps changed t'') :
    t.Keeps changed t'' where
  size_le := Nat.le_trans h.size_le h'.size_le
  -- scopes of the first table are in the second one, where the other half is known
  parent?_eq := by
    intro id hid
    rw [h'.parent?_eq id (Nat.lt_of_lt_of_le hid h.size_le), h.parent?_eq id hid]
  frame_eq := by
    intro id hid hc
    rw [h'.frame_eq id (Nat.lt_of_lt_of_le hid h.size_le) hc, h.frame_eq id hid hc]

/-- Scopes that `t` does not have cannot be changed in it. -/
theorem Keeps.imp {changed changed' : Nat → Prop} (h : t.Keeps changed t')
    (himp : ∀ id < t.scopes.size, changed id → changed' id) : t.Keeps changed' t' :=
  ⟨h.size_le, h.parent?_eq, fun id hid hc => h.frame_eq id hid fun hd => hc (himp id hid hd)⟩

/-- When nothing has changed, anything may be said to. -/
theorem Keeps.of_nowhere {changed : Nat → Prop} (h : t.Keeps nowhere t') : t.Keeps changed t' :=
  h.imp fun _ _ hf => hf.elim

/-- Tables with the same arena differ in nothing. -/
theorem Keeps.of_scopes_eq (h : t'.scopes = t.scopes) : t.Keeps nowhere t' := by
  have hs : ∀ k, t'.scope? k = t.scope? k := fun k => by rw [scope?, scope?, h]
  exact ⟨Nat.le_of_eq (by rw [h]), fun id _ => by rw [parent?, parent?, hs],
    fun id _ _ => by funext x; rw [frame, frame, hs]⟩

/-- Closing changes no scope. -/
theorem keeps_closeScope (t : Table) : t.Keeps nowhere t.closeScope :=
  .of_scopes_eq (scopes_closeScope t)

/-- Opening changes no scope that was there. -/
theorem keeps_openScope (t : Table) : t.Keeps nowhere t.openScope where
  size_le := by simp [openScope]
  parent?_eq := fun _ hid => parent?_openScope_of_lt hid
  frame_eq := by
    intro id hid _
    funext x
    rw [frame, frame, scope?_openScope_of_lt hid]

/-! ## Opening -/

/-- Opening adds one scope to the arena. -/
@[simp] theorem size_openScope (t : Table) : t.openScope.scopes.size = t.scopes.size + 1 := by
  simp [openScope]

/-- The new scope is the current one. -/
@[simp] theorem current_openScope (t : Table) : t.openScope.current = t.scopes.size := rfl

/-- A new scope has no names. -/
theorem frame_openScope_size (t : Table) : t.openScope.frame t.scopes.size = Frame.empty := by
  funext x
  rw [frame, scope?_openScope, if_pos rfl]
  rfl

/-- The new scope lies in the one that was current. -/
theorem parent?_openScope_size (t : Table) :
    t.openScope.parent? t.scopes.size = some t.current := by
  rw [parent?, scope?_openScope, if_pos rfl]
  rfl

/-! ## Binding -/

/-- Binding in a scope of the arena is adding to its frame. -/
theorem Valid.bindIn_eq_add (h : t.Valid) {id : Nat} (hid : id < t.scopes.size) (x : String)
    (e : Entity) (taken : SemanticError) :
    (∃ d, t.bindIn id x e = .error d ∧ (t.frame id).add x e taken = .error taken) ∨
    ∃ t', t.bindIn id x e = .ok t' ∧ t'.Valid ∧ t'.path = t.path ∧ t.Keeps (· = id) t' ∧
      (t.frame id).add x e taken = .ok (t'.frame id) := by
  obtain ⟨s, hs⟩ := exists_scope? hid
  have hframe : t.frame id x = (s.find? x).map Symbol.entity := by rw [frame, hs]; rfl
  rcases bindIn_spec hs x e with ⟨hf, hb⟩ | ⟨hf, t', hb, hp, hk⟩
  · obtain ⟨y, hy⟩ := Option.isSome_iff_exists.mp hf
    refine Or.inl ⟨⟨x⟩, hb, ?_⟩
    rw [Frame.add, hframe, hy]
    rfl
  · refine Or.inr ⟨t', hb, h.bindIn hb, hp, ?_, ?_⟩
    · refine ⟨Nat.le_of_eq (size_of_bindIn hb).symm, fun k _ => parent?_of_bindIn hb k, ?_⟩
      intro k _ hne
      funext y
      rw [frame, frame, hk, if_neg hne]
    · rw [Frame.add, hframe, hf]
      refine congrArg Except.ok (funext fun y => ?_)
      rw [Frame.bind, frame, frame, hk, if_pos rfl, hs, Option.bind_some, Option.bind_some,
        Scope.find?_bind]
      by_cases hy : y = x
      · subst hy
        rw [hf, if_pos rfl, if_pos rfl]
        rfl
      · rw [if_neg hy, if_neg hy, Option.or_none]

/-! ## Work that comes back to the same open scopes -/

/-- `t'` is a valid table with the path of `t`, and differs from `t` in `changed` scopes and
    in new ones. -/
structure LeadsTo (t : Table) (changed : Nat → Prop) (t' : Table) : Prop where
  valid : t'.Valid
  path_eq : t'.path = t.path
  keeps : t.Keeps changed t'

/-- A valid table leads to itself. -/
theorem LeadsTo.refl (h : t.Valid) (changed : Nat → Prop) : t.LeadsTo changed t :=
  ⟨h, rfl, .refl t changed⟩

/-- One step after the other. -/
theorem LeadsTo.trans {changed : Nat → Prop} (h : t.LeadsTo changed t')
    (h' : t'.LeadsTo changed t'') : t.LeadsTo changed t'' :=
  ⟨h'.valid, h'.path_eq.trans h.path_eq, h.keeps.trans h'.keeps⟩

/-- More scopes of the table may be said to change. -/
theorem LeadsTo.imp {changed changed' : Nat → Prop} (h : t.LeadsTo changed t')
    (himp : ∀ id < t.scopes.size, changed id → changed' id) : t.LeadsTo changed' t' :=
  ⟨h.valid, h.path_eq, h.keeps.imp himp⟩

/-- The path says which scope is current. -/
theorem current_eq_of_path_eq (h : t'.path = t.path) : t'.current = t.current := by
  rw [current, current, h]

/-- The current scope is the same at the end. -/
theorem LeadsTo.current_eq {changed : Nat → Prop} (h : t.LeadsTo changed t') :
    t'.current = t.current := current_eq_of_path_eq h.path_eq

/-- The first frame is that of the current scope. -/
theorem frames_eq_cons (h : t.Valid) :
    ∃ ids, t.path = t.current :: ids ∧ t.frames = t.frame t.current :: ids.map t.frame := by
  obtain ⟨id, ids, hp⟩ := List.exists_cons_of_ne_nil h.linked.ne_nil
  have hc : t.current = id := by rw [current, hp]; rfl
  refine ⟨ids, by rw [hc]; exact hp, ?_⟩
  rw [frames, hp, List.map_cons, hc]

/-- The current scope is the only open one, or the first of several. -/
theorem Valid.path_eq_cons (h : t.Valid) : ∃ ids, t.path = t.current :: ids := by
  obtain ⟨ids, hp, -⟩ := frames_eq_cons h
  exact ⟨ids, hp⟩

/-- The scope around the first of the open scopes is the one that is open behind it. -/
theorem Valid.enclosing_of_cons (h : t.Valid) (h' : t'.Valid) {id : Nat}
    (hp : t'.path = id :: t.path) : t'.enclosing = t.current := by
  obtain ⟨ids, hpath⟩ := h.path_eq_cons
  rw [h'.enclosing_eq, hp, hpath]
  rfl

/-- The current scope has the greatest number of the open ones. -/
theorem Valid.le_current_of_mem (h : t.Valid) {id : Nat} (hid : id ∈ t.path) :
    id ≤ t.current := by
  obtain ⟨ids, hp, -⟩ := frames_eq_cons h
  rw [hp] at hid
  rcases List.mem_cons.mp hid with rfl | hid
  · exact Nat.le_refl _
  · exact Nat.le_of_lt (h.lt_of_linked (hp ▸ h.linked) id hid)

/-- When no open scope is changed, names stand for the same things. -/
theorem LeadsTo.frames_eq {changed : Nat → Prop} (h : t.Valid) (hl : t.LeadsTo changed t')
    (hc : ∀ id ∈ t.path, ¬ changed id) : t'.frames = t.frames := by
  rw [frames, frames, hl.path_eq]
  refine List.map_congr_left fun id hid => ?_
  exact hl.keeps.frame_eq id (h.lt_size_of_mem h.linked id hid) (hc id hid)

/-- When the current scope is changed, the frames around it stay. -/
theorem LeadsTo.frames_eq_cons (h : t.Valid) (hl : t.LeadsTo (· = t.current) t') :
    t'.frames = t'.frame t.current :: t.frames.tail := by
  obtain ⟨ids, hp, hf⟩ := Table.frames_eq_cons h
  have hlink : t.Linked (t.current :: ids) := hp ▸ h.linked
  rw [hf, List.tail_cons, frames, hl.path_eq, hp, List.map_cons]
  refine congrArg _ (List.map_congr_left fun id hid => ?_)
  have hne : id ≠ t.current := Nat.ne_of_lt (h.lt_of_linked hlink id hid)
  have hlt := h.lt_size_of_mem hlink id (List.mem_cons_of_mem _ hid)
  exact hl.keeps.frame_eq id hlt hne

/-! ## Scopes opened for a while -/

/-- A new scope on a table is an empty frame on its frames. -/
theorem Valid.frames_openScope (h : t.Valid) : t.openScope.frames = Frame.empty :: t.frames := by
  show t.openScope.frame t.scopes.size :: t.path.map t.openScope.frame = _
  rw [frame_openScope_size]
  refine congrArg _ (List.map_congr_left fun id hid => ?_)
  exact (keeps_openScope t).frame_eq id (h.lt_size_of_mem h.linked id hid) not_false

/-- Closing the innermost of several open scopes gives back the path around it. -/
theorem Valid.path_closeScope_of_cons (h : t.Valid) {t' : Table} {id : Nat}
    (hp : t'.path = id :: t.path) : t'.closeScope.path = t.path :=
  path_closeScope hp h.linked.ne_nil

/-- Work in a new scope, which is closed in the end, changes none of the scopes before. -/
theorem Valid.leadsTo_closeScope (h : t.Valid) (hl : t.openScope.LeadsTo (· = t.scopes.size) t') :
    t.LeadsTo nowhere t'.closeScope := by
  refine ⟨hl.valid.closeScope, h.path_closeScope_of_cons (hl.path_eq.trans rfl), ?_⟩
  have hk : t.Keeps (· = t.scopes.size) t'.closeScope :=
    ((keeps_openScope t).of_nowhere.trans hl.keeps).trans (keeps_closeScope t').of_nowhere
  exact hk.imp fun id hid he => absurd he (Nat.ne_of_lt hid)

end Table
end ProcLang
