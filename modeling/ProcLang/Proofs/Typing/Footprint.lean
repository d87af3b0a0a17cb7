/-
  What a visit does to the symbol table.

  Visits open, close and enter scopes again, bind names in the current scope and in the one around
  it, and may stop anywhere in between.  `Visit.Framed` says what is left of the table they were
  made in, on success and on failure:

  * no scope is lost: each keeps its place, its number, its parent and its bindings, and only the
    `changed` ones among them get new bindings, behind those they had (`Table.Extends`);
  * on success the open scopes are those of `path`, and on failure those of `base` are still open,
    with others inside.

  It is closed under sequencing (`Framed.andThen`).  A visit that works in a new scope is framed
  by the table before, whatever it does there (`Framed.of_openScope`), and from this the footprint
  of every construct follows along the tree.  The main statement is `reachable_footprint`.
-/
import ProcLang.Proofs.Typing.Frames
import ProcLang.Proofs.Typing.Outcome
import ProcLang.Typing.Procedure

namespace ProcLang

variable {α β γ δ : Type}

namespace Table

variable {t t' t'' : Table}

/-! ## Tables that are extended -/

/-- `t'` has every scope of `t` in its place, with its number, its parent and its bindings, and
    `changed` scopes may have more bindings behind those. -/
def Extends (t : Table) (changed : Nat → Prop) (t' : Table) : Prop :=
  ∀ k s, t.scope? k = some s → ∃ more,
    t'.scope? k = some { s with bindings := s.bindings ++ more } ∧ (more = [] ∨ changed k)

/-- The path does not matter for an extension. -/
theorem Extends.of_scopes_eq {changed : Nat → Prop} (h : t'.scopes = t.scopes) :
    t.Extends changed t' := by
  intro k s hs
  refine ⟨[], ?_, Or.inl rfl⟩
  rw [scope?, h, List.append_nil]
  exact hs

/-- A table extends itself, whichever scopes may change. -/
theorem Extends.refl (t : Table) (changed : Nat → Prop) : t.Extends changed t := .of_scopes_eq rfl

/-- Extensions compose: the new bindings of the second step come behind those of the first. -/
theorem Extends.trans {changed : Nat → Prop} (h : t.Extends changed t')
    (h' : t'.Extends changed t'') : t.Extends changed t'' := by
  intro k s hs
  obtain ⟨more, hs', hc⟩ := h k s hs
  obtain ⟨more', hs'', hc'⟩ := h' k _ hs'
  refine ⟨more ++ more', ?_, ?_⟩
  · rw [hs'', ← List.append_assoc]
  · rcases hc with rfl | hc
    · rwa [List.nil_append]
    · exact Or.inr hc

/-- An extension has at least as many scopes. -/
theorem Extends.size_le {changed : Nat → Prop} (h : t.Extends changed t') :
    t.scopes.size ≤ t'.scopes.size := by
  rcases Nat.lt_or_ge t'.scopes.size t.scopes.size with hlt | hle
  · obtain ⟨s, hs⟩ := exists_scope? hlt
    obtain ⟨more, hs', -⟩ := h _ s hs
    have := lt_size_of_scope? hs'
    omega
  · exact hle

/-- Scopes that `t` does not have cannot be changed in it. -/
theorem Extends.imp {changed changed' : Nat → Prop} (h : t.Extends changed t')
    (himp : ∀ id < t.scopes.size, changed id → changed' id) : t.Extends changed' t' := by
  intro k s hs
  obtain ⟨more, hs', hc⟩ := h k s hs
  exact ⟨more, hs', hc.imp_right (himp k (lt_size_of_scope? hs))⟩

/-- Opening a scope changes none of those that were there. -/
theorem extends_openScope (t : Table) (changed : Nat → Prop) :
    t.Extends changed t.openScope := by
  intro k s hs
  refine ⟨[], ?_, Or.inl rfl⟩
  rw [scope?_openScope_of_lt (lt_size_of_scope? hs), List.append_nil]
  exact hs

/-- Binding changes one scope, and puts the name behind those it had. -/
theorem extends_of_bindIn {id : Nat} {x : String} {e : Entity} (h : t.bindIn id x e = .ok t') :
    t.Extends (· = id) t' := by
  intro k s hs
  rw [scope?_of_bindIn h, hs]
  split
  · rename_i hk
    exact ⟨[(x, ⟨e, s.id⟩)], rfl, Or.inr hk⟩
  · exact ⟨[], by rw [List.append_nil], Or.inl rfl⟩

end Table

open Table

/-! ## Framed visits -/

namespace Visit

/-- What the visit `v`, made in the table `t`, leaves of it. -/
structure Framed (v : Visit α β) (t : Table) (changed : Nat → Prop) (base path : List Nat) :
    Prop where
  valid : v.table.Valid
  keeps : t.Extends changed v.table
  path_of_ok : ∀ b, v.result = .ok b → v.table.path = path
  path_of_error : ∀ e, v.result = .error e → base <:+ v.table.path

variable {v : Visit α β} {t t' : Table} {changed changed' : Nat → Prop}
  {base base' path path' : List Nat}

/-- A visit whose table is known, whatever it found. -/
theorem framed_mk (x : α) (r : Except SemanticError β) (h : t'.Valid) (hk : t.Extends changed t')
    (hp : t'.path = path) (hb : base <:+ path) : (Visit.mk x t' r).Framed t changed base path :=
  ⟨h, hk, fun _ _ => hp, fun _ _ => hp ▸ hb⟩

/-- A check that only reads the table leaves it as it is. -/
theorem framed_within (h : t.Valid) (f : Found α β) (changed : Nat → Prop) :
    (f.within t).Framed t changed t.path t.path :=
  framed_mk _ _ h (.refl t changed) rfl (List.suffix_refl _)

/-- What becomes of the node has no part in the footprint. -/
theorem Framed.mapNode (h : v.Framed t changed base path) (f : α → γ) :
    (v.mapNode f).Framed t changed base path := ⟨h.1, h.2, h.3, h.4⟩

/-- The result of a visit may be dropped, as long as an error stays an error. -/
theorem Framed.forget (h : v.Framed t changed base path) :
    v.forget.Framed t changed base path where
  valid := h.valid
  keeps := h.keeps
  path_of_ok := by
    intro b hb
    cases hr : v.result with
    | ok c => exact h.path_of_ok c hr
    | error e => simp [Visit.forget, hr, Except.map] at hb
  path_of_error := by
    intro e he
    cases hr : v.result with
    | ok c => simp [Visit.forget, hr, Except.map] at he
    | error e' => exact h.path_of_error e' hr

/-- A footprint may be stated with more changed scopes and with fewer that stay open. -/
theorem Framed.imp (h : v.Framed t changed base path)
    (himp : ∀ id < t.scopes.size, changed id → changed' id) (hb : base' <:+ base) :
    v.Framed t changed' base' path :=
  ⟨h.valid, h.keeps.imp himp, h.path_of_ok, fun e he => hb.trans (h.path_of_error e he)⟩

/-- A sequence is framed when its parts are. -/
theorem Framed.andThen {stop : α → γ} {go : α → Table → β → Visit γ δ}
    (h : v.Framed t changed base path)
    (hgo : ∀ x t' b, t'.Valid → t.Extends changed t' → t'.path = path →
      (go x t' b).Framed t' changed base path') :
    (v.andThen stop go).Framed t changed base path' := by
  cases hv : v.result with
  | error e =>
    rw [andThen_of_error hv]
    exact ⟨h.valid, h.keeps, fun _ hb => (by cases hb), fun _ _ => h.path_of_error e hv⟩
  | ok b =>
    rw [andThen_of_ok hv]
    have hrest := hgo v.node v.table b h.valid h.keeps (h.path_of_ok b hv)
    exact ⟨hrest.valid, h.keeps.trans hrest.keeps, hrest.path_of_ok, hrest.path_of_error⟩

/-- What happens in a new scope leaves the scopes before alone. -/
theorem Framed.of_openScope (h : v.Framed t.openScope (· = t.scopes.size) t.openScope.path path) :
    v.Framed t nowhere t.path path where
  valid := h.valid
  keeps := ((extends_openScope t (· = t.scopes.size)).trans h.keeps).imp
    fun _ hid hc => absurd hc (Nat.ne_of_lt hid)
  path_of_ok := h.path_of_ok
  path_of_error := fun e he => (List.suffix_cons _ _).trans (h.path_of_error e he)

end Visit

open Visit

variable {t : Table}

/-! ## Declarations -/

/-- Binding variables changes the current scope and closes nothing. -/
theorem bindNames_footprint (h : t.Valid) (type : Basetype) (xs : List String) :
    (bindNames t type xs).1.Valid ∧ t.Extends (· = t.current) (bindNames t type xs).1 ∧
      (bindNames t type xs).1.path = t.path := by
  induction xs generalizing t with
  | nil => exact ⟨h, .refl t _, rfl⟩
  | cons x xs ih =>
    unfold bindNames
    split
    · rename_i t₁ hb
      have hp : t₁.path = t.path := path_of_bindIn hb
      obtain ⟨hv, hk, hpath⟩ := ih (h.bindIn hb)
      rw [current_eq_of_path_eq hp] at hk
      exact ⟨hv, (extends_of_bindIn hb).trans hk, hpath.trans hp⟩
    · exact ⟨h, .refl t _, rfl⟩

/-- Declarations change the current scope alone. -/
theorem Decl.framed_check (h : t.Valid) (d : Decl) :
    (d.check t).Framed t (· = t.current) t.path t.path := by
  obtain ⟨hv, hk, hp⟩ := bindNames_footprint h d.type.basetype d.names
  exact framed_mk _ _ hv hk hp (List.suffix_refl _)

/-- Declarations in a row change the current scope alone. -/
theorem framed_checkDecls (h : t.Valid) (ds : List Decl) :
    (checkDecls t ds).Framed t (· = t.current) t.path t.path := by
  induction ds generalizing t with
  | nil => exact framed_mk _ _ h (.refl t _) rfl (List.suffix_refl _)
  | cons d ds ih =>
    refine (Decl.framed_check h d).andThen ?_
    intro d' t₁ _ h₁ _ hp
    have hrest := ih h₁
    rw [current_eq_of_path_eq hp, hp] at hrest
    exact hrest.mapNode _

/-! ## Statements -/

mutual

/-- A statement changes no scope that was there before. -/
theorem Stmt.framed_check {t : Table} (h : t.Valid) (s : Stmt) :
    (s.check t).Framed t nowhere t.path t.path := by
  -- the first three forms leave the table; behind a block the path is the one before, so the next
  -- part starts from there
  cases s with
  | assign a l e => exact (framed_within h _ nowhere).forget
  | assignString a l text => exact (framed_within h _ nowhere).forget
  | call a l g es => exact (framed_within h _ nowhere).forget
  | ifThen a c b =>
    rw [Stmt.check]
    refine (framed_within h (c.check t.env) nowhere).andThen ?_
    intro c' t₀ condition h₀ _ hp₀
    rw [← hp₀]
    refine (Block.framed_check h₀ b).andThen ?_
    intro b' t₁ _ h₁ _ hp₁
    exact framed_mk _ _ h₁ (.refl t₁ _) hp₁ (List.suffix_refl _)
  | ifElse a c b₁ b₂ =>
    rw [Stmt.check]
    refine (framed_within h (c.check t.env) nowhere).andThen ?_
    intro c' t₀ condition h₀ _ hp₀
    rw [← hp₀]
    refine (Block.framed_check h₀ b₁).andThen ?_
    intro b' t₁ _ h₁ _ hp₁
    rw [← hp₁]
    refine (Block.framed_check h₁ b₂).andThen ?_
    intro b'' t₂ _ h₂ _ hp₂
    exact framed_mk _ _ h₂ (.refl t₂ _) hp₂ (List.suffix_refl _)
  | loop a c b =>
    rw [Stmt.check]
    refine (framed_within h (c.check t.env) nowhere).andThen ?_
    intro c' t₀ condition h₀ _ hp₀
    rw [← hp₀]
    refine (Block.framed_check h₀ b).andThen ?_
    intro b' t₁ _ h₁ _ hp₁
    exact framed_mk _ _ h₁ (.refl t₁ _) hp₁ (List.suffix_refl _)
  | block a b =>
    rw [Stmt.check]
    exact (Block.framed_check h b).mapNode _

/-- A nested block works in a scope of its own, and closes it when it succeeds. -/
theorem Block.framed_check {t : Table} (h : t.Valid) (b : Block) :
    (b.check t).Framed t nowhere t.path t.path := by
  cases b with
  | mk ds ss a =>
    rw [Block.check]
    have hds : (checkDecls t.openScope ds).Framed t nowhere t.path t.openScope.path :=
      (framed_checkDecls h.openScope ds).of_openScope
    refine hds.andThen ?_
    intro ds' t₁ _ h₁ _ hp₁
    have hss := framed_checkStmts h₁ ss
    rw [hp₁] at hss
    have hbase : t.path <:+ t.openScope.path := List.suffix_cons _ _
    refine (hss.imp (fun _ _ hc => hc) hbase).andThen ?_
    intro ss' t₂ _ h₂ _ hp₂
    exact framed_mk _ _ h₂.closeScope (.of_scopes_eq (scopes_closeScope t₂))
      (h.path_closeScope_of_cons hp₂) (List.suffix_refl _)

/-- Statements in a row change no scope of the table, since each block opens its own. -/
theorem framed_checkStmts {t : Table} (h : t.Valid) (ss : List Stmt) :
    (checkStmts t ss).Framed t nowhere t.path t.path := by
  cases ss with
  | nil => exact framed_mk _ _ h (.refl t _) rfl (List.suffix_refl _)
  | cons s ss =>
    rw [checkStmts]
    refine (Stmt.framed_check h s).andThen ?_
    intro s' t₁ _ h₁ _ hp₁
    rw [← hp₁]
    exact (framed_checkStmts h₁ ss).mapNode _

end

/-! ## Headers -/

/-- A header binds in the current scope, from inside the scope of its parameters. -/
theorem Header.framed_declare (ht : t.Valid) (h : Header) :
    (h.declare t).Framed t (· = t.current) t.path t.path := by
  unfold Header.declare
  have hds := (framed_checkDecls ht.openScope h.parameters).of_openScope
  refine (hds.imp (fun _ _ hc => hc.elim) (List.suffix_refl _)).andThen ?_
  intro ds t₁ _ h₁ _ hp₁
  have henclosing : t₁.enclosing = t.current := ht.enclosing_of_cons h₁ hp₁
  dsimp only
  split
  · rename_i t₂ hb
    have hk : t₁.Extends (· = t.current) t₂ := henclosing ▸ extends_of_bindIn hb
    refine framed_mk _ _ (h₁.bindIn hb).closeScope ?_ ?_ (List.suffix_refl _)
    · exact hk.trans (.of_scopes_eq (scopes_closeScope t₂))
    · exact ht.path_closeScope_of_cons ((path_of_bindIn hb).trans hp₁)
  · refine ⟨h₁, .refl t₁ _, fun _ hr => (by cases hr), fun _ _ => ?_⟩
    rw [hp₁]
    exact List.suffix_cons _ _

/-- Signatures of procedures change the current scope, and leave the scopes of the parameters behind
    it. -/
theorem framed_declareAll (ht : t.Valid) (hs : List Header) :
    (declareAll t hs).Framed t (· = t.current) t.path t.path := by
  induction hs generalizing t with
  | nil => exact framed_mk _ _ ht (.refl t _) rfl (List.suffix_refl _)
  | cons h hs ih =>
    refine (Header.framed_declare ht h).andThen ?_
    intro h' t₁ id h₁ _ hp₁
    have hrest := ih h₁
    rw [current_eq_of_path_eq hp₁, hp₁] at hrest
    refine hrest.andThen ?_
    intro hs' t₂ ids h₂ _ hp₂
    exact framed_mk _ _ h₂ (.refl t₂ _) hp₂ (List.suffix_refl _)

/-- A header that is declared finds the number of the next scope. -/
theorem Header.eq_size_of_declare {h : Header} {id : Nat}
    (hok : (h.declare t).result = .ok id) : id = t.scopes.size := by
  unfold Header.declare at hok
  obtain ⟨_, -, hrest⟩ := exists_of_andThen_ok hok
  dsimp only at hrest
  split at hrest
  · exact (Except.ok.inj hrest).symm
  · cases hrest

/-- The scopes that headers find are new. -/
theorem size_le_of_declareAll (ht : t.Valid) {hs : List Header} {ids : List Nat}
    (hok : (declareAll t hs).result = .ok ids) : ∀ id ∈ ids, t.scopes.size ≤ id := by
  induction hs generalizing t ids with
  | nil =>
    obtain rfl := Except.ok.inj hok
    intro id hid
    exact absurd hid List.not_mem_nil
  | cons h hs ih =>
    obtain ⟨id, hh, hrest⟩ := exists_of_andThen_ok hok
    obtain ⟨ids', hhs, hids⟩ := exists_of_andThen_ok hrest
    obtain rfl := Except.ok.inj hids
    have hframed := Header.framed_declare ht h
    intro k hk
    rcases List.mem_cons.mp hk with rfl | hk
    · exact Nat.le_of_eq (Header.eq_size_of_declare hh).symm
    · exact Nat.le_trans hframed.keeps.size_le (ih hframed.valid hhs k hk)

/-! ## Bodies -/

/-- Siblings change the current scope by their names, and the bodies new scopes only. -/
theorem framed_declareThen (ht : t.Valid) (ps : List Procedure)
    (hbodies : ∀ {t' : Table} (ws : List (Header × Nat)), t'.Valid →
      (checkBodies t' ws ps).Framed t' (· ∈ ws.map Prod.snd) t'.path t'.path) :
    (declareThen t ps fun t hs => checkBodies t hs ps).Framed t (· = t.current) t.path t.path := by
  unfold declareThen
  have hhs := framed_declareAll ht (ps.map Procedure.header)
  cases hok : (declareAll t (ps.map Procedure.header)).result with
  | error e =>
    rw [andThen_of_error hok]
    exact ⟨hhs.valid, hhs.keeps, fun _ hb => (by cases hb), fun _ _ => hhs.path_of_error e hok⟩
  | ok ids =>
    rw [andThen_of_ok hok]
    have hp := hhs.path_of_ok ids hok
    have hb := hbodies ((declareAll t (ps.map Procedure.header)).node.zip ids) hhs.valid
    rw [hp] at hb
    have hnew : ∀ id < t.scopes.size,
        id ∉ ((declareAll t (ps.map Procedure.header)).node.zip ids).map Prod.snd := by
      intro id hid hmem
      obtain ⟨⟨h, k⟩, hw, rfl⟩ := List.mem_map.mp hmem
      have := size_le_of_declareAll ht hok k (List.of_mem_zip hw).2
      omega
    refine ⟨hb.valid, ?_, hb.path_of_ok, hb.path_of_error⟩
    -- what the bodies change is not in the table before the headers
    have hk : t.Extends (fun id => id = t.current ∨
        id ∈ ((declareAll t (ps.map Procedure.header)).node.zip ids).map Prod.snd) _ :=
      (hhs.keeps.imp fun _ _ => Or.inl).trans (hb.keeps.imp fun _ _ => Or.inr)
    exact hk.imp fun id hid hc => hc.resolve_right (hnew id hid)

mutual

/-- A body changes the scope that it is checked in. -/
theorem Body.framed_check {t : Table} (ht : t.Valid) (b : Body) :
    (b.check t).Framed t (· = t.current) t.path t.path := by
  cases b with
  | mk ps ds ss r a =>
    rw [Body.check]
    refine (framed_declareThen ht ps fun ws h => framed_checkBodies h ps ws).andThen ?_
    intro ps' t₁ _ h₁ _ hp₁
    have hds := framed_checkDecls h₁ ds
    rw [current_eq_of_path_eq hp₁, hp₁] at hds
    refine hds.andThen ?_
    intro ds' t₂ _ h₂ _ hp₂
    have hss := framed_checkStmts h₂ ss
    rw [hp₂] at hss
    refine (hss.imp (fun _ _ hc => hc.elim) (List.suffix_refl _)).andThen ?_
    intro ss' t₃ _ h₃ _ hp₃
    rw [← hp₃]
    refine (framed_within h₃ (r.check t₃.env) _).andThen ?_
    intro r' t₄ result h₄ _ hp₄
    exact framed_mk _ _ h₄ (.refl t₄ _) hp₄ (List.suffix_refl _)

/-- The body of a procedure changes the scope that was entered again, if it could be. -/
theorem Procedure.framed_checkBody {t : Table} (ht : t.Valid) (p : Procedure) (h : Header)
    (id : Nat) :
    (p.checkBody t h id).Framed t (fun k => k = id ∧ t.parent? k = some t.current) t.path
      t.path := by
  cases p with
  | mk _ b =>
    rw [Procedure.checkBody]
    cases hr : t.reenter? id with
    | none => exact framed_mk _ _ ht (.refl t _) rfl (List.suffix_refl _)
    | some t₁ =>
      obtain ⟨hparent, rfl⟩ := reenter?_eq_some_iff.mp hr
      have hb := Body.framed_check (ht.reenter hr) b
      -- entering a scope again leaves the arena alone
      have hkeeps : t.Extends (· = id) (b.check { t with path := id :: t.path }).table := hb.keeps
      have hb' : (b.check { t with path := id :: t.path }).Framed t
          (fun k => k = id ∧ t.parent? k = some t.current) t.path (id :: t.path) :=
        ⟨hb.valid, hkeeps.imp fun k _ hk => ⟨hk, hk ▸ hparent⟩, hb.path_of_ok, fun e he =>
          (List.suffix_cons _ _).trans (hb.path_of_error e he)⟩
      refine hb'.andThen ?_
      intro b' t₂ result h₂ _ hp₂
      refine Framed.forget (framed_mk _ _ h₂.closeScope ?_ ?_ (List.suffix_refl _))
      · exact .of_scopes_eq (scopes_closeScope t₂)
      · exact ht.path_closeScope_of_cons hp₂

/-- The bodies change the scopes that the signatures opened for them. -/
theorem framed_checkBodies {t : Table} (ht : t.Valid) (ps : List Procedure)
    (ws : List (Header × Nat)) :
    (checkBodies t ws ps).Framed t (· ∈ ws.map Prod.snd) t.path t.path := by
  cases ps with
  | nil =>
    rw [checkBodies]
    exact framed_mk _ _ ht (.refl t _) rfl (List.suffix_refl _)
  | cons p ps =>
    match ws with
    | [] =>
      rw [checkBodies]
      exact framed_mk _ _ ht (.refl t _) rfl (List.suffix_refl _)
    | (h, id) :: ws =>
      rw [checkBodies]
      have hp : (p.checkBody t h id).Framed t (· ∈ id :: ws.map Prod.snd) t.path t.path :=
        (Procedure.framed_checkBody ht p h id).imp
          (fun k _ hk => List.mem_cons.mpr (Or.inl hk.1)) (List.suffix_refl _)
      refine hp.andThen ?_
      intro p' t₁ _ h₁ _ hp₁
      rw [← hp₁]
      exact ((framed_checkBodies h₁ ps ws).imp (fun k _ hk => List.mem_cons_of_mem _ hk)
        (List.suffix_refl _)).mapNode _

end

/-- Seen from outside, procedures in a row change the current scope alone: the scopes of their
    parameters are new. -/
theorem framed_checkProcedures (ht : t.Valid) (ps : List Procedure) :
    (checkProcedures t ps).Framed t (· = t.current) t.path t.path :=
  framed_declareThen ht ps fun ws h => framed_checkBodies h ps ws

/-- A program changes the global scope alone. -/
theorem Program.framed_check (ht : t.Valid) (p : Program) :
    (p.check t).Framed t (· = t.current) t.path t.path := by
  refine (framed_checkProcedures ht p.procedures).andThen ?_
  intro ps t₁ _ h₁ _ hp₁
  exact framed_mk _ _ h₁ (.refl t₁ _) hp₁ (List.suffix_refl _)

/-! ## Reachable tables -/

/-- **The footprint of a check.**  In every table that operations can reach, a visit that succeeds
    gives back the open scopes as they were, and one that fails leaves them open, with others
    inside.  No scope that was there before loses its place, its number, its parent or a binding;
    statements and nested blocks bind nothing in any of them, the body of a procedure binds in the
    scope that it is given, and all others bind in the current one. -/
theorem reachable_footprint (ops : List Operation) :
    let t := initial.run ops
    (∀ d : Decl, (d.check t).Framed t (· = t.current) t.path t.path) ∧
    (∀ ds, (checkDecls t ds).Framed t (· = t.current) t.path t.path) ∧
    (∀ s : Stmt, (s.check t).Framed t nowhere t.path t.path) ∧
    (∀ ss, (checkStmts t ss).Framed t nowhere t.path t.path) ∧
    (∀ b : Block, (b.check t).Framed t nowhere t.path t.path) ∧
    (∀ r : Return, ((r.check t.env).within t).Framed t nowhere t.path t.path) ∧
    (∀ h : Header, (h.declare t).Framed t (· = t.current) t.path t.path) ∧
    (∀ b : Body, (b.check t).Framed t (· = t.current) t.path t.path) ∧
    (∀ (p : Procedure) h id,
      (p.checkBody t h id).Framed t (fun k => k = id ∧ t.parent? k = some t.current) t.path
        t.path) ∧
    (∀ ps, (checkProcedures t ps).Framed t (· = t.current) t.path t.path) ∧
    ∀ p : Program, (p.check t).Framed t (· = t.current) t.path t.path := by
  intro t
  have h : t.Valid := valid_initial.run ops
  exact ⟨Decl.framed_check h, framed_checkDecls h, Stmt.framed_check h, framed_checkStmts h,
    Block.framed_check h, fun r => framed_within h _ nowhere, Header.framed_declare h,
    Body.framed_check h, Procedure.framed_checkBody h, framed_checkProcedures h,
    Program.framed_check h⟩

end ProcLang
