/-
  The checker decides the static semantics.

  The checker threads a symbol table through the tree, opens and closes scopes of an arena, and
  opens the scopes of procedures a second time for their bodies; the reference semantics has a
  stack of frames.  `Visit.Agrees v r Q`: the visit `v` and the reference `r` either fail with
  the same error, or both succeed, and then `Q` tells how their outcomes belong together.  It is
  closed under sequencing (`Agrees.andThen`), so the two are compared construct by construct:

  * expressions and locations see the table through its frames only;
  * statements and nested blocks give back the frames they were given;
  * declarations bind in the current frame;
  * after the headers of siblings, each waits in a scope of its own, which holds its parameters
    and lies in the current one (`Waiting`).  A body changes its own scope and new ones, so the
    siblings behind it go on waiting.

  The main statement is `typeCheck_result_eq_program`.
-/
import ProcLang.Proofs.Typing.Frames
import ProcLang.Proofs.Typing.Outcome
import ProcLang.Typing.Procedure

namespace ProcLang

open Static Table

variable {α β γ δ ε : Type}

/-! ## Expressions -/

open Found

mutual

/-- The checker finds the basetype of an expression that the frames give it. -/
theorem Expr.result_check (fs : Frames) (e : Expr) :
    (e.check fs.find).result = typeOf fs e := by
  cases e with
  | binary a op l r =>
    simp only [Expr.check, typeOf, result_andThen, result_conclude, Expr.result_check fs l,
      Expr.result_check fs r]
  | unary a op e =>
    simp only [Expr.check, typeOf, result_andThen, result_conclude, Expr.result_check fs e]
  | addressOf a l =>
    simp only [Expr.check, typeOf, result_andThen, result_conclude, Location.result_check fs l]
  | element a x i =>
    simp only [Expr.check, typeOf, result_andThen, result_conclude, Expr.result_check fs i]
  | named a x => exact result_conclude _ _ _
  | integer a n => rfl
  | char a c => rfl
  | boolean a b => rfl
  | null a => rfl

/-- The basetype that is found for a location is the one that the rules give. -/
theorem Location.result_check (fs : Frames) (l : Location) :
    (l.check fs.find).result = typeAt fs l := by
  cases l with
  | named a x => exact result_conclude _ _ _
  | pointee a x => simp only [Location.check, typeAt, result_conclude, onLine_bind]
  | element a x i =>
    simp only [Location.check, typeAt, result_andThen, result_conclude, Expr.result_check fs i]

end

/-- The basetypes that are found for arguments are those that the rules give. -/
theorem result_checkArguments (fs : Frames) (es : List Expr) :
    (checkArguments fs.find es).result = typesOf fs es := by
  induction es with
  | nil => rfl
  | cons e es ih =>
    simp only [checkArguments, typesOf, result_andThen, Expr.result_check fs e, ih]

/-! ## Agreement -/

namespace Visit

/-- A visit and the reference fail with the same error, or both succeed, with outcomes that
    belong together. -/
def Agrees (v : Visit α β) (r : Except SemanticError γ) (Q : α → Table → β → γ → Prop) : Prop :=
  match v.result, r with
  | .ok b, .ok c => Q v.node v.table b c
  | .error e, .error e' => e = e'
  | _, _ => False

variable {v : Visit α β} {r : Except SemanticError γ} {Q Q' : α → Table → β → γ → Prop}

/-- To agree is to have the same outcome, if `Q` makes it the same. -/
theorem Agrees.result_eq {r : Except SemanticError β} {Q : α → Table → β → β → Prop}
    (h : v.Agrees r Q) (hQ : ∀ x t b c, Q x t b c → b = c) : v.result = r := by
  unfold Agrees at h
  split at h
  · rename_i b c hb
    rw [hb, hQ _ _ _ _ h]
  · rename_i e e' he
    rw [he, h]
  · exact h.elim

/-- A visit that ends with the result of the reference agrees with it. -/
theorem agrees_mk {x : α} {t : Table} {w r : Except SemanticError β}
    {Q : α → Table → β → β → Prop} (h : w = r) (hQ : ∀ b, Q x t b b) :
    (Visit.mk x t w).Agrees r Q := by
  subst h
  unfold Agrees
  cases w with
  | ok b => exact hQ b
  | error e => rfl

/-- What holds of the outcomes may be weakened. -/
theorem Agrees.imp (h : v.Agrees r Q) (hQ : ∀ x t b c, Q x t b c → Q' x t b c) :
    v.Agrees r Q' := by
  unfold Agrees at *
  split at h
  · exact hQ _ _ _ _ h
  · exact h
  · exact h.elim

/-- Where outcomes are compared, the reference has succeeded. -/
theorem Agrees.and_ok (h : v.Agrees r Q) :
    v.Agrees r fun x t b c => r = .ok c ∧ Q x t b c := by
  unfold Agrees at *
  split at h
  · exact ⟨rfl, h⟩
  · exact h
  · exact h.elim

/-- Sequences agree when their parts do. -/
theorem Agrees.andThen {stop : α → δ} {go : α → Table → β → Visit δ ε} {ζ : Type}
    {k : γ → Except SemanticError ζ} {P : δ → Table → ε → ζ → Prop} (h : v.Agrees r Q)
    (hgo : ∀ x t b c, Q x t b c → (go x t b).Agrees (k c) P) :
    (v.andThen stop go).Agrees (r >>= k) P := by
  unfold Agrees at h
  split at h
  · rename_i b c hb
    rw [andThen_of_ok hb]
    exact hgo _ _ _ _ h
  · rename_i e e' he
    rw [andThen_of_error he]
    exact h
  · exact h.elim

/-- The end of a sequence has no counterpart when it always succeeds. -/
theorem Agrees.andThen_last {stop : α → δ} {go : α → Table → β → Visit δ ε}
    {P : δ → Table → ε → γ → Prop} (h : v.Agrees r Q)
    (hgo : ∀ x t b c, Q x t b c → (go x t b).Agrees (.ok c) P) :
    (v.andThen stop go).Agrees r P := by
  have hr : (r >>= Except.ok) = r := bind_pure r
  rw [← hr]
  exact h.andThen hgo

/-- The reference can hand on what is known of the table. -/
theorem Agrees.ok_last {ζ : Type} {k : γ → ζ} {P : α → Table → β → ζ → Prop} (h : v.Agrees r Q)
    (hQ : ∀ x t b c, Q x t b c → P x t b (k c)) : v.Agrees (r >>= fun c => .ok (k c)) P := by
  unfold Agrees at h
  unfold Agrees
  split at h
  · rename_i b c hb
    rw [hb]
    exact hQ _ _ _ _ h
  · rename_i e e' he
    rw [he]
    exact h
  · exact h.elim

/-- What becomes of the node has no part in the agreement. -/
theorem Agrees.mapNode {f : α → δ} {P : δ → Table → β → γ → Prop} (h : v.Agrees r Q)
    (hQ : ∀ x t b c, Q x t b c → P (f x) t b c) : (v.mapNode f).Agrees r P :=
  h.imp hQ

/-- A visit whose finding is forgotten agrees with the reference that forgets it too. -/
theorem Agrees.forget {P : α → Table → Unit → Unit → Prop} (h : v.Agrees r Q)
    (hQ : ∀ x t b c, Q x t b c → P x t () ()) :
    v.forget.Agrees (r >>= fun _ => .ok ()) P := by
  unfold Agrees at h
  unfold Agrees Visit.forget
  split at h
  · rename_i b c hb
    rw [hb]
    exact hQ _ _ _ _ h
  · rename_i e e' he
    rw [he]
    exact h
  · exact h.elim

end Visit

open Visit

variable {t : Table}

/-! ## Declarations -/

/-- Binding variables in the current scope is adding them to its frame. -/
theorem bindNames_spec (h : t.Valid) (line : Nat) (type : Basetype) (xs : List String) :
    (∃ t', bindNames t type xs = (t', .ok ()) ∧ t.LeadsTo (· = t.current) t' ∧
      addVariables line type (t.frame t.current) xs = .ok (t'.frame t.current)) ∨
    (∃ t', bindNames t type xs = (t', .error .duplicateVariable) ∧
      addVariables line type (t.frame t.current) xs = .error ⟨.duplicateVariable, line⟩) := by
  induction xs generalizing t with
  | nil => exact Or.inl ⟨t, rfl, .refl h _, rfl⟩
  | cons x xs ih =>
    have hadd := h.bindIn_eq_add h.current_lt_size x (.value type) ⟨.duplicateVariable, line⟩
    rcases hadd with ⟨d, hb, hf⟩ | ⟨t₁, hb, hv, hp, hk, hf⟩
    · refine Or.inr ⟨t, ?_, ?_⟩
      · rw [bindNames, Table.insert, hb]
      · rw [addVariables, hf]
        rfl
    · have hl : t.LeadsTo (· = t.current) t₁ := ⟨hv, hp, hk⟩
      have hbind : bindNames t type (x :: xs) = bindNames t₁ type xs := by
        rw [bindNames, Table.insert, hb]
      have hvars : addVariables line type (t.frame t.current) (x :: xs) =
          addVariables line type (t₁.frame t.current) xs := by
        rw [addVariables, hf]
        rfl
      have hrest := ih hv
      rw [hl.current_eq] at hrest
      rw [hbind, hvars]
      rcases hrest with ⟨t₂, he, hl₂, hr⟩ | hrest
      · exact Or.inl ⟨t₂, he, hl.trans hl₂, hr⟩
      · exact Or.inr hrest

/-- A declaration binds its names in the current frame. -/
theorem Decl.agrees_check (h : t.Valid) (d : Decl) :
    (d.check t).Agrees (addVariables d.attr.line d.type.basetype (t.frame t.current) d.names)
      fun x t' _ f => x = d.annotate ∧ t.LeadsTo (· = t.current) t' ∧ f = t'.frame t.current := by
  unfold Agrees Decl.check
  rcases bindNames_spec h d.attr.line d.type.basetype d.names with ⟨t', he, hl, hf⟩ | ⟨t', he, hf⟩
  · rw [he, hf]
    exact ⟨rfl, hl, rfl⟩
  · rw [he, hf]
    rfl

/-- Declarations bind in the current frame, and stop where the rules stop. -/
theorem agrees_checkDecls (h : t.Valid) (ds : List Decl) :
    (checkDecls t ds).Agrees (declared (t.frame t.current) ds)
      fun xs t' _ f =>
        xs = ds.map Decl.annotate ∧ t.LeadsTo (· = t.current) t' ∧ f = t'.frame t.current := by
  induction ds generalizing t with
  | nil => exact ⟨rfl, .refl h _, rfl⟩
  | cons d ds ih =>
    refine (Decl.agrees_check h d).andThen ?_
    rintro x t₁ - f ⟨rfl, hl, rfl⟩
    have hrest := ih hl.valid
    rw [hl.current_eq] at hrest
    refine hrest.mapNode ?_
    rintro xs t₂ - f ⟨rfl, hl₂, rfl⟩
    exact ⟨rfl, hl.trans hl₂, rfl⟩

/-! ## Statements -/

/-- What reads the environment only leaves the table alone. -/
theorem agrees_within (h : t.Valid) {f : Found α Basetype} {r : Except SemanticError Basetype}
    (hf : f.result = r) :
    (f.within t).forget.Agrees (r >>= fun _ => .ok ()) fun _ t' _ _ => t.LeadsTo nowhere t' := by
  have hm : (f.within t).Agrees r fun _ t' _ _ => t' = t := agrees_mk hf fun _ => rfl
  refine hm.forget ?_
  rintro x t' - - rfl
  exact .refl h _

/-- A condition has the basetype that the rules give, and leaves the table. -/
theorem agrees_condition (t : Table) (c : Expr) :
    ((c.check t.env).within t).Agrees (typeOf t.frames c)
      fun x t' b b' => x.OnLine c.attr.line ∧ t' = t ∧ b = b' := by
  refine agrees_mk ?_ fun b => ⟨Expr.onLine_node_check t.env c, rfl, rfl⟩
  rw [env_eq_find]
  exact Expr.result_check t.frames c

/-- An assignment is checked as the rules say, target first. -/
theorem result_checkAssign (fs : Frames) (a : Attribute) (l : Location) (e : Expr) :
    (checkAssign fs.find a l e).result = (do
      let target ← typeAt fs l
      let value ← typeOf fs e
      onLine a.line (Rule.assignment target value)) := by
  simp only [checkAssign, result_andThen, result_conclude, Location.result_check,
    Expr.result_check]

/-- An assignment of a string literal is checked as the rules say. -/
theorem result_checkAssignString (fs : Frames) (a : Attribute) (l : Location) (text : String) :
    (checkAssignString fs.find a l text).result = (do
      let target ← typeAt fs l
      onLine a.line (Rule.stringAssignment target)) := by
  simp only [checkAssignString, result_andThen, result_conclude, Location.result_check]

/-- A call is checked as the rules say: target, arguments, callee. -/
theorem result_checkCall (fs : Frames) (a : Attribute) (l : Location) (g : String)
    (es : List Expr) :
    (checkCall fs.find a l g es).result = (do
      let target ← typeAt fs l
      let arguments ← typesOf fs es
      onLine a.line (Rule.call (fs.find g) arguments target)) := by
  simp only [checkCall, result_andThen, result_conclude, Location.result_check,
    result_checkArguments]

mutual

/-- A statement gives back the frames that it was given. -/
theorem Stmt.agrees_check {t : Table} (h : t.Valid) (s : Stmt) :
    (s.check t).Agrees (stmt t.frames s) fun _ t' _ _ => t.LeadsTo nowhere t' := by
  -- the first three forms only read the table; the others pass through blocks, each of which gives
  -- the frames back
  cases s with
  | assign a l e =>
    have hf := result_checkAssign t.frames a l e
    rw [← env_eq_find] at hf
    have := agrees_within h hf
    simpa only [Stmt.check, stmt, bind_assoc] using this
  | assignString a l text =>
    have hf := result_checkAssignString t.frames a l text
    rw [← env_eq_find] at hf
    have := agrees_within h hf
    simpa only [Stmt.check, stmt, bind_assoc] using this
  | call a l g es =>
    have hf := result_checkCall t.frames a l g es
    rw [← env_eq_find] at hf
    have := agrees_within h hf
    rw [env_eq_find] at this
    simpa only [Stmt.check, stmt, bind_assoc, env_eq_find] using this
  | ifThen a c b =>
    rw [Stmt.check, stmt]
    refine (agrees_condition t c).andThen ?_
    rintro c' t₀ condition - ⟨hc, rfl, rfl⟩
    refine (Block.agrees_check h b).andThen ?_
    intro b' t₁ _ _ hl
    exact agrees_mk (by rw [show c'.attr.line = c.attr.line from hc]) fun _ => hl
  | ifElse a c b₁ b₂ =>
    rw [Stmt.check, stmt]
    refine (agrees_condition t c).andThen ?_
    rintro c' t₀ condition - ⟨hc, rfl, rfl⟩
    refine (Block.agrees_check h b₁).andThen ?_
    intro b' t₁ _ _ hl
    have h₂ := Block.agrees_check hl.valid b₂
    rw [hl.frames_eq h fun _ _ => not_false] at h₂
    refine h₂.andThen ?_
    intro b'' t₂ _ _ hl₂
    exact agrees_mk (by rw [show c'.attr.line = c.attr.line from hc]) fun _ => hl.trans hl₂
  | loop a c b =>
    rw [Stmt.check, stmt]
    refine (agrees_condition t c).andThen ?_
    rintro c' t₀ condition - ⟨hc, rfl, rfl⟩
    refine (Block.agrees_check h b).andThen ?_
    intro b' t₁ _ _ hl
    exact agrees_mk (by rw [show c'.attr.line = c.attr.line from hc]) fun _ => hl
  | block a b =>
    rw [Stmt.check, stmt]
    exact (Block.agrees_check h b).mapNode fun _ _ _ _ hl => hl

/-- A nested block does so too, since its scope is closed again. -/
theorem Block.agrees_check {t : Table} (h : t.Valid) (b : Block) :
    (b.check t).Agrees (block t.frames b) fun _ t' _ _ => t.LeadsTo nowhere t' := by
  cases b with
  | mk ds ss a =>
    have hds := agrees_checkDecls h.openScope ds
    rw [current_openScope, frame_openScope_size] at hds
    rw [Block.check, block]
    refine hds.andThen ?_
    rintro ds' t₁ - f ⟨-, hl, rfl⟩
    have hfs : t₁.frames = t₁.frame t.scopes.size :: t.frames := by
      rw [hl.frames_eq_cons h.openScope, h.frames_openScope, List.tail_cons, current_openScope]
    have hss := agrees_checkStmts hl.valid ss
    rw [hfs] at hss
    refine hss.andThen_last ?_
    intro ss' t₂ _ _ hl₂
    exact h.leadsTo_closeScope (hl.trans (hl₂.imp fun _ _ hf => hf.elim))

/-- Statements give back the frames that they were given. -/
theorem agrees_checkStmts {t : Table} (h : t.Valid) (ss : List Stmt) :
    (checkStmts t ss).Agrees (stmts t.frames ss) fun _ t' _ _ => t.LeadsTo nowhere t' := by
  cases ss with
  | nil => exact .refl h _
  | cons s ss =>
    rw [checkStmts, stmts]
    refine (Stmt.agrees_check h s).andThen ?_
    intro s' t₁ _ _ hl
    have hss := agrees_checkStmts hl.valid ss
    rw [hl.frames_eq h fun _ _ => not_false] at hss
    exact hss.mapNode fun _ _ _ _ hl₂ => hl.trans hl₂

end

/-! ## Headers -/

/-- The procedure of header `h` waits for its body under the header `h'`: scope `id` lies in the
    current one and holds the parameters. -/
structure Waiting (t : Table) (h h' : Header) (id : Nat) : Prop where
  lt_size : id < t.scopes.size
  parent?_eq : t.parent? id = some t.current
  frame_eq : parameters h = .ok (t.frame id)
  attr_eq : h'.attr = h.attr
  returnType_eq : h'.returnType.attr.basetype = h.returnType.basetype

/-- A procedure goes on waiting while its scope is not changed. -/
theorem Waiting.of_leadsTo {t' : Table} {h h' : Header} {id : Nat} {changed : Nat → Prop}
    (hw : Waiting t h h' id) (hl : t.LeadsTo changed t') (hc : ¬ changed id) :
    Waiting t' h h' id where
  lt_size := Nat.lt_of_lt_of_le hw.lt_size hl.keeps.size_le
  parent?_eq := by rw [hl.keeps.parent?_eq id hw.lt_size, hw.parent?_eq, hl.current_eq]
  frame_eq := by rw [hl.keeps.frame_eq id hw.lt_size hc]; exact hw.frame_eq
  attr_eq := hw.attr_eq
  returnType_eq := hw.returnType_eq

/-- Annotations leave the basetypes of the parameters. -/
theorem parameterTypes_annotate (h : Header) (ty : TypeMark) :
    { h with parameters := h.parameters.map Decl.annotate, returnType := ty }.parameterTypes =
      h.parameterTypes := by
  unfold Header.parameterTypes
  rw [List.flatMap_map]
  rfl

/-- A header binds its signature in the current frame, and waits in a new scope. -/
theorem Header.agrees_declare (ht : t.Valid) (h : Header) :
    (h.declare t).Agrees (signature (t.frame t.current) h) fun h' t' id f =>
      t.LeadsTo (· = t.current) t' ∧ f = t'.frame t.current ∧ id = t.scopes.size ∧
        Waiting t' h h' id := by
  have hds := agrees_checkDecls ht.openScope h.parameters
  rw [current_openScope, frame_openScope_size] at hds
  unfold Header.declare signature
  refine hds.and_ok.andThen ?_
  rintro ds t₁ - f ⟨hparams, rfl, hl, rfl⟩
  dsimp only
  -- the parameters went into the scope that was opened, so the current frame is as it was
  have hcur := ht.current_lt_size
  have hlt : t.current < t₁.scopes.size :=
    Nat.lt_of_lt_of_le hcur (Nat.le_trans (keeps_openScope t).size_le hl.keeps.size_le)
  have hk₁ : t.Keeps (· = t.scopes.size) t₁ := (keeps_openScope t).of_nowhere.trans hl.keeps
  have hframe : t₁.frame t.current = t.frame t.current :=
    hk₁.frame_eq _ hcur (Nat.ne_of_lt hcur)
  have hsize : t.scopes.size < t₁.scopes.size := by
    have := hl.keeps.size_le
    rw [size_openScope] at this
    exact this
  rw [insertOutside, ht.enclosing_of_cons hl.valid hl.path_eq, parameterTypes_annotate, ← hframe]
  have hadd := hl.valid.bindIn_eq_add hlt h.name (.procedure h.parameterTypes h.returnType.basetype)
    ⟨takenName h.name, h.attr.line⟩
  rcases hadd with ⟨d, hb, hf⟩ | ⟨t₂, hb, hv, hp, hk, hf⟩
  · rw [hb, hf]
    rfl
  · rw [hb, hf]
    -- two scopes have changed by now, and one of them is new
    have hpath : t₂.closeScope.path = t.path :=
      ht.path_closeScope_of_cons (hp.trans hl.path_eq)
    have hk₂ : t.Keeps (fun id => id = t.scopes.size ∨ id = t.current) t₂.closeScope :=
      ((hk₁.imp fun _ _ => Or.inl).trans (hk.imp fun _ _ => Or.inr)).trans
        (keeps_closeScope t₂).of_nowhere
    have hclose := keeps_closeScope t₂
    have hsize₂ : t.scopes.size < t₂.scopes.size := Nat.lt_of_lt_of_le hsize hk.size_le
    refine ⟨⟨hv.closeScope, hpath, hk₂.imp fun id hid hc => ?_⟩, ?_, rfl, ?_⟩
    · exact hc.resolve_left (Nat.ne_of_lt hid)
    · exact (hclose.frame_eq _ (Nat.lt_of_lt_of_le hlt hk.size_le) not_false).symm
    · refine ⟨Nat.lt_of_lt_of_le hsize₂ hclose.size_le, ?_, ?_, rfl, rfl⟩
      · rw [hclose.parent?_eq _ hsize₂, hk.parent?_eq _ hsize,
          hl.keeps.parent?_eq _ (by rw [size_openScope]; exact Nat.lt_succ_self _),
          parent?_openScope_size, current, current, hpath]
      · rw [hclose.frame_eq _ hsize₂ not_false,
          hk.frame_eq _ hsize (Nat.ne_of_gt hcur)]
        exact hparams

/-- Procedures wait for their bodies, each in a scope of its own. -/
inductive AllWaiting (t : Table) : List Header → List (Header × Nat) → Prop
  | nil : AllWaiting t [] []
  | cons {h h' : Header} {id : Nat} {hs : List Header} {ws : List (Header × Nat)}
      (hw : Waiting t h h' id) (hnew : id ∉ ws.map Prod.snd) (hws : AllWaiting t hs ws) :
      AllWaiting t (h :: hs) ((h', id) :: ws)

/-- Siblings go on waiting when none of their scopes changes. -/
theorem AllWaiting.of_leadsTo {t' : Table} {hs : List Header} {ws : List (Header × Nat)}
    {changed : Nat → Prop} (h : AllWaiting t hs ws) (hl : t.LeadsTo changed t')
    (hc : ∀ id ∈ ws.map Prod.snd, ¬ changed id) : AllWaiting t' hs ws := by
  induction h with
  | nil => exact .nil
  | cons hw hnew _ ih =>
    exact .cons (hw.of_leadsTo hl (hc _ List.mem_cons_self)) hnew
      (ih fun id hid => hc id (List.mem_cons_of_mem _ hid))

/-- Headers bind in the current frame, and then all siblings wait in new scopes. -/
theorem agrees_declareAll (ht : t.Valid) (hs : List Header) :
    (declareAll t hs).Agrees (signatures (t.frame t.current) hs) fun hs' t' ids f =>
      t.LeadsTo (· = t.current) t' ∧ f = t'.frame t.current ∧ AllWaiting t' hs (hs'.zip ids) ∧
        ∀ id ∈ (hs'.zip ids).map Prod.snd, t.scopes.size ≤ id := by
  induction hs generalizing t with
  | nil => exact ⟨.refl ht _, rfl, .nil, fun _ hid => absurd hid List.not_mem_nil⟩
  | cons h hs ih =>
    refine (Header.agrees_declare ht h).andThen ?_
    rintro h' t₁ id f ⟨hl, rfl, rfl, hw⟩
    have hrest := ih hl.valid
    rw [hl.current_eq] at hrest
    refine hrest.andThen_last ?_
    rintro hs' t₂ ids f ⟨hl₂, rfl, hws, hold⟩
    have hne : t.scopes.size ≠ t.current := Nat.ne_of_gt ht.current_lt_size
    have hnew : t.scopes.size ∉ (hs'.zip ids).map Prod.snd :=
      fun hmem => absurd (hold _ hmem) (Nat.not_le_of_lt hw.lt_size)
    refine ⟨hl.trans hl₂, rfl, .cons (hw.of_leadsTo hl₂ hne) hnew hws, ?_⟩
    intro id hid
    rcases List.mem_cons.mp hid with rfl | hid
    · exact Nat.le_refl _
    · exact Nat.le_trans hl.keeps.size_le (hold id hid)

/-! ## Bodies -/

/-- Siblings change the current scope by their signatures; their bodies do not. -/
theorem agrees_declareThen (ht : t.Valid) (ps : List Procedure)
    (hbodies : ∀ {t' : Table} {ws : List (Header × Nat)}, t'.Valid →
      AllWaiting t' (ps.map Procedure.header) ws →
      (checkBodies t' ws ps).Agrees (procedures t'.frames ps)
        fun _ t'' _ _ => t'.LeadsTo (· ∈ ws.map Prod.snd) t'') :
    (declareThen t ps fun t hs => checkBodies t hs ps).Agrees
      (do
        let f ← signatures (t.frame t.current) (ps.map Procedure.header)
        procedures (f :: t.frames.tail) ps
        .ok f)
      fun _ t' _ f => t.LeadsTo (· = t.current) t' ∧ f = t'.frame t.current := by
  refine (agrees_declareAll ht _).andThen ?_
  rintro hs t₁ ids f ⟨hl, rfl, hws, hnew⟩
  have hb := hbodies hl.valid hws
  rw [hl.frames_eq_cons ht] at hb
  -- the bodies change the scopes of the parameters, which are new
  have hcur : t.current ∉ (hs.zip ids).map Prod.snd :=
    fun hmem => absurd (hnew _ hmem) (Nat.not_le_of_lt ht.current_lt_size)
  have hlt : t.current < t₁.scopes.size :=
    Nat.lt_of_lt_of_le ht.current_lt_size hl.keeps.size_le
  have hends : (checkBodies t₁ (hs.zip ids) ps).Agrees
      (procedures (t₁.frame t.current :: t.frames.tail) ps >>= fun _ =>
        .ok (t₁.frame t.current))
      fun _ t' _ f => t.LeadsTo (· = t.current) t' ∧ f = t'.frame t.current := by
    refine hb.ok_last ?_
    intro _ t₂ _ _ hl₂
    refine ⟨?_, (hl₂.keeps.frame_eq _ hlt hcur).symm⟩
    have hk : t.LeadsTo (fun id => id = t.current ∨ id ∈ (hs.zip ids).map Prod.snd) t₂ :=
      (hl.imp fun _ _ => Or.inl).trans (hl₂.imp fun _ _ => Or.inr)
    refine hk.imp fun id hid hc => hc.resolve_right fun hmem => ?_
    exact absurd (hnew id hmem) (Nat.not_le_of_lt hid)
  exact hends

/-- A body, with its nested procedures apart from the rest. -/
theorem body_eq_bind (fs : Frames) (f : Frame) (ps : List Procedure) (ds : List Decl)
    (ss : List Stmt) (r : Return) (a : Attribute) :
    body fs f (.mk ps ds ss r a) =
      (signatures f (ps.map Procedure.header) >>= fun f =>
        procedures (f :: fs) ps >>= fun _ => .ok f) >>= fun f =>
        declared f ds >>= fun f => stmts (f :: fs) ss >>= fun _ => returned (f :: fs) r := by
  rw [body, bind_assoc]
  refine bind_congr fun f => ?_
  rw [bind_assoc]
  rfl

/-- The last statement of a body has the basetype that the rules give, and leaves the table. -/
theorem agrees_return (t : Table) (r : Return) :
    ((r.check t.env).within t).Agrees (returned t.frames r)
      fun _ t' b b' => t' = t ∧ b = b' := by
  refine agrees_mk ?_ fun b => ⟨rfl, rfl⟩
  rw [env_eq_find, Return.check, returned, result_andThen, Expr.result_check]
  simp only [result_conclude]

mutual

/-- A body has the basetype that the reference gives it in the frame of its parameters. -/
theorem Body.agrees_check {t : Table} (ht : t.Valid) (b : Body) :
    (b.check t).Agrees (Static.body t.frames.tail (t.frame t.current) b)
      fun _ t' r r' => t.LeadsTo (· = t.current) t' ∧ r = r' := by
  cases b with
  | mk ps ds ss r a =>
    rw [body_eq_bind, Body.check]
    refine (agrees_declareThen ht ps fun ht' hws => agrees_checkBodies ht' ps hws).andThen ?_
    rintro ps' t₁ - f ⟨hl₁, rfl⟩
    have hds := agrees_checkDecls hl₁.valid ds
    rw [hl₁.current_eq] at hds
    refine hds.andThen ?_
    rintro ds' t₂ - f ⟨-, hl₂, rfl⟩
    have hl₂ := hl₁.trans hl₂
    have hss := agrees_checkStmts hl₂.valid ss
    rw [hl₂.frames_eq_cons ht] at hss
    refine hss.andThen ?_
    intro ss' t₃ _ _ hl₃
    have hfs := hl₃.frames_eq hl₂.valid fun _ _ => not_false
    have hr := agrees_return t₃ r
    rw [hfs, hl₂.frames_eq_cons ht] at hr
    refine hr.andThen_last ?_
    rintro r' t₄ b b' ⟨rfl, rfl⟩
    exact ⟨hl₂.trans (hl₃.imp fun _ _ hf => hf.elim), rfl⟩

/-- A body leaves the scopes alone that other procedures wait in. -/
theorem Procedure.agrees_checkBody {t : Table} (ht : t.Valid) (p : Procedure) {h' : Header}
    {id : Nat} (hw : Waiting t p.header h' id) :
    (p.checkBody t h' id).Agrees (Static.procedure t.frames p)
      fun _ t' _ _ => t.LeadsTo (· = id) t' := by
  cases p with
  | mk h b =>
    let t₁ : Table := { t with path := id :: t.path }
    have hr : t.reenter? id = some t₁ := reenter?_eq_some_iff.mpr ⟨hw.parent?_eq, rfl⟩
    have ht₁ : t₁.Valid := ht.reenter hr
    have hb := Body.agrees_check ht₁ b
    have hfs : t₁.frames.tail = t.frames := rfl
    have hf : parameters h = .ok (t₁.frame t₁.current) := hw.frame_eq
    rw [hfs] at hb
    rw [Procedure.checkBody, hr, Static.procedure, hf]
    refine hb.andThen ?_
    rintro b' t₂ r r' ⟨hl, rfl⟩
    have hl : t₁.LeadsTo (· = id) t₂ := hl
    have hpath : t₂.closeScope.path = t.path := ht.path_closeScope_of_cons hl.path_eq
    have hk₁ : t.Keeps nowhere t₁ := .of_scopes_eq rfl
    have hk : t.Keeps (· = id) t₂.closeScope :=
      (hk₁.of_nowhere.trans hl.keeps).trans (keeps_closeScope t₂).of_nowhere
    have hattr : h'.attr.line = h.attr.line := by rw [hw.attr_eq]; rfl
    have hty : h'.returnType.attr.basetype = h.returnType.basetype := hw.returnType_eq
    refine Agrees.forget (agrees_mk ?_ fun _ => ?_) fun _ _ _ _ hq => hq
    · show (conclude h'.attr _ _).result = _
      rw [result_conclude, hattr, hty]
    · exact ⟨hl.valid.closeScope, hpath, hk⟩

/-- The bodies of waiting siblings agree with their procedures. -/
theorem agrees_checkBodies {t : Table} (ht : t.Valid) (ps : List Procedure)
    {ws : List (Header × Nat)} (hws : AllWaiting t (ps.map Procedure.header) ws) :
    (checkBodies t ws ps).Agrees (procedures t.frames ps)
      fun _ t' _ _ => t.LeadsTo (· ∈ ws.map Prod.snd) t' := by
  -- the first body changes its own scope and new ones, and the scopes of the others are neither
  cases ps with
  | nil => exact .refl ht _
  | cons p ps =>
    cases hws with
    | @cons h h' id hs ws hw hnew hws =>
      rw [checkBodies, procedures]
      refine (Procedure.agrees_checkBody ht p hw).andThen ?_
      intro p' t₁ _ _ hl
      have hid : ∀ k ∈ t.path, k ≠ id := by
        intro k hk
        have hle := ht.le_current_of_mem hk
        have hlt := ht.parent?_lt hw.parent?_eq
        exact Nat.ne_of_lt (Nat.lt_of_le_of_lt hle hlt)
      have hrest := agrees_checkBodies hl.valid ps
        (hws.of_leadsTo hl fun k hk he => hnew (he ▸ hk))
      rw [hl.frames_eq ht hid] at hrest
      refine hrest.mapNode fun _ t₂ _ _ hl₂ => ?_
      exact (hl.imp fun k _ he => he ▸ List.mem_cons_self).trans
        (hl₂.imp fun k _ hk => List.mem_cons_of_mem _ hk)

end

/-! ## Programs -/

/-- Outside all procedures the open scopes are the global one, and `Main` is looked up there. -/
theorem mainVerdict_eq (ht : t.Valid) (hpath : t.path = [globalId]) :
    mainVerdict t = Static.main (t.frame globalId) := by
  obtain ⟨g, hg, -⟩ := ht.global
  have hlookup : t.lookup mainName = g.find? mainName := by
    rw [lookup, hpath, List.findSome?_singleton, hg]
    rfl
  have hframe : t.frame globalId "Main" = (g.find? mainName).map Symbol.entity := by
    rw [frame, hg]
    rfl
  rw [mainVerdict, Static.main, hlookup, hframe]
  cases hf : g.find? mainName with
  | none => rfl
  | some s =>
    have hscope : s.scope = globalId := ht.symbol_scope _ _ hg _ (Scope.mem_of_find? hf)
    rw [Option.filter_some, if_pos (decide_eq_true hscope)]
    rfl

/-- The global frame in the beginning. -/
theorem frame_initial : Table.initial.frame globalId = Frame.empty := rfl

/-- **The checker decides the static semantics**: it accepts the programs that the reference
    accepts, and reports the first violation of the others, with its line. -/
theorem typeCheck_result_eq_program (p : Program) :
    p.typeCheck.result = Static.program p := by
  have hps := agrees_declareThen valid_initial p.procedures fun ht hws =>
    agrees_checkBodies ht p.procedures hws
  have hcur : Table.initial.current = globalId := rfl
  have htail : Table.initial.frames.tail = [] := rfl
  rw [hcur, htail, frame_initial] at hps
  have hprogram : Static.program p =
      (signatures .empty (p.procedures.map Procedure.header) >>= fun f =>
        procedures [f] p.procedures >>= fun _ => .ok f) >>= fun f =>
        onLine p.attr.line (Static.main f) := by
    rw [Static.program, bind_assoc]
    refine bind_congr fun f => ?_
    rw [bind_assoc]
    rfl
  have hp : p.typeCheck.Agrees (Static.program p) fun _ _ _ _ => True := by
    rw [hprogram, Program.typeCheck, Program.check, checkProcedures]
    refine hps.andThen ?_
    rintro ps t - f ⟨hl, rfl⟩
    refine agrees_mk ?_ fun _ => trivial
    rw [mainVerdict_eq hl.valid hl.path_eq]
  exact hp.result_eq fun _ _ _ _ _ => rfl

end ProcLang
