/-
  A second check changes nothing.

  A check hands back its node as far as it got, also when it fails.  When that node is checked
  again, every part finds what it found before, so the second check comes to the same point with
  the same table, and writes basetypes that are there already.

  The argument is the same for every construct, and goes part by part: a node that was handed
  back because a part failed (`stop`), and one that was built when the part succeeded (`go`),
  are each checked as the node before, since the part is (`again_andThen`).  At the end of a
  visit a basetype is written over itself (`again_conclude`).

  Headers are the exception.  After the bodies they may hold one more basetype than after their
  declaration, that of the procedure, which their declaration neither reads nor writes
  (`Header.declare_again`).
-/
import ProcLang.Proofs.Typing.Annotation
import ProcLang.Tree.Equality

namespace ProcLang

variable {α β γ δ : Type}

/-! ## Visits of nodes that were visited -/

namespace Found

/-- The visit of `x` is `f`. -/
def Gives (check : α → Found α β) (x : α) (f : Found α β) : Prop := check x = f

/-- What holds of a node and its visit, both when a part fails and behind it. -/
theorem again_andThen {R : γ → Found γ δ → Prop} {f : Found α β} {stop : α → γ}
    {go : α → β → Found γ δ} (hstop : R (stop f.node) (f.andThen stop go))
    (hgo : ∀ b, f.result = .ok b → R (go f.node b).node (go f.node b)) :
    R (f.andThen stop go).node (f.andThen stop go) := by
  unfold andThen at *
  cases hf : f.result with
  | ok b => exact hgo b hf
  | error e =>
    rw [hf] at hstop
    exact hstop

/-- The end of a visit: the basetype that the second check writes is there already. -/
theorem again_conclude {R : α → Found α Basetype → Prop} {a : Attribute}
    {v : Except Violation Basetype} {build : Attribute → α}
    (h : ∀ b, R (build (a.mark b)) (conclude (a.mark b) v build)) :
    R (conclude a v build).node (conclude a v build) := by
  cases v with
  | ok b => exact h b
  | error _ => exact h a.basetype

/-- A sequence whose first part succeeds goes on with what was found. -/
theorem andThen_of_ok {f : Found α β} {stop : α → γ} {go : α → β → Found γ δ} {b : β}
    (h : f.result = .ok b) : f.andThen stop go = go f.node b := by
  rw [andThen, h]

end Found

namespace Visit

/-- The visit of `x` is `v`. -/
def Gives (check : α → Visit α β) (x : α) (v : Visit α β) : Prop := check x = v

/-- The rule for visits that pass a table on. -/
theorem again_andThen {R : γ → Visit γ δ → Prop} {v : Visit α β} {stop : α → γ}
    {go : α → Table → β → Visit γ δ} (hstop : R (stop v.node) (v.andThen stop go))
    (hgo : ∀ b, v.result = .ok b → R (go v.node v.table b).node (go v.node v.table b)) :
    R (v.andThen stop go).node (v.andThen stop go) := by
  cases hv : v.result with
  | ok b =>
    rw [andThen_of_ok hv]
    exact hgo b hv
  | error e =>
    rw [andThen_of_error hv] at hstop ⊢
    exact hstop

end Visit

open Found

/-! ## Expressions -/

mutual

/-- An expression that was handed back is checked as before. -/
theorem Expr.check_again (env : Env) (e : Expr) : (e.check env).node.check env = e.check env := by
  cases e with
  | binary a op l r =>
    have hl := Expr.check_again env l
    have hr := Expr.check_again env r
    rw [Expr.check]
    refine again_andThen (R := Gives (Expr.check env)) ?_ fun left hleft =>
      again_andThen ?_ fun right hright => again_conclude fun b => ?_
    · -- the left operand failed: it fails again, and nothing else is visited
      rw [Gives, Expr.check, hl]
    · -- the right operand failed
      rw [Gives, Expr.check, hl, andThen_of_ok hleft, hr]
    · -- both were visited, and the node has its mark
      rw [Gives, Expr.check, hl, andThen_of_ok hleft, hr, andThen_of_ok hright]
  | unary a op e =>
    have he := Expr.check_again env e
    rw [Expr.check]
    refine again_andThen (R := Gives (Expr.check env)) ?_ fun operand hoperand =>
      again_conclude fun b => ?_
    · rw [Gives, Expr.check, he]
    · rw [Gives, Expr.check, he, andThen_of_ok hoperand]
  | addressOf a l =>
    have hl := Location.check_again env l
    rw [Expr.check]
    refine again_andThen (R := Gives (Expr.check env)) ?_ fun target htarget =>
      again_conclude fun b => ?_
    · rw [Gives, Expr.check, hl]
    · rw [Gives, Expr.check, hl, andThen_of_ok htarget]
  | element a x i =>
    have hi := Expr.check_again env i
    rw [Expr.check]
    refine again_andThen (R := Gives (Expr.check env)) ?_ fun index hindex =>
      again_conclude fun b => ?_
    · rw [Gives, Expr.check, hi]
    · rw [Gives, Expr.check, hi, andThen_of_ok hindex]
  | named a x => exact again_conclude (R := Gives (Expr.check env)) fun _ => rfl
  | integer a n => rfl
  | char a c => rfl
  | boolean a b => rfl
  | null a => rfl

/-- A location that was handed back is checked as before. -/
theorem Location.check_again (env : Env) (l : Location) :
    (l.check env).node.check env = l.check env := by
  cases l with
  | named a x => exact again_conclude (R := Gives (Location.check env)) fun _ => rfl
  | pointee a x => exact again_conclude (R := Gives (Location.check env)) fun _ => rfl
  | element a x i =>
    have hi := Expr.check_again env i
    rw [Location.check]
    refine again_andThen (R := Gives (Location.check env)) ?_ fun index hindex =>
      again_conclude fun b => ?_
    · rw [Gives, Location.check, hi]
    · rw [Gives, Location.check, hi, andThen_of_ok hindex]

end

/-- Arguments that were handed back are checked as before, those behind a failure included. -/
theorem checkArguments_again (env : Env) (es : List Expr) :
    checkArguments env (checkArguments env es).node = checkArguments env es := by
  induction es with
  | nil => rfl
  | cons e es ih =>
    have he := Expr.check_again env e
    rw [checkArguments]
    refine again_andThen (R := Gives (checkArguments env)) ?_ fun b hb =>
      again_andThen ?_ fun bs hbs => ?_
    · rw [Gives, checkArguments, he]
    · rw [Gives, checkArguments, he, andThen_of_ok hb, ih]
    · rw [Gives, checkArguments, he, andThen_of_ok hb, ih, andThen_of_ok hbs]

/-- A return that was handed back is checked as before. -/
theorem Return.check_again (env : Env) (r : Return) :
    (r.check env).node.check env = r.check env := by
  have he := Expr.check_again env r.value
  rw [Return.check]
  refine again_andThen (R := Gives (Return.check env)) ?_ fun value hvalue =>
    again_conclude fun b => ?_
  · rw [Gives, Return.check, he]
  · rw [Gives, Return.check, he, andThen_of_ok hvalue]

/-! ## Declarations and statements -/

/-- The marks of a declaration come from its type, so the second visit writes the same ones. -/
theorem Decl.check_again (t : Table) (d : Decl) : (d.check t).node.check t = d.check t := rfl

/-- Declarations that were handed back are checked as before. -/
theorem checkDecls_again (t : Table) (ds : List Decl) :
    checkDecls t (checkDecls t ds).node = checkDecls t ds := by
  induction ds generalizing t with
  | nil => rfl
  | cons d ds ih =>
    have hd := Decl.check_again t d
    rw [checkDecls]
    refine Visit.again_andThen (R := Visit.Gives (checkDecls t)) ?_ fun u hu => ?_
    · rw [Visit.Gives, checkDecls, hd]
    · show checkDecls t ((d.check t).node :: (checkDecls (d.check t).table ds).node) = _
      rw [checkDecls, hd, Visit.andThen_of_ok hu, ih]

/-- The statement is visited as `f` tells, in the table `t`. -/
def Stmt.Gives (t : Table) (s : Stmt) (f : Found Stmt Basetype) : Prop :=
  s.check t = (f.within t).forget

/-- An assignment that was handed back gives what it gave. -/
theorem checkAssign_again (t : Table) (a : Attribute) (l : Location) (e : Expr) :
    (checkAssign t.env a l e).node.Gives t (checkAssign t.env a l e) := by
  have hl := Location.check_again t.env l
  have he := Expr.check_again t.env e
  unfold checkAssign
  refine again_andThen (R := Stmt.Gives t) ?_ fun target htarget =>
    again_andThen ?_ fun value hvalue => again_conclude fun b => ?_
  · rw [Stmt.Gives, Stmt.check, checkAssign, hl]
  · rw [Stmt.Gives, Stmt.check, checkAssign, hl, andThen_of_ok htarget, he]
  · rw [Stmt.Gives, Stmt.check, checkAssign, hl, andThen_of_ok htarget, he, andThen_of_ok hvalue]

/-- An assignment of a text that was handed back gives what it gave. -/
theorem checkAssignString_again (t : Table) (a : Attribute) (l : Location) (text : String) :
    (checkAssignString t.env a l text).node.Gives t (checkAssignString t.env a l text) := by
  have hl := Location.check_again t.env l
  unfold checkAssignString
  refine again_andThen (R := Stmt.Gives t) ?_ fun target htarget => again_conclude fun b => ?_
  · rw [Stmt.Gives, Stmt.check, checkAssignString, hl]
  · rw [Stmt.Gives, Stmt.check, checkAssignString, hl, andThen_of_ok htarget]

/-- A call that was handed back gives what it gave. -/
theorem checkCall_again (t : Table) (a : Attribute) (l : Location) (g : String) (es : List Expr) :
    (checkCall t.env a l g es).node.Gives t (checkCall t.env a l g es) := by
  have hl := Location.check_again t.env l
  have hes := checkArguments_again t.env es
  unfold checkCall
  refine again_andThen (R := Stmt.Gives t) ?_ fun target htarget =>
    again_andThen ?_ fun arguments harguments => again_conclude fun b => ?_
  · rw [Stmt.Gives, Stmt.check, checkCall, hl]
  · rw [Stmt.Gives, Stmt.check, checkCall, hl, andThen_of_ok htarget, hes]
  · rw [Stmt.Gives, Stmt.check, checkCall, hl, andThen_of_ok htarget, hes,
      andThen_of_ok harguments]

/-- A condition, as part of a statement. -/
theorem condition_again (t : Table) (c : Expr) :
    (((c.check t.env).within t).node.check t.env).within t = (c.check t.env).within t :=
  congrArg (Found.within · t) (Expr.check_again t.env c)

/-- A return, as part of a body. -/
theorem return_again (t : Table) (r : Return) :
    (((r.check t.env).within t).node.check t.env).within t = (r.check t.env).within t :=
  congrArg (Found.within · t) (Return.check_again t.env r)

mutual

/-- A statement that was handed back is checked as before. -/
theorem Stmt.check_again (t : Table) (s : Stmt) : (s.check t).node.check t = s.check t := by
  cases s with
  | assign a l e =>
    rw [Stmt.check]
    exact checkAssign_again t a l e
  | assignString a l text =>
    rw [Stmt.check]
    exact checkAssignString_again t a l text
  | call a l g es =>
    rw [Stmt.check]
    exact checkCall_again t a l g es
  | ifThen a c b =>
    have hc := condition_again t c
    have hb := Block.check_again ((c.check t.env).within t).table b
    rw [Stmt.check]
    refine Visit.again_andThen (R := Visit.Gives (Stmt.check t)) ?_ fun condition hcondition =>
      Visit.again_andThen ?_ fun u hu => ?_
    · -- one case for the failure of each part, and one for the verdict
      rw [Visit.Gives, Stmt.check, hc]
    · rw [Visit.Gives, Stmt.check, hc, Visit.andThen_of_ok hcondition, hb]
    · rw [Visit.Gives, Stmt.check, hc, Visit.andThen_of_ok hcondition, hb, Visit.andThen_of_ok hu]
  | ifElse a c b d =>
    have hc := condition_again t c
    have hb := Block.check_again ((c.check t.env).within t).table b
    have hd := Block.check_again (b.check ((c.check t.env).within t).table).table d
    rw [Stmt.check]
    refine Visit.again_andThen (R := Visit.Gives (Stmt.check t)) ?_ fun condition hcondition =>
      Visit.again_andThen ?_ fun u hu => Visit.again_andThen ?_ fun u' hu' => ?_
    · rw [Visit.Gives, Stmt.check, hc]
    · rw [Visit.Gives, Stmt.check, hc, Visit.andThen_of_ok hcondition, hb]
    · rw [Visit.Gives, Stmt.check, hc, Visit.andThen_of_ok hcondition, hb, Visit.andThen_of_ok hu,
        hd]
    · rw [Visit.Gives, Stmt.check, hc, Visit.andThen_of_ok hcondition, hb, Visit.andThen_of_ok hu,
        hd, Visit.andThen_of_ok hu']
  | loop a c b =>
    have hc := condition_again t c
    have hb := Block.check_again ((c.check t.env).within t).table b
    rw [Stmt.check]
    refine Visit.again_andThen (R := Visit.Gives (Stmt.check t)) ?_ fun condition hcondition =>
      Visit.again_andThen ?_ fun u hu => ?_
    · rw [Visit.Gives, Stmt.check, hc]
    · rw [Visit.Gives, Stmt.check, hc, Visit.andThen_of_ok hcondition, hb]
    · rw [Visit.Gives, Stmt.check, hc, Visit.andThen_of_ok hcondition, hb, Visit.andThen_of_ok hu]
  | block a b =>
    have hb := Block.check_again t b
    rw [Stmt.check]
    show Stmt.check t (.block a (b.check t).node) = _
    rw [Stmt.check, hb]

/-- A block that was handed back is checked as before. -/
theorem Block.check_again (t : Table) (b : Block) : (b.check t).node.check t = b.check t := by
  cases b with
  | mk ds ss a =>
    have hds := checkDecls_again t.openScope ds
    rw [Block.check]
    refine Visit.again_andThen (R := Visit.Gives (Block.check t)) ?_ fun u hu => ?_
    · rw [Visit.Gives, Block.check, hds]
    have hss := checkStmts_again (checkDecls t.openScope ds).table ss
    refine Visit.again_andThen (R := Visit.Gives (Block.check t)) ?_ fun u' hu' => ?_
    · rw [Visit.Gives, Block.check, hds, Visit.andThen_of_ok hu, hss]
    · rw [Visit.Gives, Block.check, hds, Visit.andThen_of_ok hu, hss, Visit.andThen_of_ok hu']

/-- Statements that were handed back are checked as before. -/
theorem checkStmts_again (t : Table) (ss : List Stmt) :
    checkStmts t (checkStmts t ss).node = checkStmts t ss := by
  cases ss with
  | nil => rfl
  | cons s ss =>
    have hs := Stmt.check_again t s
    have hss := checkStmts_again (s.check t).table ss
    rw [checkStmts]
    refine Visit.again_andThen (R := Visit.Gives (checkStmts t)) ?_ fun u hu => ?_
    · rw [Visit.Gives, checkStmts, hs]
    · show checkStmts t ((s.check t).node :: (checkStmts (s.check t).table ss).node) = _
      rw [checkStmts, hs, Visit.andThen_of_ok hu, hss]

end

/-! ## Headers -/

/-- The header with another basetype for the whole procedure. -/
def Header.mark (h : Header) (b : Basetype) : Header := { h with attr := h.attr.mark b }

/-- A header that was declared is declared again, whatever basetype the procedure has. -/
theorem Header.declare_again (t : Table) (h : Header) (b : Basetype) :
    ((h.declare t).node.mark b).declare t =
      ⟨(h.declare t).node.mark b, (h.declare t).table, (h.declare t).result⟩ := by
  have hds := checkDecls_again t.openScope h.parameters
  unfold Header.declare
  cases hok : (checkDecls t.openScope h.parameters).result with
  | error e =>
    rw [Visit.andThen_of_error hok]
    dsimp only [Header.mark]
    rw [hds, Visit.andThen_of_error hok]
  | ok u =>
    rw [Visit.andThen_of_ok hok]
    dsimp only
    -- the parameter types are the same, so the name is bound as before
    split
    · rename_i t' hbind
      dsimp only [Header.mark]
      rw [hds, Visit.andThen_of_ok hok]
      split
      · rename_i t'' hbind'
        obtain rfl := Except.ok.inj (hbind.symm.trans hbind')
        rfl
      · rename_i hbind'
        cases hbind.symm.trans hbind'
    · rename_i hbind
      dsimp only [Header.mark]
      rw [hds, Visit.andThen_of_ok hok]
      split
      · rename_i hbind'
        cases hbind.symm.trans hbind'
      · rfl

/-- The second headers are the first ones, but for the basetypes of the procedures. -/
inductive Marked : List Header → List Header → Prop
  | nil : Marked [] []
  | cons {h : Header} {hs hs' : List Header} (b : Basetype) (htail : Marked hs hs') :
      Marked (h :: hs) (h.mark b :: hs')

/-- Headers differ in nothing from themselves. -/
theorem Marked.refl (hs : List Header) : Marked hs hs := by
  induction hs with
  | nil => exact .nil
  | cons h hs ih => exact .cons h.attr.basetype ih

/-- Headers that were declared are declared as before, with more marks or without. -/
theorem declareAll_again (t : Table) {hs hs' : List Header}
    (h : Marked (declareAll t hs).node hs') :
    declareAll t hs' = ⟨hs', (declareAll t hs).table, (declareAll t hs).result⟩ := by
  induction hs generalizing t hs' with
  | nil =>
    cases h
    rfl
  | cons h₀ hs ih =>
    rw [declareAll] at h ⊢
    cases hh : (h₀.declare t).result with
    | error e =>
      rw [Visit.andThen_of_error hh] at h ⊢
      obtain _ | ⟨b, htail⟩ := h
      simp only [declareAll, Header.declare_again, Visit.andThen, hh]
    | ok id =>
      rw [Visit.andThen_of_ok hh] at h ⊢
      cases hhs : (declareAll (h₀.declare t).table hs).result with
      | error e =>
        rw [Visit.andThen_of_error hhs] at h ⊢
        obtain _ | ⟨b, htail⟩ := h
        simp only [declareAll, Header.declare_again, Visit.andThen, hh, ih _ htail, hhs]
      | ok ids =>
        rw [Visit.andThen_of_ok hhs] at h ⊢
        obtain _ | ⟨b, htail⟩ := h
        simp only [declareAll, Header.declare_again, Visit.andThen, hh, ih _ htail, hhs]

/-- As many headers are handed back as were given. -/
theorem length_node_declareAll (t : Table) (hs : List Header) :
    (declareAll t hs).node.length = hs.length := by
  induction hs generalizing t with
  | nil => rfl
  | cons h hs ih =>
    rw [declareAll]
    cases hh : (h.declare t).result with
    | error e => rw [Visit.andThen_of_error hh]; rfl
    | ok id =>
      rw [Visit.andThen_of_ok hh]
      cases hhs : (declareAll (h.declare t).table hs).result with
      | error e => rw [Visit.andThen_of_error hhs]; exact congrArg Nat.succ (ih _)
      | ok ids => rw [Visit.andThen_of_ok hhs]; exact congrArg Nat.succ (ih _)

/-- A scope is opened for each header when all of them are declared. -/
theorem length_of_declareAll {t : Table} {hs : List Header} {ids : List Nat}
    (hok : (declareAll t hs).result = .ok ids) : ids.length = hs.length := by
  induction hs generalizing t ids with
  | nil =>
    obtain rfl := Except.ok.inj hok
    rfl
  | cons h hs ih =>
    obtain ⟨id, hh, hrest⟩ := Visit.exists_of_andThen_ok hok
    obtain ⟨ids', hhs, hids⟩ := Visit.exists_of_andThen_ok hrest
    obtain rfl := Except.ok.inj hids
    exact congrArg Nat.succ (ih hhs)

/-! ## Procedures under new headers -/

/-- Procedures wear their own headers already. -/
theorem withHeaders_headers (ps : List Procedure) :
    withHeaders ps (ps.map Procedure.header) = ps := by
  induction ps with
  | nil => rfl
  | cons p ps ih =>
    cases p
    rw [List.map_cons, withHeaders, ih]
    rfl

/-- The headers that were put on procedures are the headers that they wear. -/
theorem headers_withHeaders {ps : List Procedure} {hs : List Header}
    (h : hs.length = ps.length) : (withHeaders ps hs).map Procedure.header = hs := by
  induction ps generalizing hs with
  | nil =>
    obtain rfl := List.eq_nil_of_length_eq_zero h
    rfl
  | cons p ps ih =>
    obtain ⟨h₀, hs, rfl⟩ := List.exists_cons_of_length_eq_add_one h
    rw [withHeaders, List.map_cons, ih (Nat.succ.inj h)]
    rfl

/-! ## Bodies -/

/-- The headers of procedures with the scopes that go with them. -/
def headersIn (ps : List Procedure) (ids : List Nat) : List (Header × Nat) :=
  (ps.map Procedure.header).zip ids

/-- The bodies of the procedures are visited as `v` tells, in the table `t` and the scopes
    `ids`. -/
def GivesBodies (t : Table) (ids : List Nat) (ps : List Procedure)
    (v : Visit (List Procedure) Unit) : Prop := checkBodies t (headersIn ps ids) ps = v

/-- Procedures that were handed back are checked as before, provided that this is known of their
    bodies. -/
theorem checkProcedures_again (t : Table) (ps : List Procedure)
    (hbodies : ∀ (t : Table) (ws : List (Header × Nat)), ws.length = ps.length →
      GivesBodies t (ws.map Prod.snd) (checkBodies t ws ps).node (checkBodies t ws ps) ∧
      Marked (ws.map Prod.fst) ((checkBodies t ws ps).node.map Procedure.header)) :
    checkProcedures t (checkProcedures t ps).node = checkProcedures t ps := by
  have hlength := length_node_declareAll t (ps.map Procedure.header)
  have hids : ∀ {ids}, (declareAll t (ps.map Procedure.header)).result = .ok ids →
      ids.length = (ps.map Procedure.header).length := length_of_declareAll
  have hagain : ∀ {hs}, Marked (declareAll t (ps.map Procedure.header)).node hs → declareAll t hs =
      ⟨hs, (declareAll t (ps.map Procedure.header)).table,
        (declareAll t (ps.map Procedure.header)).result⟩ := declareAll_again t
  have hfirst : checkProcedures t ps = (declareAll t (ps.map Procedure.header)).andThen
      (withHeaders ps) fun hs t ids => checkBodies t (hs.zip ids) ps := rfl
  rw [List.length_map] at hlength
  rw [hfirst]
  generalize declareAll t (ps.map Procedure.header) = v at hlength hids hagain
  obtain ⟨hs, t₁, e | ids⟩ := v
  · -- the headers are declared up to the same one
    have hheaders : (withHeaders ps hs).map Procedure.header = hs := headers_withHeaders hlength
    have hsame := withHeaders_headers (withHeaders ps hs)
    rw [hheaders] at hsame
    show checkProcedures t (withHeaders ps hs) = _
    rw [checkProcedures, declareThen, hheaders, hagain (.refl hs)]
    exact congrArg (fun ps => Visit.mk ps t₁ (.error e)) hsame
  · have hids : ids.length = hs.length := by rw [hids rfl, List.length_map, hlength]
    obtain ⟨hgives, hmarked⟩ := hbodies t₁ (hs.zip ids)
      (by rw [List.length_zip, hids, Nat.min_self, hlength])
    rw [List.map_snd_zip (Nat.le_of_eq hids)] at hgives
    rw [List.map_fst_zip (Nat.le_of_eq hids.symm)] at hmarked
    show checkProcedures t (checkBodies t₁ (hs.zip ids) ps).node = checkBodies t₁ (hs.zip ids) ps
    rw [checkProcedures, declareThen, hagain hmarked]
    exact hgives

/-- The body of `p` is visited as `v` tells, under the header of `p`, which is `h` but for the
    basetype of the procedure. -/
structure GivesBody (t : Table) (h : Header) (id : Nat) (p : Procedure)
    (v : Visit Procedure Unit) : Prop where
  header : ∃ b, p.header = h.mark b
  checkBody : p.checkBody t p.header id = v

mutual

/-- A body that was handed back is checked as before. -/
theorem Body.check_again (t : Table) (b : Body) : (b.check t).node.check t = b.check t := by
  cases b with
  | mk ps ds ss r a =>
    have hps := checkProcedures_again t ps fun t ws h => checkBodies_again t h
    have hds := fun t => checkDecls_again t ds
    have hss := fun t => checkStmts_again t ss
    have hr := fun t => return_again t r
    simp only [checkProcedures] at hps
    rw [Body.check]
    refine Visit.again_andThen (R := Visit.Gives (Body.check t)) ?_ fun u hu =>
      Visit.again_andThen ?_ fun u₁ hu₁ => Visit.again_andThen ?_ fun u₂ hu₂ =>
        Visit.again_andThen ?_ fun result hresult => ?_
    · rw [Visit.Gives, Body.check, hps]
    · rw [Visit.Gives, Body.check, hps, Visit.andThen_of_ok hu, hds]
    · rw [Visit.Gives, Body.check, hps, Visit.andThen_of_ok hu, hds, Visit.andThen_of_ok hu₁, hss]
    · rw [Visit.Gives, Body.check, hps, Visit.andThen_of_ok hu, hds, Visit.andThen_of_ok hu₁, hss,
        Visit.andThen_of_ok hu₂, hr]
    · rw [Visit.Gives, Body.check, hps, Visit.andThen_of_ok hu, hds, Visit.andThen_of_ok hu₁, hss,
        Visit.andThen_of_ok hu₂, hr, Visit.andThen_of_ok hresult]
      rfl

/-- A procedure that was handed back has the header with at most one mark more, and its body is
    checked as before. -/
theorem Procedure.checkBody_again (t : Table) (h : Header) (id : Nat) (p : Procedure) :
    GivesBody t h id (p.checkBody t h id).node (p.checkBody t h id) := by
  cases p with
  | mk h₀ b =>
    cases hr : t.reenter? id with
    | none =>
      simp only [Procedure.checkBody, hr]
      exact ⟨⟨h.attr.basetype, rfl⟩, by simp only [Procedure.checkBody, Procedure.header, hr]⟩
    | some t₁ =>
      have hb := Body.check_again t₁ b
      simp only [Procedure.checkBody, hr]
      refine Visit.again_andThen (R := GivesBody t h id) ?_ fun result hresult => ?_
      · refine ⟨⟨h.attr.basetype, rfl⟩, ?_⟩
        simp only [Procedure.checkBody, Procedure.header, hr, hb]
      · refine again_conclude
          (R := fun p f => GivesBody t h id p (f.within (b.check t₁).table.closeScope).forget)
          fun b => ⟨⟨b, rfl⟩, ?_⟩
        simp only [Procedure.checkBody, Procedure.header, hr, hb, Visit.andThen_of_ok hresult]

/-- Procedures that were handed back are checked as before, body by body. -/
theorem checkBodies_again (t : Table) {ps : List Procedure} {ws : List (Header × Nat)}
    (h : ws.length = ps.length) :
    GivesBodies t (ws.map Prod.snd) (checkBodies t ws ps).node (checkBodies t ws ps) ∧
      Marked (ws.map Prod.fst) ((checkBodies t ws ps).node.map Procedure.header) := by
  cases ps with
  | nil =>
    obtain rfl := List.eq_nil_of_length_eq_zero h
    exact ⟨rfl, .nil⟩
  | cons p ps =>
    obtain ⟨⟨h₀, id⟩, ws, rfl⟩ := List.exists_cons_of_length_eq_add_one h
    have h := Nat.succ.inj h
    obtain ⟨⟨b, hheader⟩, hp⟩ := Procedure.checkBody_again t h₀ id p
    obtain ⟨hgives, hmarked⟩ := checkBodies_again (p.checkBody t h₀ id).table h
    rw [checkBodies]
    cases hv : (p.checkBody t h₀ id).result with
    -- the first body failed: the procedures behind it have their new headers and their old bodies
    | error e =>
      rw [Visit.andThen_of_error hv]
      have hheaders : (withHeaders ps (ws.map Prod.fst)).map Procedure.header = ws.map Prod.fst :=
        headers_withHeaders (by rw [List.length_map, h])
      have hsame := withHeaders_headers (withHeaders ps (ws.map Prod.fst))
      have hws : ((ws.map Prod.fst).zip (ws.map Prod.snd)).map Prod.fst = ws.map Prod.fst :=
        List.map_fst_zip (by simp)
      rw [hheaders] at hsame
      constructor
      · simp only [GivesBodies, headersIn, List.map_cons, List.zip_cons_cons, checkBodies, hheaders,
          hp, Visit.andThen_of_error hv, hws, hsame]
      · rw [List.map_cons, List.map_cons, hheaders, hheader]
        exact .cons b (.refl _)
    | ok u =>
      rw [Visit.andThen_of_ok hv]
      constructor
      · rw [GivesBodies, headersIn] at hgives
        show checkBodies t ((_ :: _).zip (_ :: _)) (_ :: _) = _
        simp only [Visit.mapNode, List.zip_cons_cons, checkBodies, hp,
          Visit.andThen_of_ok hv, hgives]
      · show Marked (h₀ :: _) ((p.checkBody t h₀ id).node.header :: _)
        rw [hheader]
        exact .cons b hmarked

end

/-! ## Programs -/

/-- A second check of a program finds the same and changes nothing, whether the first succeeds
    or fails. -/
theorem Program.typeCheck_again (p : Program) : p.typeCheck.node.typeCheck = p.typeCheck := by
  have hps := checkProcedures_again .initial p.procedures fun t ws h => checkBodies_again t h
  unfold Program.typeCheck Program.check
  refine Visit.again_andThen (R := Visit.Gives (Program.check .initial)) ?_ fun u hu => ?_
  · rw [Visit.Gives, Program.check]
    dsimp only
    rw [hps]
  · rw [Visit.Gives, Program.check]
    dsimp only
    rw [hps, Visit.andThen_of_ok hu]

/-- **Annotations play no part.**  Programs that differ only in the basetypes that are stored in
    them have the same outcome and the same symbol table; and a second check of what a first one
    leaves has its outcome and table, and leaves that as it is. -/
theorem typeCheck_annotations :
    (∀ p q : Program, p.strip = q.strip →
      p.typeCheck.result = q.typeCheck.result ∧ p.typeCheck.table = q.typeCheck.table) ∧
    ∀ p : Program, p.typeCheck.node.typeCheck = p.typeCheck := by
  refine ⟨?_, Program.typeCheck_again⟩
  intro p q hstrip
  have hp := p.sameOutcome_strip
  have hq := q.sameOutcome_strip
  rw [hstrip] at hp
  exact ⟨hp.result_eq.symm.trans hq.result_eq, hp.table_eq.symm.trans hq.table_eq⟩

/-- `procedure Main() return integer \x7b var n: integer; n = 'c'; return n; \x7d`, which a check
    leaves with some basetypes only: the assignment fails. -/
def refusedProgram : Program where
  procedures :=
    [.mk ⟨"Main", [], ⟨.integer, .bare 1⟩, .bare 1⟩
      (.mk [] [⟨["n"], ⟨.integer, .bare 1⟩, .bare 1⟩]
        [.assign (.bare 1) (.named (.bare 1) "n") (.char (.bare 1) 'c')]
        ⟨.named (.bare 1) "n", .bare 1⟩ (.bare 1))]
  attr := .bare 1

/-- A program that is refused in the middle, with annotations up to that point. -/
theorem typeCheck_annotations_refused :
    refusedProgram.typeCheck.node ≠ refusedProgram ∧
    refusedProgram.strip = refusedProgram.typeCheck.node.strip ∧
    (refusedProgram.typeCheck.result = refusedProgram.typeCheck.node.typeCheck.result ∧
      refusedProgram.typeCheck.table = refusedProgram.typeCheck.node.typeCheck.table) ∧
    refusedProgram.typeCheck.node.typeCheck = refusedProgram.typeCheck := by
  have hstrip : refusedProgram.strip = refusedProgram.typeCheck.node.strip := by decide +kernel
  exact ⟨by decide +kernel, hstrip, typeCheck_annotations.1 _ _ hstrip,
    typeCheck_annotations.2 refusedProgram⟩

end ProcLang
