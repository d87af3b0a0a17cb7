/-
  A check comes to every site of a program.

  For each step down into a tree there is one lemma that says how the visit of the whole comes to
  the part, or ends in front of it.  They are put together along the sites of procedure bodies
  (`enters_bodySite`) and of nested blocks (`enters_blockSite`).

  The step to the body of a procedure is the one with a turn: all the procedures beside it are
  declared first, which does not depend on their bodies, and the bodies in front of it come next.
-/
import ProcLang.Proofs.Typing.Idempotent
import ProcLang.Proofs.Typing.Site

namespace ProcLang

open Visit

variable {α β : Type}

section

variable {names : List String}

/-- A name that the whole does not mention is not mentioned by a part. -/
theorem not_mem_of_subset {xs : List String} {z : String} (h : xs ⊆ names) (hz : z ∉ names) :
    z ∉ xs := fun hx => hz (h hx)

/-- A name that is mentioned is not the one that nothing mentions. -/
theorem ne_of_mem {x z : String} (hx : x ∈ names) (hz : z ∉ names) : z ≠ x := by
  rintro rfl
  exact hz hx

/-! ## What a check leads to -/

/-- A check may go on with declarations. -/
theorem goesOn_decls {ds : List Decl} (h : ds.flatMap Decl.names ⊆ names) :
    GoesOn names fun u (_ : β) => checkDecls u ds :=
  ⟨fun _ hz u _ => checkDecls_without (not_mem_of_subset h hz) u, fun _ _ hu =>
    (framed_checkDecls hu ds).grows⟩

/-- A check may go on with a statement. -/
theorem goesOn_stmt {s : Stmt} (h : s.names ⊆ names) :
    GoesOn names fun u (_ : β) => s.check u :=
  ⟨fun _ hz u _ => Stmt.check_without (not_mem_of_subset h hz) u, fun _ _ hu =>
    (Stmt.framed_check hu s).grows⟩

/-- A check may go on with a nested block. -/
theorem goesOn_block {b : Block} (h : b.names ⊆ names) :
    GoesOn names fun u (_ : β) => b.check u :=
  ⟨fun _ hz u _ => Block.check_without (not_mem_of_subset h hz) u, fun _ _ hu =>
    (Block.framed_check hu b).grows⟩

/-- A check may go on with statements in a row. -/
theorem goesOn_stmts {ss : List Stmt} (h : namesOfStmts ss ⊆ names) :
    GoesOn names fun u (_ : β) => checkStmts u ss :=
  ⟨fun _ hz u _ => checkStmts_without (not_mem_of_subset h hz) u, fun _ _ hu =>
    (framed_checkStmts hu ss).grows⟩

/-- A check may go on with the last statement of a body. -/
theorem goesOn_return {r : Return} (h : r.names ⊆ names) :
    GoesOn names fun u (_ : β) => (r.check u.env).within u :=
  ⟨fun _ hz u _ => return_without (not_mem_of_subset h hz) u, fun _ _ hu =>
    (framed_within hu _ fun _ => True).grows⟩

/-- A check may go on with headers.  They are declared by name, so `Main` counts as mentioned. -/
theorem goesOn_headers (hmain : mainName ∈ names) {hs : List Header}
    (h : hs.flatMap Header.names ⊆ names) : GoesOn names fun u (_ : β) => declareAll u hs :=
  ⟨fun _ hz u _ => declareAll_without (ne_of_mem hmain hz) (not_mem_of_subset h hz) u,
    fun _ _ hu => (framed_declareAll hu hs).grows⟩

/-- A check may go on with procedures in a row. -/
theorem goesOn_procedures (hmain : mainName ∈ names) {ps : List Procedure}
    (h : namesOfProcedures ps ⊆ names) : GoesOn names fun u (_ : β) => checkProcedures u ps :=
  ⟨fun _ hz u _ => checkProcedures_without (ne_of_mem hmain hz) (not_mem_of_subset h hz) u,
    fun _ _ hu => (framed_checkProcedures hu ps).grows⟩

/-- A check may go on with the body of a procedure whose header is declared. -/
theorem goesOn_body (hmain : mainName ∈ names) {p : Procedure} (h : p.names ⊆ names)
    (header : Header) (id : Nat) : GoesOn names fun u (_ : β) => p.checkBody u header id :=
  ⟨fun _ hz u _ => Procedure.checkBody_without (ne_of_mem hmain hz) (not_mem_of_subset h hz) u
    header id, fun _ _ hu => (Procedure.framed_checkBody hu p header id).grows⟩

/-- A check may go on with bodies in a row. -/
theorem goesOn_bodies (hmain : mainName ∈ names) {ps : List Procedure}
    (h : namesOfProcedures ps ⊆ names) (ws : List (Header × Nat)) :
    GoesOn names fun u (_ : β) => checkBodies u ws ps :=
  ⟨fun _ hz u _ => checkBodies_without (ne_of_mem hmain hz) (not_mem_of_subset h hz) u ws,
    fun _ _ hu => (framed_checkBodies hu ps ws).grows⟩

/-! ## Statements -/

/-- A statement in a list of statements. -/
theorem enters_stmts {ss : List Stmt} {i : Nat} {s : Stmt} (hs : ss[i]? = some s)
    (hnames : namesOfStmts ss ⊆ names) (t : Table) :
    Enters names Stmt.check (.nth i) t s fun f => checkStmts t ((Site.nth i).change f ss) := by
  induction ss generalizing i t with
  | nil => cases hs
  | cons s₀ ss ih =>
    obtain ⟨hs₀, hss⟩ := List.append_subset.mp hnames
    cases i with
    | zero =>
      obtain rfl := Option.some.inj hs
      exact .here (s₀ :: ss) (fun u _ => (checkStmts u ss).mapNode (s₀ :: ·))
        ((goesOn_stmts hss).mapNode _) fun _ => rfl
    | succ i =>
      refine .behind (s₀.check t) (· :: ss) (fun _ => rfl) ((goesOn_stmt hs₀).leads t ()) ?_
      intro _ _
      exact (ih hs hss _).mapNode fun _ _ => rfl

/-- A statement whose condition was found to be of the basetype `condition`. -/
def Stmt.judge (c : Expr) (condition : Basetype) (v : Violation) (s : Stmt) (u : Table) :
    Visit Stmt Unit := ⟨s, u, onLine c.attr.line (Rule.predicate condition v)⟩

/-- A block in a statement. -/
theorem enters_inStmt {Q : Site Block Stmt} (hQ : InStmt Q) {s : Stmt} {b : Block}
    (hb : Q.part? s = some b) (hnames : s.names ⊆ names) (t : Table) :
    Enters names Block.check Q t b fun f => Stmt.check t (Q.change f s) := by
  -- the condition comes first and does not depend on the block, and the verdict on it comes last
  cases hQ with
  | block =>
    cases s with
    | ifThen a c b =>
      obtain rfl := Option.some.inj hb
      refine .behind ((c.check t.env).within t) (fun c => .ifThen a c b)
        (fun f => by simp only [Site.block, Stmt.check]; rfl) (.refl names t) fun _ _ => ?_
      exact .here (.ifThen a _ b) (fun u _ => Stmt.judge _ _ .ifPredicate (.ifThen a _ b) u)
        (.stay _ _) fun _ => rfl
    | ifElse a c b b' =>
      obtain rfl := Option.some.inj hb
      obtain ⟨-, hbb'⟩ := List.append_subset.mp hnames
      obtain ⟨-, hb'⟩ := List.append_subset.mp hbb'
      refine .behind ((c.check t.env).within t) (fun c => .ifElse a c b b')
        (fun f => by simp only [Site.block, Stmt.check]; rfl) (.refl names t)
        fun condition _ => ?_
      generalize ((c.check t.env).within t).node = c
      refine .here (.ifElse a c b b') (fun u _ => (b'.check u).andThen
        (fun b' => .ifElse a c b b') fun b' u _ =>
          Stmt.judge c condition .ifPredicate (.ifElse a c b b') u)
        ((goesOn_block hb').andThen fun _ => .stay _ _) fun f => ?_
      simp only [Visit.mapNode_andThen]
      rfl
    | loop a c b =>
      obtain rfl := Option.some.inj hb
      refine .behind ((c.check t.env).within t) (fun c => .loop a c b)
        (fun f => by simp only [Site.block, Stmt.check]; rfl) (.refl names t) fun _ _ => ?_
      exact .here (.loop a _ b) (fun u _ => Stmt.judge _ _ .whilePredicate (.loop a _ b) u)
        (.stay _ _) fun _ => rfl
    | block a b =>
      obtain rfl := Option.some.inj hb
      exact .alone (.block a b) fun f => by simp only [Site.block, Stmt.check]; rfl
    | assign a l e => cases hb
    | assignString a l text => cases hb
    | call a l f es => cases hb
  | otherwise =>
    cases s with
    | ifElse a c b b' =>
      obtain rfl := Option.some.inj hb
      obtain ⟨-, hbb'⟩ := List.append_subset.mp hnames
      obtain ⟨hb, -⟩ := List.append_subset.mp hbb'
      refine .behind ((c.check t.env).within t) (fun c => .ifElse a c b b')
        (fun f => by simp only [Site.otherwise, Stmt.check]; rfl) (.refl names t)
        fun _ _ => ?_
      -- the first block is checked on the way to the second one, and may end the check there
      refine .behind (b.check t) (fun b => .ifElse a _ b b') (fun _ => rfl)
        ((goesOn_block hb).leads t ()) fun _ _ => ?_
      exact .here (.ifElse a _ _ b') (fun u _ => Stmt.judge _ _ .ifPredicate (.ifElse a _ _ b') u)
        (.stay _ _) fun _ => rfl
    | assign a l e => cases hb
    | assignString a l text => cases hb
    | call a l f es => cases hb
    | ifThen a c b => cases hb
    | loop a c b => cases hb
    | block a b => cases hb

/-- The visit of arguments, which leaves the table alone. -/
def visitArguments (t : Table) (es : List Expr) : Visit (List Expr) (List Basetype) :=
  (checkArguments t.env es).within t

/-- A call whose target and arguments were visited. -/
def concludeCall (a : Attribute) (l : Location) (x : String) (es : List Expr) (target : Basetype)
    (u : Table) (arguments : List Basetype) : Visit Stmt Unit :=
  ((Found.conclude a (Rule.call (u.env x) arguments target) fun a =>
    Stmt.call a l x es).within u).forget

/-- A call is checked from left to right: the target, the arguments, and what the callee makes of
    them. -/
theorem Stmt.check_call (t : Table) (a : Attribute) (l : Location) (x : String)
    (es : List Expr) : Stmt.check t (.call a l x es) =
      ((l.check t.env).within t).andThen (fun l => .call a l x es) fun l u target =>
        (visitArguments u es).andThen (fun es => .call a l x es) fun es u arguments =>
          concludeCall a l x es target u arguments := by
  rw [Stmt.check, checkCall]
  rcases l.check t.env with ⟨l, e | target⟩
  · rfl
  · simp only [Found.andThen, Found.within, Visit.andThen, visitArguments]
    cases (checkArguments t.env es).result <;> rfl

/-- The arguments of a call. -/
theorem enters_arguments {s : Stmt} {es : List Expr} (hes : Site.arguments.part? s = some es)
    (hnames : s.names ⊆ names) (t : Table) :
    Enters names visitArguments .arguments t es fun f =>
      Stmt.check t (Site.arguments.change f s) := by
  cases s with
  | call a l x es =>
    obtain rfl := Option.some.inj hes
    have hx : x ∈ names := hnames (List.mem_append_right _ List.mem_cons_self)
    refine .behind ((l.check t.env).within t) (fun l => .call a l x es)
      (fun f => Stmt.check_call t a l x (f es)) (.refl names t) fun target _ => ?_
    generalize ((l.check t.env).within t).node = l
    refine .here (.call a l x es) (fun u arguments => concludeCall a l x es target u arguments)
      ⟨?_, ?_⟩ ?_
    · intro z hz u arguments
      unfold concludeCall
      rw [Table.env_without (ne_of_mem hx hz).symm]
      rfl
    · exact fun _ _ hu => Visit.grows_mk hu rfl _ _
    · intro f
      refine congrArg (Visit.andThen _ _) ?_
      funext es u arguments
      unfold concludeCall
      cases Rule.call (u.env x) arguments target <;> rfl
  | assign a l e => cases hes
  | assignString a l text => cases hes
  | ifThen a c b => cases hes
  | ifElse a c b b' => cases hes
  | loop a c b => cases hes
  | block a b => cases hes

/-! ## Nested blocks -/

/-- A block whose declarations were visited. -/
def Block.checkRest (ds : List Decl) (ss : List Stmt) (a : Attribute) (u : Table) :
    Visit Block Unit :=
  (checkStmts u ss).andThen (fun ss => .mk ds ss a) fun ss u _ =>
    ⟨.mk ds ss a, u.closeScope, .ok ()⟩

/-- A block opens its scope, declares, and does the rest there. -/
theorem Block.check_eq (t : Table) (ds : List Decl) (ss : List Stmt) (a : Attribute) :
    Block.check t (.mk ds ss a) = (checkDecls t.openScope ds).andThen (fun ds => .mk ds ss a)
      fun ds u _ => Block.checkRest ds ss a u := by
  rw [Block.check]
  rfl

/-- A scope is opened on the way to the declarations of a block. -/
theorem leads_openScope (t : Table) : t.Leads names t.openScope where
  valid ht := ht.openScope
  without z _ ht := by rw [← Table.without_openScope, ht]

/-- The declarations of a nested block. -/
theorem enters_blockDecls {b : Block} (hnames : b.names ⊆ names) (t : Table) :
    Enters names checkDecls .blockDecls t b.decls fun f =>
      Block.check t (Site.blockDecls.change f b) := by
  obtain ⟨ds, ss, a⟩ := b
  obtain ⟨-, hss⟩ := List.append_subset.mp hnames
  refine .inside (.mk ds ss a) t.openScope (fun u _ => Block.checkRest ds ss a u)
    (leads_openScope t) ((goesOn_stmts hss).andThen fun _ => .closeScope _ _) fun f => ?_
  simp only [Block.checkRest, Visit.mapNode_andThen]
  exact Block.check_eq t (f ds) ss a

/-- The statements of a nested block. -/
theorem enters_blockStmts {b : Block} (hnames : b.names ⊆ names) (t : Table) :
    Enters names checkStmts .blockStmts t b.stmts fun f =>
      Block.check t (Site.blockStmts.change f b) := by
  obtain ⟨ds, ss, a⟩ := b
  obtain ⟨hds, -⟩ := List.append_subset.mp hnames
  refine .behind (checkDecls t.openScope ds) (fun ds => .mk ds ss a)
    (fun f => Block.check_eq t ds (f ss) a)
    ((leads_openScope t).trans ((goesOn_decls hds).leads t.openScope ())) fun _ _ => ?_
  exact .here (.mk _ ss a) (fun u _ => ⟨.mk _ ss a, u.closeScope, .ok ()⟩) (.closeScope _ _)
    fun _ => rfl

/-! ## Procedure bodies -/

/-- A body whose statements were visited. -/
def Body.checkResult (ps : List Procedure) (ds : List Decl) (ss : List Stmt) (r : Return)
    (a : Attribute) (u : Table) : Visit Body Basetype :=
  ((r.check u.env).within u).andThen (fun r => .mk ps ds ss r a) fun r u result =>
    ⟨.mk ps ds ss r (a.mark result), u, .ok result⟩

/-- A body whose declarations were visited. -/
def Body.checkStatements (ps : List Procedure) (ds : List Decl) (ss : List Stmt) (r : Return)
    (a : Attribute) (u : Table) : Visit Body Basetype :=
  (checkStmts u ss).andThen (fun ss => .mk ps ds ss r a) fun ss u _ =>
    Body.checkResult ps ds ss r a u

/-- A body whose procedures were visited. -/
def Body.checkRest (ps : List Procedure) (ds : List Decl) (ss : List Stmt) (r : Return)
    (a : Attribute) (u : Table) : Visit Body Basetype :=
  (checkDecls u ds).andThen (fun ds => .mk ps ds ss r a) fun ds u _ =>
    Body.checkStatements ps ds ss r a u

/-- A body begins with its nested procedures, and does the rest behind them. -/
theorem Body.check_eq (t : Table) (ps : List Procedure) (ds : List Decl) (ss : List Stmt)
    (r : Return) (a : Attribute) :
    Body.check t (.mk ps ds ss r a) = (checkProcedures t ps).andThen
      (fun ps => .mk ps ds ss r a) fun ps u _ => Body.checkRest ps ds ss r a u := by
  rw [Body.check]
  rfl

section

variable {ps : List Procedure} {ds : List Decl} {ss : List Stmt} {r : Return}

/-- The return is all that is left of a body behind its statements. -/
theorem goesOn_checkResult (hr : r.names ⊆ names) (a : Attribute) :
    GoesOn names fun u (_ : β) => Body.checkResult ps ds ss r a u :=
  (goesOn_return hr).andThen fun _ => .stay _ _

/-- Statements and return are left of a body behind its declarations. -/
theorem goesOn_checkStatements (hss : namesOfStmts ss ⊆ names) (hr : r.names ⊆ names)
    (a : Attribute) : GoesOn names fun u (_ : β) => Body.checkStatements ps ds ss r a u :=
  (goesOn_stmts hss).andThen fun _ => goesOn_checkResult hr a

/-- Everything but the nested procedures is left of a body behind them. -/
theorem goesOn_checkRest (hds : ds.flatMap Decl.names ⊆ names) (hss : namesOfStmts ss ⊆ names)
    (hr : r.names ⊆ names) (a : Attribute) :
    GoesOn names fun u (_ : β) => Body.checkRest ps ds ss r a u :=
  (goesOn_decls hds).andThen fun _ => goesOn_checkStatements hss hr a

end

/-- The procedures in a body. -/
theorem enters_nested {b : Body} (hnames : b.names ⊆ names) (t : Table) :
    Enters names checkProcedures .nested t b.procedures fun f =>
      Body.check t (Site.nested.change f b) := by
  obtain ⟨ps, ds, ss, r, a⟩ := b
  obtain ⟨-, hrest⟩ := List.append_subset.mp hnames
  obtain ⟨hds, hrest⟩ := List.append_subset.mp hrest
  obtain ⟨hss, hr⟩ := List.append_subset.mp hrest
  refine .here (.mk ps ds ss r a) (fun u _ => Body.checkRest ps ds ss r a u)
    (goesOn_checkRest hds hss hr a) fun f => ?_
  simp only [Body.checkRest, Body.checkStatements, Body.checkResult, Visit.mapNode_andThen]
  exact Body.check_eq t (f ps) ds ss r a

/-- The declarations of a body. -/
theorem enters_bodyDecls {b : Body} (hmain : mainName ∈ names) (hnames : b.names ⊆ names)
    (t : Table) :
    Enters names checkDecls .bodyDecls t b.decls fun f =>
      Body.check t (Site.bodyDecls.change f b) := by
  obtain ⟨ps, ds, ss, r, a⟩ := b
  obtain ⟨hps, hrest⟩ := List.append_subset.mp hnames
  obtain ⟨-, hrest⟩ := List.append_subset.mp hrest
  obtain ⟨hss, hr⟩ := List.append_subset.mp hrest
  refine .behind (checkProcedures t ps) (fun ps => .mk ps ds ss r a)
    (fun f => Body.check_eq t ps (f ds) ss r a) ((goesOn_procedures hmain hps).leads t ())
    fun _ _ => ?_
  generalize (checkProcedures t ps).node = ps
  refine .here (.mk ps ds ss r a) (fun u _ => Body.checkStatements ps ds ss r a u)
    (goesOn_checkStatements hss hr a) fun f => ?_
  simp only [Body.checkStatements, Body.checkResult, Visit.mapNode_andThen]
  rfl

/-- The statements of a body. -/
theorem enters_bodyStmts {b : Body} (hmain : mainName ∈ names) (hnames : b.names ⊆ names)
    (t : Table) :
    Enters names checkStmts .bodyStmts t b.stmts fun f =>
      Body.check t (Site.bodyStmts.change f b) := by
  obtain ⟨ps, ds, ss, r, a⟩ := b
  obtain ⟨hps, hrest⟩ := List.append_subset.mp hnames
  obtain ⟨hds, hrest⟩ := List.append_subset.mp hrest
  obtain ⟨-, hr⟩ := List.append_subset.mp hrest
  refine .behind (checkProcedures t ps) (fun ps => .mk ps ds ss r a)
    (fun f => Body.check_eq t ps ds (f ss) r a) ((goesOn_procedures hmain hps).leads t ())
    fun _ _ => ?_
  refine .behind (checkDecls _ ds) (fun ds => .mk _ ds ss r a) (fun _ => rfl)
    ((goesOn_decls hds).leads _ ()) fun _ _ => ?_
  generalize (checkProcedures t ps).node = ps, (checkDecls _ ds).node = ds
  refine .here (.mk ps ds ss r a) (fun u _ => Body.checkResult ps ds ss r a u)
    (goesOn_checkResult hr a) fun f => ?_
  simp only [Body.checkResult, Visit.mapNode_andThen]
  rfl

/-! ## Procedures -/

/-- A change inside of a body leaves the headers. -/
theorem headers_change (j : Nat) (f : Body → Body) (ps : List Procedure) :
    (((Site.nth j).comp .body).change f ps).map Procedure.header = ps.map Procedure.header := by
  show (ps.modify j (Site.body.change f)).map Procedure.header = _
  induction ps generalizing j with
  | nil => cases j <;> rfl
  | cons p ps ih =>
    cases j with
    | zero => rfl
    | succ j => exact congrArg (p.header :: ·) (ih j)

/-- Headers are put in place around a changed body as around the old one. -/
theorem withHeaders_change (j : Nat) (f : Body → Body) (ps : List Procedure)
    (hs : List Header) : withHeaders (((Site.nth j).comp .body).change f ps) hs =
      ((Site.nth j).comp .body).change f (withHeaders ps hs) := by
  -- as a statement on `List.modify`, which goes along both lists
  show withHeaders (ps.modify j (Site.body.change f)) hs =
    (withHeaders ps hs).modify j (Site.body.change f)
  induction ps generalizing j hs with
  | nil => cases j <;> rfl
  | cons p ps ih =>
    cases hs with
    | nil => cases j <;> rfl
    | cons h hs =>
      cases j with
      | zero => rfl
      | succ j => exact congrArg (p.withHeader h :: ·) (ih j hs)

/-- The scope of a procedure is entered again on the way to its body. -/
theorem leads_reenter {t u : Table} {id : Nat} (h : t.reenter? id = some u) :
    t.Leads names u where
  valid ht := ht.reenter h
  without z _ ht := by
    have hreenter := Renaming.reenter?_table (ρ := .without z) t id
    rw [Renaming.table_without, ht, h] at hreenter
    exact (Option.some.inj hreenter).symm

/-- A procedure whose body was visited. -/
def concludeProcedure (h : Header) (b : Body) (u : Table) (result : Basetype) :
    Visit Procedure Unit :=
  ((Found.conclude h.attr (Rule.procedure h.returnType.attr.basetype result) fun a =>
    Procedure.mk { h with attr := a } b).within u.closeScope).forget

/-- Behind its body a procedure closes its scope and says its result. -/
theorem goesOn_concludeProcedure (h : Header) (b : Body) :
    GoesOn names (concludeProcedure h b) where
  without z _ u result := by
    unfold concludeProcedure
    rw [Table.without_closeScope]
    rfl
  grows u _ hu := Visit.grows_mk hu.closeScope (Table.scopes_closeScope u) _ _

/-- One of the bodies, when all procedures are declared. -/
theorem enters_bodies (hmain : mainName ∈ names) {ps : List Procedure} {j : Nat} {p : Procedure}
    (hp : ps[j]? = some p) (hnames : namesOfProcedures ps ⊆ names) (t : Table)
    {ws : List (Header × Nat)} (hlength : ws.length = ps.length) :
    Enters names Body.check ((Site.nth j).comp .body) t p.body fun f =>
      checkBodies t ws (((Site.nth j).comp .body).change f ps) := by
  -- over the procedures in front of the `j`th, whose bodies are checked first
  induction ps generalizing j t ws with
  | nil => cases hp
  | cons p₀ ps ih =>
    obtain ⟨⟨h, id⟩, ws, rfl⟩ := List.exists_cons_of_length_eq_add_one hlength
    obtain ⟨hp₀, hps⟩ := List.append_subset.mp hnames
    cases j with
    | zero =>
      obtain rfl := Option.some.inj hp
      obtain ⟨h₀, b⟩ := p₀
      have hfirst : ∀ f, checkBodies t ((h, id) :: ws)
          (((Site.nth 0).comp .body).change f (.mk h₀ b :: ps)) =
          ((Procedure.mk h₀ (f b)).checkBody t h id).andThen
            (fun p => p :: withHeaders ps (ws.map Prod.fst)) fun p u _ =>
              (checkBodies u ws ps).mapNode (p :: ·) := by
        intro f
        show checkBodies t ((h, id) :: ws) (.mk h₀ (f b) :: ps) = _
        rw [checkBodies]
      -- without its scope the body is not visited at all, whatever it is
      cases hreenter : t.reenter? id with
      | none =>
        refine .before (.mk h b :: withHeaders ps (ws.map Prod.fst)) t
          ⟨.unclassified, h.attr.line⟩ fun f => ?_
        rw [hfirst, Procedure.checkBody, hreenter]
        rfl
      | some u =>
        refine .inside (.mk h b :: withHeaders ps (ws.map Prod.fst)) u
          (fun u result => (concludeProcedure h b u result).andThen
            (fun p => p :: withHeaders ps (ws.map Prod.fst)) fun p u _ =>
              (checkBodies u ws ps).mapNode (p :: ·)) (leads_reenter hreenter)
          ((goesOn_concludeProcedure h b).andThen fun p =>
            (goesOn_bodies hmain hps ws).mapNode (p :: ·)) fun f => ?_
        rw [hfirst, Procedure.checkBody, hreenter]
        dsimp only
        rw [Visit.andThen_andThen]
        refine congrArg (Visit.andThen _ _) ?_
        funext b' u result
        rw [Visit.mapNode_andThen]
        unfold concludeProcedure
        cases Rule.procedure h.returnType.attr.basetype result <;> rfl
    | succ j =>
      have hstep : ∀ f, checkBodies t ((h, id) :: ws)
          (((Site.nth (j + 1)).comp .body).change f (p₀ :: ps)) =
          (p₀.checkBody t h id).andThen (fun p => ((Site.nth (j + 1)).comp .body).change f
            (p :: withHeaders ps (ws.map Prod.fst))) fun p u _ =>
              (checkBodies u ws (((Site.nth j).comp .body).change f ps)).mapNode (p :: ·) := by
        intro f
        show checkBodies t ((h, id) :: ws) (p₀ :: ((Site.nth j).comp .body).change f ps) = _
        rw [checkBodies, withHeaders_change]
        rfl
      refine .behind (p₀.checkBody t h id) (fun p => p :: withHeaders ps (ws.map Prod.fst))
        hstep ((goesOn_body hmain hp₀ h id).leads t ()) fun _ _ => ?_
      exact (ih hp hps _ (Nat.succ.inj hlength)).mapNode fun _ _ => rfl

/-- The body of one of the procedures that stand side by side. -/
theorem enters_body (hmain : mainName ∈ names) {ps : List Procedure} {j : Nat} {p : Procedure}
    (hp : ps[j]? = some p) (hnames : namesOfProcedures ps ⊆ names) (t : Table) :
    Enters names Body.check ((Site.nth j).comp .body) t p.body fun f =>
      checkProcedures t (((Site.nth j).comp .body).change f ps) := by
  have hstep : ∀ f, checkProcedures t (((Site.nth j).comp .body).change f ps) =
      (declareAll t (ps.map Procedure.header)).andThen
        (fun hs => ((Site.nth j).comp .body).change f (withHeaders ps hs)) fun hs u ids =>
          checkBodies u (hs.zip ids) (((Site.nth j).comp .body).change f ps) := by
    intro f
    have hput : withHeaders (((Site.nth j).comp .body).change f ps) = fun hs =>
        ((Site.nth j).comp .body).change f (withHeaders ps hs) :=
      funext (withHeaders_change j f ps)
    rw [checkProcedures, declareThen, headers_change, hput]
  have hheaders := List.Subset.trans (names_headers_subset ps) hnames
  refine .behind (declareAll t (ps.map Procedure.header)) (withHeaders ps) hstep
    ((goesOn_headers hmain hheaders).leads t ()) fun ids hids => ?_
  refine enters_bodies hmain hp hnames _ ?_
  rw [List.length_zip, length_node_declareAll, length_of_declareAll hids, List.length_map,
    Nat.min_self]

/-- The procedures of a program. -/
theorem enters_topLevel (hmain : mainName ∈ names) (p : Program) (t : Table) :
    Enters names checkProcedures .topLevel t p.procedures fun f =>
      Program.check t (Site.topLevel.change f p) := by
  refine .here p (fun u _ => ⟨p, u, onLine p.attr.line (mainVerdict u)⟩) ⟨?_, ?_⟩ fun _ => rfl
  · intro z hz u _
    rw [mainVerdict_without (ne_of_mem hmain hz)]
    rfl
  · exact fun _ _ hu => Visit.grows_mk hu rfl _ _

/-! ## Sites in programs -/

/-- A statement mentions what the block inside of it mentions. -/
theorem names_inStmt_subset {Q : Site Block Stmt} (hQ : InStmt Q) {s : Stmt} {b : Block}
    (hb : Q.part? s = some b) : b.names ⊆ s.names := by
  intro x hx
  cases hQ <;> cases s <;> cases hb <;> simp [Stmt.names, hx]

/-- A block in a list of statements. -/
theorem enters_stmtsBlock {Q : Site Block Stmt} (hQ : InStmt Q) {ss : List Stmt} {i : Nat}
    {b : Block} (hb : ((Site.nth i).comp Q).part? ss = some b) (hnames : namesOfStmts ss ⊆ names)
    (t : Table) :
    b.names ⊆ namesOfStmts ss ∧ Enters names Block.check ((Site.nth i).comp Q) t b fun f =>
      checkStmts t (((Site.nth i).comp Q).change f ss) := by
  obtain ⟨s, hs, hb⟩ := Option.bind_eq_some_iff.mp hb
  have hsub := names_stmt_subset hs
  refine ⟨fun _ hx => hsub (names_inStmt_subset hQ hb hx), ?_⟩
  exact (enters_stmts hs hnames t).comp fun u =>
    enters_inStmt hQ hb (fun _ hx => hnames (hsub hx)) u

variable {p : Program}

/-- A check of a program comes to each procedure body. -/
theorem enters_bodySite (hmain : mainName ∈ names) (hnames : p.names ⊆ names)
    {P : Site Body Program} (hP : BodySite P) {b : Body} (hb : P.part? p = some b) (t : Table) :
    b.names ⊆ p.names ∧ Enters names Body.check P t b fun f => Program.check t (P.change f p) := by
  induction hP generalizing b with
  | topLevel j =>
    obtain ⟨q, hq, hbody⟩ := Option.bind_eq_some_iff.mp hb
    obtain rfl := Option.some.inj hbody
    refine ⟨names_body_subset hq, ?_⟩
    exact (enters_topLevel hmain p t).comp fun u => enters_body hmain hq hnames u
  | nested hP j ih =>
    obtain ⟨b', hb', hrest⟩ := Option.bind_eq_some_iff.mp hb
    obtain ⟨q, hq, hbody⟩ := Option.bind_eq_some_iff.mp
      (show (b'.procedures[j]?.bind Site.body.part?) = some b from hrest)
    obtain rfl := Option.some.inj hbody
    obtain ⟨hsub, henters⟩ := ih hb'
    have hps : namesOfProcedures b'.procedures ⊆ p.names := fun _ hx =>
      hsub (b'.names_procedures_subset hx)
    refine ⟨fun _ hx => hps (names_body_subset hq hx), ?_⟩
    refine henters.comp fun u => ?_
    exact (enters_nested (fun _ hx => hnames (hsub hx)) u).comp fun u =>
      enters_body hmain hq (fun _ hx => hnames (hps hx)) u

/-- A check of a program comes to each nested block. -/
theorem enters_blockSite (hmain : mainName ∈ names) (hnames : p.names ⊆ names)
    {P : Site Block Program} (hP : BlockSite P) {b : Block} (hb : P.part? p = some b)
    (t : Table) :
    b.names ⊆ p.names ∧
      Enters names Block.check P t b fun f => Program.check t (P.change f p) := by
  induction hP generalizing b with
  | body hP i hQ =>
    obtain ⟨b', hb', hrest⟩ := Option.bind_eq_some_iff.mp hb
    obtain ⟨hsub, henters⟩ := enters_bodySite hmain hnames hP hb' t
    have hss : namesOfStmts b'.stmts ⊆ p.names := fun _ hx => hsub (b'.names_stmts_subset hx)
    have hstmts := enters_stmtsBlock hQ hrest (fun _ hx => hnames (hss hx))
    refine ⟨fun _ hx => hss ((hstmts t).1 hx), ?_⟩
    refine henters.comp fun u => ?_
    exact (enters_bodyStmts hmain (fun _ hx => hnames (hsub hx)) u).comp fun u => (hstmts u).2
  | nested hP i hQ ih =>
    obtain ⟨b', hb', hrest⟩ := Option.bind_eq_some_iff.mp hb
    obtain ⟨hsub, henters⟩ := ih hb'
    have hss : namesOfStmts b'.stmts ⊆ p.names := fun _ hx => hsub (b'.names_stmts_subset hx)
    have hstmts := enters_stmtsBlock hQ hrest (fun _ hx => hnames (hss hx))
    refine ⟨fun _ hx => hss ((hstmts t).1 hx), ?_⟩
    refine henters.comp fun u => ?_
    exact (enters_blockStmts (fun _ hx => hnames (hsub hx)) u).comp fun u => (hstmts u).2

/-- A check of a program comes to the declarations of each body and of each nested block. -/
theorem enters_declsSite (hmain : mainName ∈ names) (hnames : p.names ⊆ names)
    {P : Site (List Decl) Program} (hP : DeclsSite P) {ds : List Decl}
    (hds : P.part? p = some ds) (t : Table) :
    ds.flatMap Decl.names ⊆ p.names ∧
      Enters names checkDecls P t ds fun f => Program.check t (P.change f p) := by
  cases hP with
  | body hP =>
    obtain ⟨b, hb, hds⟩ := Option.bind_eq_some_iff.mp hds
    obtain rfl := Option.some.inj hds
    obtain ⟨hsub, henters⟩ := enters_bodySite hmain hnames hP hb t
    refine ⟨fun _ hx => hsub (b.names_decls_subset hx), ?_⟩
    exact henters.comp fun u => enters_bodyDecls hmain (fun _ hx => hnames (hsub hx)) u
  | block hP =>
    obtain ⟨b, hb, hds⟩ := Option.bind_eq_some_iff.mp hds
    obtain rfl := Option.some.inj hds
    obtain ⟨hsub, henters⟩ := enters_blockSite hmain hnames hP hb t
    refine ⟨fun _ hx => hsub (b.names_decls_subset hx), ?_⟩
    exact henters.comp fun u => enters_blockDecls (fun _ hx => hnames (hsub hx)) u

/-- A check of a program comes to the statements of each body and of each nested block. -/
theorem enters_stmtsSite (hmain : mainName ∈ names) (hnames : p.names ⊆ names)
    {P : Site (List Stmt) Program} (hP : StmtsSite P) {ss : List Stmt}
    (hss : P.part? p = some ss) (t : Table) :
    namesOfStmts ss ⊆ p.names ∧
      Enters names checkStmts P t ss fun f => Program.check t (P.change f p) := by
  cases hP with
  | body hP =>
    obtain ⟨b, hb, hss⟩ := Option.bind_eq_some_iff.mp hss
    obtain rfl := Option.some.inj hss
    obtain ⟨hsub, henters⟩ := enters_bodySite hmain hnames hP hb t
    refine ⟨fun _ hx => hsub (b.names_stmts_subset hx), ?_⟩
    exact henters.comp fun u => enters_bodyStmts hmain (fun _ hx => hnames (hsub hx)) u
  | block hP =>
    obtain ⟨b, hb, hss⟩ := Option.bind_eq_some_iff.mp hss
    obtain rfl := Option.some.inj hss
    obtain ⟨hsub, henters⟩ := enters_blockSite hmain hnames hP hb t
    refine ⟨fun _ hx => hsub (b.names_stmts_subset hx), ?_⟩
    exact henters.comp fun u => enters_blockStmts (fun _ hx => hnames (hsub hx)) u

/-- A check of a program comes to the arguments of each call. -/
theorem enters_argumentsSite (hmain : mainName ∈ names) (hnames : p.names ⊆ names)
    {P : Site (List Expr) Program} (hP : ArgumentsSite P) {es : List Expr}
    (hes : P.part? p = some es) (t : Table) :
    Enters names visitArguments P t es fun f => Program.check t (P.change f p) := by
  obtain ⟨hP, i⟩ := hP
  obtain ⟨ss, hss, hrest⟩ := Option.bind_eq_some_iff.mp hes
  obtain ⟨s, hs, hes⟩ := Option.bind_eq_some_iff.mp hrest
  obtain ⟨hsub, henters⟩ := enters_stmtsSite hmain hnames hP hss t
  have hss : namesOfStmts ss ⊆ names := fun _ hx => hnames (hsub hx)
  refine henters.comp fun u => ?_
  exact (enters_stmts hs hss u).comp fun u =>
    enters_arguments hes (fun _ hx => hss (names_stmt_subset hs hx)) u

/-- A check of a program comes to all procedures that stand side by side. -/
theorem enters_proceduresSite (hmain : mainName ∈ names) (hnames : p.names ⊆ names)
    {P : Site (List Procedure) Program} (hP : ProceduresSite P) {ps : List Procedure}
    (hps : P.part? p = some ps) (t : Table) :
    Enters names checkProcedures P t ps fun f => Program.check t (P.change f p) := by
  cases hP with
  | topLevel =>
    obtain rfl := Option.some.inj hps
    exact enters_topLevel hmain p t
  | nested hP =>
    obtain ⟨b, hb, hps⟩ := Option.bind_eq_some_iff.mp hps
    obtain rfl := Option.some.inj hps
    obtain ⟨hsub, henters⟩ := enters_bodySite hmain hnames hP hb t
    exact henters.comp fun u => enters_nested (fun _ hx => hnames (hsub hx)) u

/-- The check of the program comes to the site with the table `u`, whatever stands there: `V` visits
    it from that table, and what comes behind depends on it by the table that is left and by what
    is found only. -/
def Program.Visits (p : Program) (P : Site α Program) (V : Table → α → Visit α β) (u : Table) :
    Prop :=
  ∃ (n : Program) (rest : Table → β → Visit Program Unit), ∀ x, (P.put x p).typeCheck =
    (V u x).andThen (P.put · n) fun x u b => (rest u b).mapNode (P.put x)

end

end ProcLang
