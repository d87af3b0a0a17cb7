/-
  A check stops at the first violation.

  1. **Lists.**  Declarations, statements, arguments and headers are visited one after the other
     (`InOrder`), and a visit of that kind does not depend on what follows the first element that
     fails, and leaves it alone (`InOrder.failsFast`).
  2. **Procedures that stand side by side.**  They are visited twice.  When a header fails, nothing
     behind it has changed; when a body fails, the procedures behind it have their declared headers
     and the bodies that they had (`checkProcedures_of_header`, `checkProcedures_of_body`).
  3. **Programs.**  The check of a program comes to each of its lists in the same way, or ends in
     front of it in the same way, whatever stands there.  So what holds of the visits of lists
     holds of the check of the whole (`typeCheck_failFast`).
-/
import ProcLang.Proofs.Typing.Entry
import ProcLang.Proofs.Typing.Shape

namespace ProcLang

open Visit

variable {α β γ : Type}

/-! ## Lists -/

/-- `V` visits the elements of a list with `step`, in order, and joins what is found by `join`. -/
structure InOrder (V : Table → List α → Visit (List α) β) (step : Table → α → Visit α γ)
    (join : γ → β → β) : Prop where
  nil : ∀ t, ∃ b, V t [] = ⟨[], t, .ok b⟩
  cons : ∀ t x xs, V t (x :: xs) = (step t x).andThen (· :: xs) fun x u c =>
    (V u xs).andThen (x :: ·) fun xs w b => ⟨x :: xs, w, .ok (join c b)⟩

/-- A visit of lists by `V` that fails has a first element that does; and whatever stands behind
    this element makes no difference, and comes back as it was. -/
structure FailsFast (V : Table → List α → Visit (List α) β) : Prop where
  first : ∀ t zs e, (V t zs).result = .error e → ∃ xs x ys b, zs = xs ++ x :: ys ∧
    (V t xs).result = .ok b ∧ (V t (xs ++ [x])).result = .error e
  stops : ∀ t xs x e, (V t (xs ++ [x])).result = .error e → ∀ ys, V t (xs ++ x :: ys) =
    ⟨(V t (xs ++ [x])).node ++ ys, (V t (xs ++ [x])).table, .error e⟩

namespace InOrder

variable {V : Table → List α → Visit (List α) β} {step : Table → α → Visit α γ} {join : γ → β → β}

/-- The first element fails: the others are left alone and the error is its own. -/
theorem cons_of_error (h : InOrder V step join) {t : Table} {x : α} {e : SemanticError}
    (hx : (step t x).result = .error e) (xs : List α) :
    V t (x :: xs) = ⟨(step t x).node :: xs, (step t x).table, .error e⟩ := by
  rw [h.cons, andThen_of_error hx]

/-- The first element is visited without an error, and the others are visited from the table it
    leaves. -/
theorem cons_of_ok (h : InOrder V step join) {t : Table} {x : α} {c : γ}
    (hx : (step t x).result = .ok c) (xs : List α) :
    V t (x :: xs) = (V (step t x).table xs).andThen ((step t x).node :: ·) fun xs u b =>
      ⟨(step t x).node :: xs, u, .ok (join c b)⟩ := by
  rw [h.cons, andThen_of_ok hx]

/-- Behind an element that does not fail, it is the others that fail. -/
theorem error_iff_of_ok (h : InOrder V step join) {t : Table} {x : α} {c : γ}
    (hx : (step t x).result = .ok c) (xs : List α) (e : SemanticError) :
    (V t (x :: xs)).result = .error e ↔ (V (step t x).table xs).result = .error e := by
  rw [h.cons_of_ok hx]
  cases hrest : (V (step t x).table xs).result with
  | error e' => rw [andThen_of_error hrest]
  | ok b =>
    rw [andThen_of_ok hrest]
    constructor <;> intro h <;> cases h

/-- Visits in order stop at the first element that fails, and say nothing about those behind it. -/
theorem failsFast (h : InOrder V step join) : FailsFast V where
  first t zs e he := by
    -- on the elements in front of the one that fails; none of them fails, so each is put in front
    -- of what is known of the rest
    induction zs generalizing t with
    | nil =>
      obtain ⟨b, hb⟩ := h.nil t
      rw [hb] at he
      cases he
    | cons z zs ih =>
      cases hz : (step t z).result with
      | error e' =>
        obtain ⟨b, hb⟩ := h.nil t
        rw [h.cons_of_error hz] at he
        refine ⟨[], z, zs, b, rfl, congrArg Visit.result hb, ?_⟩
        rw [List.nil_append, h.cons_of_error hz]
        exact he
      | ok c =>
        obtain ⟨xs, x, ys, b, rfl, hxs, hx⟩ := ih _ ((h.error_iff_of_ok hz _ e).mp he)
        refine ⟨z :: xs, x, ys, join c b, rfl, ?_, (h.error_iff_of_ok hz _ e).mpr hx⟩
        rw [h.cons_of_ok hz, andThen_of_ok hxs]
  stops t xs x e he ys := by
    induction xs generalizing t with
    | nil =>
      cases hx : (step t x).result with
      | error e' =>
        rw [List.nil_append, h.cons_of_error hx] at he
        obtain rfl := Except.error.inj he
        rw [List.nil_append, List.nil_append, h.cons_of_error hx, h.cons_of_error hx]
        rfl
      | ok c =>
        obtain ⟨b, hb⟩ := h.nil (step t x).table
        have herror := (h.error_iff_of_ok hx [] e).mp he
        rw [hb] at herror
        cases herror
    | cons z zs ih =>
      rw [List.cons_append] at he
      rw [List.cons_append, List.cons_append]
      cases hz : (step t z).result with
      | error e' =>
        rw [h.cons_of_error hz] at he
        obtain rfl := Except.error.inj he
        rw [h.cons_of_error hz, h.cons_of_error hz]
        simp
      | ok c =>
        have herror := (h.error_iff_of_ok hz _ e).mp he
        rw [h.cons_of_ok hz, h.cons_of_ok hz, ih _ herror, andThen_of_error herror]
        rfl

end InOrder

/-- Declarations are visited in order. -/
theorem inOrder_decls : InOrder checkDecls (fun t d => d.check t) fun _ _ => () where
  nil _ := ⟨(), rfl⟩
  cons t d ds := by
    rw [checkDecls]
    refine congrArg (andThen _ _) ?_
    funext d t _
    obtain ⟨ds, t, b | e⟩ := checkDecls t ds <;> rfl

/-- Statements are visited in order. -/
theorem inOrder_stmts : InOrder checkStmts (fun t s => s.check t) fun _ _ => () where
  nil _ := ⟨(), rfl⟩
  cons t s ss := by
    rw [checkStmts]
    refine congrArg (andThen _ _) ?_
    funext s t _
    obtain ⟨ss, t, b | e⟩ := checkStmts t ss <;> rfl

/-- Arguments are visited in order.  They are only read, so each sees the same table. -/
theorem inOrder_arguments :
    InOrder visitArguments (fun t e => (e.check t.env).within t) List.cons where
  nil _ := ⟨[], rfl⟩
  cons t e es := by
    unfold visitArguments
    rw [checkArguments]
    simp only [Found.andThen, Found.within, Visit.andThen]
    cases (e.check t.env).result with
    | error _ => rfl
    | ok b => cases (checkArguments t.env es).result <;> rfl

/-- Headers are declared in order. -/
theorem inOrder_headers : InOrder declareAll (fun t h => h.declare t) List.cons where
  nil _ := ⟨[], rfl⟩
  cons _ _ _ := rfl

/-! ## Procedures that stand side by side -/

/-- The headers of procedures in a row are put in place from the left. -/
theorem withHeaders_append (ps qs : List Procedure) (hs : List Header) :
    withHeaders (ps ++ qs) hs = withHeaders ps hs ++ withHeaders qs (hs.drop ps.length) := by
  induction ps generalizing hs with
  | nil => rfl
  | cons p ps ih =>
    cases hs with
    | nil =>
      have hnone : ∀ qs, withHeaders qs [] = qs := fun qs => by cases qs <;> rfl
      simp [hnone]
    | cons h hs => exact congrArg (p.withHeader h :: ·) (ih hs)

/-- Headers beyond the last procedure have no place to go. -/
theorem withHeaders_append_of_length {ps : List Procedure} {hs : List Header}
    (h : hs.length = ps.length) (hs' : List Header) :
    withHeaders ps (hs ++ hs') = withHeaders ps hs := by
  induction ps generalizing hs with
  | nil =>
    obtain rfl := List.eq_nil_of_length_eq_zero h
    rfl
  | cons p ps ih =>
    obtain ⟨h₀, hs, rfl⟩ := List.exists_cons_of_length_eq_add_one h
    exact congrArg (p.withHeader h₀ :: ·) (ih (Nat.succ.inj h))

/-- Behind a header that fails, headers and bodies stay as they are. -/
theorem checkProcedures_of_header {t : Table} {ps : List Procedure} {p : Procedure}
    {e : SemanticError}
    (he : (declareAll t ((ps ++ [p]).map Procedure.header)).result = .error e)
    (qs : List Procedure) : checkProcedures t (ps ++ p :: qs) =
      ⟨(checkProcedures t (ps ++ [p])).node ++ qs, (checkProcedures t (ps ++ [p])).table,
        .error e⟩ := by
  have hheaders : (ps ++ p :: qs).map Procedure.header =
      ps.map Procedure.header ++ p.header :: qs.map Procedure.header := by simp
  have hlast : ps.map Procedure.header ++ [p.header] = (ps ++ [p]).map Procedure.header := by simp
  have hstops := inOrder_headers.failsFast.stops t (ps.map Procedure.header) p.header e
    (hlast ▸ he) (qs.map Procedure.header)
  have hlength := length_node_declareAll t ((ps ++ [p]).map Procedure.header)
  rw [List.length_map] at hlength
  have hnode : withHeaders (ps ++ p :: qs)
      ((declareAll t ((ps ++ [p]).map Procedure.header)).node ++ qs.map Procedure.header) =
      withHeaders (ps ++ [p]) (declareAll t ((ps ++ [p]).map Procedure.header)).node ++ qs := by
    rw [← List.singleton_append, ← List.append_assoc, withHeaders_append,
      withHeaders_append_of_length hlength, List.drop_left' hlength, withHeaders_headers]
  unfold checkProcedures declareThen
  rw [hheaders, hstops, hlast, andThen_of_error he, andThen_of_error rfl]
  exact congrArg (Visit.mk · _ _) hnode

/-- Behind a body that fails, procedures take their headers and nothing else. -/
theorem checkBodies_of_body {ps : List Procedure} {p : Procedure} {e : SemanticError}
    (qs : List Procedure) {t : Table} {ws : List (Header × Nat)}
    (he : (checkBodies t ws (ps ++ [p])).result = .error e) : checkBodies t ws (ps ++ p :: qs) =
      ⟨(checkBodies t ws (ps ++ [p])).node ++
        withHeaders qs ((ws.map Prod.fst).drop (ps.length + 1)),
        (checkBodies t ws (ps ++ [p])).table, .error e⟩ := by
  -- over the procedures in front, each of which takes the first of the waiting scopes; when one of
  -- them fails already, `p` is left alone together with `qs`
  induction ps generalizing t ws with
  | nil =>
    match ws with
    | [] => cases he
    | (h, id) :: ws =>
      rw [List.nil_append, checkBodies] at he
      rw [List.nil_append, List.nil_append, checkBodies, checkBodies]
      cases hp : (p.checkBody t h id).result with
      | error e' =>
        rw [andThen_of_error hp] at he
        obtain rfl := Except.error.inj he
        rw [andThen_of_error hp, andThen_of_error hp]
        rfl
      | ok b =>
        rw [andThen_of_ok hp] at he
        cases he
  | cons p₀ ps ih =>
    match ws with
    | [] => cases he
    | (h, id) :: ws =>
      rw [List.cons_append, checkBodies] at he
      rw [List.cons_append, List.cons_append, checkBodies, checkBodies]
      cases hp : (p₀.checkBody t h id).result with
      | error e' =>
        rw [andThen_of_error hp] at he
        obtain rfl := Except.error.inj he
        rw [andThen_of_error hp, andThen_of_error hp]
        have hrest := withHeaders_append (ps ++ [p]) qs (ws.map Prod.fst)
        rw [List.append_assoc, List.length_append] at hrest
        exact congrArg (fun ps => Visit.mk (_ :: ps) _ _) hrest
      | ok b =>
        rw [andThen_of_ok hp] at he
        rw [andThen_of_ok hp, andThen_of_ok hp, ih he]
        rfl

/-- The visit of bodies behind that of the headers `hs`, which found the scopes `ids`. -/
def visitBodies (t : Table) (hs : List Header) (ids : List Nat) (ps : List Procedure) :
    Visit (List Procedure) Unit :=
  checkBodies (declareAll t hs).table ((declareAll t hs).node.zip ids) ps

/-- When all headers are declared, the bodies decide. -/
theorem checkProcedures_of_headers {t : Table} {ps : List Procedure} {ids : List Nat}
    (hids : (declareAll t (ps.map Procedure.header)).result = .ok ids) :
    checkProcedures t ps = visitBodies t (ps.map Procedure.header) ids ps := by
  unfold checkProcedures declareThen
  rw [andThen_of_ok hids]
  rfl

/-- Behind a body that fails, headers are declared and bodies stay as they are. -/
theorem checkProcedures_of_body {t : Table} {hs : List Header} {ids : List Nat}
    (hids : (declareAll t hs).result = .ok ids) {ps : List Procedure} {p : Procedure}
    {e : SemanticError} (he : (visitBodies t hs ids (ps ++ [p])).result = .error e)
    {qs : List Procedure} (hqs : (ps ++ p :: qs).map Procedure.header = hs) :
    checkProcedures t (ps ++ p :: qs) =
      ⟨(visitBodies t hs ids (ps ++ [p])).node ++
        withHeaders qs ((declareAll t hs).node.drop (ps.length + 1)),
        (visitBodies t hs ids (ps ++ [p])).table, .error e⟩ := by
  subst hqs
  have hlength := (length_node_declareAll t ((ps ++ p :: qs).map Procedure.header)).trans
    (length_of_declareAll hids).symm
  have hstops := checkBodies_of_body qs he
  rw [List.map_fst_zip (Nat.le_of_eq hlength)] at hstops
  exact (checkProcedures_of_headers hids).trans hstops

/-- Bodies that fail have a first one that does. -/
theorem exists_first_body {ps : List Procedure} {e : SemanticError} {t : Table}
    {ws : List (Header × Nat)} (he : (checkBodies t ws ps).result = .error e) :
    ∃ ps₁ p ps₂, ps = ps₁ ++ p :: ps₂ ∧ (checkBodies t ws ps₁).result = .ok () ∧
      (checkBodies t ws (ps₁ ++ [p])).result = .error e := by
  induction ps generalizing t ws with
  | nil => cases he
  | cons p ps ih =>
    match ws with
    | [] => cases he
    | (h, id) :: ws =>
      rw [checkBodies] at he
      cases hp : (p.checkBody t h id).result with
      | error e' =>
        rw [andThen_of_error hp] at he
        refine ⟨[], p, ps, rfl, rfl, ?_⟩
        rw [List.nil_append, checkBodies, andThen_of_error hp]
        exact he
      | ok b =>
        rw [andThen_of_ok hp] at he
        obtain ⟨ps₁, q, ps₂, rfl, hok, hq⟩ := ih he
        refine ⟨p :: ps₁, q, ps₂, rfl, ?_, ?_⟩
        · rw [checkBodies, andThen_of_ok hp]
          exact hok
        · rw [List.cons_append, checkBodies, andThen_of_ok hp]
          exact hq

/-! ## Programs -/

/-- At the site `P` of the program, lists are visited by `V` up to the first element that fails. -/
inductive Program.FailsFastAt (p : Program) (P : Site (List α) Program)
    (V : Table → List α → Visit (List α) β) : Prop
  /-- The check ends in front of the site, with the same error whatever stands there. -/
  | before (n : Program) (t : Table) (e : SemanticError)
      (h : ∀ xs, (P.put xs p).typeCheck = ⟨P.put xs n, t, .error e⟩)
  /-- The check comes to the site with the table `u`.  If an element fails there, one is the first,
      and whatever stands behind it makes no difference and comes back as it was. -/
  | inside (n : Program) (u : Table) (visits : p.Visits P V u)
      (first : ∀ zs e, (V u zs).result = .error e → ∃ xs x ys b, zs = xs ++ x :: ys ∧
        (V u xs).result = .ok b ∧ (V u (xs ++ [x])).result = .error e)
      (stops : ∀ xs x e, (V u (xs ++ [x])).result = .error e → ∀ ys,
        (P.put (xs ++ x :: ys) p).typeCheck =
          ⟨P.put ((V u (xs ++ [x])).node ++ ys) n, (V u (xs ++ [x])).table, .error e⟩)

/-- At the site `P` of the program, procedures are visited up to the first header that fails, or
    else up to the first body that fails. -/
inductive Program.ProceduresFailFastAt (p : Program) (P : Site (List Procedure) Program) : Prop
  /-- The check ends in front of the site, with the same error whatever stands there. -/
  | before (n : Program) (t : Table) (e : SemanticError)
      (h : ∀ ps, (P.put ps p).typeCheck = ⟨P.put ps n, t, .error e⟩)
  /-- The check comes to the site with the table `u`.  If a header fails there, whatever stands
      behind makes no difference and comes back as it was.  If all headers `hs` are declared and a
      body fails, the bodies behind make no difference, and come back as they were, under the
      headers as they were declared. -/
  | inside (n : Program) (u : Table) (visits : p.Visits P checkProcedures u)
      (first : ∀ zs e, (checkProcedures u zs).result = .error e → ∃ ps q qs, zs = ps ++ q :: qs ∧
        ((∃ ids, (declareAll u (ps.map Procedure.header)).result = .ok ids ∧
            (declareAll u ((ps ++ [q]).map Procedure.header)).result = .error e) ∨
          ∃ ids, (declareAll u (zs.map Procedure.header)).result = .ok ids ∧
            (visitBodies u (zs.map Procedure.header) ids ps).result = .ok () ∧
            (visitBodies u (zs.map Procedure.header) ids (ps ++ [q])).result = .error e))
      (headers : ∀ ps q e,
        (declareAll u ((ps ++ [q]).map Procedure.header)).result = .error e → ∀ qs,
        (P.put (ps ++ q :: qs) p).typeCheck =
          ⟨P.put ((checkProcedures u (ps ++ [q])).node ++ qs) n,
            (checkProcedures u (ps ++ [q])).table, .error e⟩)
      (bodies : ∀ hs ids ps q e, (declareAll u hs).result = .ok ids →
        (visitBodies u hs ids (ps ++ [q])).result = .error e → ∀ qs,
        (ps ++ q :: qs).map Procedure.header = hs →
        (P.put (ps ++ q :: qs) p).typeCheck =
          ⟨P.put ((visitBodies u hs ids (ps ++ [q])).node ++
              withHeaders qs ((declareAll u hs).node.drop (ps.length + 1))) n,
            (visitBodies u hs ids (ps ++ [q])).table, .error e⟩)

section

variable {names : List String} {p : Program}

/-- What stops early where the check comes to a list makes the whole check stop early there. -/
theorem Enters.failsFastAt {P : Site (List α) Program} {V : Table → List α → Visit (List α) β}
    {xs : List α} (h : Enters names V P .initial xs fun f => Program.check .initial (P.change f p))
    (hV : FailsFast V) : p.FailsFastAt P V := by
  rcases h with ⟨n, t, e, h⟩ | ⟨n, u, rest, -, -, h⟩
  · exact .before n t e fun xs => h fun _ => xs
  · refine .inside n u ⟨n, rest, fun xs => h fun _ => xs⟩ (hV.first u) fun xs x e he ys => ?_
    have hstops := hV.stops u xs x e he ys
    refine (h fun _ => xs ++ x :: ys).trans ?_
    rw [andThen_of_error (congrArg Visit.result hstops), hstops]

/-- Procedures that fail have a first header that does, or else a first body. -/
theorem exists_first_of_checkProcedures {u : Table} {zs : List Procedure} {e : SemanticError}
    (he : (checkProcedures u zs).result = .error e) : ∃ ps q qs, zs = ps ++ q :: qs ∧
      ((∃ ids, (declareAll u (ps.map Procedure.header)).result = .ok ids ∧
          (declareAll u ((ps ++ [q]).map Procedure.header)).result = .error e) ∨
        ∃ ids, (declareAll u (zs.map Procedure.header)).result = .ok ids ∧
          (visitBodies u (zs.map Procedure.header) ids ps).result = .ok () ∧
          (visitBodies u (zs.map Procedure.header) ids (ps ++ [q])).result = .error e) := by
  cases hids : (declareAll u (zs.map Procedure.header)).result with
  | error e' =>
    have hfails : (checkProcedures u zs).result = .error e' := by
      unfold checkProcedures declareThen
      rw [andThen_of_error hids]
    obtain rfl := Except.error.inj (hfails.symm.trans he)
    obtain ⟨hs, h, hs', ids, hsplit, hok, hfirst⟩ := inOrder_headers.failsFast.first u _ _ hids
    obtain ⟨ps, rest, rfl, rfl, hrest⟩ := List.map_eq_append_iff.mp hsplit
    obtain ⟨q, qs, rfl, rfl, -⟩ := List.map_eq_cons_iff.mp hrest
    refine ⟨ps, q, qs, rfl, Or.inl ⟨ids, hok, ?_⟩⟩
    rwa [List.map_append]
  | ok ids =>
    rw [checkProcedures_of_headers hids] at he
    obtain ⟨ps, q, qs, hsplit, hok, hfirst⟩ := exists_first_body he
    exact ⟨ps, q, qs, hsplit, Or.inr ⟨ids, rfl, hok, hfirst⟩⟩

/-- Where the check comes to procedures that stand side by side, it stops at the first that fails in
    either of the two passes. -/
theorem Enters.proceduresFailFastAt {P : Site (List Procedure) Program} {ps : List Procedure}
    (h : Enters names checkProcedures P .initial ps fun f =>
      Program.check .initial (P.change f p)) : p.ProceduresFailFastAt P := by
  rcases h with ⟨n, t, e, h⟩ | ⟨n, u, rest, -, -, h⟩
  · exact .before n t e fun ps => h fun _ => ps
  · refine .inside n u ⟨n, rest, fun ps => h fun _ => ps⟩
      (fun _ _ he => exists_first_of_checkProcedures he) ?_ ?_
    · intro ps q e he qs
      have hstops := checkProcedures_of_header he qs
      refine (h fun _ => ps ++ q :: qs).trans ?_
      rw [andThen_of_error (congrArg Visit.result hstops), hstops]
    · intro hs ids ps q e hids he qs hqs
      have hstops := checkProcedures_of_body hids he hqs
      refine (h fun _ => ps ++ q :: qs).trans ?_
      rw [andThen_of_error (congrArg Visit.result hstops), hstops]

end

/-- **A check stops at the first violation.**  However it ends, it writes basetypes into the tree
    and nothing else.  In declarations, statements, arguments and procedures, wherever they stand
    in a program, what follows the first element that fails has no influence on the error, on the
    symbol table and on what was written before, and it comes back as it was; but when it is a
    body that fails, all the headers beside it have been declared. -/
theorem typeCheck_failFast (p : Program) :
    p.typeCheck.node.strip = p.strip ∧
    (∀ P ds, DeclsSite P → P.part? p = some ds → p.FailsFastAt P checkDecls) ∧
    (∀ P ss, StmtsSite P → P.part? p = some ss → p.FailsFastAt P checkStmts) ∧
    (∀ P es, ArgumentsSite P → P.part? p = some es → p.FailsFastAt P visitArguments) ∧
    (∀ P ps, ProceduresSite P → P.part? p = some ps → p.ProceduresFailFastAt P) := by
  have hmain : mainName ∈ mainName :: p.names := List.mem_cons_self
  have hnames : p.names ⊆ mainName :: p.names := List.subset_cons_self _ _
  refine ⟨p.strip_node_typeCheck, ?_, ?_, ?_, ?_⟩
  · intro P ds hP hds
    exact (enters_declsSite hmain hnames hP hds .initial).2.failsFastAt inOrder_decls.failsFast
  · intro P ss hP hss
    exact (enters_stmtsSite hmain hnames hP hss .initial).2.failsFastAt inOrder_stmts.failsFast
  · intro P es hP hes
    exact (enters_argumentsSite hmain hnames hP hes .initial).failsFastAt
      inOrder_arguments.failsFast
  · intro P ps hP hps
    exact (enters_proceduresSite hmain hnames hP hps .initial).proceduresFailFastAt

/-- `Main` declares `x` and returns it. -/
def returningProgram : Program where
  procedures :=
    [.mk ⟨"Main", [], ⟨.integer, .bare 1⟩, .bare 1⟩
      (.mk [] [⟨["x"], ⟨.integer, .bare 2⟩, .bare 2⟩] [] ⟨.named (.bare 5) "x", .bare 5⟩
        (.bare 1))]
  attr := .bare 1

/-- The statements of `Main`. -/
def mainStmts : Site (List Stmt) Program :=
  (Site.topLevel.comp ((Site.nth 0).comp .body)).comp .bodyStmts

/-- The value is that of a variable that is not declared. -/
def undefinedAssign : Stmt := .assign (.bare 3) (.named (.bare 3) "x") (.named (.bare 3) "y")

/-- An assignment leaves the table, with or without an error. -/
theorem table_checkStmts_assign (u : Table) (a : Attribute) (l : Location) (e : Expr) :
    (checkStmts u [.assign a l e]).table = u := by
  rw [checkStmts, Stmt.check]
  obtain ⟨s, b | e⟩ := checkAssign u.env a l e <;> rfl

/-- An assignment to a name that is not declared, with any statements behind it. -/
theorem typeCheck_failFast_undefined :
    ∃ n zs t, ∀ ys, (mainStmts.put (undefinedAssign :: ys) returningProgram).typeCheck =
      ⟨mainStmts.put (zs ++ ys) n, t, .error ⟨.variableUndefined, 3⟩⟩ := by
  have hempty : (mainStmts.put [] returningProgram).typeCheck.result = .ok () := by decide +kernel
  have hassign : (mainStmts.put [undefinedAssign] returningProgram).typeCheck.result =
      .error ⟨.variableUndefined, 3⟩ := by decide +kernel
  obtain ⟨-, -, hstmts, -⟩ := typeCheck_failFast returningProgram
  cases hstmts mainStmts [] (.body (.topLevel 0)) rfl with
  | before n t e h =>
    rw [h] at hempty
    cases hempty
  | inside n u visits first stops =>
    obtain ⟨n', rest, hvisits⟩ := visits
    rw [hvisits] at hempty hassign
    refine ⟨n, _, _, stops [] undefinedAssign _ ?_⟩
    -- what comes behind the statements succeeds from `u`, which the assignment leaves alone
    cases hresult : (checkStmts u [undefinedAssign]).result with
    | error e =>
      rw [andThen_of_error hresult] at hassign
      exact hresult.trans hassign
    | ok b =>
      rw [andThen_of_ok hresult, undefinedAssign, table_checkStmts_assign] at hassign
      exact absurd (hassign.symm.trans hempty) nofun

end ProcLang
