/-
  Where violations come from.

  `ErrorsIn P r`: when `r` is an error, it is one of those that `P` admits.  It is closed under
  sequencing (`ErrorsIn.bind`), so what a construct can be blamed for follows from what its parts
  and its rule can be blamed for.  Along the static semantics this sorts the violations:

  * expressions, declarations, statements and returns commit `Local` violations only;
  * behind them, a list of procedures can be blamed for a name that is taken (`signatures_origin`);
    inside a body, by a parameter or by a procedure in front (`Procedure.CollidesInside`);
  * the rest is said of the whole program in the end: there is no `Main`, or it has parameters.

  So `unclassified` is never reported.  And a missing `Main` is reported of a program with exactly
  one `Main` at the top level only when the name is taken twice inside some procedure; the main
  statement is `typeCheck_main_violation`.
-/
import Mathlib.Data.List.Nodup
import ProcLang.Proofs.Typing.Annotated

namespace ProcLang

open Static

variable {α β γ : Type}

/-! ## Errors -/

/-- When `r` is an error, `P` holds of it. -/
def ErrorsIn (P : α → Prop) (r : Except α β) : Prop := ∀ e, r = .error e → P e

section

variable {P Q : α → Prop}

/-- A success has no error. -/
theorem errorsIn_ok (b : β) : ErrorsIn P (.ok b) := fun _ he => by cases he

/-- An error is one of those that are admitted. -/
theorem errorsIn_error {e : α} (h : P e) : ErrorsIn P (.error e : Except α β) := by
  intro e' he
  obtain rfl := Except.error.inj he
  exact h

/-- More errors can be admitted. -/
theorem ErrorsIn.imp {r : Except α β} (h : ErrorsIn P r) (hPQ : ∀ e, P e → Q e) : ErrorsIn Q r :=
  fun e he => hPQ e (h e he)

/-- A sequence is blamed for what its parts are blamed for. -/
theorem ErrorsIn.bind {r : Except α β} {k : β → Except α γ} (h : ErrorsIn P r)
    (hk : ∀ b, r = .ok b → ErrorsIn P (k b)) : ErrorsIn P (r >>= k) := by
  cases r with
  | ok b => exact hk b rfl
  | error e => exact errorsIn_error (h e rfl)

/-- A choice admits what its branches admit. -/
theorem errorsIn_ite {c : Prop} [Decidable c] {r r' : Except α β} (h : ErrorsIn P r)
    (h' : ErrorsIn P r') : ErrorsIn P (if c then r else r') := by
  split
  · exact h
  · exact h'

end

/-- A verdict is put on a line with the violation that it has. -/
theorem ErrorsIn.onLine {P : Violation → Prop} {verdict : Except Violation β}
    (h : ErrorsIn P verdict) (line : Nat) :
    ErrorsIn (fun e : SemanticError => P e.violation) (onLine line verdict) := by
  cases verdict with
  | ok b => exact errorsIn_ok b
  | error v => exact errorsIn_error (h v rfl)

/-! ## Rules -/

/-- Violations of what stands in a body; the others are about the names of procedures, about
    `Main`, and about scopes that cannot be entered again. -/
def Violation.Local : Violation → Prop
  | .noMain | .nonVoidMain | .duplicateProcedure | .unclassified => False
  | _ => True

namespace Rule

/-- The rule for `&&` and `||`. -/
theorem local_logical (left : Basetype) : ErrorsIn Violation.Local (logical left) :=
  errorsIn_ite (errorsIn_ok _) (errorsIn_error trivial)

/-- The rule for products and quotients. -/
theorem local_multiplicative (left right : Basetype) :
    ErrorsIn Violation.Local (multiplicative left right) :=
  errorsIn_ite (errorsIn_ok _) (errorsIn_ite (errorsIn_error trivial) (errorsIn_error trivial))

/-- The rule for sums and differences, pointers included. -/
theorem local_additive (left right : Basetype) :
    ErrorsIn Violation.Local (additive left right) := by
  unfold additive
  split
  · exact errorsIn_ok _
  · exact errorsIn_ok _
  · exact errorsIn_ok _
  · exact errorsIn_error trivial

/-- The rule for `<` and its kin. -/
theorem local_relational (left right : Basetype) :
    ErrorsIn Violation.Local (relational left right) :=
  errorsIn_ite (errorsIn_ok _) (errorsIn_error trivial)

/-- The rule for `==` and `!=`. -/
theorem local_equality (left right : Basetype) :
    ErrorsIn Violation.Local (equality left right) :=
  errorsIn_ite (errorsIn_error trivial) (errorsIn_ite (errorsIn_ok _) (errorsIn_error trivial))

/-- The rules for binary operators. -/
theorem local_binary (op : BinaryOp) (left right : Basetype) :
    ErrorsIn Violation.Local (binary op left right) := by
  cases op with
  | and | or => exact local_logical left
  | times | divide => exact local_multiplicative left right
  | plus | minus => exact local_additive left right
  | less | lessEquals | greater | greaterEquals => exact local_relational left right
  | equals | notEquals => exact local_equality left right

/-- The rule for dereferences. -/
theorem local_deref (operand : Basetype) : ErrorsIn Violation.Local (deref operand) := by
  unfold deref
  split
  · exact errorsIn_ok _
  · exact errorsIn_ok _
  · exact errorsIn_error trivial

/-- The rules for unary operators. -/
theorem local_unary (op : UnaryOp) (operand : Basetype) :
    ErrorsIn Violation.Local (unary op operand) := by
  cases op with
  | deref => exact local_deref operand
  | _ => exact errorsIn_ite (errorsIn_ok _) (errorsIn_error trivial)

/-- The rule for addresses. -/
theorem local_addressOf (target : Basetype) : ErrorsIn Violation.Local (addressOf target) := by
  unfold addressOf
  split
  · exact errorsIn_ok _
  · exact errorsIn_ok _
  · exact errorsIn_error trivial

/-- The rule for names: all that it can miss is the variable. -/
theorem local_named (entity? : Option Entity) : ErrorsIn Violation.Local (named entity?) := by
  cases entity? with
  | some e => exact errorsIn_ok _
  | none => exact errorsIn_error trivial

/-- The rule for elements. -/
theorem local_element (entity? : Option Entity) (index : Basetype) :
    ErrorsIn Violation.Local (element entity? index) :=
  errorsIn_ite (errorsIn_ite (errorsIn_ok _) (errorsIn_error trivial)) (errorsIn_error trivial)

/-- The rule for assignments. -/
theorem local_assignment (target value : Basetype) :
    ErrorsIn Violation.Local (assignment target value) :=
  errorsIn_ite (errorsIn_ok _) (errorsIn_error trivial)

/-- The rule for assignments of texts. -/
theorem local_stringAssignment (target : Basetype) :
    ErrorsIn Violation.Local (stringAssignment target) :=
  errorsIn_ite (errorsIn_ok _) (errorsIn_error trivial)

/-- The rule for calls. -/
theorem local_call (entity? : Option Entity) (arguments : List Basetype) (target : Basetype) :
    ErrorsIn Violation.Local (call entity? arguments target) := by
  unfold call
  split
  · exact errorsIn_error trivial
  · refine errorsIn_ite (errorsIn_error trivial) (errorsIn_ite (errorsIn_error trivial) ?_)
    exact errorsIn_ite (errorsIn_error trivial) (errorsIn_ok _)

/-- The rule for the value of a return. -/
theorem local_returned (value : Basetype) : ErrorsIn Violation.Local (returned value) :=
  errorsIn_ite (errorsIn_error trivial) (errorsIn_ok _)

/-- The rule for what a procedure returns. -/
theorem local_procedure (declared body : Basetype) :
    ErrorsIn Violation.Local (procedure declared body) :=
  errorsIn_ite (errorsIn_ok _) (errorsIn_error trivial)

/-- The rule for conditions: its violation is the one that it is given. -/
theorem local_predicate (condition : Basetype) {v : Violation} (hv : v.Local) :
    ErrorsIn Violation.Local (predicate condition v) :=
  errorsIn_ite (errorsIn_ok _) (errorsIn_error hv)

end Rule

/-! ## Expressions, declarations and statements -/

/-- The error is a local violation, on some line. -/
def SemanticError.Local (e : SemanticError) : Prop := e.violation.Local

namespace Static

mutual

/-- Expressions commit local violations only. -/
theorem local_typeOf (fs : Frames) (e : Expr) : ErrorsIn SemanticError.Local (typeOf fs e) := by
  cases e with
  | binary a op l r =>
    rw [typeOf]
    refine (local_typeOf fs l).bind fun left _ => ?_
    refine (local_typeOf fs r).bind fun right _ => ?_
    exact (Rule.local_binary op left right).onLine a.line
  | unary a op e =>
    rw [typeOf]
    exact (local_typeOf fs e).bind fun operand _ => (Rule.local_unary op operand).onLine a.line
  | addressOf a l =>
    rw [typeOf]
    exact (local_typeAt fs l).bind fun target _ => (Rule.local_addressOf target).onLine a.line
  | element a x i =>
    rw [typeOf]
    exact (local_typeOf fs i).bind fun index _ => (Rule.local_element _ index).onLine a.line
  | named a x =>
    rw [typeOf]
    exact (Rule.local_named _).onLine a.line
  | integer a n | char a c | boolean a b | null a => exact errorsIn_ok _

/-- Locations commit local violations only. -/
theorem local_typeAt (fs : Frames) (l : Location) :
    ErrorsIn SemanticError.Local (typeAt fs l) := by
  cases l with
  | named a x =>
    rw [typeAt]
    exact (Rule.local_named _).onLine a.line
  | pointee a x =>
    rw [typeAt]
    refine ((Rule.local_named _).onLine a.line).bind fun pointer _ => ?_
    exact (Rule.local_deref pointer).onLine a.line
  | element a x i =>
    rw [typeAt]
    exact (local_typeOf fs i).bind fun index _ => (Rule.local_element _ index).onLine a.line

end

/-- Arguments commit local violations only. -/
theorem local_typesOf (fs : Frames) (es : List Expr) :
    ErrorsIn SemanticError.Local (typesOf fs es) := by
  induction es with
  | nil => exact errorsIn_ok _
  | cons e es ih =>
    rw [typesOf]
    exact (local_typeOf fs e).bind fun b _ => ih.bind fun bs _ => errorsIn_ok _

/-- A variable that is declared twice is a local violation too. -/
theorem local_addVariables (line : Nat) (type : Basetype) (f : Frame) (xs : List String) :
    ErrorsIn SemanticError.Local (addVariables line type f xs) := by
  induction xs generalizing f with
  | nil => exact errorsIn_ok _
  | cons x xs ih =>
    rw [addVariables]
    refine ErrorsIn.bind ?_ fun f _ => ih f
    unfold Frame.add
    split
    · exact errorsIn_error trivial
    · exact errorsIn_ok _

/-- Declarations commit local violations only. -/
theorem local_declared (f : Frame) (ds : List Decl) :
    ErrorsIn SemanticError.Local (declared f ds) := by
  induction ds generalizing f with
  | nil => exact errorsIn_ok _
  | cons d ds ih =>
    rw [declared]
    exact (local_addVariables _ _ f d.names).bind fun f _ => ih f

mutual

/-- A statement commits local violations only. -/
theorem local_stmt (fs : Frames) (s : Stmt) : ErrorsIn SemanticError.Local (stmt fs s) := by
  cases s with
  | assign a l e =>
    rw [stmt]
    refine (local_typeAt fs l).bind fun target _ => ?_
    refine (local_typeOf fs e).bind fun value _ => ?_
    exact ((Rule.local_assignment target value).onLine a.line).bind fun _ _ => errorsIn_ok _
  | assignString a l text =>
    rw [stmt]
    refine (local_typeAt fs l).bind fun target _ => ?_
    exact ((Rule.local_stringAssignment target).onLine a.line).bind fun _ _ => errorsIn_ok _
  | call a l g es =>
    rw [stmt]
    refine (local_typeAt fs l).bind fun target _ => ?_
    refine (local_typesOf fs es).bind fun arguments _ => ?_
    exact ((Rule.local_call _ arguments target).onLine a.line).bind fun _ _ => errorsIn_ok _
  -- the condition is judged last, on its own line
  | ifThen a c b =>
    rw [stmt]
    refine (local_typeOf fs c).bind fun condition _ => ?_
    refine (local_block fs b).bind fun _ _ => ?_
    exact (Rule.local_predicate (v := .ifPredicate) condition trivial).onLine c.attr.line
  | ifElse a c b b' =>
    rw [stmt]
    refine (local_typeOf fs c).bind fun condition _ => ?_
    refine (local_block fs b).bind fun _ _ => ?_
    refine (local_block fs b').bind fun _ _ => ?_
    exact (Rule.local_predicate (v := .ifPredicate) condition trivial).onLine c.attr.line
  | loop a c b =>
    rw [stmt]
    refine (local_typeOf fs c).bind fun condition _ => ?_
    refine (local_block fs b).bind fun _ _ => ?_
    exact (Rule.local_predicate (v := .whilePredicate) condition trivial).onLine c.attr.line
  | block a b =>
    rw [stmt]
    exact local_block fs b

/-- A nested block commits local violations only. -/
theorem local_block (fs : Frames) (b : Block) : ErrorsIn SemanticError.Local (block fs b) := by
  cases b with
  | mk ds ss a =>
    rw [block]
    exact (local_declared _ ds).bind fun f _ => local_stmts (f :: fs) ss

/-- Statements in a row commit local violations only. -/
theorem local_stmts (fs : Frames) (ss : List Stmt) :
    ErrorsIn SemanticError.Local (stmts fs ss) := by
  cases ss with
  | nil => exact errorsIn_ok _
  | cons s ss =>
    rw [stmts]
    exact (local_stmt fs s).bind fun _ _ => local_stmts fs ss

end

/-- The return of a body commits local violations only. -/
theorem local_returned (fs : Frames) (r : Return) :
    ErrorsIn SemanticError.Local (returned fs r) := by
  unfold returned
  exact (local_typeOf fs r.value).bind fun value _ =>
    (Rule.local_returned value).onLine r.attr.line

end Static

/-! ## Names of procedures -/

/-- The names of the parameters. -/
def Header.parameterNames (h : Header) : List String := h.parameters.flatMap Decl.names

/-- Where `taken` names are bound already, one of the procedures cannot have its name `x`: it is
    among them, or a procedure in front has it. -/
def Collide (x : String) (taken : List String) (hs : List Header) : Prop :=
  ∃ before h behind, hs = before ++ h :: behind ∧ h.name = x ∧
    x ∈ taken ++ before.map Header.name

/-- Inside the procedure, at some depth, the name `x` of a nested procedure is taken by a
    parameter of the procedure around, or by a procedure in front. -/
inductive Procedure.CollidesInside (x : String) : Procedure → Prop
  | here {h : Header} {ps : List Procedure} {ds : List Decl} {ss : List Stmt} {r : Return}
      {a : Attribute} (hc : Collide x h.parameterNames (ps.map Procedure.header)) :
      CollidesInside x (.mk h (.mk ps ds ss r a))
  | inside {h : Header} {ps : List Procedure} {ds : List Decl} {ss : List Stmt} {r : Return}
      {a : Attribute} {q : Procedure} (hq : q ∈ ps) (hc : CollidesInside x q) :
      CollidesInside x (.mk h (.mk ps ds ss r a))

/-- The error says that the name `x` of a procedure is taken. -/
def SemanticError.Takes (e : SemanticError) (x : String) : Prop := e.violation = takenName x

namespace Static

/-- A name that is bound in the end was bound before or is one of those that were added. -/
theorem isSome_bindAll {f : Frame} {names : List (String × Entity)} {x : String}
    (h : (f.bindAll names x).isSome) : (f x).isSome ∨ x ∈ names.map Prod.fst := by
  induction names generalizing f with
  | nil => exact Or.inl h
  | cons b names ih =>
    rcases ih h with h | h
    · have h : (f.bind b.1 b.2 x).isSome := h
      rw [Frame.bind] at h
      split at h
      · rename_i hx
        exact Or.inr (hx ▸ List.mem_cons_self)
      · exact Or.inl h
    · exact Or.inr (List.mem_cons_of_mem _ h)

/-- The names that declarations bind are those that they declare. -/
theorem names_entriesOf (ds : List Decl) :
    (entriesOf ds).map Prod.fst = ds.flatMap Decl.names := by
  induction ds with
  | nil => rfl
  | cons d ds ih =>
    have hd : d.entries.map Prod.fst = d.names := by
      unfold Decl.entries
      rw [List.map_map]
      exact List.map_id d.names
    rw [entriesOf, List.flatMap_cons, List.flatMap_cons, List.map_append, hd]
    exact congrArg _ ih

/-- The frame of the parameters has their names only. -/
theorem mem_parameterNames {h : Header} {f : Frame} {x : String} (hf : parameters h = .ok f)
    (hx : (f x).isSome) : x ∈ h.parameterNames := by
  obtain rfl := declared_eq_bindAll hf
  rcases isSome_bindAll hx with hnone | hmem
  · cases hnone
  · rw [names_entriesOf] at hmem
    exact hmem

/-- A signature is blamed for a name only when the name is taken in front of it. -/
theorem signature_origin (f : Frame) (h : Header) :
    ErrorsIn (fun e => e.Local ∨ e.Takes h.name ∧ (f h.name).isSome) (signature f h) := by
  unfold signature
  refine ((local_declared _ _).imp fun _ => Or.inl).bind fun _ _ => ?_
  unfold Frame.add
  split
  · rename_i hx
    exact errorsIn_error (Or.inr ⟨rfl, by rw [hx]; rfl⟩)
  · exact errorsIn_ok _

/-- Signatures are blamed for their parameters, or for a name that is taken. -/
theorem signatures_origin {f : Frame} {taken : List String}
    (hf : ∀ x, (f x).isSome → x ∈ taken) (hs : List Header) :
    ErrorsIn (fun e => e.Local ∨ ∃ x, e.Takes x ∧ Collide x taken hs) (signatures f hs) := by
  induction hs generalizing f taken with
  | nil => exact errorsIn_ok _
  | cons h hs ih =>
    rw [signatures]
    refine ErrorsIn.bind ((signature_origin f h).imp fun e he => ?_) fun g hg => ?_
    · refine he.imp_right fun ⟨htakes, hx⟩ => ⟨h.name, htakes, [], h, hs, rfl, rfl, ?_⟩
      exact List.mem_append_left _ (hf _ hx)
    · -- the rest finds the names that were taken, and this one
      obtain ⟨-, -, rfl⟩ := signature_eq_ok_iff.mp hg
      have hg : ∀ x, (f.bind h.name h.entry.2 x).isSome → x ∈ taken ++ [h.name] := by
        intro x hx
        rw [Frame.bind] at hx
        split at hx
        · rename_i he
          exact List.mem_append_right _ (List.mem_singleton.mpr he)
        · exact List.mem_append_left _ (hf x hx)
      refine (ih hg).imp fun e he => he.imp_right ?_
      rintro ⟨x, htakes, before, h', behind, hhs, hx, hmem⟩
      rw [List.append_assoc] at hmem
      exact ⟨x, htakes, h :: before, h', behind, congrArg (h :: ·) hhs, hx, hmem⟩

mutual

/-- A body in a scope with the names `taken`. -/
theorem body_origin {fs : Frames} {f : Frame} {taken : List String}
    (hf : ∀ x, (f x).isSome → x ∈ taken) (b : Body) :
    ErrorsIn (fun e => e.Local ∨ ∃ x, e.Takes x ∧
      (Collide x taken (b.procedures.map Procedure.header) ∨
        ∃ q ∈ b.procedures, q.CollidesInside x)) (body fs f b) := by
  cases b with
  | mk ps ds ss r a =>
    rw [body]
    refine ErrorsIn.bind ((signatures_origin hf _).imp fun e he => ?_) fun f _ => ?_
    · exact he.imp_right fun ⟨x, htakes, hc⟩ => ⟨x, htakes, Or.inl hc⟩
    refine ErrorsIn.bind ((procedures_origin (f :: fs) ps).imp fun e he => ?_) fun _ _ => ?_
    · exact he.imp_right fun ⟨x, htakes, hc⟩ => ⟨x, htakes, Or.inr hc⟩
    refine ErrorsIn.imp ?_ fun _ => Or.inl
    refine (local_declared f ds).bind fun f _ => ?_
    exact (local_stmts (f :: fs) ss).bind fun _ _ => local_returned (f :: fs) r

/-- Inside a procedure, a name is taken when two of the names in it collide. -/
theorem procedure_origin (fs : Frames) (p : Procedure) :
    ErrorsIn (fun e => e.Local ∨ ∃ x, e.Takes x ∧ p.CollidesInside x) (procedure fs p) := by
  cases p with
  | mk h b =>
    rw [procedure]
    refine ErrorsIn.bind ((local_declared _ _).imp fun _ => Or.inl) fun f hf => ?_
    refine ErrorsIn.bind ((body_origin (fun _ => mem_parameterNames hf) b).imp fun e he => ?_)
      fun result _ => ?_
    · refine he.imp_right fun ⟨x, htakes, hc⟩ => ⟨x, htakes, ?_⟩
      cases b with
      | mk ps ds ss r a =>
        rcases hc with hc | ⟨q, hq, hc⟩
        · exact .here hc
        · exact .inside hq hc
    · refine ErrorsIn.imp ?_ fun _ => Or.inl
      exact ((Rule.local_procedure _ result).onLine h.attr.line).bind fun _ _ => errorsIn_ok _

/-- A violation in procedures that stand side by side is local, or a procedure in one of them takes
    a name twice. -/
theorem procedures_origin (fs : Frames) (ps : List Procedure) :
    ErrorsIn (fun e => e.Local ∨ ∃ x, e.Takes x ∧ ∃ q ∈ ps, q.CollidesInside x)
      (procedures fs ps) := by
  cases ps with
  | nil => exact errorsIn_ok _
  | cons p ps =>
    rw [procedures]
    refine ErrorsIn.bind ((procedure_origin fs p).imp fun e he => ?_) fun _ _ =>
      (procedures_origin fs ps).imp fun e he => ?_
    · exact he.imp_right fun ⟨x, htakes, hc⟩ => ⟨x, htakes, p, List.mem_cons_self, hc⟩
    · exact he.imp_right fun ⟨x, htakes, q, hq, hc⟩ =>
        ⟨x, htakes, q, List.mem_cons_of_mem _ hq, hc⟩

end

end Static

/-! ## Programs -/

/-- The top level procedures with the name `Main`. -/
def Program.mains (p : Program) : List Procedure :=
  p.procedures.filter fun q => q.header.name = mainName

/-- There are as many main procedures as headers with their name. -/
theorem Program.length_mains (p : Program) :
    p.mains.length = ((p.procedures.map Procedure.header).map Header.name).count mainName := by
  unfold Program.mains
  rw [List.map_map, List.count_eq_countP, List.countP_map, List.countP_eq_length_filter]
  rfl

/-- A name that collides occurs twice. -/
theorem Collide.one_lt_count {x : String} {hs : List Header} (h : Collide x [] hs) :
    1 < (hs.map Header.name).count x := by
  obtain ⟨before, h, behind, rfl, rfl, hmem⟩ := h
  have hpos := List.count_pos_iff.mpr hmem
  rw [List.nil_append] at hpos
  rw [List.map_append, List.count_append, List.map_cons, List.count_cons_self]
  omega

namespace Static

/-- Signatures that can be bound have different names, and each name stands for its procedure. -/
theorem signatures_ok {f g : Frame} {hs : List Header} (hok : signatures f hs = .ok g) :
    (hs.map Header.name).Nodup ∧ (∀ h ∈ hs, f h.name = none ∧ g h.name = some h.entry.2) ∧
      ∀ x ∉ hs.map Header.name, g x = f x := by
  induction hs generalizing f with
  | nil =>
    obtain rfl := Except.ok.inj hok
    exact ⟨List.nodup_nil, fun _ hh => absurd hh List.not_mem_nil, fun _ _ => rfl⟩
  | cons h hs ih =>
    obtain ⟨f₁, hsig, hrest⟩ := bind_eq_ok_iff.mp hok
    obtain ⟨-, hfree, rfl⟩ := signature_eq_ok_iff.mp hsig
    obtain ⟨hnodup, hbound, hothers⟩ := ih hrest
    have hself : (f.bind h.name h.entry.2) h.name = some h.entry.2 := if_pos rfl
    -- the others were free behind the first, so they have other names
    have hne : ∀ h' ∈ hs, h'.name ≠ h.name := by
      intro h' hh' he
      have hnone := (hbound h' hh').1
      rw [he, hself] at hnone
      cases hnone
    have hnew : h.name ∉ hs.map Header.name := by
      intro hmem
      obtain ⟨h', hh', he⟩ := List.mem_map.mp hmem
      exact hne h' hh' he
    refine ⟨List.nodup_cons.mpr ⟨hnew, hnodup⟩, ?_, ?_⟩
    · intro h' hh'
      rcases List.mem_cons.mp hh' with rfl | hh'
      · exact ⟨hfree, (hothers _ hnew).trans hself⟩
      · obtain ⟨hnone, hsome⟩ := hbound h' hh'
        rw [Frame.bind, if_neg (hne h' hh')] at hnone
        exact ⟨hnone, hsome⟩
    · intro x hx
      have hxh : x ≠ h.name := fun he => hx (he ▸ List.mem_cons_self)
      have hxs : x ∉ hs.map Header.name := fun hmem => hx (List.mem_cons_of_mem _ hmem)
      rw [hothers x hxs, Frame.bind, if_neg hxh]

/-- What is said of `Main` in the end, once the signatures of the program are bound. -/
theorem main_origin {p : Program} {g : Frame}
    (hok : signatures .empty (p.procedures.map Procedure.header) = .ok g) :
    ErrorsIn (fun v => v = .noMain ∧ p.mains = [] ∨
      v = .nonVoidMain ∧ ∃ q, p.mains = [q] ∧ q.header.parameterTypes ≠ []) (main g) := by
  obtain ⟨hnodup, hbound, hothers⟩ := signatures_ok hok
  unfold main
  split
  · rename_i hnone
    refine errorsIn_error (Or.inl ⟨rfl, List.filter_eq_nil_iff.mpr fun q hq hname => ?_⟩)
    have hsome := (hbound q.header (List.mem_map_of_mem hq)).2
    rw [of_decide_eq_true hname] at hsome
    rw [show g mainName = none from hnone] at hsome
    cases hsome
  · rename_i e hmain
    have hmain : g mainName = some e := hmain
    split
    · exact errorsIn_ok _
    · rename_i hparameters
      have hmem : mainName ∈ (p.procedures.map Procedure.header).map Header.name := by
        by_contra hnot
        rw [hothers mainName hnot] at hmain
        cases hmain
      -- there is one of them, since the names are different, and `Main` stands for it
      obtain ⟨q, hq⟩ : ∃ q, p.mains = [q] := by
        refine List.length_eq_one_iff.mp ?_
        rw [p.length_mains, List.count_eq_one_of_mem hnodup hmem]
      have hqmains : q ∈ p.mains := hq ▸ List.mem_singleton_self q
      obtain ⟨hqp, hname⟩ := List.mem_filter.mp hqmains
      have hentry := (hbound q.header (List.mem_map_of_mem hqp)).2
      rw [of_decide_eq_true hname, hmain] at hentry
      obtain rfl := Option.some.inj hentry
      refine errorsIn_error (Or.inr ⟨rfl, q, hq, fun hnil => hparameters ?_⟩)
      rw [Header.entry, hnil]
      rfl

/-- What a program is blamed for. -/
theorem program_origin (p : Program) :
    ErrorsIn (fun e => e.Local ∨
      (∃ x, e.Takes x ∧ (Collide x [] (p.procedures.map Procedure.header) ∨
        ∃ q ∈ p.procedures, q.CollidesInside x)) ∨
      e.violation = .noMain ∧ p.mains = [] ∨
      e.violation = .nonVoidMain ∧ ∃ q, p.mains = [q] ∧ q.header.parameterTypes ≠ [])
      (program p) := by
  have hempty : ∀ x, (Frame.empty x).isSome → x ∈ ([] : List String) := fun _ hx => by cases hx
  unfold program
  refine ErrorsIn.bind ((signatures_origin hempty _).imp fun e he => ?_) fun g hg => ?_
  · exact he.imp_right fun ⟨x, htakes, hc⟩ => Or.inl ⟨x, htakes, Or.inl hc⟩
  refine ErrorsIn.bind ((procedures_origin [g] p.procedures).imp fun e he => ?_) fun _ _ => ?_
  · exact he.imp_right fun ⟨x, htakes, hc⟩ => Or.inl ⟨x, htakes, Or.inr hc⟩
  exact ((main_origin hg).onLine p.attr.line).imp fun e he => Or.inr (Or.inr he)

end Static

/-! ## Violations about `Main` -/

namespace SemanticError

variable {e : SemanticError} {x : String}

/-- A taken name that is reported as a missing main procedure is the main name. -/
theorem Takes.eq_mainName (h : e.Takes x) (hv : e.violation = .noMain) : x = mainName := by
  rw [Takes, hv, takenName] at h
  split at h
  · assumption
  · cases h

/-- A taken name that is reported as a duplicate is another one. -/
theorem Takes.ne_mainName (h : e.Takes x) (hv : e.violation = .duplicateProcedure) :
    x ≠ mainName := by
  rintro rfl
  rw [Takes, hv] at h
  cases h

/-- A taken name is not reported as a main procedure with parameters. -/
theorem Takes.ne_nonVoidMain (h : e.Takes x) : e.violation ≠ .nonVoidMain := by
  intro hv
  rw [Takes, hv, takenName] at h
  split at h
  · cases h
  · cases h

/-- A local violation is none that is not local. -/
theorem Local.ne {v : Violation} (h : e.Local) (hv : ¬ v.Local) : e.violation ≠ v :=
  fun he => hv (he ▸ h)

end SemanticError

/-- **What a violation about `Main`, or about a second procedure, says of the program.**  A missing
    `Main` is reported when there is not exactly one at the top level, and where the name `Main` is
    taken inside of a procedure; a `Main` with parameters when it is the only one at the top level
    and has some; a duplicate procedure where another name is taken, at the top level or inside of
    a procedure. -/
theorem typeCheck_main_violation (p : Program) (e : SemanticError)
    (he : p.typeCheck.result = .error e) :
    (e.violation = .noMain →
      p.mains.length ≠ 1 ∨ ∃ q ∈ p.procedures, q.CollidesInside mainName) ∧
    (e.violation = .nonVoidMain → ∃ q, p.mains = [q] ∧ q.header.parameterTypes ≠ []) ∧
    (e.violation = .duplicateProcedure → ∃ x, x ≠ mainName ∧
      (Collide x [] (p.procedures.map Procedure.header) ∨
        ∃ q ∈ p.procedures, q.CollidesInside x)) := by
  rw [typeCheck_result_eq_program] at he
  have hviolation : ∀ v w, v ≠ w → e.violation = v → e.violation ≠ w :=
    fun v w hne hv hw => hne (hv.symm.trans hw)
  rcases Static.program_origin p e he with hlocal | ⟨x, htakes, hc⟩ | ⟨hv, hmains⟩ | ⟨hv, hmains⟩
  · exact ⟨fun hv => absurd hv (hlocal.ne id), fun hv => absurd hv (hlocal.ne id),
      fun hv => absurd hv (hlocal.ne id)⟩
  · refine ⟨fun hv => ?_, fun hv => absurd hv htakes.ne_nonVoidMain, fun hv => ?_⟩
    · obtain rfl := htakes.eq_mainName hv
      refine hc.imp_left fun hc => ?_
      have hcount := hc.one_lt_count
      rw [← p.length_mains] at hcount
      omega
    · exact ⟨x, htakes.ne_mainName hv, hc⟩
  · refine ⟨fun _ => Or.inl ?_, fun hv' => ?_, fun hv' => ?_⟩
    · rw [hmains]
      exact Nat.zero_ne_one
    · exact absurd hv' (hviolation _ _ (by decide) hv)
    · exact absurd hv' (hviolation _ _ (by decide) hv)
  · refine ⟨fun hv' => ?_, fun _ => hmains, fun hv' => ?_⟩
    · exact absurd hv' (hviolation _ _ (by decide) hv)
    · exact absurd hv' (hviolation _ _ (by decide) hv)

/-- A program with one `Main`, in which two procedures of this name are nested. -/
def innerMains : Program where
  procedures :=
    let inner (line : Nat) : Procedure :=
      .mk ⟨"Main", [], ⟨.integer, .bare line⟩, .bare line⟩
        (.mk [] [] [] ⟨.integer (.bare line) 0, .bare line⟩ (.bare line))
    [.mk ⟨"Main", [], ⟨.integer, .bare 1⟩, .bare 1⟩
      (.mk [inner 2, inner 3] [] [] ⟨.integer (.bare 4) 0, .bare 4⟩ (.bare 1))]
  attr := .bare 1

/-- `Main` is reported to be missing where it is not. -/
theorem typeCheck_innerMains :
    innerMains.typeCheck.result = .error ⟨.noMain, 3⟩ ∧ innerMains.mains.length = 1 := by
  decide +kernel

/-- Two procedures of the main name inside the only main procedure: the name is taken in there. -/
theorem typeCheck_main_violation_innerMains :
    innerMains.typeCheck.result = .error ⟨.noMain, 3⟩ ∧
    ∃ q ∈ innerMains.procedures, q.CollidesInside mainName := by
  have he : innerMains.typeCheck.result = .error ⟨.noMain, 3⟩ := by decide +kernel
  have hmains : innerMains.mains.length = 1 := by decide +kernel
  refine ⟨he, ?_⟩
  exact ((typeCheck_main_violation innerMains _ he).1 rfl).resolve_left fun hne => hne hmains

end ProcLang
