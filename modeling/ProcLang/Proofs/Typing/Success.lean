/-
  What is known of a construct that is checked with success.

  When the visit of an expression, a location, an assignment, a call or a return succeeds, so do
  the visits of its parts, its rule holds of what they find, and the node that is handed back has
  the basetype of the rule and the nodes of the parts (`Expr.check_binary_ok` and its kin).  All of
  them visit a last part and then apply a rule to what was found in it (`Found.last_ok`).  So an
  expression carries what was found in it (`Expr.basetype_node_check`).

  When the static semantics accepts a statement, a body or a procedure, it accepts the parts, in
  the frames that the construct gives them (`body_ok` and its kin).
-/
import ProcLang.Proofs.Typing.Siblings

namespace ProcLang

open Static

variable {α β γ δ : Type}

/-! ## Visits that succeed -/

namespace Found

/-- A sequence that succeeds is its second part, behind a first part that does. -/
theorem exists_of_andThen_ok {f : Found α β} {stop : α → γ} {go : α → β → Found γ δ} {d : δ}
    (h : (f.andThen stop go).result = .ok d) :
    ∃ b, f.result = .ok b ∧ f.andThen stop go = go f.node b ∧ (go f.node b).result = .ok d := by
  cases hf : f.result with
  | ok b =>
    rw [andThen_of_ok hf] at h ⊢
    exact ⟨b, rfl, rfl, h⟩
  | error e =>
    rw [andThen, hf] at h
    cases h

/-- A visit that ends well has a rule that holds, and marks its node with the basetype of the
    rule. -/
theorem conclude_of_ok {a : Attribute} {v : Except Violation Basetype} {build : Attribute → α}
    {b : Basetype} (h : (conclude a v build).result = .ok b) :
    v = .ok b ∧ (conclude a v build).node = build (a.mark b) := by
  cases v with
  | ok b' =>
    obtain rfl := Except.ok.inj h
    exact ⟨rfl, rfl⟩
  | error v => cases h

/-- A construct whose last part is `f` succeeds: so does the part, and the rule holds of what is
    found in it. -/
theorem last_ok {f : Found α β} {stop : α → γ} {a : Attribute}
    {rule : β → Except Violation Basetype} {build : α → Attribute → γ} {b : Basetype}
    (h : (f.andThen stop fun n c => conclude a (rule c) (build n)).result = .ok b) :
    ∃ c, f.result = .ok c ∧ rule c = .ok b ∧
      (f.andThen stop fun n c => conclude a (rule c) (build n)).node = build f.node (a.mark b) := by
  obtain ⟨c, hf, heq, h⟩ := exists_of_andThen_ok h
  rw [heq]
  obtain ⟨hrule, hnode⟩ := conclude_of_ok h
  exact ⟨c, hf, hrule, hnode⟩

end Found

open Found

section

variable {env : Env} {a : Attribute} {b : Basetype}

/-- A binary expression that is accepted: its operands are, and the rule of the operator holds of
    what they have. -/
theorem Expr.check_binary_ok {op : BinaryOp} {l r : Expr}
    (h : ((Expr.binary a op l r).check env).result = .ok b) :
    ∃ left right, (l.check env).result = .ok left ∧ (r.check env).result = .ok right ∧
      Rule.binary op left right = .ok b ∧
      ((Expr.binary a op l r).check env).node =
        .binary (a.mark b) op (l.check env).node (r.check env).node := by
  rw [Expr.check] at h ⊢
  obtain ⟨left, hl, heq, h⟩ := exists_of_andThen_ok h
  rw [heq]
  obtain ⟨right, hr, hrule, hnode⟩ := last_ok h
  exact ⟨left, right, hl, hr, hrule, hnode⟩

/-- A unary expression that is accepted. -/
theorem Expr.check_unary_ok {op : UnaryOp} {e : Expr}
    (h : ((Expr.unary a op e).check env).result = .ok b) :
    ∃ operand, (e.check env).result = .ok operand ∧ Rule.unary op operand = .ok b ∧
      ((Expr.unary a op e).check env).node = .unary (a.mark b) op (e.check env).node := by
  rw [Expr.check] at h ⊢
  exact last_ok h

/-- An address that is accepted: the rule holds of the basetype of the location. -/
theorem Expr.check_addressOf_ok {l : Location}
    (h : ((Expr.addressOf a l).check env).result = .ok b) :
    ∃ target, (l.check env).result = .ok target ∧ Rule.addressOf target = .ok b ∧
      ((Expr.addressOf a l).check env).node = .addressOf (a.mark b) (l.check env).node := by
  rw [Expr.check] at h ⊢
  exact last_ok h

/-- An element that is accepted: the rule holds of what the name is and of the index. -/
theorem Expr.check_element_ok {x : String} {i : Expr}
    (h : ((Expr.element a x i).check env).result = .ok b) :
    ∃ index, (i.check env).result = .ok index ∧ Rule.element (env x) index = .ok b ∧
      ((Expr.element a x i).check env).node = .element (a.mark b) x (i.check env).node := by
  rw [Expr.check] at h ⊢
  exact last_ok h

/-- An element that is accepted as a location: the rule holds of what the name is and of the
    index. -/
theorem Location.check_element_ok {x : String} {i : Expr}
    (h : ((Location.element a x i).check env).result = .ok b) :
    ∃ index, (i.check env).result = .ok index ∧ Rule.element (env x) index = .ok b ∧
      ((Location.element a x i).check env).node = .element (a.mark b) x (i.check env).node := by
  rw [Location.check] at h ⊢
  exact last_ok h

/-- Arguments that are accepted are accepted one by one. -/
theorem checkArguments_ok {es : List Expr} {bs : List Basetype}
    (h : (checkArguments env es).result = .ok bs) :
    (∀ e ∈ es, ∃ b, (e.check env).result = .ok b) ∧
      (checkArguments env es).node = es.map fun e => (e.check env).node := by
  induction es generalizing bs with
  | nil => exact ⟨fun _ he => absurd he List.not_mem_nil, rfl⟩
  | cons e es ih =>
    rw [checkArguments] at h ⊢
    obtain ⟨b, he, heq, h⟩ := exists_of_andThen_ok h
    rw [heq]
    obtain ⟨bs', hes, heq, -⟩ := exists_of_andThen_ok h
    rw [heq]
    obtain ⟨hall, hnode⟩ := ih hes
    exact ⟨List.forall_mem_cons.mpr ⟨⟨b, he⟩, hall⟩, by rw [List.map_cons, ← hnode]⟩

/-- An assignment that is accepted: the two sides are, and the rule holds of them. -/
theorem checkAssign_ok {l : Location} {e : Expr} (h : (checkAssign env a l e).result = .ok b) :
    ∃ target value, (l.check env).result = .ok target ∧ (e.check env).result = .ok value ∧
      Rule.assignment target value = .ok b ∧
      (checkAssign env a l e).node =
        .assign (a.mark b) (l.check env).node (e.check env).node := by
  unfold checkAssign at h ⊢
  obtain ⟨target, hl, heq, h⟩ := exists_of_andThen_ok h
  rw [heq]
  obtain ⟨value, he, hrule, hnode⟩ := last_ok h
  exact ⟨target, value, hl, he, hrule, hnode⟩

/-- An assignment of a text that is accepted asks for a location of a string. -/
theorem checkAssignString_ok {l : Location} {text : String}
    (h : (checkAssignString env a l text).result = .ok b) :
    ∃ target, (l.check env).result = .ok target ∧ Rule.stringAssignment target = .ok b ∧
      (checkAssignString env a l text).node = .assignString (a.mark b) (l.check env).node text := by
  unfold checkAssignString at h ⊢
  exact last_ok h

/-- A call that is accepted: the rule holds of the callee, the arguments and the target. -/
theorem checkCall_ok {l : Location} {f : String} {es : List Expr}
    (h : (checkCall env a l f es).result = .ok b) :
    ∃ target arguments, (l.check env).result = .ok target ∧
      (checkArguments env es).result = .ok arguments ∧
      Rule.call (env f) arguments target = .ok b ∧
      (checkCall env a l f es).node =
        .call (a.mark b) (l.check env).node f (checkArguments env es).node := by
  unfold checkCall at h ⊢
  obtain ⟨target, hl, heq, h⟩ := exists_of_andThen_ok h
  rw [heq]
  obtain ⟨arguments, hes, hrule, hnode⟩ := last_ok h
  exact ⟨target, arguments, hl, hes, hrule, hnode⟩

/-- A return that is accepted: its value is, and may be returned. -/
theorem Return.check_ok {r : Return} (h : (r.check env).result = .ok b) :
    ∃ value, (r.value.check env).result = .ok value ∧ Rule.returned value = .ok b ∧
      (r.check env).node = ⟨(r.value.check env).node, r.attr.mark b⟩ := by
  unfold Return.check at h ⊢
  exact last_ok h

/-- An expression whose check succeeds carries what was found in it. -/
theorem Expr.basetype_node_check {e : Expr} (h : (e.check env).result = .ok b) :
    (e.check env).node.attr.basetype = b := by
  cases e with
  | binary a op l r =>
    obtain ⟨_, _, -, -, -, hnode⟩ := Expr.check_binary_ok h
    rw [hnode]
    rfl
  | unary a op e =>
    obtain ⟨_, -, -, hnode⟩ := Expr.check_unary_ok h
    rw [hnode]
    rfl
  | addressOf a l =>
    obtain ⟨_, -, -, hnode⟩ := Expr.check_addressOf_ok h
    rw [hnode]
    rfl
  | element a x i =>
    obtain ⟨_, -, -, hnode⟩ := Expr.check_element_ok h
    rw [hnode]
    rfl
  | named a x =>
    rw [Expr.check] at h ⊢
    rw [(conclude_of_ok h).2]
    rfl
  | integer | char | boolean | null => exact Except.ok.inj h

/-- A location carries the basetype that was found in it. -/
theorem Location.basetype_node_check {l : Location} (h : (l.check env).result = .ok b) :
    (l.check env).node.attr.basetype = b := by
  cases l with
  | named a x =>
    rw [Location.check] at h ⊢
    rw [(conclude_of_ok h).2]
    rfl
  | pointee a x =>
    rw [Location.check] at h ⊢
    rw [(conclude_of_ok h).2]
    rfl
  | element a x i =>
    obtain ⟨_, -, -, hnode⟩ := Location.check_element_ok h
    rw [hnode]
    rfl

/-- Arguments carry what was found in them. -/
theorem basetypes_node_checkArguments {es : List Expr} {bs : List Basetype}
    (h : (checkArguments env es).result = .ok bs) :
    (checkArguments env es).node.map (fun e => e.attr.basetype) = bs := by
  induction es generalizing bs with
  | nil => exact Except.ok.inj h
  | cons e es ih =>
    rw [checkArguments] at h ⊢
    obtain ⟨b, he, heq, h⟩ := exists_of_andThen_ok h
    rw [heq]
    obtain ⟨bs', hes, heq, h⟩ := exists_of_andThen_ok h
    rw [heq]
    obtain rfl := Except.ok.inj h
    rw [List.map_cons, Expr.basetype_node_check he, ih hes]

end

/-! ## Constructs that the rules permit -/

section

variable {fs : Frames} {a : Attribute}

/-- An assignment that the semantics accepts is accepted by the visit. -/
theorem stmt_assign_ok {l : Location} {e : Expr} (h : Static.stmt fs (.assign a l e) = .ok ()) :
    ∃ b, (checkAssign fs.find a l e).result = .ok b := by
  rw [Static.stmt] at h
  obtain ⟨target, hl, h⟩ := bind_eq_ok_iff.mp h
  obtain ⟨value, he, h⟩ := bind_eq_ok_iff.mp h
  obtain ⟨b, hrule, -⟩ := bind_eq_ok_iff.mp h
  rw [result_checkAssign, hl, he]
  exact ⟨b, hrule⟩

/-- A permitted assignment of a text has passed its check. -/
theorem stmt_assignString_ok {l : Location} {text : String}
    (h : Static.stmt fs (.assignString a l text) = .ok ()) :
    ∃ b, (checkAssignString fs.find a l text).result = .ok b := by
  rw [Static.stmt] at h
  obtain ⟨target, hl, h⟩ := bind_eq_ok_iff.mp h
  obtain ⟨b, hrule, -⟩ := bind_eq_ok_iff.mp h
  rw [result_checkAssignString, hl]
  exact ⟨b, hrule⟩

/-- A permitted call has passed its check. -/
theorem stmt_call_ok {l : Location} {g : String} {es : List Expr}
    (h : Static.stmt fs (.call a l g es) = .ok ()) :
    ∃ b, (checkCall fs.find a l g es).result = .ok b := by
  rw [Static.stmt] at h
  obtain ⟨target, hl, h⟩ := bind_eq_ok_iff.mp h
  obtain ⟨arguments, hes, h⟩ := bind_eq_ok_iff.mp h
  obtain ⟨b, hrule, -⟩ := bind_eq_ok_iff.mp h
  rw [result_checkCall, hl, hes]
  exact ⟨b, hrule⟩

/-- A verdict that is no violation does not depend on the line. -/
theorem onLine_eq_ok {line : Nat} {v : Except Violation β} {b : β} (h : onLine line v = .ok b) :
    v = .ok b := by
  cases v with
  | ok b' => exact congrArg _ (Except.ok.inj h)
  | error v => cases h

/-- What is guarded by a condition is judged before the condition; when both hold, the condition is
    boolean. -/
theorem condition_ok {c : Expr} {violation : Violation} {guarded : Except SemanticError Unit}
    (h : (typeOf fs c >>= fun condition => guarded >>= fun _ =>
      onLine c.attr.line (Rule.predicate condition violation)) = .ok ()) :
    ∃ b, (c.check fs.find).result = .ok b ∧ Rule.predicate b violation = .ok () ∧
      guarded = .ok () := by
  obtain ⟨b, hc, h⟩ := bind_eq_ok_iff.mp h
  obtain ⟨_, hguarded, h⟩ := bind_eq_ok_iff.mp h
  exact ⟨b, (Expr.result_check fs c).trans hc, onLine_eq_ok h, hguarded⟩

/-- A conditional that is accepted: condition and branch are. -/
theorem stmt_ifThen_ok {c : Expr} {b : Block} (h : Static.stmt fs (.ifThen a c b) = .ok ()) :
    ∃ condition, (c.check fs.find).result = .ok condition ∧
      Rule.predicate condition .ifPredicate = .ok () ∧ Static.block fs b = .ok () :=
  condition_ok h

/-- A conditional with two branches that is accepted: condition and branches are. -/
theorem stmt_ifElse_ok {c : Expr} {b b' : Block}
    (h : Static.stmt fs (.ifElse a c b b') = .ok ()) :
    ∃ condition, (c.check fs.find).result = .ok condition ∧
      Rule.predicate condition .ifPredicate = .ok () ∧ Static.block fs b = .ok () ∧
      Static.block fs b' = .ok () := by
  have hassoc : (typeOf fs c >>= fun condition =>
      (Static.block fs b >>= fun _ => Static.block fs b') >>= fun _ =>
        onLine c.attr.line (Rule.predicate condition .ifPredicate)) = .ok () := by
    simp only [bind_assoc]
    exact h
  obtain ⟨condition, hc, hrule, hblocks⟩ := condition_ok hassoc
  obtain ⟨_, hb, hb'⟩ := bind_eq_ok_iff.mp hblocks
  exact ⟨condition, hc, hrule, hb, hb'⟩

/-- A loop that is accepted: condition and block are. -/
theorem stmt_loop_ok {c : Expr} {b : Block} (h : Static.stmt fs (.loop a c b) = .ok ()) :
    ∃ condition, (c.check fs.find).result = .ok condition ∧
      Rule.predicate condition .whilePredicate = .ok () ∧ Static.block fs b = .ok () :=
  condition_ok h

/-- Statements are accepted when each of them is, as none of them declares a name for the next
    one. -/
theorem stmts_eq_ok_iff {ss : List Stmt} :
    Static.stmts fs ss = .ok () ↔ ∀ s ∈ ss, Static.stmt fs s = .ok () := by
  induction ss with
  | nil => exact ⟨fun _ _ hs => absurd hs List.not_mem_nil, fun _ => rfl⟩
  | cons s ss ih =>
    rw [Static.stmts, bind_eq_ok_iff, List.forall_mem_cons, ← ih]
    constructor
    · rintro ⟨_, hs, hss⟩
      exact ⟨hs, hss⟩
    · rintro ⟨hs, hss⟩
      exact ⟨(), hs, hss⟩

/-- The parts of a body that is permitted, in the frames that it gives them. -/
theorem body_ok {f : Frame} {ps : List Procedure} {ds : List Decl} {ss : List Stmt} {r : Return}
    {b : Basetype} (h : Static.body fs f (.mk ps ds ss r a) = .ok b) :
    let outer := f.bindAll (ps.map fun p => p.header.entry)
    let inner := outer.bindAll (entriesOf ds)
    (∀ p ∈ ps, Static.procedure (outer :: fs) p = .ok ()) ∧
      (∀ s ∈ ss, Static.stmt (inner :: fs) s = .ok ()) ∧
      (r.check (Frames.find (inner :: fs))).result = .ok b := by
  rw [Static.body] at h
  obtain ⟨g, hsig, h⟩ := bind_eq_ok_iff.mp h
  obtain ⟨_, hps, h⟩ := bind_eq_ok_iff.mp h
  obtain ⟨g', hds, h⟩ := bind_eq_ok_iff.mp h
  obtain ⟨_, hss, h⟩ := bind_eq_ok_iff.mp h
  have houter := signatures_eq_bindAll hsig
  rw [List.map_map] at houter
  have hinner := declared_eq_bindAll hds
  rw [houter] at hps hinner
  rw [hinner] at hss h
  refine ⟨procedures_eq_ok_iff.mp hps, stmts_eq_ok_iff.mp hss, ?_⟩
  rw [Return.check, result_andThen, Expr.result_check]
  simp only [result_conclude]
  exact h

/-- The body of a procedure that is permitted returns what is declared. -/
theorem procedure_ok {h : Header} {b : Body} (hok : Static.procedure fs (.mk h b) = .ok ()) :
    Static.body fs (Frame.empty.bindAll (entriesOf h.parameters)) b =
      .ok h.returnType.basetype := by
  rw [Static.procedure] at hok
  obtain ⟨f, hparameters, hok⟩ := bind_eq_ok_iff.mp hok
  obtain ⟨result, hbody, hok⟩ := bind_eq_ok_iff.mp hok
  obtain ⟨_, hrule, -⟩ := bind_eq_ok_iff.mp hok
  have hrule := onLine_eq_ok hrule
  obtain rfl := declared_eq_bindAll hparameters
  unfold Rule.procedure at hrule
  split at hrule
  · rename_i heq
    rw [heq]
    exact hbody
  · cases hrule

end

end ProcLang
