/-
  An accepted program is annotated completely, and each annotation follows from those below.

  `Node.Consistent` looks at one node of an annotated tree: its attribute carries what the rule of
  its construct finds on the basetypes that its parts carry, and on what the frames say of its
  names; and this is not `unknown`.  Nodes without a value of their own are left out.

  The rules can be read off a check that succeeds (`Expr.check_binary_ok` and its kin), and each
  part carries what was found in it, so every node that the static rules permit is annotated
  consistently (`Node.consistent_annotated`).  That no basetype is `unknown` comes from two sides:
  rules find basetypes of values (`FindsValue`), and names stand for declared types.

  The main statement is `typeCheck_consistent`.
-/
import ProcLang.Proofs.Typing.Nodes
import ProcLang.Proofs.Typing.Shape

namespace ProcLang

open Static Found

/-! ## Consistent nodes -/

/-- The attribute carries the basetype that the verdict finds, and it is known. -/
def Attribute.Carries (a : Attribute) (verdict : Except Violation Basetype) : Prop :=
  verdict = .ok a.basetype ∧ a.basetype ≠ .unknown

/-- The attribute of an expression carries what its rule finds on the attributes of the parts. -/
def Expr.Consistent (env : Env) : Expr → Prop
  | .binary a op l r => a.Carries (Rule.binary op l.attr.basetype r.attr.basetype)
  | .unary a op e => a.Carries (Rule.unary op e.attr.basetype)
  | .addressOf a l => a.Carries (Rule.addressOf l.attr.basetype)
  | .element a x i => a.Carries (Rule.element (env x) i.attr.basetype)
  | .named a x => a.Carries (Rule.named (env x))
  | .integer a _ => a.Carries (.ok .integer)
  | .char a _ => a.Carries (.ok .char)
  | .boolean a _ => a.Carries (.ok .boolean)
  | .null a => a.Carries (.ok .null)

/-- The attribute of a location carries what its rule finds on the name and on the index. -/
def Location.Consistent (env : Env) : Location → Prop
  | .named a x => a.Carries (Rule.named (env x))
  | .pointee a x => a.Carries (Rule.named (env x) >>= Rule.deref)
  | .element a x i => a.Carries (Rule.element (env x) i.attr.basetype)

/-- The attribute of a statement carries what its rule finds on the attributes of the parts.
    Conditionals, loops and blocks have no basetype of their own; their condition has to be
    boolean. -/
def Stmt.Consistent (env : Env) : Stmt → Prop
  | .assign a l e => a.Carries (Rule.assignment l.attr.basetype e.attr.basetype)
  | .assignString a l _ => a.Carries (Rule.stringAssignment l.attr.basetype)
  | .call a l f es =>
    a.Carries (Rule.call (env f) (es.map fun e => e.attr.basetype) l.attr.basetype)
  | .ifThen _ c _ => Rule.predicate c.attr.basetype .ifPredicate = .ok ()
  | .ifElse _ c _ _ => Rule.predicate c.attr.basetype .ifPredicate = .ok ()
  | .loop _ c _ => Rule.predicate c.attr.basetype .whilePredicate = .ok ()
  | .block _ _ => True

/-- The annotation of a node follows from those of its parts, and from what the frames say. -/
def Node.Consistent (fs : Frames) : Node → Prop
  | program _ | block _ => True
  | procedure p =>
    p.header.attr.Carries (Rule.procedure p.header.returnType.attr.basetype p.body.attr.basetype) ∧
      p.header.attr.basetype = .procedure ∧
      p.body.attr.basetype = p.header.returnType.basetype
  | body b =>
    b.attr.Carries (.ok b.result.attr.basetype) ∧
      b.attr.basetype = b.result.value.attr.basetype ∧ b.attr.basetype ≠ .string
  | decl d => d.attr.Carries (.ok d.type.basetype)
  | type t => t.attr.Carries (.ok t.basetype)
  | stmt s => s.Consistent fs.find
  | result r => r.attr.Carries (Rule.returned r.value.attr.basetype)
  | expr e => e.Consistent fs.find
  | location l => l.Consistent fs.find

/-! ## What rules find -/

/-- The basetypes of values. -/
def Basetype.IsValue (b : Basetype) : Prop := b ≠ .unknown ∧ b ≠ .procedure

instance (b : Basetype) : Decidable b.IsValue :=
  inferInstanceAs (Decidable (b ≠ .unknown ∧ b ≠ .procedure))

/-- When the verdict finds a basetype, it is one of values. -/
def FindsValue (verdict : Except Violation Basetype) : Prop := ∀ b, verdict = .ok b → b.IsValue

/-- What can be declared is a value. -/
theorem Basetype.IsDeclared.isValue {b : Basetype} (h : b.IsDeclared) : b.IsValue := by
  obtain ⟨d, rfl⟩ := h
  cases d with
  | _ => exact ⟨nofun, nofun⟩

/-- A verdict with a value. -/
theorem findsValue_ok {b : Basetype} (h : b.IsValue) : FindsValue (.ok b) := by
  intro b' hb'
  obtain rfl := Except.ok.inj hb'
  exact h

/-- A violation finds nothing. -/
theorem findsValue_error (v : Violation) : FindsValue (.error v) := fun _ hb => by cases hb

/-- A choice finds a value when its branches do. -/
theorem findsValue_ite {c : Prop} [Decidable c] {r r' : Except Violation Basetype}
    (h : c → FindsValue r) (h' : FindsValue r') : FindsValue (if c then r else r') := by
  split
  · rename_i hc
    exact h hc
  · exact h'

/-- A sequence finds a value when its last part does. -/
theorem findsValue_bind {β : Type} {r : Except Violation β} {k : β → Except Violation Basetype}
    (h : ∀ b, FindsValue (k b)) : FindsValue (r >>= k) := by
  cases r with
  | ok b => exact h b
  | error v => exact findsValue_error v

namespace Rule

/-- Binary operators find values, whatever their operands are. -/
theorem value_binary (op : BinaryOp) (left right : Basetype) :
    FindsValue (binary op left right) := by
  have hboolean : Basetype.boolean.IsValue := by decide
  have hinteger : Basetype.integer.IsValue := by decide
  cases op with
  | and | or => exact findsValue_ite (fun _ => findsValue_ok hboolean) (findsValue_error _)
  | times | divide =>
    exact findsValue_ite (fun _ => findsValue_ok hinteger)
      (findsValue_ite (fun _ => findsValue_error _) (findsValue_error _))
  | plus | minus =>
    show FindsValue (additive left right)
    unfold additive
    split
    · exact findsValue_ok hinteger
    · exact findsValue_ok (by decide)
    · exact findsValue_ok (by decide)
    · exact findsValue_error _
  | less | lessEquals | greater | greaterEquals =>
    exact findsValue_ite (fun _ => findsValue_ok hboolean) (findsValue_error _)
  | equals | notEquals =>
    exact findsValue_ite (fun _ => findsValue_error _)
      (findsValue_ite (fun _ => findsValue_ok hboolean) (findsValue_error _))

/-- A dereference finds a value. -/
theorem value_deref (operand : Basetype) : FindsValue (deref operand) := by
  unfold deref
  split
  · exact findsValue_ok (by decide)
  · exact findsValue_ok (by decide)
  · exact findsValue_error _

/-- Unary operators find values. -/
theorem value_unary (op : UnaryOp) (operand : Basetype) : FindsValue (unary op operand) := by
  cases op with
  | deref => exact value_deref operand
  | not | negate | absolute =>
    exact findsValue_ite (fun _ => findsValue_ok (by decide)) (findsValue_error _)

/-- An address is a value. -/
theorem value_addressOf (target : Basetype) : FindsValue (addressOf target) := by
  unfold addressOf
  split
  · exact findsValue_ok (by decide)
  · exact findsValue_ok (by decide)
  · exact findsValue_error _

/-- An element is a value. -/
theorem value_element (entity? : Option Entity) (index : Basetype) :
    FindsValue (element entity? index) :=
  findsValue_ite (fun _ => findsValue_ite (fun _ => findsValue_ok (by decide))
    (findsValue_error _)) (findsValue_error _)

/-- An assignment of a text is one of a string. -/
theorem value_stringAssignment (target : Basetype) : FindsValue (stringAssignment target) :=
  findsValue_ite (fun _ => findsValue_ok (by decide)) (findsValue_error _)

/-- A call is that of a procedure, with its types for the arguments and for the target. -/
theorem call_eq_ok {entity? : Option Entity} (hdeclared : ∀ e, entity? = some e → e.Declared)
    {arguments : List Basetype} {target b : Basetype}
    (h : call entity? arguments target = .ok b) :
    entity? = some (.procedure arguments target) ∧ b = target := by
  unfold call at h
  split at h
  · cases h
  rename_i callee hcallee
  obtain ⟨hsome, hprocedure⟩ := Option.filter_eq_some_iff.mp hcallee
  split at h
  · cases h
  split at h
  · cases h
  rename_i harguments
  split at h
  · cases h
  rename_i htarget
  obtain rfl := not_not.mp harguments
  obtain rfl := not_not.mp htarget
  cases callee with
  | value t =>
    -- no variable has the basetype of procedures
    have ht : t.IsValue := (hdeclared _ hsome).isValue
    exact absurd (of_decide_eq_true hprocedure) ht.2
  | procedure ps r => exact ⟨hsome, (Except.ok.inj h).symm⟩

/-- A name has the basetype of what it stands for. -/
theorem named_eq_ok_iff {entity? : Option Entity} {b : Basetype} :
    named entity? = .ok b ↔ ∃ e, entity? = some e ∧ e.basetype = b := by
  cases entity? with
  | none =>
    constructor
    · intro h
      cases h
    · rintro ⟨_, h, -⟩
      cases h
  | some e =>
    constructor
    · intro h
      exact ⟨e, rfl, Except.ok.inj h⟩
    · rintro ⟨_, he, rfl⟩
      obtain rfl := Option.some.inj he
      rfl

/-- The two sides of an assignment have one basetype, which is that of the assignment. -/
theorem assignment_eq_ok {target value b : Basetype} (h : assignment target value = .ok b) :
    target = value ∧ b = value := by
  unfold assignment at h
  split at h
  · rename_i heq
    exact ⟨heq, (Except.ok.inj h).symm⟩
  · cases h

/-- A returned value keeps its basetype, and is no string. -/
theorem returned_eq_ok {value b : Basetype} (h : returned value = .ok b) :
    b = value ∧ value ≠ .string := by
  unfold returned at h
  split at h
  · cases h
  · rename_i hne
    exact ⟨(Except.ok.inj h).symm, hne⟩

end Rule

/-- What can be declared has a basetype that is known. -/
theorem Entity.Declared.basetype_ne {e : Entity} (h : e.Declared) : e.basetype ≠ .unknown := by
  cases e with
  | value t =>
    have ht : t.IsValue := h.isValue
    exact ht.1
  | procedure ps r => exact nofun

/-! ## Annotated nodes -/

section

variable {fs : Frames}

/-- Names stand for declared types, so their basetype is known. -/
theorem known_named (hfs : fs.Declared) {x : String} {b : Basetype}
    (h : Rule.named (fs.find x) = .ok b) : b ≠ .unknown := by
  obtain ⟨e, he, rfl⟩ := Rule.named_eq_ok_iff.mp h
  exact (hfs.find he).basetype_ne

/-- What is found in an expression is known. -/
theorem Expr.known_check (hfs : fs.Declared) {e : Expr} {b : Basetype}
    (h : (e.check fs.find).result = .ok b) : b ≠ .unknown := by
  cases e with
  | binary a op l r =>
    obtain ⟨left, right, -, -, hrule, -⟩ := Expr.check_binary_ok h
    exact (Rule.value_binary op left right b hrule).1
  | unary a op e =>
    obtain ⟨operand, -, hrule, -⟩ := Expr.check_unary_ok h
    exact (Rule.value_unary op operand b hrule).1
  | addressOf a l =>
    obtain ⟨target, -, hrule, -⟩ := Expr.check_addressOf_ok h
    exact (Rule.value_addressOf target b hrule).1
  | element a x i =>
    obtain ⟨index, -, hrule, -⟩ := Expr.check_element_ok h
    exact (Rule.value_element _ index b hrule).1
  | named a x =>
    rw [Expr.check] at h
    exact known_named hfs (conclude_of_ok h).1
  | integer | char | boolean | null =>
    obtain rfl := Except.ok.inj h
    decide

/-- What is found in a location is known. -/
theorem Location.known_check (hfs : fs.Declared) {l : Location} {b : Basetype}
    (h : (l.check fs.find).result = .ok b) : b ≠ .unknown := by
  cases l with
  | named a x =>
    rw [Location.check] at h
    exact known_named hfs (conclude_of_ok h).1
  | pointee a x =>
    rw [Location.check] at h
    exact (findsValue_bind Rule.value_deref b (conclude_of_ok h).1).1
  | element a x i =>
    obtain ⟨index, -, hrule, -⟩ := Location.check_element_ok h
    exact (Rule.value_element _ index b hrule).1

/-- An expression that is accepted is handed back consistent. -/
theorem Expr.consistent_check (hfs : fs.Declared) {e : Expr} (h : (Node.expr e).Permitted fs) :
    (e.check fs.find).node.Consistent fs.find := by
  obtain ⟨b, h⟩ := h
  have hknown := Expr.known_check hfs h
  cases e with
  | binary a op l r =>
    obtain ⟨left, right, hl, hr, hrule, hnode⟩ := Expr.check_binary_ok h
    rw [hnode, Expr.Consistent, Expr.basetype_node_check hl, Expr.basetype_node_check hr]
    exact ⟨hrule, hknown⟩
  | unary a op e =>
    obtain ⟨operand, he, hrule, hnode⟩ := Expr.check_unary_ok h
    rw [hnode, Expr.Consistent, Expr.basetype_node_check he]
    exact ⟨hrule, hknown⟩
  | addressOf a l =>
    obtain ⟨target, hl, hrule, hnode⟩ := Expr.check_addressOf_ok h
    rw [hnode, Expr.Consistent, Location.basetype_node_check hl]
    exact ⟨hrule, hknown⟩
  | element a x i =>
    obtain ⟨index, hi, hrule, hnode⟩ := Expr.check_element_ok h
    rw [hnode, Expr.Consistent, Expr.basetype_node_check hi]
    exact ⟨hrule, hknown⟩
  | named a x =>
    rw [Expr.check] at h ⊢
    obtain ⟨hrule, hnode⟩ := conclude_of_ok h
    rw [hnode]
    exact ⟨hrule, hknown⟩
  | integer | char | boolean | null =>
    obtain rfl := Except.ok.inj h
    exact ⟨rfl, hknown⟩

/-- A location that is accepted is handed back consistent. -/
theorem Location.consistent_check (hfs : fs.Declared) {l : Location}
    (h : (Node.location l).Permitted fs) : (l.check fs.find).node.Consistent fs.find := by
  obtain ⟨b, h⟩ := h
  have hknown := Location.known_check hfs h
  cases l with
  | named a x =>
    rw [Location.check] at h ⊢
    obtain ⟨hrule, hnode⟩ := conclude_of_ok h
    rw [hnode]
    exact ⟨hrule, hknown⟩
  | pointee a x =>
    rw [Location.check] at h ⊢
    obtain ⟨hrule, hnode⟩ := conclude_of_ok h
    rw [hnode]
    exact ⟨hrule, hknown⟩
  | element a x i =>
    obtain ⟨index, hi, hrule, hnode⟩ := Location.check_element_ok h
    rw [hnode, Location.Consistent, Expr.basetype_node_check hi]
    exact ⟨hrule, hknown⟩

/-- A statement that is permitted is annotated consistently. -/
theorem Stmt.consistent_annotated (hfs : fs.Declared) {s : Stmt} (h : (Node.stmt s).Permitted fs) :
    (s.annotated fs).Consistent fs.find := by
  have h : Static.stmt fs s = .ok () := h
  cases s with
  | assign a l e =>
    obtain ⟨b, h⟩ := stmt_assign_ok h
    obtain ⟨target, value, hl, he, hrule, hnode⟩ := checkAssign_ok h
    have hknown : b ≠ .unknown := by
      rw [(Rule.assignment_eq_ok hrule).2]
      exact Expr.known_check hfs he
    rw [Stmt.annotated, hnode, Stmt.Consistent, Location.basetype_node_check hl,
      Expr.basetype_node_check he]
    exact ⟨hrule, hknown⟩
  | assignString a l text =>
    obtain ⟨b, h⟩ := stmt_assignString_ok h
    obtain ⟨target, hl, hrule, hnode⟩ := checkAssignString_ok h
    rw [Stmt.annotated, hnode, Stmt.Consistent, Location.basetype_node_check hl]
    exact ⟨hrule, (Rule.value_stringAssignment target b hrule).1⟩
  | call a l f es =>
    obtain ⟨b, h⟩ := stmt_call_ok h
    obtain ⟨target, arguments, hl, hes, hrule, hnode⟩ := checkCall_ok h
    have hknown : b ≠ .unknown := by
      rw [(Rule.call_eq_ok (fun _ => hfs.find) hrule).2]
      exact Location.known_check hfs hl
    rw [Stmt.annotated, hnode, Stmt.Consistent, Location.basetype_node_check hl,
      basetypes_node_checkArguments hes]
    exact ⟨hrule, hknown⟩
  | ifThen a c b =>
    obtain ⟨condition, hc, hrule, -⟩ := stmt_ifThen_ok h
    rw [Stmt.annotated, Stmt.Consistent, Expr.basetype_node_check hc]
    exact hrule
  | ifElse a c b b' =>
    obtain ⟨condition, hc, hrule, -⟩ := stmt_ifElse_ok h
    rw [Stmt.annotated, Stmt.Consistent, Expr.basetype_node_check hc]
    exact hrule
  | loop a c b =>
    obtain ⟨condition, hc, hrule, -⟩ := stmt_loop_ok h
    rw [Stmt.annotated, Stmt.Consistent, Expr.basetype_node_check hc]
    exact hrule
  | block a b => trivial

/-- A body carries the basetype of its return, which is not that of arrays. -/
theorem Body.annotated_ok {f : Frame} {b : Body} {t : Basetype}
    (h : Static.body fs f b = .ok t) :
    (b.annotated fs f).attr.basetype = t ∧ (b.annotated fs f).result.attr.basetype = t ∧
      (b.annotated fs f).result.value.attr.basetype = t ∧ t ≠ .string := by
  cases b with
  | mk ps ds ss r a =>
    obtain ⟨-, -, hr⟩ := body_ok h
    obtain ⟨value, he, hrule, hnode⟩ := Return.check_ok hr
    obtain ⟨rfl, hne⟩ := Rule.returned_eq_ok hrule
    have hvalue := Expr.basetype_node_check he
    rw [Body.annotated]
    simp only [hnode, Body.attr, Body.result]
    exact ⟨rfl, rfl, hvalue, hne⟩

/-- What a body returns is known. -/
theorem known_body (hfs : fs.Declared) {b : Body} {t : Basetype}
    (h : Static.body fs.tail (fs.headD .empty) b = .ok t) : t ≠ .unknown := by
  cases b with
  | mk ps ds ss r a =>
    have hinner := (hfs.bindAll (declared_entries ps)).bindAll (declared_entriesOf ds)
    obtain ⟨-, -, hr⟩ := body_ok h
    obtain ⟨value, he, hrule, -⟩ := Return.check_ok hr
    obtain ⟨rfl, -⟩ := Rule.returned_eq_ok hrule
    exact Expr.known_check hinner he

/-- A node that the rules permit is annotated consistently. -/
theorem Node.consistent_annotated (hfs : fs.Declared) {n : Node} (h : n.Permitted fs) :
    (n.annotated fs).Consistent fs := by
  cases n with
  | program p => trivial
  -- a procedure carries what its body returns, and this is what it declares
  | procedure p =>
    cases p with
    | mk h₀ b =>
      obtain ⟨hattr, -⟩ := Body.annotated_ok (procedure_ok h)
      refine ⟨⟨?_, nofun⟩, rfl, hattr⟩
      show Rule.procedure h₀.returnType.basetype (b.annotated fs _).attr.basetype = _
      rw [hattr]
      exact if_pos rfl
  | body b =>
    obtain ⟨t, h⟩ := h
    obtain ⟨hattr, hresult, hvalue, hne⟩ := Body.annotated_ok h
    have hknown := known_body hfs h
    show (Node.body (b.annotated fs.tail (fs.headD .empty))).Consistent fs
    refine ⟨⟨?_, ?_⟩, ?_, ?_⟩
    · rw [hattr, hresult]
    · rw [hattr]
      exact hknown
    · rw [hattr, hvalue]
    · rw [hattr]
      exact hne
  | block b => trivial
  | decl d => exact ⟨rfl, d.type.isDeclared.isValue.1⟩
  | type t => exact ⟨rfl, t.isDeclared.isValue.1⟩
  | stmt s => exact Stmt.consistent_annotated hfs h
  | result r =>
    obtain ⟨b, h⟩ := h
    obtain ⟨value, he, hrule, hnode⟩ := Return.check_ok h
    show (Node.result (r.check fs.find).node).Consistent fs
    rw [hnode, Node.Consistent, Expr.basetype_node_check he]
    refine ⟨hrule, ?_⟩
    obtain ⟨rfl, -⟩ := Rule.returned_eq_ok hrule
    exact Expr.known_check hfs he
  | expr e => exact Expr.consistent_check hfs h
  | location l => exact Location.consistent_check hfs h

/-- The nodes inside of an annotated one are consistent, each in its own frames. -/
theorem Node.consistent_inner_annotated (hfs : fs.Declared) {n : Node} (h : n.Permitted fs) :
    ∀ c ∈ (n.annotated fs).inner fs, c.2.Consistent c.1 := by
  rw [Node.inner_annotated h]
  refine List.forall_mem_map.mpr fun c hc => ?_
  exact Node.consistent_annotated (Node.declared_inner hfs n c hc) (Node.permitted_inner h c hc)

/-- Nodes without a basetype keep their attributes. -/
theorem Node.attr_annotated {n : Node} (h : n.isStructural) : (n.annotated fs).attr = n.attr := by
  cases n with
  | program p => rfl
  | block b =>
    cases b
    rfl
  | stmt s =>
    cases s with
    | ifThen | ifElse | loop | block => rfl
    | assign | assignString | call => cases h
  | procedure | body | decl | type | result | expr | location => cases h

end

/-- **Annotations.**  The tree that the check of an accepted program leaves is the tree that it was
    given, but for basetypes.  At every address that leads to a node of the program, a node of the
    annotated tree stands in the same frames: it is annotated consistently, and it has its attribute
    from before if it has no basetype of its own. -/
theorem typeCheck_consistent (p : Program) (hok : p.typeCheck.result = .ok ()) :
    p.typeCheck.node.strip = p.strip ∧
    (∀ a, (p.typeCheck.node.at? a).isSome = (p.at? a).isSome) ∧
    ∀ a fs n, p.at? a = some (fs, n) →
      ∃ n', p.typeCheck.node.at? a = some (fs, n') ∧ n'.Consistent fs ∧
        (n.isStructural → n'.attr = n.attr) := by
  refine ⟨p.strip_node_typeCheck, fun a => ?_, fun a fs n hn => ?_⟩
  · rw [(Program.at?_typeCheck hok a).1, Option.isSome_map]
  · obtain ⟨hannotated, hpermitted⟩ := Program.at?_typeCheck hok a
    obtain ⟨h, hfs⟩ := hpermitted fs n hn
    rw [hn] at hannotated
    exact ⟨n.annotated fs, hannotated, Node.consistent_annotated hfs h, Node.attr_annotated⟩

/-- The address is that of the assignment in the loop of the nested procedure. -/
theorem typeCheck_consistent_nesting :
    nestingProgram.typeCheck.result = .ok () ∧
    nestingProgram.typeCheck.node.strip = nestingProgram.strip ∧
    ∃ fs n, nestingProgram.typeCheck.node.at? [0, 1, 0, 2, 0, 1, 1] = some (fs, n) ∧
      n.Consistent fs := by
  have hok : nestingProgram.typeCheck.result = .ok () := by decide +kernel
  obtain ⟨hstrip, -, hnodes⟩ := typeCheck_consistent nestingProgram hok
  obtain ⟨n, hn, hconsistent, -⟩ := hnodes [0, 1, 0, 2, 0, 1, 1] _ _ rfl
  exact ⟨hok, hstrip, _, n, hn, hconsistent⟩

end ProcLang
