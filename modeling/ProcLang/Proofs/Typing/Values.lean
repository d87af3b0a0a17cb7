/-
  Where the names of procedures can stand for values.

  Procedures and variables share one namespace, and a name that is read or assigned needs only to
  be declared.  So an accepted program can use the name of a procedure as a value, with the
  basetype `procedure`.  How far this goes is said by `Node.UsesValues`, for every node of an
  accepted program (`typeCheck_usesValues`):

  * only a name that stands alone can be that of a procedure; what is dereferenced or has an index
    is a variable, and everything else has the basetype of a value;
  * procedures are compared with one another, assigned to one another, and may stand on the right of
    `&&` and `||`, which look at their left operand only; they are used in no other place.

  This is read off the annotations, which follow from one another (`Node.Consistent`).  Most rules
  ask for basetypes that no procedure has.  The others compare two basetypes, and let procedures
  through on both sides or on neither (`Rule.binary_takes`, `Rule.assignment_eq_ok`); the arguments
  of a call and what a procedure returns are compared with declared types.
-/
import ProcLang.Proofs.Typing.Consistent

namespace ProcLang

open Static

/-! ## Uses of values -/

/-- The attribute is that of a name: a variable, and it carries a basetype of values, or a
    procedure. -/
def Attribute.Names (a : Attribute) (entity? : Option Entity) : Prop :=
  (entity? = some (.value a.basetype) ∧ a.basetype.IsValue) ∨
    ∃ ps r, entity? = some (.procedure ps r) ∧ a.basetype = .procedure

/-- Operands are values, but for procedures that are compared with one another, and for a procedure
    on the right of a logical operator. -/
def BinaryOp.Takes (op : BinaryOp) (left right : Basetype) : Prop :=
  (left.IsValue ∧ right.IsValue) ∨
    ((op = .equals ∨ op = .notEquals) ∧ left = .procedure ∧ right = .procedure) ∨
    ((op = .and ∨ op = .or) ∧ left = .boolean ∧ right = .procedure)

/-- What an expression of an accepted program uses: values, but for names that stand alone and the
    operators that let procedures through. -/
def Expr.UsesValues (fs : Frames) : Expr → Prop
  | .binary a op l r => a.basetype.IsValue ∧ op.Takes l.attr.basetype r.attr.basetype
  | .unary a _ e => a.basetype.IsValue ∧ e.attr.basetype.IsValue
  | .addressOf a l => a.basetype.IsValue ∧ l.attr.basetype.IsValue
  | .element a x i =>
    a.basetype.IsValue ∧ fs.find x = some (.value .string) ∧ i.attr.basetype.IsValue
  | .named a x => a.Names (fs.find x)
  | .integer a _ | .char a _ | .boolean a _ | .null a => a.basetype.IsValue

/-- What a location of an accepted program uses: values, but for a name that stands alone. -/
def Location.UsesValues (fs : Frames) : Location → Prop
  | .named a x => a.Names (fs.find x)
  | .pointee a x => a.basetype.IsValue ∧ ∃ t, fs.find x = some (.value t)
  | .element a x i =>
    a.basetype.IsValue ∧ fs.find x = some (.value .string) ∧ i.attr.basetype.IsValue

/-- What a statement of an accepted program uses: values, but for an assignment of one procedure
    name to another one. -/
def Stmt.UsesValues : Stmt → Prop
  | .assign _ l e =>
    (l.attr.basetype.IsValue ∧ e.attr.basetype.IsValue) ∨
      (l.attr.basetype = .procedure ∧ e.attr.basetype = .procedure)
  | .assignString _ l _ => l.attr.basetype.IsValue
  | .call _ l _ es => l.attr.basetype.IsValue ∧ ∀ e ∈ es, e.attr.basetype.IsValue
  | .ifThen _ c _ | .ifElse _ c _ _ | .loop _ c _ => c.attr.basetype.IsValue
  | .block _ _ => True

/-- The names in a node resolve, and the parts of the node are values where it needs them to be. -/
def Node.UsesValues (fs : Frames) : Node → Prop
  | expr e => e.UsesValues fs
  | location l => l.UsesValues fs
  | stmt s => s.UsesValues
  | procedure p => p.body.result.value.attr.basetype.IsValue
  | program _ | body _ | block _ | decl _ | type _ | result _ => True

/-! ## What rules ask for -/

/-- A basetype that is known is that of a value or that of a procedure. -/
theorem Basetype.isValue_or_eq {b : Basetype} (h : b ≠ .unknown) : b.IsValue ∨ b = .procedure := by
  by_cases hb : b = .procedure
  · exact Or.inr hb
  · exact Or.inl ⟨h, hb⟩

/-- Pointers are values. -/
theorem Basetype.isValue_of_isTypedPointer {b : Basetype} (h : b.isTypedPointer) : b.IsValue := by
  cases b with
  | intPtr | charPtr => decide
  | _ => cases h

/-- A verdict that holds on a condition. -/
theorem of_ite_eq_ok {β : Type} {c : Prop} [Decidable c] {r : Except Violation β} {v : Violation}
    {b : β} (h : (if c then r else .error v) = .ok b) : c ∧ r = .ok b := by
  split at h
  · rename_i hc
    exact ⟨hc, h⟩
  · cases h

namespace Rule

section

variable {left right b : Basetype}

/-- Products and quotients take integers. -/
theorem multiplicative_eq_ok (h : multiplicative left right = .ok b) :
    left = .integer ∧ right = .integer := by
  unfold multiplicative at h
  split at h
  · assumption
  · split at h
    · cases h
    · cases h

/-- Sums and differences take values. -/
theorem additive_eq_ok (h : additive left right = .ok b) : left.IsValue ∧ right.IsValue := by
  unfold additive at h
  split at h
  · decide
  · decide
  · decide
  · cases h

/-- Comparisons take two of one basetype, or two values. -/
theorem equality_eq_ok (h : equality left right = .ok b) :
    left = right ∨ (left.IsValue ∧ right.IsValue) := by
  unfold equality at h
  split at h
  · cases h
  refine (Bool.or_eq_true_iff.mp (of_ite_eq_ok h).1).imp of_decide_eq_true fun hnull => ?_
  rcases Bool.or_eq_true_iff.mp hnull with hnull | hnull
  · obtain ⟨hleft, hright⟩ := Bool.and_eq_true_iff.mp hnull
    rw [of_decide_eq_true hleft]
    exact ⟨by decide, Basetype.isValue_of_isTypedPointer hright⟩
  · obtain ⟨hright, hleft⟩ := Bool.and_eq_true_iff.mp hnull
    rw [of_decide_eq_true hright]
    exact ⟨Basetype.isValue_of_isTypedPointer hleft, by decide⟩

/-- What an operator lets through. -/
theorem binary_takes {op : BinaryOp} (hleft : left ≠ .unknown) (hright : right ≠ .unknown)
    (h : binary op left right = .ok b) : op.Takes left right := by
  -- the operators that look at one operand, or compare the two
  have hlogical : ∀ op, op = BinaryOp.and ∨ op = .or → logical left = .ok b →
      op.Takes left right := by
    intro op hop h
    obtain ⟨rfl, -⟩ := of_ite_eq_ok h
    rcases Basetype.isValue_or_eq hright with hvalue | hprocedure
    · exact Or.inl ⟨by decide, hvalue⟩
    · exact Or.inr (Or.inr ⟨hop, rfl, hprocedure⟩)
  have hequality : ∀ op, op = BinaryOp.equals ∨ op = .notEquals → equality left right = .ok b →
      op.Takes left right := by
    intro op hop h
    rcases equality_eq_ok h with rfl | hvalues
    · rcases Basetype.isValue_or_eq hleft with hvalue | hprocedure
      · exact Or.inl ⟨hvalue, hvalue⟩
      · exact Or.inr (Or.inl ⟨hop, hprocedure, hprocedure⟩)
    · exact Or.inl hvalues
  have hintegers : ∀ op : BinaryOp, left = .integer ∧ right = .integer → op.Takes left right := by
    rintro op ⟨rfl, rfl⟩
    exact Or.inl (by decide)
  cases op with
  | and => exact hlogical _ (Or.inl rfl) h
  | or => exact hlogical _ (Or.inr rfl) h
  | times | divide => exact hintegers _ (multiplicative_eq_ok h)
  | plus | minus => exact Or.inl (additive_eq_ok h)
  | less | lessEquals | greater | greaterEquals => exact hintegers _ (of_ite_eq_ok h).1
  | equals => exact hequality _ (Or.inl rfl) h
  | notEquals => exact hequality _ (Or.inr rfl) h

end

section

variable {operand target index b : Basetype} {entity? : Option Entity}

/-- A dereference takes a value. -/
theorem isValue_of_deref (h : deref operand = .ok b) : operand.IsValue := by
  unfold deref at h
  split at h
  · decide
  · decide
  · cases h

/-- Unary operators take values. -/
theorem isValue_of_unary {op : UnaryOp} (h : unary op operand = .ok b) : operand.IsValue := by
  cases op with
  | not | negate =>
    obtain ⟨rfl, -⟩ := of_ite_eq_ok h
    decide
  | absolute =>
    obtain ⟨rfl | rfl, -⟩ := of_ite_eq_ok h
    · decide
    · decide
  | deref => exact isValue_of_deref h

/-- An address is taken of a value. -/
theorem isValue_of_addressOf (h : addressOf target = .ok b) : target.IsValue := by
  unfold addressOf at h
  split at h
  · decide
  · decide
  · cases h

/-- A text is assigned to a value. -/
theorem isValue_of_stringAssignment (h : stringAssignment target = .ok b) : target.IsValue := by
  obtain ⟨rfl, -⟩ := of_ite_eq_ok h
  decide

/-- A condition is a value. -/
theorem isValue_of_predicate {v : Violation} (h : predicate operand v = .ok ()) :
    operand.IsValue := by
  obtain ⟨rfl, -⟩ := of_ite_eq_ok h
  decide

/-- What has an index is a variable, an array. -/
theorem element_eq_ok (h : element entity? index = .ok b) :
    entity? = some (.value .string) ∧ index.IsValue := by
  obtain ⟨hbase, h⟩ := of_ite_eq_ok h
  obtain ⟨rfl, -⟩ := of_ite_eq_ok h
  refine ⟨?_, by decide⟩
  obtain ⟨e, he, hstring⟩ := Option.map_eq_some_iff.mp hbase
  cases e with
  | value t =>
    obtain rfl : t = .string := hstring
    exact he
  | procedure ps r => cases hstring

/-- What is dereferenced is a variable. -/
theorem named_deref_eq_ok (h : (named entity? >>= deref) = .ok b) :
    ∃ t, entity? = some (.value t) := by
  cases entity? with
  | none => cases h
  | some e =>
    cases e with
    | value t => exact ⟨t, rfl⟩
    | procedure ps r => cases h

end

end Rule

/-! ## Consistent nodes -/

/-- The basetype of a consistent expression is known. -/
theorem Expr.Consistent.known {env : Env} {e : Expr} (h : e.Consistent env) :
    e.attr.basetype ≠ .unknown := by
  cases e with
  | _ => exact h.2

section

variable {fs : Frames}

/-- A name that is declared is that of a variable or of a procedure. -/
theorem names_of_carries (hfs : fs.Declared) {a : Attribute} {x : String}
    (h : a.Carries (Rule.named (fs.find x))) : a.Names (fs.find x) := by
  obtain ⟨e, he, hb⟩ := Rule.named_eq_ok_iff.mp h.1
  rw [Attribute.Names, ← hb]
  cases e with
  | value t =>
    have ht : t.IsDeclared := hfs.find he
    exact Or.inl ⟨he, ht.isValue⟩
  | procedure ps r => exact Or.inr ⟨ps, r, he, rfl⟩

/-- What an expression uses can be read off its annotations and those of its parts. -/
theorem Expr.usesValues_of_consistent (hfs : fs.Declared) {e : Expr} (h : e.Consistent fs.find)
    (hinner : ∀ n ∈ e.inner, n.Consistent fs) : e.UsesValues fs := by
  cases e with
  | binary a op l r =>
    obtain ⟨hl, hinner⟩ := List.forall_mem_cons.mp hinner
    have hr := List.forall_mem_singleton.mp hinner
    refine ⟨Rule.value_binary op _ _ _ h.1, Rule.binary_takes ?_ ?_ h.1⟩
    · exact Expr.Consistent.known hl
    · exact Expr.Consistent.known hr
  | unary a op e => exact ⟨Rule.value_unary op _ _ h.1, Rule.isValue_of_unary h.1⟩
  | addressOf a l => exact ⟨Rule.value_addressOf _ _ h.1, Rule.isValue_of_addressOf h.1⟩
  | element a x i => exact ⟨Rule.value_element _ _ _ h.1, Rule.element_eq_ok h.1⟩
  | named a x => exact names_of_carries hfs h
  | integer a | char a | boolean a | null a =>
    have hb : a.basetype = _ := (Except.ok.inj h.1).symm
    rw [Expr.UsesValues, hb]
    decide

/-- What a consistent location uses can be a value. -/
theorem Location.usesValues_of_consistent (hfs : fs.Declared) {l : Location}
    (h : l.Consistent fs.find) : l.UsesValues fs := by
  cases l with
  | named a x => exact names_of_carries hfs h
  | pointee a x => exact ⟨findsValue_bind Rule.value_deref _ h.1, Rule.named_deref_eq_ok h.1⟩
  | element a x i => exact ⟨Rule.value_element _ _ _ h.1, Rule.element_eq_ok h.1⟩

/-- What a consistent statement uses can be a value. -/
theorem Stmt.usesValues_of_consistent (hfs : fs.Declared) {s : Stmt} (h : s.Consistent fs.find) :
    s.UsesValues := by
  cases s with
  | assign a l e =>
    obtain ⟨hrule, hknown⟩ := h
    obtain ⟨hsame, hvalue⟩ := Rule.assignment_eq_ok hrule
    rw [hvalue] at hknown
    rw [Stmt.UsesValues, hsame]
    rcases Basetype.isValue_or_eq hknown with hvalue | hprocedure
    · exact Or.inl ⟨hvalue, hvalue⟩
    · exact Or.inr ⟨hprocedure, hprocedure⟩
  | assignString a l text => exact Rule.isValue_of_stringAssignment h.1
  | call a l f es =>
    -- what is declared of the procedure is what stands in the call
    obtain ⟨hcallee, -⟩ := Rule.call_eq_ok (fun _ => hfs.find) h.1
    obtain ⟨harguments, htarget⟩ : Entity.Declared (.procedure _ _) := hfs.find hcallee
    refine ⟨htarget.isValue, fun e he => ?_⟩
    exact (harguments _ (List.mem_map_of_mem he)).isValue
  | ifThen a c b | ifElse a c b b' | loop a c b => exact Rule.isValue_of_predicate h
  | block a b => trivial

/-- A node that is annotated consistently, like those inside of it, uses values. -/
theorem Node.usesValues_of_consistent (hfs : fs.Declared) {n : Node} (h : n.Consistent fs)
    (hinner : ∀ c ∈ n.inner fs, c.2.Consistent c.1) : n.UsesValues fs := by
  cases n with
  | procedure p =>
    cases p with
    | mk h₀ b =>
      -- what the body returns is what is declared
      obtain ⟨-, -, hreturn⟩ := h
      obtain ⟨-, hinner⟩ := List.forall_mem_append.mp hinner
      obtain ⟨-, hinner⟩ := List.forall_mem_cons.mp hinner
      obtain ⟨-, hvalue, -⟩ := List.forall_mem_singleton.mp hinner
      show b.result.value.attr.basetype.IsValue
      rw [← hvalue, show b.attr.basetype = h₀.returnType.basetype from hreturn]
      exact h₀.returnType.isDeclared.isValue
  | stmt s => exact Stmt.usesValues_of_consistent hfs h
  | expr e =>
    exact Expr.usesValues_of_consistent hfs h fun n hn => hinner (fs, n) (List.mem_map_of_mem hn)
  | location l => exact Location.usesValues_of_consistent hfs h
  | program | body | block | decl | type | result => trivial

end

/-- **Names of procedures as values.**  In an accepted program every name that is read or assigned
    resolves: to a variable, whose basetype it carries, or to a procedure, if it stands alone.  All
    other expressions and locations have the basetype of a value.  Procedures are compared with one
    another, are assigned to one another, and stand on the right of logical operators; in every
    other place there is a value. -/
theorem typeCheck_usesValues (p : Program) (hok : p.typeCheck.result = .ok ()) (a : List Nat)
    (fs : Frames) (n : Node) (hn : p.typeCheck.node.at? a = some (fs, n)) : n.UsesValues fs := by
  obtain ⟨hannotated, hpermitted⟩ := Program.at?_typeCheck hok a
  rw [hn] at hannotated
  obtain ⟨⟨fs', n'⟩, hn', heq⟩ := Option.map_eq_some_iff.mp hannotated.symm
  obtain ⟨rfl, rfl⟩ := Prod.mk.inj heq
  obtain ⟨h, hfs⟩ := hpermitted fs' n' hn'
  exact Node.usesValues_of_consistent hfs (Node.consistent_annotated hfs h)
    (Node.consistent_inner_annotated hfs h)

/-- A program that assigns its procedure to itself. -/
def selfAssigning : Program where
  procedures :=
    [.mk ⟨"Main", [], ⟨.integer, .bare 1⟩, .bare 1⟩
      (.mk [] [] [.assign (.bare 1) (.named (.bare 1) "Main") (.named (.bare 1) "Main")]
        ⟨.integer (.bare 1) 0, .bare 1⟩ (.bare 1))]
  attr := .bare 1

/-- Names of procedures are read and assigned: the program is accepted, and both sides of the
    assignment stand for the procedure. -/
theorem typeCheck_selfAssigning :
    selfAssigning.typeCheck.result = .ok () ∧
    ∃ fs a l e, selfAssigning.typeCheck.node.at? [0, 1, 0] =
        some (fs, .stmt (.assign a (.named l "Main") (.named e "Main"))) ∧
      l.basetype = .procedure ∧ e.basetype = .procedure ∧
      fs.find "Main" = some (.procedure [] .integer) := by
  have hok : selfAssigning.typeCheck.result = .ok () := by decide +kernel
  refine ⟨hok, ?_⟩
  rw [Program.typeCheck_node hok]
  exact ⟨_, _, _, _, rfl, rfl, rfl, rfl⟩

/-- A program that assigns its main procedure to itself: the assignment is one of the two places
    where this is let through. -/
theorem typeCheck_usesValues_selfAssigning :
    selfAssigning.typeCheck.result = .ok () ∧
    ∃ fs n, selfAssigning.typeCheck.node.at? [0, 1, 0] = some (fs, n) ∧ n.UsesValues fs := by
  have hok : selfAssigning.typeCheck.result = .ok () := by decide +kernel
  have hn : ∃ fs n, selfAssigning.typeCheck.node.at? [0, 1, 0] = some (fs, n) := by
    rw [Program.typeCheck_node hok]
    exact ⟨_, _, rfl⟩
  obtain ⟨fs, n, hn⟩ := hn
  exact ⟨hok, fs, n, hn, typeCheck_usesValues selfAssigning hok _ fs n hn⟩

end ProcLang
