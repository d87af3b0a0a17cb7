/-
  The words of trees that sources have.

  A denotable tree is written with words that the scanner can tell: names and texts have their
  shapes, and only kinds with a spelling of their own stand as symbols (`Program.good_words`).
-/
import ProcLang.Proofs.Printing.Scan

namespace ProcLang

/-- The scanner can tell these words. -/
def AllGood (ws : List Word) : Prop := ∀ w ∈ ws, w.Good

/-- A list of no words is good. -/
@[simp] theorem allGood_nil : AllGood [] := nofun

/-- Words are good when the first one is and the others are. -/
@[simp] theorem allGood_cons {w : Word} {ws : List Word} :
    AllGood (w :: ws) ↔ w.Good ∧ AllGood ws := List.forall_mem_cons

/-- Words are good when both their parts are. -/
@[simp] theorem allGood_append {vs ws : List Word} :
    AllGood (vs ++ ws) ↔ AllGood vs ∧ AllGood ws := List.forall_mem_append

/-- A symbol is good when its kind is spelled in one way only. -/
@[simp] theorem Word.good_symbol_iff {k : Kind} :
    (Word.symbol k).Good ↔ ProcLang.symbol k ≠ "" := Iff.rfl

/-- A name is good when a source can have it as an identifier. -/
@[simp] theorem Word.good_name_iff {x : String} : (Word.name x).Good ↔ IsName x := Iff.rfl

/-- A text is good when it can stand between double quotes. -/
@[simp] theorem Word.good_text_iff {s : String} : (Word.text s).Good ↔ IsText s := Iff.rfl

/-- Every number can be written with digits. -/
@[simp] theorem Word.good_number (n : Nat) : (Word.number n).Good := trivial

/-- Every character can be written between quotes, with an escape if need be. -/
@[simp] theorem Word.good_char (c : Char) : (Word.char c).Good := trivial

/-- Each binary operator is spelled in one way. -/
@[simp] theorem BinaryOp.symbol_kind_ne (op : BinaryOp) : ProcLang.symbol op.kind ≠ "" := by
  cases op
  all_goals decide

/-- Each unary operator is spelled in one way; an absolute value has its bar on both sides. -/
@[simp] theorem UnaryOp.symbol_kind_ne (op : UnaryOp) : ProcLang.symbol op.kind ≠ "" := by
  cases op
  all_goals decide

/-! ## Lists -/

/-- Items that are written one behind the other are good when each of them is. -/
theorem allGood_flatMap {α : Type} {f : α → List Word} {xs : List α}
    (h : ∀ x ∈ xs, AllGood (f x)) : AllGood (xs.flatMap f) := by
  intro w hw
  obtain ⟨x, hx, hwx⟩ := List.mem_flatMap.mp hw
  exact h x hx w hwx

/-- Good items with a symbol between any two of them are good. -/
theorem allGood_separated {α : Type} {k : Kind} (hk : symbol k ≠ "") {f : α → List Word}
    {xs : List α} (h : ∀ x ∈ xs, AllGood (f x)) : AllGood (separated k f xs) := by
  cases xs with
  | nil => exact allGood_nil
  | cons x xs =>
    obtain ⟨hx, hxs⟩ := List.forall_mem_cons.mp h
    refine allGood_append.mpr ⟨hx, allGood_flatMap ?_⟩
    intro y hy
    exact allGood_cons.mpr ⟨hk, hxs y hy⟩

/-! ## Expressions -/

mutual

/-- A denotable expression is written with good words, whatever level its context takes. -/
theorem Expr.good_words : (e : Expr) → e.Denotable → (n : Nat) → AllGood (e.words n)
  | .binary _ op l r, h, n => by
    obtain ⟨-, hl, hr⟩ := h
    have hleft := l.good_words hl (op.rank + 1)
    have hright := r.good_words hr op.rank
    have hopen : symbol .openParen ≠ "" := by decide
    have hclose : symbol .closeParen ≠ "" := by decide
    -- the same two operands, with or without parentheses around them
    rw [Expr.words]
    split
    · simp [hleft, hright]
    · simp [hleft, hright, hopen, hclose]
  | .unary _ op e, h, n => by
    obtain ⟨-, he⟩ := h
    have hwhole := e.good_words he 6
    have hoperand := e.good_words he 0
    cases op
    all_goals simp [Expr.words, UnaryOp.kind, symbol, hwhole, hoperand]
  | .addressOf _ l, h, n => by
    obtain ⟨-, hl⟩ := h
    have htarget := l.good_words hl
    simp [Expr.words, symbol, htarget]
  | .element _ x i, h, n => by
    obtain ⟨-, hx, hi⟩ := h
    have hindex := i.good_words hi 6
    simp [Expr.words, symbol, hx, hindex]
  | .named _ x, h, n => by
    obtain ⟨-, hx⟩ := h
    simpa [Expr.words] using hx
  | .integer _ _, _, _ => by simp [Expr.words]
  | .char _ _, _, _ => by simp [Expr.words]
  | .boolean _ b, _, _ => by
    cases b
    all_goals simp [Expr.words, symbol]
  | .null _, _, _ => by simp [Expr.words, symbol]

/-- A denotable location is written with good words. -/
theorem Location.good_words : (l : Location) → l.Denotable → AllGood l.words
  | .named _ x, h => by
    obtain ⟨-, hx⟩ := h
    simpa [Location.words] using hx
  | .pointee _ x, h => by
    obtain ⟨-, hx⟩ := h
    simpa [Location.words, symbol] using hx
  | .element _ x i, h => by
    obtain ⟨-, hx, hi⟩ := h
    have hindex := i.good_words hi 6
    simp [Location.words, symbol, hx, hindex]

end

/-! ## Declarations -/

/-- Types are written with reserved words, a number and brackets, so they need no condition. -/
theorem TypeMark.good_words (t : TypeMark) : AllGood t.words := by
  unfold TypeMark.words
  cases t.declared
  all_goals simp [symbol]

/-- A list of names is written with good words. -/
theorem good_nameWords {xs : List String} (h : ∀ x ∈ xs, IsName x) : AllGood (nameWords xs) :=
  allGood_separated (by decide) fun x hx => by simpa using h x hx

/-- A group of parameters is written with good words. -/
theorem Decl.good_parameterWords {d : Decl} (h : d.Denotable) : AllGood d.parameterWords := by
  obtain ⟨-, -, hnames, -⟩ := h
  have hx := good_nameWords hnames
  have ht := d.type.good_words
  simp [Decl.parameterWords, symbol, hx, ht]

/-- A declaration of variables is written with good words. -/
theorem Decl.good_words {d : Decl} (h : d.Denotable) : AllGood d.words := by
  obtain ⟨-, -, hnames, -⟩ := h
  have hx := good_nameWords hnames
  have ht := d.type.good_words
  simp [Decl.words, symbol, hx, ht]

/-! ## Statements -/

/-- A condition in parentheses is written with good words. -/
theorem good_conditionWords {e : Expr} (h : e.Denotable) : AllGood (conditionWords e) := by
  have he := e.good_words h 6
  simp [conditionWords, symbol, he]

mutual

/-- A denotable statement is written with good words. -/
theorem Stmt.good_words : (s : Stmt) → s.Denotable → AllGood s.words
  | .assign _ l e, h => by
    obtain ⟨-, hl, he⟩ := h
    have hleft := l.good_words hl
    have hright := e.good_words he 6
    simp [Stmt.words, symbol, hleft, hright]
  | .assignString _ l s, h => by
    obtain ⟨-, hl, hs⟩ := h
    have hleft := l.good_words hl
    simp [Stmt.words, symbol, hleft, hs]
  | .call _ l f es, h => by
    obtain ⟨-, hl, hf, hes⟩ := h
    have hleft := l.good_words hl
    have hargs : AllGood (separated .comma (fun e : Expr => e.words 6) es) :=
      allGood_separated (by decide) fun e he => e.good_words (hes e he) 6
    simp [Stmt.words, symbol, hleft, hf, hargs]
  | .ifThen _ e b, h => by
    obtain ⟨-, he, hb⟩ := h
    have hcond := good_conditionWords he
    have hthen := b.good_words hb
    simp [Stmt.words, symbol, hcond, hthen]
  | .ifElse _ e b b', h => by
    obtain ⟨-, he, hb, hb'⟩ := h
    have hcond := good_conditionWords he
    have hthen := b.good_words hb
    have helse := b'.good_words hb'
    simp [Stmt.words, symbol, hcond, hthen, helse]
  | .loop _ e b, h => by
    obtain ⟨-, he, hb⟩ := h
    have hcond := good_conditionWords he
    have hbody := b.good_words hb
    simp [Stmt.words, symbol, hcond, hbody]
  | .block _ b, h => b.good_words h.2

/-- A denotable block is written with good words. -/
theorem Block.good_words : (b : Block) → b.Denotable → AllGood b.words
  | .mk ds ss _, h => by
    obtain ⟨-, hds, hss⟩ := h
    have hdecls := allGood_flatMap fun d hd => Decl.good_words (hds d hd)
    have hstmts := good_stmtsWords ss hss
    simp [Block.words, symbol, hdecls, hstmts]

/-- Denotable statements are written with good words. -/
theorem good_stmtsWords : (ss : List Stmt) → stmtsDenotable ss → AllGood (stmtsWords ss)
  | [], _ => allGood_nil
  | s :: ss, h => allGood_append.mpr ⟨s.good_words h.1, good_stmtsWords ss h.2⟩

end

/-! ## Procedures and programs -/

/-- A denotable header is written with good words. -/
theorem Header.good_words {h : Header} (hd : h.Denotable) : AllGood h.words := by
  obtain ⟨-, hname, hparameters, -⟩ := hd
  have hgroups : AllGood (separated .semicolon Decl.parameterWords h.parameters) :=
    allGood_separated (by decide) fun d hd => Decl.good_parameterWords (hparameters d hd)
  have ht := h.returnType.good_words
  simp [Header.words, symbol, hname, hgroups, ht]

/-- A denotable return is written with good words. -/
theorem Return.good_words {r : Return} (h : r.Denotable) : AllGood r.words := by
  have he := r.value.good_words h.2 6
  simp [Return.words, symbol, he]

mutual

/-- A denotable procedure is written with good words. -/
theorem Procedure.good_words : (p : Procedure) → p.Denotable → AllGood p.words
  | .mk _ b, h => allGood_append.mpr ⟨Header.good_words h.1, b.good_words h.2⟩

/-- A denotable body is written with good words, the procedures in it included. -/
theorem Body.good_words : (b : Body) → b.Denotable → AllGood b.words
  | .mk ps ds ss r _, h => by
    obtain ⟨-, hps, hds, hss, hr⟩ := h
    have hprocs := good_proceduresWords ps hps
    have hdecls := allGood_flatMap fun d hd => Decl.good_words (hds d hd)
    have hstmts := good_stmtsWords ss hss
    have hresult := Return.good_words hr
    simp [Body.words, symbol, hprocs, hdecls, hstmts, hresult]

/-- Denotable procedures are written with good words. -/
theorem good_proceduresWords :
    (ps : List Procedure) → proceduresDenotable ps → AllGood (proceduresWords ps)
  | [], _ => allGood_nil
  | p :: ps, h => allGood_append.mpr ⟨p.good_words h.1, good_proceduresWords ps h.2⟩

end

/-- A denotable program is written with words that the scanner can tell, so its text has tokens. -/
theorem Program.good_words {p : Program} (h : p.Denotable) : AllGood p.words :=
  good_proceduresWords p.procedures h.2

end ProcLang
