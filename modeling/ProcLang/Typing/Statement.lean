/-
  Checking declarations, statements and nested blocks.

  A declaration binds its names in the current scope; a nested block opens a scope of its own.
  A condition is visited before the blocks it guards and judged after them.
-/
import ProcLang.Tree.Program
import ProcLang.Typing.Expression

namespace ProcLang

open Found

/-! ## Declarations -/

/-- A declared type with the basetype that it denotes. -/
def TypeMark.annotate (t : TypeMark) : TypeMark := { t with attr := t.attr.mark t.basetype }

/-- A declaration with the basetype of its type. -/
def Decl.annotate (d : Decl) : Decl :=
  { d with type := d.type.annotate, attr := d.attr.mark d.type.basetype }

/-- Binds variables of one basetype in the current scope, up to the first name that is taken. -/
def bindNames (t : Table) (type : Basetype) : List String → Table × Except Violation Unit
  | [] => (t, .ok ())
  | x :: xs =>
    match t.insert x (.value type) with
    | .ok t' => bindNames t' type xs
    | .error _ => (t, .error .duplicateVariable)

/-- Checks a declaration. -/
def Decl.check (t : Table) (d : Decl) : Visit Decl Unit :=
  let bound := bindNames t d.type.basetype d.names
  ⟨d.annotate, bound.1, onLine d.attr.line bound.2⟩

/-- Checks declarations, in order. -/
def checkDecls (t : Table) : List Decl → Visit (List Decl) Unit
  | [] => ⟨[], t, .ok ()⟩
  | d :: ds =>
    (d.check t).andThen (fun d => d :: ds) fun d t _ =>
      (checkDecls t ds).mapNode fun ds => d :: ds

/-! ## Statements -/

/-- Checks an assignment. -/
def checkAssign (env : Env) (a : Attribute) (l : Location) (e : Expr) : Found Stmt Basetype :=
  (l.check env).andThen (fun l => .assign a l e) fun l target =>
    (e.check env).andThen (fun e => .assign a l e) fun e value =>
      conclude a (Rule.assignment target value) fun a => .assign a l e

/-- Checks an assignment of a string literal. -/
def checkAssignString (env : Env) (a : Attribute) (l : Location) (text : String) :
    Found Stmt Basetype :=
  (l.check env).andThen (fun l => .assignString a l text) fun l target =>
    conclude a (Rule.stringAssignment target) fun a => .assignString a l text

/-- Checks a call: the target, the arguments, and then the name of the procedure. -/
def checkCall (env : Env) (a : Attribute) (l : Location) (f : String) (es : List Expr) :
    Found Stmt Basetype :=
  (l.check env).andThen (fun l => .call a l f es) fun l target =>
    (checkArguments env es).andThen (fun es => .call a l f es) fun es arguments =>
      conclude a (Rule.call (env f) arguments target) fun a => .call a l f es

mutual

/-- Checks a statement. -/
def Stmt.check (t : Table) : Stmt → Visit Stmt Unit
  | .assign a l e => ((checkAssign t.env a l e).within t).forget
  | .assignString a l text => ((checkAssignString t.env a l text).within t).forget
  | .call a l f es => ((checkCall t.env a l f es).within t).forget
  | .ifThen a c b =>
    ((c.check t.env).within t).andThen (fun c => .ifThen a c b) fun c t condition =>
      (b.check t).andThen (fun b => .ifThen a c b) fun b t _ =>
        ⟨.ifThen a c b, t, onLine c.attr.line (Rule.predicate condition .ifPredicate)⟩
  | .ifElse a c b b' =>
    ((c.check t.env).within t).andThen (fun c => .ifElse a c b b') fun c t condition =>
      (b.check t).andThen (fun b => .ifElse a c b b') fun b t _ =>
        (b'.check t).andThen (fun b' => .ifElse a c b b') fun b' t _ =>
          ⟨.ifElse a c b b', t, onLine c.attr.line (Rule.predicate condition .ifPredicate)⟩
  | .loop a c b =>
    ((c.check t.env).within t).andThen (fun c => .loop a c b) fun c t condition =>
      (b.check t).andThen (fun b => .loop a c b) fun b t _ =>
        ⟨.loop a c b, t, onLine c.attr.line (Rule.predicate condition .whilePredicate)⟩
  | .block a b => (b.check t).mapNode fun b => .block a b

/-- Checks a nested block in a scope of its own. -/
def Block.check (t : Table) : Block → Visit Block Unit
  | .mk ds ss a =>
    (checkDecls t.openScope ds).andThen (fun ds => .mk ds ss a) fun ds t _ =>
      (checkStmts t ss).andThen (fun ss => .mk ds ss a) fun ss t _ =>
        ⟨.mk ds ss a, t.closeScope, .ok ()⟩

/-- Checks statements, in order. -/
def checkStmts (t : Table) : List Stmt → Visit (List Stmt) Unit
  | [] => ⟨[], t, .ok ()⟩
  | s :: ss =>
    (s.check t).andThen (fun s => s :: ss) fun s t _ =>
      (checkStmts t ss).mapNode fun ss => s :: ss

end

/-- Checks a return. -/
def Return.check (env : Env) (r : Return) : Found Return Basetype :=
  (r.value.check env).andThen (fun e => { r with value := e }) fun e value =>
    conclude r.attr (Rule.returned value) fun a => ⟨e, a⟩

end ProcLang
