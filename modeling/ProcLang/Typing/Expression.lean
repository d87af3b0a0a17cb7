/-
  Checking expressions and locations.

  The parts of an expression are visited from left to right, and then its own rule is applied.
  A node takes its basetype only when its rule holds.
-/
import ProcLang.Tree.Expr
import ProcLang.Typing.Rule
import ProcLang.Typing.Visit

namespace ProcLang

open Found

mutual

/-- Checks an expression. -/
def Expr.check (env : Env) : Expr → Found Expr Basetype
  | .binary a op l r =>
    (l.check env).andThen (fun l => .binary a op l r) fun l left =>
      (r.check env).andThen (fun r => .binary a op l r) fun r right =>
        conclude a (Rule.binary op left right) fun a => .binary a op l r
  | .unary a op e =>
    (e.check env).andThen (fun e => .unary a op e) fun e operand =>
      conclude a (Rule.unary op operand) fun a => .unary a op e
  | .addressOf a l =>
    (l.check env).andThen (fun l => .addressOf a l) fun l target =>
      conclude a (Rule.addressOf target) fun a => .addressOf a l
  | .element a x i =>
    (i.check env).andThen (fun i => .element a x i) fun i index =>
      conclude a (Rule.element (env x) index) fun a => .element a x i
  | .named a x => conclude a (Rule.named (env x)) fun a => .named a x
  | .integer a n => conclude a (.ok .integer) fun a => .integer a n
  | .char a c => conclude a (.ok .char) fun a => .char a c
  | .boolean a b => conclude a (.ok .boolean) fun a => .boolean a b
  | .null a => conclude a (.ok .null) fun a => .null a

/-- Checks a location. -/
def Location.check (env : Env) : Location → Found Location Basetype
  | .named a x => conclude a (Rule.named (env x)) fun a => .named a x
  | .pointee a x => conclude a (Rule.named (env x) >>= Rule.deref) fun a => .pointee a x
  | .element a x i =>
    (i.check env).andThen (fun i => .element a x i) fun i index =>
      conclude a (Rule.element (env x) index) fun a => .element a x i

end

/-- Checks the arguments of a call, in order. -/
def checkArguments (env : Env) : List Expr → Found (List Expr) (List Basetype)
  | [] => ⟨[], .ok []⟩
  | e :: es =>
    (e.check env).andThen (fun e => e :: es) fun e b =>
      (checkArguments env es).andThen (fun es => e :: es) fun es bs => ⟨e :: es, .ok (b :: bs)⟩

end ProcLang
