/-
  The static semantics by recursion on the tree alone.

  `Static.program p` says whether a program keeps the static rules, and if not, which violation
  comes first.  Its environment is a plain stack of frames, innermost first, and a frame is a map
  from names to what they stand for.  There are no scope numbers and no arena, a frame that is
  left is gone, and nothing is written into the tree:

  * the signatures of procedures that stand side by side are bound in order before any of their
    bodies: the parameters of each, its return type, its name in the frame around;
  * a body is checked in a frame that holds the parameters: nested procedures, then local
    declarations, then statements, then the return, whose value has the declared type;
  * a nested block has a frame of its own;
  * parts are visited from left to right before the rule of the whole is applied, but a condition
    is judged after the blocks that it guards.

  The rules of the constructs are those of `ProcLang.Rule`.
-/
import ProcLang.Tree.Program
import ProcLang.Typing.Rule
import ProcLang.Typing.Visit

namespace ProcLang.Static

/-! ## Frames -/

/-- What the names of one frame stand for. -/
abbrev Frame := String → Option Entity

/-- The frame without names. -/
def Frame.empty : Frame := fun _ => none

/-- The frame with one more name. -/
def Frame.bind (f : Frame) (x : String) (e : Entity) : Frame :=
  fun y => if y = x then some e else f y

/-- The frame with one more name, unless it has the name already. -/
def Frame.add (f : Frame) (x : String) (e : Entity) (taken : SemanticError) :
    Except SemanticError Frame :=
  match f x with
  | some _ => .error taken
  | none => .ok (f.bind x e)

/-- A stack of frames, innermost first. -/
abbrev Frames := List Frame

/-- What a name stands for: the innermost frame that has it says so. -/
def Frames.find (fs : Frames) (x : String) : Option Entity := fs.findSome? fun f => f x

/-! ## Expressions -/

mutual

/-- The basetype of an expression. -/
def typeOf (fs : Frames) : Expr → Except SemanticError Basetype
  | .binary a op l r => do
    let left ← typeOf fs l
    let right ← typeOf fs r
    onLine a.line (Rule.binary op left right)
  | .unary a op e => do
    let operand ← typeOf fs e
    onLine a.line (Rule.unary op operand)
  | .addressOf a l => do
    let target ← typeAt fs l
    onLine a.line (Rule.addressOf target)
  | .element a x i => do
    let index ← typeOf fs i
    onLine a.line (Rule.element (fs.find x) index)
  | .named a x => onLine a.line (Rule.named (fs.find x))
  | .integer _ _ => .ok .integer
  | .char _ _ => .ok .char
  | .boolean _ _ => .ok .boolean
  | .null _ => .ok .null

/-- The basetype of a location. -/
def typeAt (fs : Frames) : Location → Except SemanticError Basetype
  | .named a x => onLine a.line (Rule.named (fs.find x))
  | .pointee a x => do
    let pointer ← onLine a.line (Rule.named (fs.find x))
    onLine a.line (Rule.deref pointer)
  | .element a x i => do
    let index ← typeOf fs i
    onLine a.line (Rule.element (fs.find x) index)

end

/-- The basetypes of arguments. -/
def typesOf (fs : Frames) : List Expr → Except SemanticError (List Basetype)
  | [] => .ok []
  | e :: es => do
    let b ← typeOf fs e
    let bs ← typesOf fs es
    .ok (b :: bs)

/-! ## Declarations -/

/-- The frame with variables of one basetype, declared on line `line`. -/
def addVariables (line : Nat) (type : Basetype) (f : Frame) :
    List String → Except SemanticError Frame
  | [] => .ok f
  | x :: xs => do
    let f ← f.add x (.value type) ⟨.duplicateVariable, line⟩
    addVariables line type f xs

/-- The frame with the names of declarations. -/
def declared (f : Frame) : List Decl → Except SemanticError Frame
  | [] => .ok f
  | d :: ds => do
    let f ← addVariables d.attr.line d.type.basetype f d.names
    declared f ds

/-! ## Statements -/

mutual

/-- The verdict on a statement. -/
def stmt (fs : Frames) : Stmt → Except SemanticError Unit
  | .assign a l e => do
    let target ← typeAt fs l
    let value ← typeOf fs e
    let _ ← onLine a.line (Rule.assignment target value)
    .ok ()
  | .assignString a l _ => do
    let target ← typeAt fs l
    let _ ← onLine a.line (Rule.stringAssignment target)
    .ok ()
  | .call a l g es => do
    let target ← typeAt fs l
    let arguments ← typesOf fs es
    let _ ← onLine a.line (Rule.call (fs.find g) arguments target)
    .ok ()
  | .ifThen _ c b => do
    let condition ← typeOf fs c
    block fs b
    onLine c.attr.line (Rule.predicate condition .ifPredicate)
  | .ifElse _ c b b' => do
    let condition ← typeOf fs c
    block fs b
    block fs b'
    onLine c.attr.line (Rule.predicate condition .ifPredicate)
  | .loop _ c b => do
    let condition ← typeOf fs c
    block fs b
    onLine c.attr.line (Rule.predicate condition .whilePredicate)
  | .block _ b => block fs b

/-- The verdict on a nested block, which has a frame of its own. -/
def block (fs : Frames) : Block → Except SemanticError Unit
  | .mk ds ss _ => do
    let f ← declared .empty ds
    stmts (f :: fs) ss

/-- The verdict on statements, in order. -/
def stmts (fs : Frames) : List Stmt → Except SemanticError Unit
  | [] => .ok ()
  | s :: ss => do
    stmt fs s
    stmts fs ss

end

/-- The basetype that a return gives back. -/
def returned (fs : Frames) (r : Return) : Except SemanticError Basetype := do
  let value ← typeOf fs r.value
  onLine r.attr.line (Rule.returned value)

/-! ## Procedures -/

/-- The frame of the parameters of a procedure. -/
def parameters (h : Header) : Except SemanticError Frame := declared .empty h.parameters

/-- The violation of a second procedure of the same name. -/
def takenName (x : String) : Violation := if x = "Main" then .noMain else .duplicateProcedure

/-- The frame with the signature of a procedure. -/
def signature (f : Frame) (h : Header) : Except SemanticError Frame := do
  let _ ← parameters h
  f.add h.name (.procedure h.parameterTypes h.returnType.basetype) ⟨takenName h.name, h.attr.line⟩

/-- The frame with the signatures of procedures that stand side by side. -/
def signatures (f : Frame) : List Header → Except SemanticError Frame
  | [] => .ok f
  | h :: hs => do
    let f ← signature f h
    signatures f hs

mutual

/-- The basetype that a body returns, in the frame `f` of the parameters. -/
def body (fs : Frames) (f : Frame) : Body → Except SemanticError Basetype
  | .mk ps ds ss r _ => do
    let f ← signatures f (ps.map Procedure.header)
    procedures (f :: fs) ps
    let f ← declared f ds
    stmts (f :: fs) ss
    returned (f :: fs) r

/-- The verdict on a procedure whose signature is bound. -/
def procedure (fs : Frames) : Procedure → Except SemanticError Unit
  | .mk h b => do
    let f ← parameters h
    let result ← body fs f b
    let _ ← onLine h.attr.line (Rule.procedure h.returnType.basetype result)
    .ok ()

/-- The verdict on procedures whose signatures are bound, in order. -/
def procedures (fs : Frames) : List Procedure → Except SemanticError Unit
  | [] => .ok ()
  | p :: ps => do
    procedure fs p
    procedures fs ps

end

/-! ## Programs -/

/-- The global frame has `Main`, which takes no parameters. -/
def main (f : Frame) : Except Violation Unit :=
  match f "Main" with
  | none => .error .noMain
  | some e => if e.parameterTypes.isEmpty then .ok () else .error .nonVoidMain

/-- The verdict on a program. -/
def program (p : Program) : Except SemanticError Unit := do
  let f ← signatures .empty (p.procedures.map Procedure.header)
  procedures [f] p.procedures
  onLine p.attr.line (main f)

end ProcLang.Static
