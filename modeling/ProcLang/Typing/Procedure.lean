/-
  Checking procedures and programs.

  Procedures that stand side by side are checked in two passes.  The first binds the parameters
  of each one in a new scope, and its name in the scope around; the second opens those scopes
  again, one by one, for the bodies.  So siblings can call one another in any order.
-/
import ProcLang.Typing.Statement

namespace ProcLang

open Found

/-! ## Headers -/

/-- The name that a program starts with. -/
def mainName : String := "Main"

/-- The violation of a second procedure of the same name. -/
def clash (name : String) : Violation :=
  if name = mainName then .noMain else .duplicateProcedure

/-- Binds the parameters of a procedure in a new scope, and its name in the scope around that
    one; finds the number of the new scope, and closes it. -/
def Header.declare (t : Table) (h : Header) : Visit Header Nat :=
  (checkDecls t.openScope h.parameters).andThen (fun ds => { h with parameters := ds })
    fun ds t' _ =>
      let declared := { h with parameters := ds, returnType := h.returnType.annotate }
      match t'.insertOutside h.name (.procedure declared.parameterTypes h.returnType.basetype) with
      | .ok t'' => ⟨declared, t''.closeScope, .ok t.scopes.size⟩
      | .error _ => ⟨declared, t', .error ⟨clash h.name, h.attr.line⟩⟩

/-- Declares procedures, in order. -/
def declareAll (t : Table) : List Header → Visit (List Header) (List Nat)
  | [] => ⟨[], t, .ok []⟩
  | h :: hs =>
    (h.declare t).andThen (fun h => h :: hs) fun h t id =>
      (declareAll t hs).andThen (fun hs => h :: hs) fun hs t ids =>
        ⟨h :: hs, t, .ok (id :: ids)⟩

/-- Procedures under new headers, as far as there are any. -/
def withHeaders : List Procedure → List Header → List Procedure
  | p :: ps, h :: hs => p.withHeader h :: withHeaders ps hs
  | ps, _ => ps

/-- Declares procedures, and goes on to their bodies with the headers and their scopes. -/
def declareThen (t : Table) (ps : List Procedure)
    (bodies : Table → List (Header × Nat) → Visit (List Procedure) Unit) :
    Visit (List Procedure) Unit :=
  (declareAll t (ps.map Procedure.header)).andThen (withHeaders ps) fun hs t ids =>
    bodies t (hs.zip ids)

/-! ## Bodies -/

mutual

/-- Checks a procedure body in the scope of the parameters; finds the basetype it returns. -/
def Body.check (t : Table) : Body → Visit Body Basetype
  | .mk ps ds ss r a =>
    (declareThen t ps fun t hs => checkBodies t hs ps).andThen (fun ps => .mk ps ds ss r a)
      fun ps t _ =>
        (checkDecls t ds).andThen (fun ds => .mk ps ds ss r a) fun ds t _ =>
          (checkStmts t ss).andThen (fun ss => .mk ps ds ss r a) fun ss t _ =>
            ((r.check t.env).within t).andThen (fun r => .mk ps ds ss r a) fun r t result =>
              ⟨.mk ps ds ss r (a.mark result), t, .ok result⟩

/-- Checks the body of a procedure, under its declared header, in the scope `id`. -/
def Procedure.checkBody (t : Table) (h : Header) (id : Nat) : Procedure → Visit Procedure Unit
  | .mk _ b =>
    match t.reenter? id with
    | none => ⟨.mk h b, t, .error ⟨.unclassified, h.attr.line⟩⟩
    | some t =>
      (b.check t).andThen (fun b => .mk h b) fun b t result =>
        ((conclude h.attr (Rule.procedure h.returnType.attr.basetype result) fun a =>
          Procedure.mk { h with attr := a } b).within t.closeScope).forget

/-- Checks the bodies of procedures, in order, under their declared headers and in the scopes
    that go with them. -/
def checkBodies (t : Table) (hs : List (Header × Nat)) :
    List Procedure → Visit (List Procedure) Unit
  | [] => ⟨[], t, .ok ()⟩
  | p :: ps =>
    match hs with
    | [] => ⟨p :: ps, t, .ok ()⟩
    | (h, id) :: hs =>
      (p.checkBody t h id).andThen (fun p => p :: withHeaders ps (hs.map Prod.fst)) fun p t _ =>
        (checkBodies t hs ps).mapNode fun ps => p :: ps

end

/-- Checks procedures that stand side by side. -/
def checkProcedures (t : Table) (ps : List Procedure) : Visit (List Procedure) Unit :=
  declareThen t ps fun t hs => checkBodies t hs ps

/-! ## Programs -/

/-- The global scope binds `Main`, and to nothing with parameters. -/
def mainVerdict (t : Table) : Except Violation Unit :=
  match (t.lookup mainName).filter fun s => s.scope = Table.globalId with
  | none => .error .noMain
  | some s => if s.entity.parameterTypes.isEmpty then .ok () else .error .nonVoidMain

/-- Checks a program. -/
def Program.check (t : Table) (p : Program) : Visit Program Unit :=
  (checkProcedures t p.procedures).andThen (fun ps => { p with procedures := ps }) fun ps t _ =>
    ⟨{ p with procedures := ps }, t, onLine p.attr.line (mainVerdict t)⟩

/-- Checks a program with nothing declared before it. -/
def Program.typeCheck (p : Program) : Visit Program Unit := p.check .initial

end ProcLang
