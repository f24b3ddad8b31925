import Lox.Eval.Machine
import Lox.Proofs.Binding.Visits

/-! Following the walk along a run: where it visited what the machine does. -/

namespace Lox

open Binding Machine

/-- Beside a machine, the scopes that the walk had open where it visited what is done now, those
where it visited each thing that remains, and those in which the body of each function begins. -/
structure Trace where
  scopes : List Scope
  pending : List (List Scope)
  bodies : List (List Scope)

namespace Trace

def load (bodies : List (List Scope)) : Trace := ⟨[], [[]], bodies⟩

def remain (t : Trace) : Trace := { t with pending := t.scopes :: t.pending }

def resume (t : Trace) : Trace :=
  { t with scopes := t.pending.headD [], pending := t.pending.tail }

variable (setting : Setting)

def apply (callee : Value) (args : List Value) (w : World) (t : Trace) : Trace :=
  match callee with
  | .function i declaration _ =>
    match w.refusal? setting declaration.params.length args with
    | some _ => t
    | none => { t with pending := t.bodies.getD i [] :: t.scopes :: t.pending }
  | _ => t

def nextArgument (callee : Value) (evaluated : List Value) (rest : List Expr) (w : World)
    (t : Trace) : Trace :=
  match rest with
  | [] => t.apply setting callee evaluated.reverse w
  | _ :: _ => t.remain

def stepExpr (e : Expr) (t : Trace) : Trace :=
  match e with
  | .literal _ | .grouping _ | .ref _ _ => t
  | .unary _ _ | .binary _ _ _ | .logical _ _ _ | .assign _ _ _ | .call _ _ _ => t.remain

def stepStmt (s : Stmt) (t : Trace) : Trace :=
  match s with
  | .expression _ | .var _ none | .ret _ none => t
  | .var name (some _) =>
    { t with scopes := enter name false t.scopes, pending := t.scopes :: t.pending }
  | .block _ => { t with pending := ([] :: t.scopes) :: t.scopes :: t.pending }
  | .function name params _ =>
    { t with bodies := t.bodies ++ [paramScopes params (declared name t.scopes)] }
  | .print _ | .ifThen _ _ | .ifElse _ _ _ | .loop _ _ | .ret _ (some _) => t.remain

def stepValue (v : Value) (next : Pending) (w : World) (t : Trace) : Trace :=
  match next with
  | .binaryLeft _ _ | .loopBody _ _ => t.remain
  | .callee _ arguments => t.nextArgument setting v [] arguments w
  | .argument callee _ evaluated rest => t.nextArgument setting callee (v :: evaluated) rest w
  | .loopTest _ _ => if v.isTruthy then t.remain else t
  | .sequence (s :: _) => { t with pending := scopesAfter s t.scopes :: t.pending }
  | _ => t

def step : Machine → Trace → Trace
  | ⟨.eval e, _, _⟩, t => t.stepExpr e
  | ⟨.exec s, _, _⟩, t => t.stepStmt s
  | ⟨.yield v, next :: _, w⟩, t => t.resume.stepValue setting v next w
  | ⟨.returning _, _ :: _, _⟩, t | ⟨.failing _, _ :: _, _⟩, t => t.resume
  | ⟨_, [], _⟩, t => t

def run : ℕ → Machine → Trace → Trace
  | 0, _, t => t
  | n + 1, m, t => if m.isOver then t else run n (m.step setting) (t.step setting m)

end Trace

end Lox
