import Lox.Diagnostic

/-!
Where variables live. One walk over a program finds, for each variable site inside a scope that
declares its name, the *distance* of that scope: how many scopes lie between them. A site without a
distance belongs to a global variable.
-/

namespace Lox

inductive ScopeFault where
  | ownInitializer
  | returnOutsideFunction
deriving DecidableEq, Repr

def ScopeFault.message : ScopeFault → String
  | ownInitializer => "Can't read local variable in its own initializer."
  | returnOutsideFunction => "Can't return from top-level code."

structure ScopeError where
  fault : ScopeFault
  found : Token

def ScopeError.diagnostic (e : ScopeError) : Diagnostic := .scoping e.found e.fault.message

namespace Binding

abbrev Scope := List (String × Bool)

structure Walk where
  scopes : List Scope
  distances : List (SiteId × Nat)
  errors : List ScopeError

namespace Walk

def start : Walk := ⟨[], [], []⟩

def openScope (w : Walk) : Walk := { w with scopes := [] :: w.scopes }

def closeScope (w : Walk) : Walk := { w with scopes := w.scopes.tail }

def enter (name : Token) (complete : Bool) (w : Walk) : Walk :=
  match w.scopes with
  | [] => w
  | scope :: outer => { w with scopes := ((name.lexeme, complete) :: scope) :: outer }

def declare (name : Token) (w : Walk) : Walk := w.enter name false

def define (name : Token) (w : Walk) : Walk := w.enter name true

def error (fault : ScopeFault) (found : Token) (w : Walk) : Walk :=
  { w with errors := ⟨fault, found⟩ :: w.errors }

def distance? (w : Walk) (name : String) : Option Nat :=
  w.scopes.findIdx? fun scope => (scope.lookup name).isSome

def locate (site : SiteId) (name : Token) (w : Walk) : Walk :=
  match w.distance? name.lexeme with
  | some d => { w with distances := (site, d) :: w.distances }
  | none => w

def isPending (w : Walk) (name : String) : Bool :=
  w.scopes.head?.any (·.lookup name == some false)

end Walk

mutual

def visit : Expr → Walk → Walk
  | .literal _, w => w
  | .grouping inner, w => visit inner w
  | .unary _ right, w => visit right w
  | .binary left _ right, w | .logical left _ right, w => visit right (visit left w)
  | .ref site name, w =>
    (if w.isPending name.lexeme then w.error .ownInitializer name else w).locate site name
  | .assign site name value, w => (visit value w).locate site name
  | .call callee _ arguments, w => visitList arguments (visit callee w)

def visitList : List Expr → Walk → Walk
  | [], w => w
  | e :: rest, w => visitList rest (visit e w)

end

def visitOption : Option Expr → Walk → Walk
  | none, w => w
  | some e, w => visit e w

mutual

/-- A variable is declared before its initializer and complete after it; a function is complete
before its body, and its parameters and body share one scope. -/
def visitStmt (inFunction : Bool) : Stmt → Walk → Walk
  | .expression e, w | .print e, w => visit e w
  | .var name initializer, w => (visitOption initializer (w.declare name)).define name
  | .block body, w => (visitStmts inFunction body w.openScope).closeScope
  | .ifThen condition thenBranch, w => visitStmt inFunction thenBranch (visit condition w)
  | .ifElse condition thenBranch elseBranch, w =>
    visitStmt inFunction elseBranch (visitStmt inFunction thenBranch (visit condition w))
  | .loop condition body, w => visitStmt inFunction body (visit condition w)
  | .function name params body, w =>
    let inner := ((w.declare name).define name).openScope
    let inner := params.foldl (fun w p => (w.declare p).define p) inner
    (visitStmts true body inner).closeScope
  | .ret keyword value, w =>
    visitOption value (if inFunction then w else w.error .returnOutsideFunction keyword)

def visitStmts (inFunction : Bool) : List Stmt → Walk → Walk
  | [], w => w
  | s :: rest, w => visitStmts inFunction rest (visitStmt inFunction s w)

end

end Binding

structure Binding where
  distances : List (SiteId × Nat)
  errors : List ScopeError

/-- The binding of a whole program. Distances are found whether or not there are errors. -/
def Binding.ofProgram (program : List Stmt) : Binding :=
  let w := visitStmts false program .start
  ⟨w.distances.reverse, w.errors.reverse⟩

end Lox
