import Lox.Token.Basic

/-!
Syntax trees. Each use of a variable is a *site* with a number of its own, so that two uses of one
name are never confused.
-/

namespace Lox

abbrev SiteId := Nat

inductive Literal where
  | nil
  | bool (b : Bool)
  | number (x : Float)
  | string (s : String)

inductive Expr where
  | literal (value : Literal)
  | grouping (inner : Expr)
  | unary (operator : Token) (right : Expr)
  | binary (left : Expr) (operator : Token) (right : Expr)
  | logical (left : Expr) (operator : Token) (right : Expr)
  | ref (site : SiteId) (name : Token)
  | assign (site : SiteId) (name : Token) (value : Expr)
  | call (callee : Expr) (paren : Token) (arguments : List Expr)

namespace Expr

def line? : Expr → Option Nat
  | literal _ => none
  | grouping inner => inner.line?
  | unary operator _ | binary _ operator _ | logical _ operator _ => some operator.line
  | ref _ name | assign _ name _ => some name.line
  | call _ paren _ => some paren.line

end Expr

/-- Statements. A `for` loop has no form of its own: it is a `loop` in blocks. -/
inductive Stmt where
  | expression (e : Expr)
  | print (e : Expr)
  | var (name : Token) (initializer : Option Expr)
  | block (body : List Stmt)
  | ifThen (condition : Expr) (thenBranch : Stmt)
  | ifElse (condition : Expr) (thenBranch elseBranch : Stmt)
  | loop (condition : Expr) (body : Stmt)
  | function (name : Token) (params : List Token) (body : List Stmt)
  | ret (keyword : Token) (value : Option Expr)

end Lox
