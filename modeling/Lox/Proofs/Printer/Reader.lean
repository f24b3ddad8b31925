import Lox.Proofs.Grammar.Tokens
import Lox.Proofs.Printer.Form
import Lox.Proofs.Unparse.Shape

/-! Reading trees from nested lists. A tree that is read from its text has neither the numbers of
its sites nor the places of its tokens. -/

namespace Lox

open Grammar Sexp

def Token.bare (t : Token) : Token := ⟨t.type, t.lexeme, 0, 0⟩

def Expr.bare (e : Expr) : Expr := (e.mapSites fun _ => 0).mapTokens Token.bare

def Expr.listBare (es : List Expr) : List Expr :=
  Expr.listMapTokens Token.bare (Expr.listMapSites (fun _ => 0) es)

def Stmt.bare (s : Stmt) : Stmt := (s.mapSites fun _ => 0).mapTokens Token.bare

def Stmt.listBare (b : List Stmt) : List Stmt :=
  Stmt.listMapTokens Token.bare (Stmt.listMapSites (fun _ => 0) b)

namespace Sexp

def token? (w : String) : Option Token :=
  match w.toList with
  | [] => none
  | c :: cs =>
    match (Scan.munch c cs).kind with
    | .token type => some ⟨type, w, 0, 0⟩
    | _ => none

def simple? (w : String) : Option Expr := do
  let t ← token? w
  match literal? t.type with
  | some v => some (.literal v)
  | none => if t.type.sameKind .identifier then some (.ref 0 t) else none

def operation? (op : Token) : List Expr → Option Expr
  | [right] => some (.unary op right)
  | [left, right] =>
    some (if op.type.binds ≤ 2 then .logical left op right else .binary left op right)
  | _ => none

def compound? (head : String) (parts : List Expr) : Option Expr :=
  if head = "group" then
    match parts with
    | [inner] => some (.grouping inner)
    | _ => none
  else if head = "call" then
    match parts with
    | callee :: args => (token? ")").map fun paren => .call callee paren args
    | _ => none
  else if head = "=" then
    match parts with
    | [.ref site name, value] => some (.assign site name value)
    | _ => none
  else (token? head).bind fun op => operation? op parts

mutual

def expr? : Sexp → Option Expr
  | word w => simple? w
  | list (word head :: parts) => (exprs? parts).bind (compound? head)
  | list _ => none

def exprs? : List Sexp → Option (List Expr)
  | [] => some []
  | part :: rest => do some ((← part.expr?) :: (← exprs? rest))

end

def names? : List Sexp → Option (List Token)
  | [] => some []
  | word w :: rest => do some ((← token? w) :: (← names? rest))
  | list _ :: _ => none

mutual

def stmt? : Sexp → Option Stmt
  | list (word head :: parts) =>
    if head = ";" then
      match parts with
      | [e] => e.expr?.map .expression
      | _ => none
    else if head = "print" then
      match parts with
      | [e] => e.expr?.map .print
      | _ => none
    else if head = "var" then
      match parts with
      | [word name] => do some (.var (← token? name) none)
      | [word name, e] => do some (.var (← token? name) (some (← e.expr?)))
      | _ => none
    else if head = "block" then (stmts? parts).map .block
    else if head = "if" then
      match parts with
      | [c, s] => do some (.ifThen (← c.expr?) (← s.stmt?))
      | [c, s, t] => do some (.ifElse (← c.expr?) (← s.stmt?) (← t.stmt?))
      | _ => none
    else if head = "while" then
      match parts with
      | [c, s] => do some (.loop (← c.expr?) (← s.stmt?))
      | _ => none
    else if head = "fun" then
      match parts with
      | word name :: list params :: body => do
        some (.function (← token? name) (← names? params) (← stmts? body))
      | _ => none
    else if head = "return" then
      match parts with
      | [] => do some (.ret (← token? head) none)
      | [e] => do some (.ret (← token? head) (some (← e.expr?)))
      | _ => none
    else none
  | _ => none

def stmts? : List Sexp → Option (List Stmt)
  | [] => some []
  | part :: rest => do some ((← part.stmt?) :: (← stmts? rest))

end

end Sexp

end Lox
