import Lox.Syntax.Basic

/-!
Trees as parenthesised text: each node is its head and its parts, one space apart, in parentheses.
-/

namespace Lox

def Literal.text : Literal → String
  | nil => "nil"
  | bool true => "true"
  | bool false => "false"
  | number x => Binary64.expanded x
  | string s => s

mutual

def Expr.text : Expr → String
  | .literal value => value.text
  | .grouping inner => "(group " ++ inner.text ++ ")"
  | .unary operator right => "(" ++ operator.lexeme ++ " " ++ right.text ++ ")"
  | .binary left operator right | .logical left operator right =>
    "(" ++ operator.lexeme ++ " " ++ left.text ++ " " ++ right.text ++ ")"
  | .ref _ name => name.lexeme
  | .assign _ name value => "(= " ++ name.lexeme ++ " " ++ value.text ++ ")"
  | .call callee _ arguments => "(call " ++ callee.text ++ Expr.listText arguments ++ ")"

def Expr.listText : List Expr → String
  | [] => ""
  | e :: rest => " " ++ e.text ++ Expr.listText rest

end

mutual

def Stmt.text : Stmt → String
  | .expression e => "(; " ++ e.text ++ ")"
  | .print e => "(print " ++ e.text ++ ")"
  | .var name none => "(var " ++ name.lexeme ++ ")"
  | .var name (some e) => "(var " ++ name.lexeme ++ " " ++ e.text ++ ")"
  | .block body => "(block" ++ Stmt.listText body ++ ")"
  | .ifThen condition thenBranch => "(if " ++ condition.text ++ " " ++ thenBranch.text ++ ")"
  | .ifElse condition thenBranch elseBranch =>
    "(if " ++ condition.text ++ " " ++ thenBranch.text ++ " " ++ elseBranch.text ++ ")"
  | .loop condition body => "(while " ++ condition.text ++ " " ++ body.text ++ ")"
  | .function name params body =>
    "(fun " ++ name.lexeme ++ " (" ++ " ".intercalate (params.map (·.lexeme)) ++ ")" ++
      Stmt.listText body ++ ")"
  | .ret _ none => "(return)"
  | .ret _ (some e) => "(return " ++ e.text ++ ")"

def Stmt.listText : List Stmt → String
  | [] => ""
  | s :: rest => " " ++ s.text ++ Stmt.listText rest

end

end Lox
