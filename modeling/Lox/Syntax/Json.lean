import Lox.Syntax.Basic
import Lox.Json

/-!
Trees as JSON. A node is an object with one member, whose key names its form; a form without parts
is a string.
-/

namespace Lox

def Json.tagged (tag : String) (content : Json) : Json := .object [(tag, content)]

def TokenType.toJson : TokenType → Json
  | .string contents => .tagged "STRING" (.string contents)
  | .number value => .tagged "NUMBER" (.number (Binary64.json value))
  | t => .string t.name

def Token.toJson (t : Token) : Json :=
  .object [("token_type", t.type.toJson), ("lexeme", .string t.lexeme),
    ("line", .number (toString t.line))]

def Literal.toJson : Literal → Json
  | nil => .string "Nil"
  | bool true => .string "True"
  | bool false => .string "False"
  | number x => .tagged "Number" (.number (Binary64.json x))
  | string s => .tagged "Str" (.string s)

mutual

def Expr.toJson : Expr → Json
  | .literal value => .tagged "Literal" value.toJson
  | .grouping inner => .tagged "Grouping" inner.toJson
  | .unary operator right =>
    .tagged "Unary" (.object [("operator", operator.toJson), ("right", right.toJson)])
  | .binary left operator right =>
    .tagged "Binary" (.object
      [("left", left.toJson), ("operator", operator.toJson), ("right", right.toJson)])
  | .logical left operator right =>
    .tagged "Logical" (.object
      [("left", left.toJson), ("operator", operator.toJson), ("right", right.toJson)])
  | .ref site name =>
    .tagged "Variable" (.object [("id", .number (toString site)), ("name", name.toJson)])
  | .assign site name value =>
    .tagged "Assign" (.object
      [("id", .number (toString site)), ("name", name.toJson), ("value", value.toJson)])
  | .call callee paren arguments =>
    .tagged "Call" (.object
      [("callee", callee.toJson), ("paren", paren.toJson),
        ("arguments", .array (Expr.listToJson arguments))])

def Expr.listToJson : List Expr → List Json
  | [] => []
  | e :: rest => e.toJson :: Expr.listToJson rest

end

def Expr.optionToJson : Option Expr → Json
  | none => .null
  | some e => e.toJson

mutual

def Stmt.toJson : Stmt → Json
  | .expression e => .tagged "Expression" e.toJson
  | .print e => .tagged "Print" e.toJson
  | .var name initializer =>
    .tagged "Var" (.object
      [("name", name.toJson), ("initializer", Expr.optionToJson initializer)])
  | .block body => .tagged "Block" (.array (Stmt.listToJson body))
  | .ifThen condition thenBranch =>
    .tagged "If" (.object
      [("condition", condition.toJson), ("then_branch", thenBranch.toJson),
        ("else_branch", .null)])
  | .ifElse condition thenBranch elseBranch =>
    .tagged "If" (.object
      [("condition", condition.toJson), ("then_branch", thenBranch.toJson),
        ("else_branch", elseBranch.toJson)])
  | .loop condition body =>
    .tagged "While" (.object [("condition", condition.toJson), ("body", body.toJson)])
  | .function name params body =>
    .tagged "Function" (.object
      [("name", name.toJson), ("params", .array (params.map Token.toJson)),
        ("body", .array (Stmt.listToJson body))])
  | .ret keyword value =>
    .tagged "Return" (.object
      [("keyword", keyword.toJson), ("value", Expr.optionToJson value)])

def Stmt.listToJson : List Stmt → List Json
  | [] => []
  | s :: rest => s.toJson :: Stmt.listToJson rest

end

def Stmt.json (program : List Stmt) : String := (Json.array (Stmt.listToJson program)).pretty 0

end Lox
