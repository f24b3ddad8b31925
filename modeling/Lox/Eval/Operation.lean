import Lox.Eval.Value
import Lox.Diagnostic

/-!
What operators do to values, and what can go wrong in a running program.
-/

namespace Lox

inductive RuntimeFault where
  | undefinedVariable (name : String)
  | operandNotNumber
  | operandsNotNumbers
  | operandsNotAddable
  | notUnary
  | notBinary
  | notCallable
  | wrongArity (expected got : Nat)
  | stackOverflow
  | output (reason : String)
  | native (message : String)
deriving DecidableEq, Repr

def RuntimeFault.message : RuntimeFault → String
  | undefinedVariable name => "Undefined variable '" ++ name ++ "'."
  | operandNotNumber => "Operand must be a number."
  | operandsNotNumbers => "Operands must be numbers."
  | operandsNotAddable => "Operands must be two numbers or two strings."
  | notUnary => "Invalid unary operator."
  | notBinary => "Invalid binary operator."
  | notCallable => "Can only call functions and classes."
  | wrongArity expected got =>
    "Expected " ++ toString expected ++ " arguments but got " ++ toString got ++ "."
  | stackOverflow => "Stack overflow."
  | output reason => "Output error: " ++ reason
  | native message => message

structure RuntimeError where
  fault : RuntimeFault
  line : Nat
deriving DecidableEq, Repr

namespace RuntimeError

def diagnostic (e : RuntimeError) : Diagnostic := .runtime e.line e.fault.message

def undefined (name : Token) : RuntimeError := ⟨.undefinedVariable name.lexeme, name.line⟩

end RuntimeError

namespace Value

def unary (operator : TokenType) (v : Value) : Except RuntimeFault Value :=
  match operator, v with
  | .punct .minus, number x => .ok (number (-x))
  | .punct .minus, _ => .error .operandNotNumber
  | .punct .bang, v => .ok (bool !v.isTruthy)
  | _, _ => .error .notUnary

def arithmetic (f : Float → Float → Value) : Value → Value → Except RuntimeFault Value
  | number a, number b => .ok (f a b)
  | _, _ => .error .operandsNotNumbers

def add : Value → Value → Except RuntimeFault Value
  | number a, number b => .ok (number (a + b))
  | string a, string b => .ok (string (a ++ b))
  | _, _ => .error .operandsNotAddable

def binary (operator : TokenType) (left right : Value) : Except RuntimeFault Value :=
  match operator with
  | .punct .plus => add left right
  | .punct .minus => arithmetic (fun a b => number (a - b)) left right
  | .punct .star => arithmetic (fun a b => number (a * b)) left right
  | .punct .slash => arithmetic (fun a b => number (a / b)) left right
  | .punct .greater => arithmetic (fun a b => bool (a > b)) left right
  | .punct .greaterEqual => arithmetic (fun a b => bool (a ≥ b)) left right
  | .punct .less => arithmetic (fun a b => bool (a < b)) left right
  | .punct .lessEqual => arithmetic (fun a b => bool (a ≤ b)) left right
  | .punct .equalEqual => .ok (bool (left.equals right))
  | .punct .bangEqual => .ok (bool !left.equals right)
  | _ => .error .notBinary

def decides (operator : TokenType) (left : Value) : Bool :=
  match operator with
  | .keyword .kwOr => left.isTruthy
  | _ => !left.isTruthy

end Value

end Lox
