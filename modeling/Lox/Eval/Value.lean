import Lox.Syntax.Basic

/-!
The values of a running program. A function is told apart from others by the number it got when it
was made, not by what it does.
-/

namespace Lox

structure Function where
  name : Token
  params : List Token
  body : List Stmt

abbrev FrameId := Nat

inductive Value where
  | nil
  | bool (b : Bool)
  | number (x : Float)
  | string (s : String)
  | function (identity : Nat) (declaration : Function) (closure : FrameId)
  | native (index : Nat)

instance : Inhabited Value := ⟨.nil⟩

namespace Value

def isTruthy : Value → Bool
  | nil | bool false => false
  | _ => true

def typeName : Value → String
  | nil => "nil"
  | bool _ => "boolean"
  | number _ => "number"
  | string _ => "string"
  | function _ _ _ | native _ => "function"

/-- The `==` of the language. Nothing is converted; numbers compare as numbers do. -/
def equals : Value → Value → Bool
  | nil, nil => true
  | bool a, bool b => a == b
  | number a, number b => a == b
  | string a, string b => a == b
  | function a _ _, function b _ _ => a == b
  | native a, native b => a == b
  | _, _ => false

def pieces : Value → List String
  | nil => ["nil"]
  | bool true => ["true"]
  | bool false => ["false"]
  | number x => [Binary64.printed x]
  | string s => [s]
  | function _ declaration _ => ["<fn ", declaration.name.lexeme, ">"]
  | native _ => ["<native fn>"]

def display (v : Value) : String := String.join v.pieces

end Value

def Literal.value : Literal → Value
  | nil => .nil
  | bool b => .bool b
  | number x => .number x
  | string s => .string s

/-- A function of the host. It sees a reading of the host's clock and its arguments, and gives a
value or a message. -/
structure Native where
  name : String
  arity : Nat
  call : Float → List Value → Except String Value

def Native.clock : Native := ⟨"clock", 0, fun now _ => .ok (.number now)⟩

end Lox
