import Lox.Token.Scan
import Lox.Grammar.Fault

/-!
Reports to the person who wrote the program. A static one keeps a program from running.
-/

namespace Lox

inductive Diagnostic where
  | lexical (line : Nat) (message : String)
  | syntactic (found : Token) (message : String)
  | scoping (found : Token) (message : String)
  | runtime (line : Nat) (message : String)

def Token.location (t : Token) : String :=
  if t.type.sameKind .eof then " at end" else " at '" ++ t.lexeme ++ "'"

namespace Diagnostic

def isStatic : Diagnostic → Bool
  | runtime _ _ => false
  | _ => true

def pieces : Diagnostic → List String
  | lexical line message => ["[line ", toString line, "] Error: ", message]
  | syntactic found message | scoping found message =>
    ["[line ", toString found.line, "] Error", found.location, ": ", message]
  | runtime line message => ["[line ", toString line, "] ", message]

def text (d : Diagnostic) : String := String.join d.pieces

end Diagnostic

def LexicalError.diagnostic (e : LexicalError) : Diagnostic := .lexical e.line e.fault.message

def SyntaxError.diagnostic (endLine : Nat) (e : SyntaxError) : Diagnostic :=
  .syntactic (e.found.getD ⟨.eof, "", 0, endLine⟩) e.fault.message

end Lox
