import Lox.Text.Plain

/-!
Quoted text, as file names are shown in messages.
-/

namespace Lox.Text

def codeEscape (c : Char) : List Char :=
  ['\\', 'u', '\x7b'] ++ Nat.toDigits 16 c.toNat ++ ['\x7d']

def escape (c : Char) : List Char :=
  match c with
  | '\x00' => ['\\', '0']
  | '\t' => ['\\', 't']
  | '\r' => ['\\', 'r']
  | '\n' => ['\\', 'n']
  | '"' => ['\\', '"']
  | '\\' => ['\\', '\\']
  | c => if isPlain c then [c] else codeEscape c

def quoted (s : String) : String := .ofList ('"' :: (s.toList.flatMap escape ++ ['"']))

end Lox.Text
