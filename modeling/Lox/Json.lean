/-!
JSON documents and their indented text. Members stand in the order in which they are given.
-/

namespace Lox

inductive Json where
  | null
  | number (text : String)
  | string (s : String)
  | array (items : List Json)
  | object (members : List (String × Json))

namespace Json

def escapeCode (c : Char) : List Char :=
  ['\\', 'u', '0', '0', Nat.digitChar (c.toNat / 16), Nat.digitChar (c.toNat % 16)]

def escape (c : Char) : List Char :=
  match c with
  | '"' => ['\\', '"']
  | '\\' => ['\\', '\\']
  | '\x08' => ['\\', 'b']
  | '\x0c' => ['\\', 'f']
  | '\n' => ['\\', 'n']
  | '\r' => ['\\', 'r']
  | '\t' => ['\\', 't']
  | c => if c.toNat < 0x20 then escapeCode c else [c]

def quoted (s : String) : String := .ofList ('"' :: (s.toList.flatMap escape ++ ['"']))

def newline (depth : Nat) : String := .ofList ('\n' :: List.replicate (2 * depth) ' ')

mutual

def pretty (depth : Nat) : Json → String
  | null => "null"
  | number text => text
  | string s => quoted s
  | array [] => "[]"
  | array (item :: rest) =>
    "[" ++ newline (depth + 1) ++ pretty (depth + 1) item ++ prettyItems (depth + 1) rest ++
      newline depth ++ "]"
  | object [] => "\x7b\x7d"
  | object ((key, value) :: rest) =>
    "\x7b" ++ newline (depth + 1) ++ quoted key ++ ": " ++ pretty (depth + 1) value ++
      prettyMembers (depth + 1) rest ++ newline depth ++ "\x7d"

def prettyItems (depth : Nat) : List Json → String
  | [] => ""
  | item :: rest => "," ++ newline depth ++ pretty depth item ++ prettyItems depth rest

def prettyMembers (depth : Nat) : List (String × Json) → String
  | [] => ""
  | (key, value) :: rest =>
    "," ++ newline depth ++ quoted key ++ ": " ++ pretty depth value ++ prettyMembers depth rest

end

end Json

end Lox
