import Lox.Number.Notation

/-!
The words of the language. A token is a word with its place in the source; punctuation and
keywords have one spelling each, names, strings and numbers have many.
-/

namespace Lox

inductive Punct where
  | leftParen | rightParen | leftBrace | rightBrace
  | comma | dot | minus | plus | semicolon | slash | star
  | bang | bangEqual | equal | equalEqual
  | greater | greaterEqual | less | lessEqual
deriving DecidableEq, Repr

namespace Punct

def all : List Punct :=
  [leftParen, rightParen, leftBrace, rightBrace, comma, dot, minus, plus, semicolon, slash, star,
    bang, bangEqual, equal, equalEqual, greater, greaterEqual, less, lessEqual]

def spelling : Punct → List Char
  | leftParen => ['('] | rightParen => [')'] | leftBrace => ['\x7b'] | rightBrace => ['\x7d']
  | comma => [','] | dot => ['.'] | minus => ['-'] | plus => ['+'] | semicolon => [';']
  | slash => ['/'] | star => ['*']
  | bang => ['!'] | bangEqual => ['!', '='] | equal => ['='] | equalEqual => ['=', '=']
  | greater => ['>'] | greaterEqual => ['>', '='] | less => ['<'] | lessEqual => ['<', '=']

def name : Punct → String
  | leftParen => "LEFT_PAREN" | rightParen => "RIGHT_PAREN"
  | leftBrace => "LEFT_BRACE" | rightBrace => "RIGHT_BRACE"
  | comma => "COMMA" | dot => "DOT" | minus => "MINUS" | plus => "PLUS"
  | semicolon => "SEMICOLON" | slash => "SLASH" | star => "STAR"
  | bang => "BANG" | bangEqual => "BANG_EQUAL" | equal => "EQUAL" | equalEqual => "EQUAL_EQUAL"
  | greater => "GREATER" | greaterEqual => "GREATER_EQUAL"
  | less => "LESS" | lessEqual => "LESS_EQUAL"

end Punct

inductive Keyword where
  | kwAnd | kwClass | kwElse | kwFalse | kwFun | kwFor | kwIf | kwNil
  | kwOr | kwPrint | kwReturn | kwSuper | kwThis | kwTrue | kwVar | kwWhile
deriving DecidableEq, Repr

namespace Keyword

def all : List Keyword :=
  [kwAnd, kwClass, kwElse, kwFalse, kwFun, kwFor, kwIf, kwNil, kwOr,
    kwPrint, kwReturn, kwSuper, kwThis, kwTrue, kwVar, kwWhile]

def spelling : Keyword → List Char
  | kwAnd => "and".toList | kwClass => "class".toList | kwElse => "else".toList
  | kwFalse => "false".toList
  | kwFun => "fun".toList | kwFor => "for".toList | kwIf => "if".toList | kwNil => "nil".toList
  | kwOr => "or".toList | kwPrint => "print".toList | kwReturn => "return".toList
  | kwSuper => "super".toList
  | kwThis => "this".toList | kwTrue => "true".toList | kwVar => "var".toList
  | kwWhile => "while".toList

def name : Keyword → String
  | kwAnd => "AND" | kwClass => "CLASS" | kwElse => "ELSE" | kwFalse => "FALSE"
  | kwFun => "FUN" | kwFor => "FOR" | kwIf => "IF" | kwNil => "NIL"
  | kwOr => "OR" | kwPrint => "PRINT" | kwReturn => "RETURN" | kwSuper => "SUPER"
  | kwThis => "THIS" | kwTrue => "TRUE" | kwVar => "VAR" | kwWhile => "WHILE"

def ofSpelling? (word : List Char) : Option Keyword := all.find? (·.spelling = word)

end Keyword

inductive TokenType where
  | punct (p : Punct)
  | keyword (k : Keyword)
  | identifier
  | string (contents : String)
  | number (value : Float)
  | eof

namespace TokenType

def name : TokenType → String
  | punct p => p.name
  | keyword k => k.name
  | identifier => "IDENTIFIER"
  | string _ => "STRING"
  | number _ => "NUMBER"
  | eof => "EOF"

def sameKind : TokenType → TokenType → Bool
  | punct p, punct q => p = q
  | keyword k, keyword l => k = l
  | identifier, identifier | string _, string _ | number _, number _ | eof, eof => true
  | _, _ => false

def startsStatement : TokenType → Bool
  | keyword k => k ∈ [.kwClass, .kwFun, .kwVar, .kwFor, .kwIf, .kwWhile, .kwPrint, .kwReturn]
  | _ => false

def payload : TokenType → String
  | string contents => contents
  | number value => Binary64.literal value
  | _ => "null"

end TokenType

structure Token where
  type : TokenType
  lexeme : String
  offset : Nat
  line : Nat

namespace Token

def display (t : Token) : String := t.type.name ++ " " ++ t.lexeme ++ " " ++ t.type.payload

def same (s t : Token) : Bool :=
  s.type.sameKind t.type && s.lexeme == t.lexeme && s.offset == t.offset && s.line == t.line

end Token

end Lox
