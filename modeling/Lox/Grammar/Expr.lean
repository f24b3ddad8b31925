import Lox.Grammar.Cursor

/-!
The rules for expressions, each a function of the rules for its parts. Where a rule repeats, the
bound it is given is at least the number of tokens that are left; each round takes one.
-/

namespace Lox.Grammar

def maxArity : Nat := 255

structure Level where
  operators : List Punct
  keyword? : Option Keyword := none
  node : Expr → Token → Expr → Expr

def Level.allows (l : Level) : TokenType → Bool
  | .punct p => p ∈ l.operators
  | .keyword k => l.keyword? = some k
  | _ => false

def levels : List Level :=
  [⟨[], some .kwOr, .logical⟩, ⟨[], some .kwAnd, .logical⟩,
    ⟨[.bangEqual, .equalEqual], none, .binary⟩,
    ⟨[.greater, .greaterEqual, .less, .lessEqual], none, .binary⟩,
    ⟨[.minus, .plus], none, .binary⟩,
    ⟨[.slash, .star], none, .binary⟩]

def operations (l : Level) (operand : Parse Expr) : Nat → Expr → Parse Expr
  | 0, left => pure left
  | n + 1, left => do
    match ← take? l.allows with
    | none => pure left
    | some operator => do
      let right ← operand
      operations l operand n (l.node left operator right)

def joined (operand : Parse Expr) (n : Nat) : List Level → Parse Expr
  | [] => operand
  | l :: tighter => do
    let first ← joined operand n tighter
    operations l (joined operand n tighter) n first

def argumentList (expression : Parse Expr) : Nat → Nat → Parse (List Expr)
  | 0, _ => pure []
  | n + 1, k => do
    if k ≥ maxArity then reportHere .tooManyArguments
    let argument ← expression
    match ← accept? (.punct .comma) with
    | none => pure [argument]
    | some _ => do
      let more ← argumentList expression n (k + 1)
      pure (argument :: more)

def callEnd (expression : Parse Expr) (n : Nat) : Parse (List Expr × Token) := do
  let arguments ← if ← facing (.punct .rightParen) then pure [] else argumentList expression n 0
  let paren ← expect (.punct .rightParen) .argumentsEnd
  pure (arguments, paren)

def calls (expression : Parse Expr) : Nat → Expr → Parse Expr
  | 0, callee => pure callee
  | n + 1, callee => do
    match ← accept? (.punct .leftParen) with
    | none => pure callee
    | some _ => do
      let (arguments, paren) ← callEnd expression (n + 1)
      calls expression n (.call callee paren arguments)

def literal? : TokenType → Option Literal
  | .keyword .kwFalse => some (.bool false)
  | .keyword .kwTrue => some (.bool true)
  | .keyword .kwNil => some .nil
  | .number x => some (.number x)
  | .string s => some (.string s)
  | _ => none

def startsPrimary : TokenType → Bool
  | .identifier | .punct .leftParen => true
  | t => (literal? t).isSome

def primary (expression : Parse Expr) : Parse Expr := do
  match ← take? startsPrimary with
  | none => fail (.missing .expression)
  | some t =>
    match literal? t.type with
    | some value => pure (.literal value)
    | none =>
      if t.type.sameKind .identifier then do
        let site ← freshSite
        pure (.ref site t)
      else do
        let inner ← expression
        let _ ← expect (.punct .rightParen) .groupingEnd
        pure (.grouping inner)

def isUnary : TokenType → Bool
  | .punct .bang | .punct .minus => true
  | _ => false

def unary (expression : Parse Expr) (bound : Nat) : Nat → Parse Expr
  | 0 => fail (.missing .expression)
  | n + 1 => do
    match ← take? isUnary with
    | some operator => do
      let right ← unary expression bound n
      pure (.unary operator right)
    | none => do
      let first ← primary expression
      calls expression bound first

/-- `target "=" assignment`, or just the operand. Only a name can be assigned to; any other target
is reported and stands for the whole. -/
def assignment (operand : Parse Expr) : Nat → Parse Expr
  | 0 => fail (.missing .expression)
  | n + 1 => do
    let target ← operand
    match ← accept? (.punct .equal) with
    | none => pure target
    | some equals => do
      let value ← assignment operand n
      match target with
      | .ref _ name => do
        let site ← freshSite
        pure (.assign site name value)
      | _ => do
        report ⟨.invalidAssignmentTarget, some equals⟩
        pure target

def expression : Nat → Parse Expr
  | 0 => fail (.missing .expression)
  | n + 1 => assignment (joined (unary (expression n) (n + 1) (n + 1)) (n + 1) levels) (n + 1)

end Lox.Grammar
