import Lox.Grammar.Expr

/-!
The rules for statements, each a function of the rules for its parts. A declaration that fails is
reported, at whatever depth it stands, and reading goes on behind the next semicolon or where the
next statement begins.
-/

namespace Lox.Grammar

section

variable (expression : Parse Expr)

def expressionStmt : Parse Stmt := do
  let e ← expression
  let _ ← expect (.punct .semicolon) .expressionEnd
  pure (.expression e)

def printStmt : Parse Stmt := do
  let e ← expression
  let _ ← expect (.punct .semicolon) .printEnd
  pure (.print e)

def optional (finish : Punct) : Parse (Option Expr) := do
  if ← facing (.punct finish) then pure none else some <$> expression

def returnStmt (keyword : Token) : Parse Stmt := do
  let value ← optional expression .semicolon
  let _ ← expect (.punct .semicolon) .returnEnd
  pure (.ret keyword value)

def varDeclaration : Parse Stmt := do
  let name ← expect .identifier .variableName
  let initializer ← match ← accept? (.punct .equal) with
    | some _ => some <$> expression
    | none => pure none
  let _ ← expect (.punct .semicolon) .variableEnd
  pure (.var name initializer)

def whileStmt (statement : Parse Stmt) : Parse Stmt := do
  let _ ← expect (.punct .leftParen) .whileParen
  let condition ← expression
  let _ ← expect (.punct .rightParen) .whileConditionEnd
  let body ← statement
  pure (.loop condition body)

def ifStmt (statement : Parse Stmt) : Parse Stmt := do
  let _ ← expect (.punct .leftParen) .ifParen
  let condition ← expression
  let _ ← expect (.punct .rightParen) .ifConditionEnd
  let thenBranch ← statement
  match ← accept? (.keyword .kwElse) with
  | none => pure (.ifThen condition thenBranch)
  | some _ => do
    let elseBranch ← statement
    pure (.ifElse condition thenBranch elseBranch)

def forLoop (initializer : Option Stmt) (condition increment : Option Expr) (body : Stmt) : Stmt :=
  let body := match increment with
    | some e => .block [body, .expression e]
    | none => body
  let loop := .loop (condition.getD (.literal (.bool true))) body
  match initializer with
  | some s => .block [s, loop]
  | none => loop

def forInitializer : Parse (Option Stmt) := do
  match ← accept? (.punct .semicolon) with
  | some _ => pure none
  | none =>
    match ← accept? (.keyword .kwVar) with
    | some _ => some <$> varDeclaration expression
    | none => some <$> expressionStmt expression

def forStmt (statement : Parse Stmt) : Parse Stmt := do
  let _ ← expect (.punct .leftParen) .forParen
  let initializer ← forInitializer expression
  let condition ← optional expression .semicolon
  let _ ← expect (.punct .semicolon) .loopConditionEnd
  let increment ← optional expression .rightParen
  let _ ← expect (.punct .rightParen) .forClausesEnd
  let body ← statement
  pure (forLoop initializer condition increment body)

def block (declaration : Parse (Option Stmt)) : Nat → Parse (List Stmt)
  | 0 => fail (.missing .blockEnd)
  | n + 1 => do
    match ← accept? (.punct .rightBrace) with
    | some _ => pure []
    | none =>
      if ← atEnd then fail (.missing .blockEnd)
      else do
        let first ← declaration
        let more ← block declaration n
        pure (first.toList ++ more)

def parameterList : Nat → Nat → Parse (List Token)
  | 0, _ => pure []
  | n + 1, k => do
    if k ≥ maxArity then reportHere .tooManyParameters
    let name ← expect .identifier .parameterName
    match ← accept? (.punct .comma) with
    | none => pure [name]
    | some _ => do
      let more ← parameterList n (k + 1)
      pure (name :: more)

def function (declaration : Parse (Option Stmt)) (n : Nat) : Parse Stmt := do
  let name ← expect .identifier .functionName
  let _ ← expect (.punct .leftParen) .functionParen
  let params ← if ← facing (.punct .rightParen) then pure [] else parameterList n 0
  let _ ← expect (.punct .rightParen) .parametersEnd
  let _ ← expect (.punct .leftBrace) .functionBody
  let body ← block declaration n
  pure (.function name params body)

def startsRule : TokenType → Bool
  | .punct .leftBrace => true
  | .keyword k => k ∈ [.kwFor, .kwIf, .kwPrint, .kwReturn, .kwWhile]
  | _ => false

def statementRule (statement : Parse Stmt) (declaration : Parse (Option Stmt)) (n : Nat) :
    Parse Stmt := do
  match ← take? startsRule with
  | none => expressionStmt expression
  | some t =>
    match t.type with
    | .keyword .kwFor => forStmt expression statement
    | .keyword .kwIf => ifStmt expression statement
    | .keyword .kwPrint => printStmt expression
    | .keyword .kwReturn => returnStmt expression t
    | .keyword .kwWhile => whileStmt expression statement
    | _ => .block <$> block declaration n

def declarationRule (statement : Parse Stmt) (declaration : Parse (Option Stmt)) (n : Nat) :
    Parse Stmt := do
  match ← accept? (.keyword .kwFun) with
  | some _ => function declaration n
  | none =>
    match ← accept? (.keyword .kwVar) with
    | some _ => varDeclaration expression
    | none => statement

end

/-- The tokens after `skipped`, from the first that follows a semicolon or begins a statement. -/
def resumeAfter (skipped : Token) : List Token → List Token
  | [] => []
  | t :: rest =>
    if skipped.type.sameKind (.punct .semicolon) || t.type.startsStatement then t :: rest
    else resumeAfter t rest

/-- Where reading goes on after an error: the token in front is skipped in any case. -/
def resume : List Token → List Token
  | [] => []
  | t :: rest => resumeAfter t rest

def recovering (rule : Parse Stmt) : Parse (Option Stmt) := fun c =>
  match rule c with
  | .ok s c => .ok (some s) c
  | .error e c => .ok none { c with rest := resume c.rest, errors := e :: c.errors }

mutual

def statement : Nat → Parse Stmt
  | 0 => fail (.missing .expression)
  | n + 1 => statementRule (expression (n + 1)) (statement n) (declaration n) (n + 1)

def declaration : Nat → Parse (Option Stmt)
  | 0 => recovering (fail (.missing .expression))
  | n + 1 => recovering <| declarationRule (expression (n + 1))
      (statementRule (expression (n + 1)) (statement n) (declaration n) (n + 1))
      (declaration n) (n + 1)

end

def program (declaration : Parse (Option Stmt)) : Nat → Parse (List Stmt)
  | 0 => pure []
  | n + 1 => do
    if ← atEnd then pure []
    else do
      let first ← declaration
      let more ← program declaration n
      pure (first.toList ++ more)

end Lox.Grammar
