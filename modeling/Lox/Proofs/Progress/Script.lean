import Lox.Proofs.Viable.Judgement

/-! The rules as scripts. A rule takes a token or looks at it, numbers a site, reports an error that
is not hard, fails, or goes on after a failure; every rule is put together from these. -/

namespace Lox.Grammar

inductive Script : Type → Type 1
  | pure {α : Type} (a : α) : Script α
  | bind {α β : Type} (first : Script α) (next : α → Script β) : Script β
  | take (ok : TokenType → Bool) : Script (Option Token)
  | facing (type : TokenType) : Script Bool
  | atEnd : Script Bool
  | freshSite : Script SiteId
  | report (e : SyntaxError) (soft : e.isHard = false) : Script Unit
  | reportHere (fault : SyntaxFault) (soft : ∀ found, SyntaxError.isHard ⟨fault, found⟩ = false) :
      Script Unit
  | fail {α : Type} (fault : SyntaxFault) : Script α
  | recovering (rule : Script Stmt) : Script (Option Stmt)

def Script.run : {α : Type} → Script α → Parse α
  | _, .pure a => Pure.pure a
  | _, .bind first next => first.run >>= fun a => (next a).run
  | _, .take ok => take? ok
  | _, .facing type => Grammar.facing type
  | _, .atEnd => Grammar.atEnd
  | _, .freshSite => Grammar.freshSite
  | _, .report e _ => Grammar.report e
  | _, .reportHere fault _ => Grammar.reportHere fault
  | _, .fail fault => Grammar.fail fault
  | _, .recovering rule => Grammar.recovering rule.run

variable {α β : Type}

/-- A rule with a script that does the same. -/
structure Scripted (rule : Parse α) where
  script : Script α
  run_script : script.run = rule

namespace Scripted

def pure (a : α) : Scripted (Pure.pure a) := ⟨.pure a, rfl⟩

def bind {x : Parse α} {f : α → Parse β} (hx : Scripted x) (hf : ∀ a, Scripted (f a)) :
    Scripted (x >>= f) where
  script := .bind hx.script fun a => (hf a).script
  run_script := by simp only [Script.run, hx.run_script, (hf _).run_script]

def map {x : Parse α} (g : α → β) (hx : Scripted x) : Scripted (g <$> x) :=
  hx.bind fun a => pure (g a)

def take (ok : TokenType → Bool) : Scripted (take? ok) := ⟨.take ok, rfl⟩

def accept (type : TokenType) : Scripted (accept? type) := take _

def facing (type : TokenType) : Scripted (facing type) := ⟨.facing type, rfl⟩

def atEnd : Scripted atEnd := ⟨.atEnd, rfl⟩

def freshSite : Scripted freshSite := ⟨.freshSite, rfl⟩

def report (e : SyntaxError) (soft : e.isHard = false) : Scripted (report e) :=
  ⟨.report e soft, rfl⟩

def reportHere (fault : SyntaxFault) (soft : ∀ found, SyntaxError.isHard ⟨fault, found⟩ = false) :
    Scripted (reportHere fault) :=
  ⟨.reportHere fault soft, rfl⟩

def fail (fault : SyntaxFault) : Scripted (fail fault : Parse α) := ⟨.fail fault, rfl⟩

def recovering {rule : Parse Stmt} (h : Scripted rule) : Scripted (recovering rule) where
  script := .recovering h.script
  run_script := by simp only [Script.run, h.run_script]

def expect (type : TokenType) (what : Expected) : Scripted (expect type what) :=
  (accept type).bind fun
    | some t => pure t
    | none => fail _

def either {p : Prop} [Decidable p] {x y : Parse α} (hx : Scripted x) (hy : Scripted y) :
    Scripted (if p then x else y) :=
  if h : p then ⟨hx.script, by rw [if_pos h, hx.run_script]⟩
  else ⟨hy.script, by rw [if_neg h, hy.run_script]⟩

def limited {x : Parse α} {fault : SyntaxFault} (k : ℕ) (h : Scripted x)
    (soft : ∀ found, SyntaxError.isHard ⟨fault, found⟩ = false) :
    Scripted (if k ≥ maxArity then Grammar.reportHere fault >>= fun _ => x else x) :=
  either ((reportHere fault soft).bind fun _ => h) h

section

variable {operand rule : Parse Expr}

def operations (l : Level) (h : Scripted operand) :
    (n : ℕ) → (left : Expr) → Scripted (operations l operand n left)
  | 0, left => pure left
  | n + 1, left => (take l.allows).bind fun
    | none => pure left
    | some operator => h.bind fun right => operations l h n (l.node left operator right)

def joined (h : Scripted operand) (n : ℕ) : (ls : List Level) → Scripted (joined operand n ls)
  | [] => h
  | l :: tighter => (joined h n tighter).bind fun first => operations l (joined h n tighter) n first

variable (he : Scripted rule)

def argumentList : (n k : ℕ) → Scripted (argumentList rule n k)
  | 0, _ => pure []
  | n + 1, k => limited k (he.bind fun argument => (accept _).bind fun
    | none => pure [argument]
    | some _ => (argumentList n (k + 1)).bind fun more => pure (argument :: more)) fun _ => rfl

def callEnd (n : ℕ) : Scripted (callEnd rule n) :=
  (facing _).bind fun
    | true => (pure []).bind fun arguments => (expect _ _).bind fun paren => pure (arguments, paren)
    | false => (argumentList he n 0).bind fun arguments =>
      (expect _ _).bind fun paren => pure (arguments, paren)

def calls : (n : ℕ) → (callee : Expr) → Scripted (calls rule n callee)
  | 0, callee => pure callee
  | n + 1, callee => (accept _).bind fun
    | none => pure callee
    | some _ => (callEnd he (n + 1)).bind fun (arguments, paren) =>
      calls n (.call callee paren arguments)

def primary : Scripted (primary rule) := by
  refine (take _).bind fun found => ?_
  cases found with
  | none => exact fail _
  | some t =>
    dsimp only
    cases literal? t.type with
    | some value => exact pure (Expr.literal value)
    | none =>
      exact either (freshSite.bind fun site => pure (Expr.ref site t))
        (he.bind fun inner => (expect _ _).bind fun _ => pure (Expr.grouping inner))

def unary (bound : ℕ) : (n : ℕ) → Scripted (unary rule bound n)
  | 0 => fail _
  | n + 1 => (take _).bind fun
    | some operator => (unary bound n).bind fun right => pure (Expr.unary operator right)
    | none => (primary he).bind fun first => calls he bound first

def assignment (h : Scripted operand) : (n : ℕ) → Scripted (assignment operand n)
  | 0 => fail _
  | n + 1 => h.bind fun target => (accept _).bind fun
    | none => pure target
    | some equals => (assignment h n).bind fun value =>
      match target with
      | .ref _ name => freshSite.bind fun site => pure (Expr.assign site name value)
      | .literal _ | .grouping _ | .unary _ _ | .binary _ _ _ | .logical _ _ _ | .assign _ _ _
      | .call _ _ _ => (report ⟨.invalidAssignmentTarget, some equals⟩ rfl).bind fun _ => pure _

def expression : (n : ℕ) → Scripted (expression n)
  | 0 => fail _
  | n + 1 => assignment (joined (unary (expression n) (n + 1) (n + 1)) (n + 1) levels) (n + 1)

end

section

variable {exprRule : Parse Expr} (he : Scripted exprRule)

def expressionStmt : Scripted (expressionStmt exprRule) :=
  he.bind fun e => (expect _ _).bind fun _ => pure (Stmt.expression e)

def printStmt : Scripted (printStmt exprRule) :=
  he.bind fun e => (expect _ _).bind fun _ => pure (Stmt.print e)

def optional (finish : Punct) : Scripted (optional exprRule finish) :=
  (facing _).bind fun
    | true => pure none
    | false => he.map some

def returnStmt (keyword : Token) : Scripted (returnStmt exprRule keyword) :=
  (optional he _).bind fun value => (expect _ _).bind fun _ => pure (Stmt.ret keyword value)

def varDeclaration : Scripted (varDeclaration exprRule) :=
  (expect _ _).bind fun name => (accept _).bind fun
    | some _ => (he.map some).bind fun initializer => (expect _ _).bind fun _ =>
      pure (Stmt.var name initializer)
    | none => (pure none).bind fun initializer => (expect _ _).bind fun _ =>
      pure (Stmt.var name initializer)

def forInitializer : Scripted (forInitializer exprRule) :=
  (accept _).bind fun
    | some _ => pure none
    | none => (accept _).bind fun
      | some _ => (varDeclaration he).map some
      | none => (expressionStmt he).map some

variable {stmtRule : Parse Stmt} (hs : Scripted stmtRule)

def whileStmt : Scripted (whileStmt exprRule stmtRule) :=
  (expect _ _).bind fun _ => he.bind fun condition => (expect _ _).bind fun _ =>
    hs.bind fun body => pure (Stmt.loop condition body)

def ifStmt : Scripted (ifStmt exprRule stmtRule) :=
  (expect _ _).bind fun _ => he.bind fun condition => (expect _ _).bind fun _ =>
    hs.bind fun thenBranch => (accept _).bind fun
      | none => pure (Stmt.ifThen condition thenBranch)
      | some _ => hs.bind fun elseBranch => pure (Stmt.ifElse condition thenBranch elseBranch)

def forStmt : Scripted (forStmt exprRule stmtRule) :=
  (expect _ _).bind fun _ => (forInitializer he).bind fun initializer =>
    (optional he _).bind fun condition => (expect _ _).bind fun _ =>
    (optional he _).bind fun increment => (expect _ _).bind fun _ =>
    hs.bind fun body => pure (forLoop initializer condition increment body)

def parameterList : (n k : ℕ) → Scripted (parameterList n k)
  | 0, _ => pure []
  | n + 1, k => limited k ((expect _ _).bind fun name => (accept _).bind fun
    | none => pure [name]
    | some _ => (parameterList n (k + 1)).bind fun more => pure (name :: more)) fun _ => rfl

variable {declRule : Parse (Option Stmt)} (hd : Scripted declRule)

def block : (n : ℕ) → Scripted (block declRule n)
  | 0 => fail _
  | n + 1 => (accept _).bind fun
    | some _ => pure []
    | none => atEnd.bind fun
      | true => fail _
      | false => hd.bind fun first => (block n).bind fun more => pure (first.toList ++ more)

def program : (n : ℕ) → Scripted (program declRule n)
  | 0 => pure []
  | n + 1 => atEnd.bind fun
    | true => pure []
    | false => hd.bind fun first => (program n).bind fun more => pure (first.toList ++ more)

def function (n : ℕ) : Scripted (function declRule n) :=
  (expect _ _).bind fun name => (expect _ _).bind fun _ => (facing _).bind fun
    | true => (pure []).bind fun params => (expect _ _).bind fun _ => (expect _ _).bind fun _ =>
      (block hd n).bind fun body => pure (Stmt.function name params body)
    | false => (parameterList n 0).bind fun params => (expect _ _).bind fun _ =>
      (expect _ _).bind fun _ => (block hd n).bind fun body =>
      pure (Stmt.function name params body)

def statementRule (n : ℕ) : Scripted (statementRule exprRule stmtRule declRule n) := by
  refine (take _).bind fun found => ?_
  cases found with
  | none => exact expressionStmt he
  | some t =>
    dsimp only
    split
    · exact forStmt he hs
    · exact ifStmt he hs
    · exact printStmt he
    · exact returnStmt he t
    · exact whileStmt he hs
    · exact (block hd n).map Stmt.block

def declarationRule (n : ℕ) : Scripted (declarationRule exprRule stmtRule declRule n) :=
  (accept _).bind fun
    | some _ => function hd n
    | none => (accept _).bind fun
      | some _ => varDeclaration he
      | none => hs

end

def statement_declaration : (n : ℕ) → Scripted (statement n) × Scripted (declaration n)
  | 0 => (fail _, (fail _).recovering)
  | n + 1 =>
    let s := statementRule (expression (n + 1)) (statement_declaration n).1
      (statement_declaration n).2 (n + 1)
    (s, (declarationRule (expression (n + 1)) s (statement_declaration n).2 (n + 1)).recovering)

end Scripted

end Lox.Grammar
