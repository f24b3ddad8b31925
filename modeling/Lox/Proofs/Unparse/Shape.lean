import Lox.Proofs.Grammar.Sites
import Lox.Proofs.Sites.Map

/-!
Trees that the grammar can write down without more parentheses than they have, and the numbers that
their variable sites get when they are read.
-/

namespace Lox

open Grammar

def TokenType.binds : TokenType → Nat
  | .keyword .kwOr => 1
  | .keyword .kwAnd => 2
  | .punct .bangEqual | .punct .equalEqual => 3
  | .punct .greater | .punct .greaterEqual | .punct .less | .punct .lessEqual => 4
  | .punct .minus | .punct .plus => 5
  | .punct .slash | .punct .star => 6
  | _ => 0

def Expr.rank : Expr → Nat
  | .assign _ _ _ => 0
  | .logical _ op _ | .binary _ op _ => op.type.binds
  | .unary _ _ => 7
  | .call _ _ _ => 8
  | .literal _ | .grouping _ | .ref _ _ => 9

mutual

def Expr.Shaped : Expr → Prop
  | .literal _ => True
  | .grouping e => e.Shaped
  | .unary op e => isUnary op.type = true ∧ e.Shaped ∧ 7 ≤ e.rank
  | .binary a op b => 3 ≤ op.type.binds ∧
    (a.Shaped ∧ op.type.binds ≤ a.rank) ∧ b.Shaped ∧ op.type.binds < b.rank
  | .logical a op b => (op.type.binds = 1 ∨ op.type.binds = 2) ∧
    (a.Shaped ∧ op.type.binds ≤ a.rank) ∧ b.Shaped ∧ op.type.binds < b.rank
  | .ref _ name => name.type = .identifier
  | .assign _ name e => name.type = .identifier ∧ e.Shaped
  | .call callee paren args => (callee.Shaped ∧ 8 ≤ callee.rank) ∧ paren.type = .punct .rightParen ∧
    Expr.ListShaped args ∧ args.length ≤ maxArity

def Expr.ListShaped : List Expr → Prop
  | [] => True
  | e :: rest => e.Shaped ∧ Expr.ListShaped rest

end

def Expr.OptionShaped : Option Expr → Prop
  | none => True
  | some e => e.Shaped

/-- An `else` that follows would be read as part of the statement. -/
def Stmt.endsOpen : Stmt → Bool
  | .ifThen _ _ => true
  | .ifElse _ _ s | .loop _ s => s.endsOpen
  | _ => false

mutual

def Stmt.Shaped : Stmt → Prop
  | .expression e | .print e => e.Shaped
  | .var name e => name.type = .identifier ∧ Expr.OptionShaped e
  | .block body => Stmt.ListShaped body
  | .ifThen c s | .loop c s => c.Shaped ∧ s.Shaped ∧ s.isDeclaration = false
  | .ifElse c s t => c.Shaped ∧ (s.Shaped ∧ s.isDeclaration = false ∧ s.endsOpen = false) ∧
    t.Shaped ∧ t.isDeclaration = false
  | .function name params body => name.type = .identifier ∧
    ((∀ x ∈ params, x.type = .identifier) ∧ params.length ≤ maxArity) ∧ Stmt.ListShaped body
  | .ret keyword e => keyword.type = .keyword .kwReturn ∧ Expr.OptionShaped e

def Stmt.ListShaped : List Stmt → Prop
  | [] => True
  | s :: rest => s.Shaped ∧ Stmt.ListShaped rest

end

mutual

/-- The number that is free when an expression was read whose first site had the number given. The
target of an assignment is read as a use before it turns out to be one. -/
def Expr.next : Expr → SiteId → SiteId
  | .literal _, i => i
  | .grouping e, i | .unary _ e, i => e.next i
  | .binary a _ b, i | .logical a _ b, i => b.next (a.next i)
  | .ref _ _, i => i + 1
  | .assign _ _ e, i => e.next (i + 1) + 1
  | .call callee _ args, i => Expr.listNext args (callee.next i)

def Expr.listNext : List Expr → SiteId → SiteId
  | [], i => i
  | e :: rest, i => Expr.listNext rest (e.next i)

end

def Expr.optionNext : Option Expr → SiteId → SiteId
  | none, i => i
  | some e, i => e.next i

mutual

def Expr.number : Expr → SiteId → Expr
  | .literal v, _ => .literal v
  | .grouping e, i => .grouping (e.number i)
  | .unary op e, i => .unary op (e.number i)
  | .binary a op b, i => .binary (a.number i) op (b.number (a.next i))
  | .logical a op b, i => .logical (a.number i) op (b.number (a.next i))
  | .ref _ name, i => .ref i name
  | .assign _ name e, i => .assign (e.next (i + 1)) name (e.number (i + 1))
  | .call callee paren args, i =>
    .call (callee.number i) paren (Expr.listNumber args (callee.next i))

def Expr.listNumber : List Expr → SiteId → List Expr
  | [], _ => []
  | e :: rest, i => e.number i :: Expr.listNumber rest (e.next i)

end

def Expr.optionNumber : Option Expr → SiteId → Option Expr
  | none, _ => none
  | some e, i => some (e.number i)

mutual

def Stmt.next : Stmt → SiteId → SiteId
  | .expression e, i | .print e, i => e.next i
  | .var _ e, i | .ret _ e, i => Expr.optionNext e i
  | .block body, i | .function _ _ body, i => Stmt.listNext body i
  | .ifThen c s, i | .loop c s, i => s.next (c.next i)
  | .ifElse c s t, i => t.next (s.next (c.next i))

def Stmt.listNext : List Stmt → SiteId → SiteId
  | [], i => i
  | s :: rest, i => Stmt.listNext rest (s.next i)

end

mutual

def Stmt.number : Stmt → SiteId → Stmt
  | .expression e, i => .expression (e.number i)
  | .print e, i => .print (e.number i)
  | .var name e, i => .var name (Expr.optionNumber e i)
  | .block body, i => .block (Stmt.listNumber body i)
  | .ifThen c s, i => .ifThen (c.number i) (s.number (c.next i))
  | .ifElse c s t, i =>
    .ifElse (c.number i) (s.number (c.next i)) (t.number (s.next (c.next i)))
  | .loop c s, i => .loop (c.number i) (s.number (c.next i))
  | .function name params body, i => .function name params (Stmt.listNumber body i)
  | .ret keyword e, i => .ret keyword (Expr.optionNumber e i)

def Stmt.listNumber : List Stmt → SiteId → List Stmt
  | [], _ => []
  | s :: rest, i => s.number i :: Stmt.listNumber rest (s.next i)

end

/-! Without its numbers a tree is what it was. -/

section

variable (site : SiteId)

mutual

lemma Expr.mapSites_number : ∀ (e : Expr) (i : SiteId),
    (e.number i).mapSites (fun _ => site) = e.mapSites (fun _ => site)
  | .literal _, _ | .ref _ _, _ => rfl
  | .grouping e, i => congrArg Expr.grouping (e.mapSites_number i)
  | .unary op e, i => congrArg (Expr.unary op) (e.mapSites_number i)
  | .binary a op b, i => by
    simp only [number, mapSites, a.mapSites_number, b.mapSites_number]
  | .logical a op b, i => by
    simp only [number, mapSites, a.mapSites_number, b.mapSites_number]
  | .assign _ name e, i => congrArg (Expr.assign site name) (e.mapSites_number (i + 1))
  | .call callee paren args, i => by
    simp only [number, mapSites, callee.mapSites_number, Expr.listMapSites_number args]

lemma Expr.listMapSites_number : ∀ (es : List Expr) (i : SiteId),
    Expr.listMapSites (fun _ => site) (Expr.listNumber es i) =
      Expr.listMapSites (fun _ => site) es
  | [], _ => rfl
  | e :: rest, i => by
    simp only [listNumber, listMapSites, e.mapSites_number, Expr.listMapSites_number rest]

end

lemma Expr.optionMapSites_number (e : Option Expr) (i : SiteId) :
    (Expr.optionNumber e i).map (Expr.mapSites fun _ => site) =
      e.map (Expr.mapSites fun _ => site) := by
  cases e with
  | none => rfl
  | some e => exact congrArg some (e.mapSites_number site i)

mutual

lemma Stmt.mapSites_number : ∀ (s : Stmt) (i : SiteId),
    (s.number i).mapSites (fun _ => site) = s.mapSites (fun _ => site)
  | .expression e, i => congrArg Stmt.expression (e.mapSites_number site i)
  | .print e, i => congrArg Stmt.print (e.mapSites_number site i)
  | .var name e, i => congrArg (Stmt.var name) (Expr.optionMapSites_number site e i)
  | .ret keyword e, i => congrArg (Stmt.ret keyword) (Expr.optionMapSites_number site e i)
  | .block body, i => congrArg Stmt.block (Stmt.listMapSites_number body i)
  | .function name params body, i =>
    congrArg (Stmt.function name params) (Stmt.listMapSites_number body i)
  | .ifThen c s, i => by
    simp only [number, mapSites, c.mapSites_number, s.mapSites_number]
  | .loop c s, i => by
    simp only [number, mapSites, c.mapSites_number, s.mapSites_number]
  | .ifElse c s t, i => by
    simp only [number, mapSites, c.mapSites_number, s.mapSites_number, t.mapSites_number]

lemma Stmt.listMapSites_number : ∀ (b : List Stmt) (i : SiteId),
    Stmt.listMapSites (fun _ => site) (Stmt.listNumber b i) = Stmt.listMapSites (fun _ => site) b
  | [], _ => rfl
  | s :: rest, i => by
    simp only [listNumber, listMapSites, s.mapSites_number, Stmt.listMapSites_number rest]

end

end

end Lox
