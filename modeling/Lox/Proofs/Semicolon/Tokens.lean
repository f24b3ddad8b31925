import Lox.Proofs.Grammar.Ebnf
import Mathlib.Data.Int.Notation

/-! What can be told from a form alone about the tokens it derives: that there are some, that none
of them ends or begins a statement, and how many parentheses they leave open. -/

namespace Lox.Grammar

def IsPlain (t : TokenType) : Prop := t ≠ .punct .semicolon ∧ t.startsStatement = false

def nestingOf : TokenType → ℤ
  | .punct .leftParen => 1
  | .punct .rightParen => -1
  | _ => 0

def nesting : List Token → ℤ
  | [] => 0
  | t :: u => nestingOf t.type + nesting u

@[simp] lemma nesting_nil : nesting [] = 0 := rfl

@[simp] lemma nesting_cons (t : Token) (u : List Token) :
    nesting (t :: u) = nestingOf t.type + nesting u := rfl

@[simp] lemma nesting_append (u v : List Token) : nesting (u ++ v) = nesting u + nesting v := by
  induction u with
  | nil => simp
  | cons t u ih => simp [ih, Int.add_assoc]

namespace Ebnf

open Form

namespace Form

def Solid : Form → Prop
  | rule r => r ≠ .program
  | seq a b => a.Solid ∨ b.Solid
  | alt a b => a.Solid ∧ b.Solid
  | opt _ | many _ | upTo _ _ => False
  | _ => True

def InExpression (r : Rule) : Prop :=
  r ∈ [.expression, .assignment, .logicOr, .logicAnd, .equality, .comparison, .term, .factor,
    .unary, .call, .arguments, .primary, .parameters]

def Plain : Form → Prop
  | punct p => p ≠ .semicolon
  | keyword k => (TokenType.keyword k).startsStatement = false
  | rule r => InExpression r
  | seq a b | alt a b => a.Plain ∧ b.Plain
  | opt a | many a | upTo _ a => a.Plain
  | _ => True

def nesting : Form → ℤ
  | punct p => nestingOf (.punct p)
  | seq a b => a.nesting + b.nesting
  | alt a _ => a.nesting
  | _ => 0

def Even : Form → Prop
  | seq a b => a.Even ∧ b.Even
  | alt a b => a.Even ∧ b.Even ∧ a.nesting = b.nesting
  | opt a | many a | upTo _ a => a.Even ∧ a.nesting = 0
  | _ => True

end Form

lemma grammar_solid (r : Rule) (h : r ≠ .program) : (grammar r).Solid := by
  cases r <;> simp_all [grammar, Form.all, Form.any, Form.Solid, commaList, infixList]

lemma grammar_plain (r : Rule) (h : InExpression r) : (grammar r).Plain := by
  simp only [InExpression, List.mem_cons, List.not_mem_nil, or_false] at h
  rcases h with rfl | rfl | rfl | rfl | rfl | rfl | rfl | rfl | rfl | rfl | rfl | rfl | rfl <;>
    simp [grammar, Form.all, Form.any, Form.Plain, commaList, infixList, InExpression,
      TokenType.startsStatement]

lemma grammar_even (r : Rule) : (grammar r).Even ∧ (grammar r).nesting = 0 := by
  cases r <;> simp [grammar, Form.all, Form.any, Form.Even, Form.nesting, commaList, infixList,
    nestingOf]

lemma ne_nil_of_derives {f : Form} {u : List Token} (h : Derives f u) (hf : f.Solid) : u ≠ [] := by
  induction h with
  | rule _ ih => exact ih (grammar_solid _ hf)
  | seq _ _ iha ihb =>
    obtain ha | hb := hf
    · exact List.append_ne_nil_of_left_ne_nil (iha ha) _
    · exact List.append_ne_nil_of_right_ne_nil _ (ihb hb)
  | left _ ih => exact ih hf.1
  | right _ ih => exact ih hf.2
  | absent | present | manyNil | manyCons | upToNil | upToCons => exact hf.elim
  | _ => exact List.cons_ne_nil _ _

lemma plain_of_derives {f : Form} {u : List Token} (h : Derives f u) (hf : f.Plain) :
    ∀ t ∈ u, IsPlain t.type := by
  induction h with
  | rule _ ih => exact ih (grammar_plain _ hf)
  | seq _ _ iha ihb => exact List.forall_mem_append.2 ⟨iha hf.1, ihb hf.2⟩
  | left _ ih => exact ih hf.1
  | right _ ih => exact ih hf.2
  | present _ ih => exact ih hf
  | manyCons _ _ iha ihb => exact List.forall_mem_append.2 ⟨iha hf, ihb hf⟩
  | upToCons _ _ iha ihb => exact List.forall_mem_append.2 ⟨iha hf, ihb hf⟩
  | absent | manyNil | upToNil => nofun
  | punct ht =>
    refine List.forall_mem_singleton.2 ?_
    rw [ht]
    exact ⟨fun h => hf (TokenType.punct.inj h), rfl⟩
  | keyword ht =>
    refine List.forall_mem_singleton.2 ?_
    rw [ht]
    exact ⟨nofun, hf⟩
  | identifier ht | number ht | string ht =>
    refine List.forall_mem_singleton.2 ?_
    rw [ht]
    exact ⟨nofun, rfl⟩

lemma nesting_of_derives {f : Form} {u : List Token} (h : Derives f u) (hf : f.Even) :
    Grammar.nesting u = f.nesting := by
  induction h with
  | rule _ ih => exact (ih (grammar_even _).1).trans (grammar_even _).2
  | seq _ _ iha ihb =>
    rw [nesting_append, iha hf.1, ihb hf.2]
    rfl
  | left _ ih => exact ih hf.1
  | right _ ih => exact (ih hf.2.1).trans hf.2.2.symm
  | present _ ih => exact (ih hf.1).trans hf.2
  | manyCons _ _ iha ihb =>
    rw [nesting_append, iha hf.1, ihb hf, hf.2]
    rfl
  | upToCons _ _ iha ihb =>
    rw [nesting_append, iha hf.1, ihb hf, hf.2]
    rfl
  | punct ht | keyword ht | identifier ht | number ht | string ht =>
    simp [Form.nesting, nestingOf, ht]
  | absent | manyNil | upToNil => rfl

end Ebnf

end Lox.Grammar
