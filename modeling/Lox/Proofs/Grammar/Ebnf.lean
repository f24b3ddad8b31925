import Lox.Grammar.Program
import Mathlib.Data.List.Basic

/-! The grammar of the language as a table of rules, and the token lists that it derives. -/

namespace Lox.Grammar.Ebnf

inductive Rule where
  | program | declaration | funDecl | varDecl
  | statement | exprStmt | forStmt | ifStmt | printStmt | returnStmt | whileStmt | block
  | parameters
  | expression | assignment | logicOr | logicAnd | equality | comparison | term | factor
  | unary | call | arguments | primary
deriving DecidableEq, Repr

inductive Form where
  | punct (p : Punct)
  | keyword (k : Keyword)
  | identifier | number | string
  | rule (r : Rule)
  | seq (a b : Form)
  | alt (a b : Form)
  | opt (a : Form)
  | many (a : Form)
  | upTo (n : ℕ) (a : Form)

namespace Form

def all : Form → List Form → Form
  | a, [] => a
  | a, b :: rest => seq a (all b rest)

def any : Form → List Form → Form
  | a, [] => a
  | a, b :: rest => alt a (any b rest)

end Form

open Form

def commaList (element : Form) : Form := all element [upTo 254 (all (punct .comma) [element])]

def infixList (operators operand : Form) : Form :=
  all operand [many (all operators [operand])]

/-- The rules. The token of the end, which ends a program, is not part of it. -/
def grammar : Rule → Form
  | .program => many (rule .declaration)
  | .declaration => any (rule .funDecl) [rule .varDecl, rule .statement]
  | .funDecl => all (keyword .kwFun) [identifier, punct .leftParen, opt (rule .parameters),
      punct .rightParen, rule .block]
  | .varDecl => all (keyword .kwVar) [identifier, opt (all (punct .equal) [rule .expression]),
      punct .semicolon]
  | .statement => any (rule .exprStmt) [rule .forStmt, rule .ifStmt, rule .printStmt,
      rule .returnStmt, rule .whileStmt, rule .block]
  | .exprStmt => all (rule .expression) [punct .semicolon]
  | .forStmt => all (keyword .kwFor) [punct .leftParen,
      any (rule .varDecl) [rule .exprStmt, punct .semicolon],
      opt (rule .expression), punct .semicolon, opt (rule .expression), punct .rightParen,
      rule .statement]
  | .ifStmt => all (keyword .kwIf) [punct .leftParen, rule .expression, punct .rightParen,
      rule .statement, opt (all (keyword .kwElse) [rule .statement])]
  | .printStmt => all (keyword .kwPrint) [rule .expression, punct .semicolon]
  | .returnStmt => all (keyword .kwReturn) [opt (rule .expression), punct .semicolon]
  | .whileStmt => all (keyword .kwWhile) [punct .leftParen, rule .expression, punct .rightParen,
      rule .statement]
  | .block => all (punct .leftBrace) [many (rule .declaration), punct .rightBrace]
  | .parameters => commaList identifier
  | .expression => rule .assignment
  | .assignment => any (all identifier [punct .equal, rule .assignment]) [rule .logicOr]
  | .logicOr => infixList (keyword .kwOr) (rule .logicAnd)
  | .logicAnd => infixList (keyword .kwAnd) (rule .equality)
  | .equality => infixList (any (punct .bangEqual) [punct .equalEqual]) (rule .comparison)
  | .comparison => infixList (any (punct .greater) [punct .greaterEqual, punct .less,
      punct .lessEqual]) (rule .term)
  | .term => infixList (any (punct .minus) [punct .plus]) (rule .factor)
  | .factor => infixList (any (punct .slash) [punct .star]) (rule .unary)
  | .unary => any (all (any (punct .bang) [punct .minus]) [rule .unary]) [rule .call]
  | .call => all (rule .primary) [many (all (punct .leftParen) [opt (rule .arguments),
      punct .rightParen])]
  | .arguments => commaList (rule .expression)
  | .primary => any number [string, keyword .kwTrue, keyword .kwFalse, keyword .kwNil, identifier,
      all (punct .leftParen) [rule .expression, punct .rightParen]]

inductive Derives : Form → List Token → Prop
  | punct {t p} : t.type = .punct p → Derives (punct p) [t]
  | keyword {t k} : t.type = .keyword k → Derives (keyword k) [t]
  | identifier {t} : t.type = .identifier → Derives identifier [t]
  | number {t x} : t.type = .number x → Derives number [t]
  | string {t s} : t.type = .string s → Derives string [t]
  | rule {r u} : Derives (grammar r) u → Derives (rule r) u
  | seq {a b u v} : Derives a u → Derives b v → Derives (seq a b) (u ++ v)
  | left {a b u} : Derives a u → Derives (alt a b) u
  | right {a b u} : Derives b u → Derives (alt a b) u
  | absent {a} : Derives (opt a) []
  | present {a u} : Derives a u → Derives (opt a) u
  | manyNil {a} : Derives (many a) []
  | manyCons {a u v} : Derives a u → Derives (many a) v → Derives (many a) (u ++ v)
  | upToNil {n a} : Derives (upTo n a) []
  | upToCons {n a u v} : Derives a u → Derives (upTo n a) v → Derives (upTo (n + 1) a) (u ++ v)

section

variable {a b : Form} {r : Rule} {p : Punct} {k : Keyword} {u : List Token}

@[simp] lemma derives_punct : Derives (punct p) u ↔ ∃ t, u = [t] ∧ t.type = .punct p := by
  constructor
  · rintro ⟨⟩
    exact ⟨_, rfl, ‹_›⟩
  · rintro ⟨t, rfl, ht⟩
    exact .punct ht

@[simp] lemma derives_keyword : Derives (keyword k) u ↔ ∃ t, u = [t] ∧ t.type = .keyword k := by
  constructor
  · rintro ⟨⟩
    exact ⟨_, rfl, ‹_›⟩
  · rintro ⟨t, rfl, ht⟩
    exact .keyword ht

@[simp] lemma derives_identifier : Derives identifier u ↔ ∃ t, u = [t] ∧ t.type = .identifier := by
  constructor
  · rintro ⟨⟩
    exact ⟨_, rfl, ‹_›⟩
  · rintro ⟨t, rfl, ht⟩
    exact .identifier ht

@[simp] lemma derives_number : Derives number u ↔ ∃ t x, u = [t] ∧ t.type = .number x := by
  constructor
  · rintro ⟨⟩
    exact ⟨_, _, rfl, ‹_›⟩
  · rintro ⟨t, x, rfl, ht⟩
    exact .number ht

@[simp] lemma derives_string : Derives string u ↔ ∃ t s, u = [t] ∧ t.type = .string s := by
  constructor
  · rintro ⟨⟩
    exact ⟨_, _, rfl, ‹_›⟩
  · rintro ⟨t, s, rfl, ht⟩
    exact .string ht

lemma derives_rule : Derives (rule r) u ↔ Derives (grammar r) u := by
  constructor
  · rintro ⟨⟩
    assumption
  · exact .rule

@[simp] lemma derives_seq :
    Derives (seq a b) u ↔ ∃ v w, u = v ++ w ∧ Derives a v ∧ Derives b w := by
  constructor
  · rintro ⟨⟩
    exact ⟨_, _, rfl, ‹_›, ‹_›⟩
  · rintro ⟨v, w, rfl, hv, hw⟩
    exact .seq hv hw

lemma derives_seq_nil (hu : Derives a u) (hb : Derives b []) : Derives (seq a b) u :=
  derives_seq.2 ⟨u, [], (List.append_nil u).symm, hu, hb⟩

@[simp] lemma derives_alt : Derives (alt a b) u ↔ Derives a u ∨ Derives b u := by
  constructor
  · rintro ⟨⟩
    · exact .inl ‹_›
    · exact .inr ‹_›
  · rintro (h | h)
    · exact .left h
    · exact .right h

@[simp] lemma derives_opt : Derives (opt a) u ↔ u = [] ∨ Derives a u := by
  constructor
  · rintro ⟨⟩
    · exact .inl rfl
    · exact .inr ‹_›
  · rintro (rfl | h)
    · exact .absent
    · exact .present h

end

end Lox.Grammar.Ebnf
