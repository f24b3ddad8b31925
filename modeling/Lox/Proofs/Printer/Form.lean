import Lox.Proofs.Printer.Sexp
import Lox.Syntax.Text

/-! The nested lists that the texts of trees stand for. -/

namespace Lox

open Sexp

mutual

def Expr.form : Expr → Sexp
  | .literal value => .word value.text
  | .grouping inner => .list [.word "group", inner.form]
  | .unary operator right => .list [.word operator.lexeme, right.form]
  | .binary left operator right | .logical left operator right =>
    .list [.word operator.lexeme, left.form, right.form]
  | .ref _ name => .word name.lexeme
  | .assign _ name value => .list [.word "=", .word name.lexeme, value.form]
  | .call callee _ arguments => .list (.word "call" :: callee.form :: Expr.forms arguments)

def Expr.forms : List Expr → List Sexp
  | [] => []
  | e :: rest => e.form :: Expr.forms rest

end

mutual

def Stmt.form : Stmt → Sexp
  | .expression e => .list [.word ";", e.form]
  | .print e => .list [.word "print", e.form]
  | .var name none => .list [.word "var", .word name.lexeme]
  | .var name (some e) => .list [.word "var", .word name.lexeme, e.form]
  | .block body => .list (.word "block" :: Stmt.forms body)
  | .ifThen condition thenBranch => .list [.word "if", condition.form, thenBranch.form]
  | .ifElse condition thenBranch elseBranch =>
    .list [.word "if", condition.form, thenBranch.form, elseBranch.form]
  | .loop condition body => .list [.word "while", condition.form, body.form]
  | .function name params body => .list (.word "fun" :: .word name.lexeme ::
      .list (params.map fun x => .word x.lexeme) :: Stmt.forms body)
  | .ret _ none => .list [.word "return"]
  | .ret _ (some e) => .list [.word "return", e.form]

def Stmt.forms : List Stmt → List Sexp
  | [] => []
  | s :: rest => s.form :: Stmt.forms rest

end

mutual

theorem Expr.toList_text : ∀ e : Expr, e.text.toList = e.form.chars
  | .literal _ | .ref _ _ => rfl
  | .grouping e => by
    simp [Expr.text, Expr.form, chars, moreChars, e.toList_text]
  | .unary op e => by
    simp [Expr.text, Expr.form, chars, moreChars, e.toList_text]
  | .binary a op b | .logical a op b => by
    simp [Expr.text, Expr.form, chars, moreChars, a.toList_text, b.toList_text]
  | .assign _ name e => by
    simp [Expr.text, Expr.form, chars, moreChars, e.toList_text]
  | .call callee _ args => by
    simp [Expr.text, Expr.form, chars, moreChars, callee.toList_text, Expr.toList_listText args]

lemma Expr.toList_listText : ∀ es : List Expr,
    (Expr.listText es).toList ++ [')'] = moreChars (Expr.forms es)
  | [] => rfl
  | e :: rest => by
    simp [Expr.listText, Expr.forms, moreChars, e.toList_text, Expr.toList_listText rest]

end

lemma intercalate_moreChars (x : Token) (xs : List Token) :
    [' '].intercalate ((x :: xs).map (·.lexeme.toList)) ++ [')'] =
      x.lexeme.toList ++ moreChars (xs.map fun x => .word x.lexeme) := by
  induction xs generalizing x with
  | nil => simp [moreChars]
  | cons y xs ih =>
    have hrest := ih y
    simp only [List.map_cons] at hrest ⊢
    rw [List.intercalate_cons_cons, List.append_assoc, List.append_assoc, hrest]
    rfl

lemma chars_names (params : List Token) :
    (Sexp.list (params.map fun x => .word x.lexeme)).chars =
      '(' :: ([' '].intercalate (params.map (·.lexeme.toList)) ++ [')']) := by
  cases params with
  | nil => rfl
  | cons x xs => rw [intercalate_moreChars, List.map_cons, chars, chars]

mutual

theorem Stmt.toList_text : ∀ s : Stmt, s.text.toList = s.form.chars
  | .expression e | .print e | .var _ (some e) | .ret _ (some e) => by
    simp [Stmt.text, Stmt.form, chars, moreChars, e.toList_text]
  | .var _ none | .ret _ none => by
    simp [Stmt.text, Stmt.form, chars, moreChars]
  | .block body => by
    simp [Stmt.text, Stmt.form, chars, Stmt.toList_listText body]
  | .ifThen c s | .loop c s => by
    simp [Stmt.text, Stmt.form, chars, moreChars, c.toList_text, s.toList_text]
  | .ifElse c s t => by
    simp [Stmt.text, Stmt.form, chars, moreChars, c.toList_text, s.toList_text, t.toList_text]
  | .function name params body => by
    simp [Stmt.text, Stmt.form, chars, moreChars, chars_names, Stmt.toList_listText body,
      Function.comp_def]

lemma Stmt.toList_listText : ∀ b : List Stmt,
    (Stmt.listText b).toList ++ [')'] = moreChars (Stmt.forms b)
  | [] => rfl
  | s :: rest => by
    simp [Stmt.listText, Stmt.forms, moreChars, s.toList_text, Stmt.toList_listText rest]

end

end Lox
