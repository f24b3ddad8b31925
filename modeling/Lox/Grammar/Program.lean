import Lox.Grammar.Stmt

/-!
Reading a whole token list. Reading ends at the first token of the end, or after the last token if
there is none.
-/

namespace Lox

/-- What reading a token list gives. The statements are those of a program only if there are no
errors. -/
structure Reading where
  statements : List Stmt
  errors : List SyntaxError
  nextSite : SiteId

namespace Grammar

def isEnd (t : Token) : Bool := t.type.sameKind .eof

def beforeEnd (tokens : List Token) : List Token := tokens.takeWhile (!isEnd ·)

def endLine (tokens : List Token) : Nat :=
  match tokens.find? isEnd with
  | some t => t.line
  | none => (tokens.getLast?.map (·.line)).getD 1

end Grammar

namespace Reading

open Grammar

def ofTokens (firstSite : SiteId) (tokens : List Token) : Reading :=
  let tokens := beforeEnd tokens
  let n := tokens.length + 1
  match Grammar.program (declaration n) n ⟨tokens, firstSite, []⟩ with
  | .ok statements c => ⟨statements, c.errors.reverse, c.nextSite⟩
  | .error e c => ⟨[], (e :: c.errors).reverse, c.nextSite⟩

def program? (r : Reading) : Except (List SyntaxError) (List Stmt) :=
  if r.errors.isEmpty then .ok r.statements else .error r.errors

end Reading

end Lox
