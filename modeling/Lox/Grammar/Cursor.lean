import Lox.Grammar.Fault

/-!
Reading tokens. A rule of the grammar is a `Parse`: it takes tokens off the front of a cursor and
gives a tree, or fails at the token in front of it. What it took before it failed stays taken.
-/

namespace Lox

namespace Grammar

structure Cursor where
  rest : List Token
  nextSite : SiteId
  errors : List SyntaxError

abbrev Parse := EStateM SyntaxError Cursor

def fail {α : Type} (fault : SyntaxFault) : Parse α :=
  fun c => .error ⟨fault, c.rest.head?⟩ c

def report (e : SyntaxError) : Parse Unit :=
  fun c => .ok () { c with errors := e :: c.errors }

def reportHere (fault : SyntaxFault) : Parse Unit :=
  fun c => .ok () { c with errors := ⟨fault, c.rest.head?⟩ :: c.errors }

def take? (ok : TokenType → Bool) : Parse (Option Token)
  | ⟨t :: rest, site, errors⟩ =>
    if ok t.type then .ok (some t) ⟨rest, site, errors⟩ else .ok none ⟨t :: rest, site, errors⟩
  | c => .ok none c

def accept? (type : TokenType) : Parse (Option Token) := take? (·.sameKind type)

def expect (type : TokenType) (what : Expected) : Parse Token := do
  match ← accept? type with
  | some t => pure t
  | none => fail (.missing what)

def facing (type : TokenType) : Parse Bool :=
  fun c => .ok (c.rest.head?.any (·.type.sameKind type)) c

def atEnd : Parse Bool := fun c => .ok c.rest.isEmpty c

def freshSite : Parse SiteId := fun c => .ok c.nextSite { c with nextSite := c.nextSite + 1 }

end Grammar

end Lox
