import Lox.Proofs.Progress.Tape
import Lox.Proofs.Viable.First

/-! Every declaration goes on, and reading stops at the first token of the end. -/

namespace Lox.Grammar

variable {α β : Type}

lemma Script.run_suffix (s : Script α) (c : Cursor) : (resultCursor (s.run c)).rest <:+ c.rest := by
  induction s generalizing c with
  | bind first next ihf ihn =>
    have hfirst := ihf c
    rw [Script.run]
    cases hr : first.run c with
    | ok a c₁ =>
      rw [hr] at hfirst
      rw [bind_ok hr]
      exact (ihn a c₁).trans hfirst
    | error e c₁ =>
      rw [hr] at hfirst
      rw [bind_error hr]
      exact hfirst
  | take ok =>
    obtain ⟨_ | ⟨t, rest⟩, site, errors⟩ := c
    · exact List.suffix_rfl
    · rw [Script.run, take?]
      split
      · exact List.suffix_cons t rest
      · exact List.suffix_rfl
  | recovering rule ih =>
    have hrule := ih c
    rw [Script.run]
    cases hr : rule.run c with
    | ok s c₁ =>
      rw [hr] at hrule
      rw [recovering_ok hr]
      exact hrule
    | error e c₁ =>
      rw [hr] at hrule
      rw [recovering_error hr]
      exact (resume_suffix c₁.rest).trans hrule
  | pure | facing | atEnd | freshSite | report | reportHere | fail => exact List.suffix_rfl

lemma Scripted.suffix {x : Parse α} (h : Scripted x) (c : Cursor) :
    (resultCursor (x c)).rest <:+ c.rest := by
  have hs := h.script.run_suffix c
  rwa [h.run_script] at hs

lemma Scripted.length_le {x : Parse α} (h : Scripted x) {c c' : Cursor} {a : α}
    (hx : x c = .ok a c') : c'.rest.length ≤ c.rest.length := by
  have hs := h.suffix c
  rw [hx] at hs
  exact hs.length_le

def Consumes (x : Parse α) : Prop := ∀ ⦃c a c'⦄, x c = .ok a c' → c'.rest.length < c.rest.length

namespace Consumes

variable {x : Parse α} {f : α → Parse β}

lemma andThen (hx : Consumes x) (hf : ∀ a, Scripted (f a)) : Consumes (x >>= f) := by
  intro c b c' h
  obtain ⟨a, c₁, hc, hb⟩ := bind_eq_ok h
  exact Nat.lt_of_le_of_lt ((hf a).length_le hb) (hx hc)

lemma after (hx : Scripted x) (hf : ∀ a, Consumes (f a)) : Consumes (x >>= f) := by
  intro c b c' h
  obtain ⟨a, c₁, hc, hb⟩ := bind_eq_ok h
  exact Nat.lt_of_lt_of_le (hf a hb) (hx.length_le hc)

lemma fail (fault : SyntaxFault) : Consumes (fail fault : Parse α) := nofun

lemma choice {ok : TokenType → Bool} {f : Option Token → Parse β}
    (hsome : ∀ t, Scripted (f (some t)))
    (hnone : Consumes (f none)) : Consumes (take? ok >>= f) := by
  intro c b c' h
  obtain ⟨_ | t, c₁, hc, hb⟩ := bind_eq_ok h
  · obtain ⟨rfl, -⟩ := take?_none hc
    exact hnone hb
  · rw [take?_some hc]
    exact Nat.lt_succ_of_le ((hsome t).length_le hb)

lemma expect (type : TokenType) (what : Expected) : Consumes (expect type what) :=
  choice (fun t => .pure t) (.fail _)

variable {exprRule : Parse Expr} (he : Scripted exprRule)
  {stmtRule : Parse Stmt} {declRule : Parse (Option Stmt)} (hd : Scripted declRule)

include he in
lemma expressionStmt : Consumes (expressionStmt exprRule) :=
  .after he fun e => (Consumes.expect _ _).andThen fun _ => .pure (Stmt.expression e)

include he hd in
lemma statementRule (hs : Scripted stmtRule) (n : ℕ) :
    Consumes (statementRule exprRule stmtRule declRule n) := by
  refine choice (fun t => ?_) (expressionStmt he)
  dsimp only
  split
  · exact .forStmt he hs
  · exact .ifStmt he hs
  · exact .printStmt he
  · exact .returnStmt he t
  · exact .whileStmt he hs
  · exact (Scripted.block hd n).map Stmt.block

include he hd in
lemma declarationRule (hs : Consumes stmtRule) (n : ℕ) :
    Consumes (declarationRule exprRule stmtRule declRule n) :=
  choice (fun _ => .function hd n) (choice (fun _ => .varDeclaration he) hs)

end Consumes

lemma declaration_advances (n : ℕ) {c : Cursor} (hne : c.rest ≠ []) :
    (resultCursor (declaration n c)).rest.length < c.rest.length := by
  cases n with
  | zero =>
    -- No rule is followed, but going on after the failure passes a token.
    apply recovering_length_lt _ _ hne
    · exact (Scripted.fail _).suffix c
    · apply Consumes.fail
  | succ n =>
    obtain ⟨hs, hd⟩ := Scripted.statement_declaration n
    have he := Scripted.expression (n + 1)
    have hstatement := Scripted.statementRule he hs hd (n + 1)
    apply recovering_length_lt _ _ hne
    · exact (Scripted.declarationRule he hstatement hd (n + 1)).suffix c
    · apply Consumes.declarationRule he hd (Consumes.statementRule he hd hs (n + 1)) (n + 1)

def withEnd (tokens : List Token) : List Token :=
  if tokens.getLast?.any isEnd then tokens
  else tokens ++ [⟨.eof, "", (tokens.getLast?.map fun t => t.offset + t.lexeme.utf8ByteSize).getD 0,
    (tokens.getLast?.map (·.line)).getD 1⟩]

lemma beforeEnd_cons {before after : List Token} {last : Token}
    (hbefore : ∀ t ∈ before, isEnd t = false) (hlast : isEnd last = true) :
    beforeEnd (before ++ last :: after) = before := by
  rw [beforeEnd_append hbefore, beforeEnd, List.takeWhile_cons_of_neg (by simp [hlast]),
    List.append_nil]

lemma endLine_cons {before after : List Token} {last : Token}
    (hbefore : ∀ t ∈ before, isEnd t = false) (hlast : isEnd last = true) :
    endLine (before ++ last :: after) = last.line := by
  have hnone : before.find? isEnd = none := List.find?_eq_none.2 fun t ht => by simp [hbefore t ht]
  simp [endLine, List.find?_append, hnone, hlast]

lemma withEnd_split (tokens : List Token) : ∃ last after,
    withEnd tokens = beforeEnd tokens ++ last :: after ∧ isEnd last = true ∧
      last.line = endLine tokens := by
  cases hfind : tokens.find? isEnd with
  | some last =>
    obtain ⟨hlast, before, after, rfl, hbefore⟩ := List.find?_eq_some_iff_append.1 hfind
    have hbefore : ∀ t ∈ before, isEnd t = false := fun t ht => by simpa using hbefore t ht
    rw [beforeEnd_cons hbefore hlast, endLine_cons hbefore hlast, withEnd]
    split
    · exact ⟨last, after, rfl, hlast, rfl⟩
    · exact ⟨last, _, by rw [List.append_assoc, List.cons_append], hlast, rfl⟩
  | none =>
    have hnone : ∀ t ∈ tokens, isEnd t = false := fun t ht => by
      simpa using List.find?_eq_none.1 hfind t ht
    have hlast : tokens.getLast?.any isEnd = false := by
      cases h : tokens.getLast? with
      | none => rfl
      | some t => exact hnone t (List.mem_of_getLast? h)
    rw [beforeEnd_of_none hnone, endLine, hfind, withEnd, hlast]
    exact ⟨_, [], rfl, rfl, rfl⟩

def Script.declaration (n : ℕ) : Script (Option Stmt) := (Scripted.statement_declaration n).2.script

def Script.program (n : ℕ) : Script (List Stmt) :=
  (Scripted.program (Scripted.statement_declaration n).2 n).script

/-- Reading comes to the token of the end. There need be none behind it, and what is there makes no
difference. -/
structure Stops (first : SiteId) (tokens : List Token) (last : Token) : Prop where
  held : ∃ after, withEnd tokens = beforeEnd tokens ++ last :: after
  before : ∀ t ∈ beforeEnd tokens, isEnd t = false
  ended : isEnd last = true
  same : ∀ after, Reading.ofTokens first (beforeEnd tokens ++ last :: after) =
      Reading.ofTokens first tokens ∧
    endLine (beforeEnd tokens ++ last :: after) = endLine tokens
  reads : ∀ after n, (beforeEnd tokens).length < n → ∃ t,
    (Script.program n).play ⟨beforeEnd tokens ++ last :: after, 0, first, []⟩ =
        some (.ok (Reading.ofTokens first tokens).statements t) ∧
      t.place = (beforeEnd tokens).length ∧
      t.nextSite = (Reading.ofTokens first tokens).nextSite ∧
      (t.reports.map (·.error)).reverse = (Reading.ofTokens first tokens).errors ∧
      t.Orderly (beforeEnd tokens)
  advances : ∀ n (t : Tape), (∃ after, t.tokens = beforeEnd tokens ++ last :: after) →
    t.place < (beforeEnd tokens).length →
    ∃ o t', (Script.declaration n).play t = some (.ok o t') ∧ t'.tokens = t.tokens ∧
      t.place < t'.place ∧ t'.place ≤ (beforeEnd tokens).length

section

variable {before : List Token} {last : Token} (hbefore : ∀ t ∈ before, isEnd t = false)
  (hlast : isEnd last = true)
include hbefore hlast

lemma program_plays (after : List Token) {n : ℕ} {first : SiteId} {ss : List Stmt} {c : Cursor}
    (h : program (declaration n) n ⟨before, first, []⟩ = .ok ss c) (hrest : c.rest = []) :
    ∃ t, (Script.program n).play ⟨before ++ last :: after, 0, first, []⟩ = some (.ok ss t) ∧
      t.place = before.length ∧ t.nextSite = c.nextSite ∧ t.reports.map (·.error) = c.errors ∧
      t.Orderly before := by
  have hstart := Tape.shows_cursor (t := ⟨before ++ last :: after, 0, first, []⟩) rfl
    (Nat.zero_le _)
  have hplays := (Script.program n).play_shows hbefore hlast hstart
  have hrun : (Script.program n).run = program (declaration n) n := Scripted.run_script _
  change Plays _ _ _ _ _ ((Script.program n).run ⟨before, first, []⟩) at hplays
  rw [hrun, h] at hplays
  generalize (Script.program n).play _ = p at hplays ⊢
  cases hplays with
  | @ok _ t _ hshows hkeeps =>
    have hdrop : before.drop t.place = [] := hshows.rest.symm.trans hrest
    refine ⟨t, rfl, ?_, hshows.site, hshows.errors, ?_⟩
    · exact Nat.le_antisymm hshows.place (List.drop_eq_nil_iff.1 hdrop)
    · apply hkeeps
      constructor <;> simp

lemma declaration_plays (n : ℕ) {after : List Token} {t : Tape}
    (htokens : t.tokens = before ++ last :: after) (hplace : t.place < before.length) :
    ∃ o t', (Script.declaration n).play t = some (.ok o t') ∧ t'.tokens = t.tokens ∧
      t.place < t'.place ∧ t'.place ≤ before.length := by
  have hplays := (Script.declaration n).play_shows hbefore hlast (t.shows_cursor htokens hplace.le)
  have hrun : (Script.declaration n).run = declaration n := Scripted.run_script _
  have hlt := declaration_advances n (c := t.cursor before)
    (List.drop_eq_nil_iff.not.2 (Nat.not_le.2 hplace))
  obtain ⟨o, c, hc⟩ := declaration_ok n (t.cursor before)
  rw [hrun, hc] at hplays
  rw [hc] at hlt
  generalize (Script.declaration n).play t = p at hplays ⊢
  cases hplays with
  | @ok _ t' _ hshows' _ =>
    refine ⟨o, t', rfl, hshows'.tokens.trans htokens.symm, ?_, hshows'.place⟩
    change c.rest.length < (before.drop t.place).length at hlt
    rw [hshows'.rest, List.length_drop, List.length_drop] at hlt
    omega

end

/-- Reading stops at the first token of the end, and every declaration goes on towards it. -/
theorem reading_stops (first : SiteId) (tokens : List Token) : ∃ last, Stops first tokens last := by
  obtain ⟨last, after, hsplit, hlast, hline⟩ := withEnd_split tokens
  have hbefore : ∀ t ∈ beforeEnd tokens, isEnd t = false := fun t => mem_beforeEnd
  obtain ⟨ss, c, hrun, hread⟩ := ofTokens_cases first tokens
  have hlen : (beforeEnd tokens).length < (beforeEnd tokens).length + 1 := Nat.lt_succ_self _
  have hrest := program_rest (c := ⟨beforeEnd tokens, first, []⟩) hlen hlen hrun
  refine ⟨last, ⟨after, hsplit⟩, hbefore, hlast, fun after => ⟨?_, ?_⟩, fun after n hn => ?_,
    fun n t ⟨after, htokens⟩ => declaration_plays hbefore hlast n htokens⟩
  · rw [ofTokens_eq, ofTokens_eq, beforeEnd_cons hbefore hlast]
  · rw [endLine_cons hbefore hlast, hline]
  · -- Any larger bound gives what the least one gives.
    obtain ⟨d, rfl⟩ := Nat.exists_eq_add_of_le' hn
    have hlater := program_later hrun [] d d
    rw [Cursor.extend, List.append_nil, List.append_nil] at hlater
    obtain ⟨t, hplay, hplace, hsite, herrors, horderly⟩ :=
      program_plays hbefore hlast after hlater hrest
    rw [hread]
    exact ⟨t, hplay, hplace, hsite, congrArg List.reverse herrors, horderly⟩

end Lox.Grammar
