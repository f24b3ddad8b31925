import Lox.Diagnostic
import Lox.Proofs.Grammar.Acceptance
import Lox.Proofs.Recovery.Statements
import Lox.Proofs.Sites.Shift
import Mathlib.Data.List.TakeWhile

/-! Errors stay where they are: what is read after some broken statements is read as if it stood
alone. -/

namespace Lox.Grammar

lemma declaration_ok (n : ℕ) (c : Cursor) : ∃ o c', declaration n c = .ok o c' := by
  rw [declaration_eq]
  cases h : declarationAt n c with
  | ok s c' => exact ⟨_, _, recovering_ok h⟩
  | error e c' => exact ⟨_, _, recovering_error h⟩

lemma program_nil {declaration : Parse (Option Stmt)} {c : Cursor} (h : c.rest = []) (k : ℕ) :
    program declaration (k + 1) c = .ok [] c := by
  obtain ⟨rest, site, errors⟩ := c
  cases h
  rfl

lemma program_cons {declaration : Parse (Option Stmt)} {c : Cursor} (h : c.rest ≠ []) (k : ℕ) :
    program declaration (k + 1) c = (do
      let first ← declaration
      let more ← program declaration k
      pure (first.toList ++ more) : Parse (List Stmt)) c := by
  obtain ⟨_ | ⟨t, rest⟩, site, errors⟩ := c
  · exact absurd rfl h
  · rfl

lemma program_ok (n k : ℕ) (c : Cursor) : ∃ ss c', program (declaration n) k c = .ok ss c' := by
  induction k generalizing c with
  | zero => exact ⟨[], c, rfl⟩
  | succ k ih =>
    by_cases hne : c.rest = []
    · exact ⟨[], c, program_nil hne k⟩
    · obtain ⟨first, c₁, hfirst⟩ := declaration_ok n c
      obtain ⟨ss, c', hss⟩ := ih c₁
      rw [program_cons hne, bind_ok hfirst, bind_ok hss]
      exact ⟨_, _, rfl⟩

lemma program_grows {n k : ℕ} {c c' : Cursor} {ss : List Stmt}
    (h : program (declaration n) k c = .ok ss c') : c.errors <:+ c'.errors := by
  have hk := ((Specifies.statement_exact n).2.program k 0 (Nat.zero_le n) (Nat.zero_le k)).keeps c
  rw [h] at hk
  exact hk.errors

/-- No error is at the end, and where there is one the tokens end in a semicolon. -/
structure Contained (tokens : List Token) (errors : List SyntaxError) : Prop where
  found : ∀ e ∈ errors, e.found ≠ none
  semicolon : errors ≠ [] → ∀ t ∈ tokens.getLast?, isSemicolon t = true

lemma Contained.suffix {tokens rest : List Token} {errors : List SyntaxError}
    (h : Contained tokens errors) (hs : rest <:+ tokens) : Contained rest errors := by
  refine ⟨h.found, fun hne t ht => h.semicolon hne t ?_⟩
  obtain ⟨taken, rfl⟩ := hs
  rw [List.getLast?_append, Option.mem_def.1 ht]
  rfl

lemma Contained.earlier {tokens : List Token} {errors errors' : List SyntaxError}
    (h : Contained tokens errors) (he : errors' <:+ errors) : Contained tokens errors' :=
  ⟨fun e hin => h.found e (he.subset hin), fun hne =>
    h.semicolon fun hnil => hne (List.suffix_nil.1 (hnil ▸ he))⟩

section

variable {more : List Token} (hmore : more.head?.any (·.type.sameKind (.keyword .kwElse)) = false)
include hmore

lemma declaration_joined {n d : ℕ} {c c' : Cursor} {o : Option Stmt} (hc : c.rest.length < n)
    (h : declaration n c = .ok o c') (hin : Contained c.rest c'.errors) :
    declaration (d + n) (c.extend more []) = .ok o (c'.extend more []) := by
  have htakes : Takes more [] n (declarationAt n) (declarationAt (d + n)) :=
    (statement_takes d n hmore).2
  obtain ⟨⟨⟨hsuffix, hfound, hsame⟩, hcomplete⟩, -⟩ := htakes c hc
  rw [declaration_eq] at h ⊢
  cases hr : declarationAt n c with
  | ok s c₁ =>
    rw [recovering_ok hr] at h
    cases h
    exact recovering_ok (hcomplete hr)
  | error e c₁ =>
    rw [recovering_error hr] at h
    cases h
    rw [hr] at hsuffix hsame
    -- The error is at a token, so one is left, and the last that is left is the semicolon.
    cases hlast : c₁.rest.getLast? with
    | none =>
      rw [List.getLast?_eq_none_iff] at hlast
      refine absurd ?_ (hin.found e List.mem_cons_self)
      rw [hfound hr, hlast]
      rfl
    | some t =>
      have hne : c₁.rest ≠ [] := by
        intro hnil
        rw [hnil] at hlast
        cases hlast
      have hsemicolon : c₁.rest.getLast?.any isSemicolon = true := by
        rw [hlast]
        exact (hin.suffix hsuffix).semicolon (List.cons_ne_nil _ _) t hlast
      rw [recovering_error (hsame (.inr hne))]
      simp [Cursor.extend, resume_append (.inr hsemicolon)]

lemma program_joined {n k : ℕ} (d : ℕ) {c c' : Cursor} {ss : List Stmt} (hn : c.rest.length < n)
    (hk : c.rest.length < k) (h : program (declaration n) k c = .ok ss c')
    (hin : Contained c.rest c'.errors) :
    ∃ j, ∀ {more' c''}, program (declaration (d + n)) (d + (j + 1))
        ⟨more, c'.nextSite, c'.errors⟩ = .ok more' c'' →
      program (declaration (d + n)) (d + k) (c.extend more []) = .ok (ss ++ more') c'' := by
  induction k generalizing c ss with
  | zero => exact absurd hk (Nat.not_lt_zero _)
  | succ k ih =>
    by_cases hne : c.rest = []
    · rw [program_nil hne] at h
      cases h
      refine ⟨k, fun {more' c''} hmore' => ?_⟩
      rw [Cursor.extend, hne, List.append_nil]
      exact hmore'
    · rw [program_cons hne] at h
      obtain ⟨first, c₁, hfirst, h⟩ := bind_eq_ok h
      obtain ⟨rest, c₂, hrest, h⟩ := bind_eq_ok h
      cases h
      have hjoined := declaration_joined (d := d) hmore hn hfirst
        (hin.earlier (program_grows hrest))
      have hd : Recovers more [] n (declaration n) (declaration (d + n)) :=
        (statement_takes d n hmore).2.declaration
      have hsuffix := (hd.follows c hn).suffix_of_ok hfirst
      have hlt := hd.advances hn hne
      rw [hfirst] at hlt
      obtain ⟨j, hj⟩ := ih (c := c₁) (Nat.lt_trans hlt hn)
        (Nat.lt_of_lt_of_le hlt (Nat.le_of_lt_succ hk)) hrest (hin.suffix hsuffix)
      refine ⟨j, fun {more' c''} hmore' => ?_⟩
      have hne' : (c.extend more []).rest ≠ [] := List.append_ne_nil_of_left_ne_nil hne more
      refine (program_cons hne' (d + k)).trans ?_
      rw [bind_ok hjoined, bind_ok (hj hmore'), List.append_assoc]
      rfl

end

lemma program_later {tokens : List Token} {site : SiteId} {ss : List Stmt} {c : Cursor}
    (h : program (declaration (tokens.length + 1)) (tokens.length + 1) ⟨tokens, site, []⟩ =
      .ok ss c)
    (earlier : List SyntaxError) (d d' : ℕ) :
    program (declaration (d + (tokens.length + 1))) (d' + (tokens.length + 1))
      ⟨tokens, site, earlier⟩ = .ok ss (c.extend [] earlier) := by
  have hd : Recovers [] earlier (tokens.length + 1) (declaration (tokens.length + 1))
      (declaration (d + (tokens.length + 1))) := (statement_takes d _ rfl).2.declaration
  have hp := hd.program d' (Nat.le_refl _) (Nat.le_refl _) ⟨tokens, site, []⟩ (Nat.lt_succ_self _)
  have hsame := hp.same (.inl rfl)
  rw [h, Cursor.extend, List.append_nil] at hsame
  exact hsame

lemma ofTokens_cases (first : SiteId) (tokens : List Token) : ∃ ss c,
    program (declaration ((beforeEnd tokens).length + 1)) ((beforeEnd tokens).length + 1)
      ⟨beforeEnd tokens, first, []⟩ = .ok ss c ∧
    Reading.ofTokens first tokens = ⟨ss, c.errors.reverse, c.nextSite⟩ := by
  obtain ⟨ss, c, h⟩ := program_ok ((beforeEnd tokens).length + 1) ((beforeEnd tokens).length + 1)
    ⟨beforeEnd tokens, first, []⟩
  refine ⟨ss, c, h, ?_⟩
  rw [ofTokens_eq, h]

lemma mem_beforeEnd {tokens : List Token} {t : Token} (h : t ∈ beforeEnd tokens) :
    isEnd t = false := by
  simpa using List.mem_takeWhile_imp h

lemma beforeEnd_append {tokens : List Token} (h : ∀ t ∈ tokens, isEnd t = false)
    (more : List Token) : beforeEnd (tokens ++ more) = tokens ++ beforeEnd more :=
  List.takeWhile_append_of_pos fun t ht => by simp [h t ht]

lemma beforeEnd_of_none {tokens : List Token} (h : ∀ t ∈ tokens, isEnd t = false) :
    beforeEnd tokens = tokens := by
  have happend := beforeEnd_append h []
  rw [List.append_nil] at happend
  exact happend.trans (List.append_nil tokens)

lemma head?_beforeEnd {more : List Token} {p : Token → Bool} (h : more.head?.any p = false) :
    (beforeEnd more).head?.any p = false := by
  cases more with
  | nil => rfl
  | cons t rest =>
    rw [beforeEnd, List.takeWhile_cons]
    split
    · exact h
    · rfl

section

variable (first : SiteId) {broken more : List Token} (hbroken : ∀ t ∈ broken, isEnd t = false)
  (hin : (Reading.ofTokens first broken).errors = [] ∨
    broken.getLast?.any isSemicolon = true ∧
      ∀ e ∈ (Reading.ofTokens first broken).errors, e.found ≠ none)
  (hmore : more.head?.any (·.type.sameKind (.keyword .kwElse)) = false)
include hbroken hin hmore

theorem ofTokens_append : Reading.ofTokens first (broken ++ more) =
    ⟨(Reading.ofTokens first broken).statements ++
        (Reading.ofTokens (Reading.ofTokens first broken).nextSite more).statements,
      (Reading.ofTokens first broken).errors ++
        (Reading.ofTokens (Reading.ofTokens first broken).nextSite more).errors,
      (Reading.ofTokens (Reading.ofTokens first broken).nextSite more).nextSite⟩ := by
  obtain ⟨ss, c, hss, hread⟩ := ofTokens_cases first broken
  obtain ⟨ss', c', hss', hread'⟩ := ofTokens_cases c.nextSite more
  rw [beforeEnd_of_none hbroken] at hss
  rw [hread] at hin ⊢
  rw [hread']
  have hcontained : Contained broken c.errors := by
    constructor
    · intro e he
      obtain hnil | ⟨-, hfound⟩ := hin
      · rw [List.reverse_eq_nil_iff.1 hnil] at he
        cases he
      · exact hfound e (List.mem_reverse.2 he)
    · intro hne t ht
      obtain hnil | ⟨hlast, -⟩ := hin
      · exact absurd (List.reverse_eq_nil_iff.1 hnil) hne
      · rwa [Option.mem_def.1 ht] at hlast
  obtain ⟨j, hj⟩ := program_joined (head?_beforeEnd hmore) (beforeEnd more).length
    (Nat.lt_succ_self broken.length) (Nat.lt_succ_self broken.length) hss hcontained
  have hlater := program_later hss' c.errors broken.length j
  have hbound : ∀ m, m + ((beforeEnd more).length + 1) = (beforeEnd more).length + (m + 1) := by
    omega
  rw [hbound, hbound] at hlater
  have hjoined := hj hlater
  have hlength : (broken ++ beforeEnd more).length + 1 =
      (beforeEnd more).length + (broken.length + 1) := by
    rw [List.length_append, Nat.add_assoc, hbound]
  rw [ofTokens_eq, beforeEnd_append hbroken, hlength]
  simp only [Cursor.extend, List.append_nil] at hjoined
  rw [hjoined]
  simp

end

lemma errors_first (i j : SiteId) (tokens : List Token) :
    (Reading.ofTokens i tokens).errors = (Reading.ofTokens j tokens).errors := by
  have hzero : ∀ k, (Reading.ofTokens k tokens).errors = (Reading.ofTokens 0 tokens).errors := by
    intro k
    have h := ofTokens_shift k 0 tokens
    rw [Nat.zero_add] at h
    rw [h]
  rw [hzero, hzero j]

lemma endLine_append {tokens more : List Token} (h : ∀ t ∈ tokens, isEnd t = false)
    (hmore : more.getLast?.any isEnd = true) : endLine (tokens ++ more) = endLine more := by
  have hnone : tokens.find? isEnd = none := List.find?_eq_none.2 fun t ht => by simp [h t ht]
  rw [endLine, endLine, List.find?_append, hnone, Option.none_or]
  cases hfind : more.find? isEnd with
  | some t => rfl
  | none =>
    cases hlast : more.getLast? with
    | none =>
      rw [hlast] at hmore
      cases hmore
    | some t =>
      rw [hlast] at hmore
      exact absurd hmore (List.find?_eq_none.1 hfind t (List.mem_of_getLast? hlast))

lemma diagnostic_found {e : SyntaxError} (h : e.found ≠ none) (line line' : ℕ) :
    e.diagnostic line = e.diagnostic line' := by
  obtain ⟨fault, _ | t⟩ := e
  · exact absurd rfl h
  · rfl

/-- Error recovery is local to the broken statements. -/
theorem recovery_local (first other : SiteId) (broken more : List Token)
    (hbroken : ∀ t ∈ broken, isEnd t = false)
    (hin : (Reading.ofTokens first broken).errors = [] ∨
      broken.getLast?.any isSemicolon = true ∧
        ∀ e ∈ (Reading.ofTokens first broken).errors, e.found ≠ none)
    (hend : more.getLast?.any isEnd = true)
    (hmore : more.head?.any (·.type.sameKind (.keyword .kwElse)) = false) :
    (Reading.ofTokens first (broken ++ more)).errors =
        (Reading.ofTokens first broken).errors ++ (Reading.ofTokens other more).errors ∧
      (Reading.ofTokens first (broken ++ more)).errors.map
          (·.diagnostic (endLine (broken ++ more))) =
        (Reading.ofTokens first broken).errors.map (·.diagnostic (endLine broken)) ++
          (Reading.ofTokens other more).errors.map (·.diagnostic (endLine more)) ∧
      ∀ program program', (Reading.ofTokens first broken).program? = .ok program →
        (Reading.ofTokens (Reading.ofTokens first broken).nextSite more).program? = .ok program' →
        (Reading.ofTokens first (broken ++ more)).program? = .ok (program ++ program') := by
  have happend := ofTokens_append first hbroken hin hmore
  have herrors : (Reading.ofTokens first (broken ++ more)).errors =
      (Reading.ofTokens first broken).errors ++ (Reading.ofTokens other more).errors := by
    rw [happend, errors_first other]
  refine ⟨herrors, ?_, fun program program' hp hp' => ?_⟩
  · rw [herrors, List.map_append, endLine_append hbroken hend]
    congr 1
    refine List.map_congr_left fun e he => diagnostic_found ?_ _ _
    obtain hnil | ⟨-, hfound⟩ := hin
    · rw [hnil] at he
      cases he
    · exact hfound e he
  · rw [program?_eq_ok] at hp hp' ⊢
    have hstatements := congrArg Reading.statements hp
    have hstatements' := congrArg Reading.statements hp'
    have herrors := congrArg Reading.errors hp
    have herrors' := congrArg Reading.errors hp'
    rw [happend, hstatements, hstatements', herrors, herrors']
    rfl

def printNothing : List Token :=
  [⟨.keyword .kwPrint, "print", 0, 1⟩, ⟨.punct .semicolon, ";", 6, 1⟩]

def addNothing : List Token :=
  [⟨.punct .plus, "+", 8, 2⟩, ⟨.punct .semicolon, ";", 9, 2⟩, ⟨.eof, "", 10, 2⟩]

theorem printNothing_local : (Reading.ofTokens 0 (printNothing ++ addNothing)).errors =
    [⟨.missing .expression, some ⟨.punct .semicolon, ";", 6, 1⟩⟩,
      ⟨.missing .expression, some ⟨.punct .plus, "+", 8, 2⟩⟩] := by
  have hfound : ∀ e ∈ (Reading.ofTokens 0 printNothing).errors, e.found ≠ none :=
    List.forall_mem_singleton.2 nofun
  exact (recovery_local 0 0 printNothing addNothing (by decide) (.inr ⟨rfl, hfound⟩) rfl rfl).1

end Lox.Grammar
