import Mathlib.Data.List.TakeWhile
import Lox.Proofs.Recovery.Joined
import Lox.Proofs.Semicolon.Broken

/-! One missing semicolon. -/

namespace Lox.Grammar

open Ebnf

variable {w : List Token} {a : Ahead}

inductive Series (n : ℕ) (k : List Token) : ℕ → List Token → Prop
  | nil : Series n k 0 []
  | cons {d d' u v} : (∃ t w, u = t :: w ∧ t.type ≠ .punct .rightBrace) →
      Meets (some d) (declaration n) u (v ++ k) → Series n k d' v → Series n k (d' + d) (u ++ v)

namespace Series

variable {n d : ℕ} {k : List Token} {c : Token}

lemma block (h : Series n (c :: k) d w) (hc : c.type = .punct .rightBrace) {m : ℕ}
    (hm : w.length < m) : Meets (some d) (block (declaration n) m) (w ++ [c]) k := by
  induction h generalizing m with
  | nil =>
    obtain ⟨m, rfl⟩ := Nat.exists_eq_add_one_of_ne_zero (Nat.ne_of_gt hm)
    exact Meets.accept rfl hc (Meets.pure [])
  | @cons d d' u v hu hx _ ih =>
    obtain ⟨m, rfl⟩ := Nat.exists_eq_add_one_of_ne_zero (Nat.ne_of_gt (Nat.zero_lt_of_lt hm))
    obtain ⟨t, x, rfl, ht⟩ := hu
    have hmore : Meets (some d') (Grammar.block (declaration n) m) (v ++ [c]) k :=
      ih (by simp at hm; omega)
    have hx' : Meets (some d) (declaration n) (t :: x) ((v ++ [c]) ++ k) := by
      rwa [List.append_assoc]
    rw [List.append_assoc]
    exact Meets.acceptNone rfl (fun he => ht (Option.some.inj he)) <|
      Meets.beforeEnd (List.cons_ne_nil _ _) <| hx'.andThen fun o => hmore.thenPure (o.toList ++ ·)

lemma single {u : List Token} (hu : ∃ t v, u = t :: v ∧ t.type ≠ .punct .rightBrace)
    (h : Meets (some d) (declaration n) u k) : Series n k d u := by
  have hall : Series n k (0 + d) (u ++ []) := .cons hu h .nil
  rwa [List.append_nil, Nat.zero_add] at hall

lemma append {d' : ℕ} {u v : List Token} (h : Series n (v ++ k) d u) (h' : Series n k d' v) :
    Series n k (d' + d) (u ++ v) := by
  induction h with
  | nil => exact h'
  | @cons d₁ d₂ x y hx hm _ ih =>
    have hm' : Meets (some d₁) (declaration n) x (y ++ v ++ k) := by rwa [List.append_assoc]
    rw [List.append_assoc, ← Nat.add_assoc]
    exact ih.cons hx hm'

lemma program (h : Series n [] d w) {m : ℕ} (hm : w.length < m) :
    Meets (some d) (program (declaration n) m) w [] := by
  induction h generalizing m with
  | nil =>
    obtain ⟨m, rfl⟩ := Nat.exists_eq_add_one_of_ne_zero (Nat.ne_of_gt hm)
    exact fun i es => Meets.pure [] i es
  | @cons d d' u v hu hx _ ih =>
    obtain ⟨m, rfl⟩ := Nat.exists_eq_add_one_of_ne_zero (Nat.ne_of_gt (Nat.zero_lt_of_lt hm))
    obtain ⟨t, x, rfl, -⟩ := hu
    have hmore : Meets (some d') (Grammar.program (declaration n) m) v [] :=
      ih (by simp at hm; omega)
    exact Meets.beforeEnd (List.cons_ne_nil _ _) <|
      hx.andThen fun o => hmore.thenPure (o.toList ++ ·)

end Series

section

variable {n : ℕ} {u v k D : List Token} {x : Stmt} {b : List Stmt} {i j : SiteId}

lemma reads_declaration (h : ReadsDecl x w i j (ahead k none)) (hl : (w ++ k).length < n) :
    Reads (declaration n) w k :=
  Meets.of_reads (Specifies.statement_exact n).2 (fun _ => (Shifts.statement_declaration n).2) hl
    ⟨x, rfl, h⟩

lemma not_rightBrace {type : TokenType} (h : startsDeclaration type = true) :
    type ≠ .punct .rightBrace := by
  rintro rfl
  cases h

lemma series_of_reads (h : ReadsDecls b w i j (ahead k none)) (hl : (w ++ k).length < n) :
    Series n k 0 w := by
  induction b generalizing w i with
  | nil =>
    cases h
    exact .nil
  | cons x b ih =>
    cases h with
    | @cons _ _ u v _ m _ _ hx hb =>
      obtain ⟨t, y, rfl, ht⟩ := hx.first
      have hrest : Series n k 0 v := ih hb (by simp at hl ⊢; omega)
      have hread : Reads (declaration n) (t :: y) (v ++ k) :=
        reads_declaration (by rwa [ahead_append]) (by rwa [← List.append_assoc])
      exact hrest.cons ⟨t, y, rfl, not_rightBrace ht⟩ hread

lemma Unended.declaration (h : Unended n (declarationAt n) u) (hD : Sequel k D)
    (hk : ahead k none ≠ some (.keyword .kwElse)) (hl : (u ++ (D ++ k)).length < n) :
    Meets (some 1) (declaration n) (u ++ D) k := by
  rw [declaration_eq]
  obtain hf | hr := h D k hD hk hl
  · exact hf.resumed hD.resume
  · exact hr.2.recovering.mono (Nat.zero_le 1)

lemma meets_statement {out : Option ℕ} (hw : ∃ t v, w = t :: v ∧ (startsExpression t.type = true ∨
    startsRule t.type = true)) (h : Meets out (statement n) w k) :
    Meets out (declarationAt n) w k := by
  obtain ⟨t, v, rfl, ht⟩ := hw
  cases n with
  | zero => exact h
  | succ n =>
    refine Meets.acceptNone rfl ?_ (Meets.acceptNone rfl ?_ h) <;>
      rcases ht with ht | ht <;> exact ahead_ne ht rfl

end

structure BrokenList (w : List Token) (a : Ahead) : Prop where
  last : ∀ {u s}, w = u ++ [s] → s.type = .punct .semicolon → nesting u = 0 → ∀ {n},
    u.length < n → a = none → Series n [] 1 u
  inner : ∀ {u v s t}, w = u ++ s :: t :: v → s.type = .punct .semicolon → nesting u = 0 →
    ∀ {n k}, Harmless (t :: v ++ k) → (u ++ t :: v ++ k).length < n → ahead k none = a →
      a ≠ some (.keyword .kwElse) → Series n k 1 (u ++ t :: v)

lemma BrokenList.block {c : Token} (h : BrokenList w (some c.type))
    (hc : c.type = .punct .rightBrace) : Broken blockAt (w ++ [c]) a where
  last hw hs _ _ := by
    obtain ⟨v', -, hv⟩ := split_close hs (by rw [hc]; nofun) hw
    simp at hv
  inner {u v s t} hw hs hnest n k ht hl _ := by
    obtain ⟨v', rfl, hv⟩ := split_close hs (by rw [hc]; nofun) hw
    cases v' with
    | nil =>
      cases hv
      exact absurd hc ht.ne_rightBrace
    | cons t' v' =>
      cases hv
      have hseries : Series n (c :: k) 1 (u ++ t :: v') :=
        h.inner rfl hs hnest (by simpa using ht) (by simp at hl ⊢; omega) rfl (by rw [hc]; nofun)
      have hblock : Meets (some 1) (blockAt n) (u ++ t :: v' ++ [c]) k :=
        hseries.block hc (by simp at hl ⊢; omega)
      exact .inl (by simpa using hblock)

section

variable {bs : List Stmt} {x : Stmt} {i j m : SiteId}

lemma first_before {p : Token → Prop} {u v : List Token} {s : Token} (hw : w = u ++ s :: v)
    (hfirst : ∃ t y, w = t :: y ∧ p t) (hs : ¬ p s) : ∃ t y, u = t :: y ∧ p t := by
  obtain ⟨t, y, rfl, ht⟩ := hfirst
  cases u with
  | nil =>
    cases hw
    exact absurd ht hs
  | cons t' u =>
    cases hw
    exact ⟨t, u, rfl, ht⟩

lemma Broken.declaration (h : Broken statement w a) (hx : ReadsStmt x w i j a) :
    Broken declarationAt w a where
  last {u s} hw hs hnest n := by
    have hfirst := first_before hw hx.first (by rw [hs]; rintro (h | h) <;> cases h)
    obtain ⟨t, y, rfl, ht⟩ := hfirst
    exact (h.last hw hs hnest n).same fun _ v _ => meets_statement ⟨t, y ++ v, rfl, ht⟩
  inner {u v s t} hw hs hnest n k ht hl hk := by
    have hfirst := first_before hw hx.first (by rw [hs]; rintro (h | h) <;> cases h)
    obtain ⟨t', y, rfl, ht'⟩ := hfirst
    refine (h.inner hw hs hnest ht hl hk).imp (fun hm => ?_) fun he => ?_
    · exact meets_statement ⟨t', y ++ t :: v, rfl, ht'⟩ hm
    · exact ⟨meets_statement ⟨t', y, rfl, ht'⟩ he.fails, he.skipped, he.ne_else⟩

lemma brokenList_nil : BrokenList [] a where
  last hw _ _ := by simp at hw
  inner hw _ _ _ := by simp at hw

lemma decls_first (h : ReadsDecls bs w i j a) (hw : w ≠ []) :
    ∃ t y, w = t :: y ∧ startsDeclaration t.type = true := by
  cases h with
  | nil => exact absurd rfl hw
  | cons hx _ =>
    obtain ⟨t, y, rfl, ht⟩ := hx.first
    exact ⟨t, _, rfl, ht⟩

section

variable {n : ℕ} {u v k : List Token} (hu : ∃ t y, u = t :: y ∧ t.type ≠ .punct .rightBrace)

include hu

lemma Series.skipped (h : Skipped k w) (hk : ahead k none ≠ some (.keyword .kwElse))
    (hl : (u ++ (w ++ k)).length < n)
    (hx : ∀ {D r}, Sequel r D → ahead r none ≠ some (.keyword .kwElse) → D ++ r = w ++ k →
      Meets (some 1) (declaration n) (u ++ D) r) : Series n k 1 (u ++ w) := by
  obtain ⟨D, r, b, i, j, rfl, hD, hb⟩ := h
  obtain ⟨t, y, rfl, ht⟩ := hu
  have helse : ahead (r ++ k) none ≠ some (.keyword .kwElse) := by
    rw [ahead_append]
    exact hb.ahead_ne_else hk
  have hrest : Series n k 0 r := series_of_reads hb (by simp at hl ⊢; omega)
  rw [← List.append_assoc]
  exact hrest.cons ⟨t, y ++ D, rfl, ht⟩ (hx hD helse (List.append_assoc D r k).symm)

lemma Escapes.series (h : Escapes (declarationAt n) u w k) (hl : (u ++ (w ++ k)).length < n) :
    Series n k 1 (u ++ w) := by
  refine .skipped hu h.skipped h.ne_else hl fun {D r} hD _ he => ?_
  have hfails : Fails (declarationAt n) u (D ++ r) := he ▸ h.fails
  rw [declaration_eq]
  exact hfails.resumed hD.resume

lemma Unended.series (h : Unended n (declarationAt n) u) (hb : ReadsDecls bs v i j (ahead k none))
    (hne : v ≠ []) (hv : Harmless (v ++ k)) (hk : ahead k none ≠ some (.keyword .kwElse))
    (hl : (u ++ (v ++ k)).length < n) : Series n k 1 (u ++ v) := by
  cases hb with
  | nil => exact absurd rfl hne
  | @cons _ _ D rest _ m _ _ hy hrest =>
    rw [List.append_assoc] at hv hl
    rw [← ahead_append] at hy
    have helse : ahead (rest ++ k) none ≠ some (.keyword .kwElse) := by
      rw [ahead_append]
      exact hrest.ahead_ne_else hk
    have hfirst : Series n (rest ++ k) 1 (u ++ D) := by
      refine .skipped hu (skipped_of_decl hy hv) helse hl fun hD hr he => ?_
      exact h.declaration hD hr (he ▸ hl)
    have hrest' : Series n k 0 rest := series_of_reads hrest (by simp at hl ⊢; omega)
    rw [← List.append_assoc]
    exact hfirst.append hrest'

end

section

variable {u v : List Token} (hx : ReadsDecl x u i m (ahead v a)) (hb : ReadsDecls bs v m j a)

include hx hb

lemma Series.afterDeclaration {u' r k : List Token} {s : Token} {n : ℕ} (hv : v = u' ++ s :: r)
    (hs : s.type = .punct .semicolon) (hl : (u ++ (w ++ k)).length < n)
    (hw : ∃ r', w = u' ++ r') (h : Series n k 1 w) : Series n k 1 (u ++ w) := by
  obtain ⟨t, y, rfl, ht⟩ := hx.first
  obtain ⟨t', y', rfl, -⟩ := first_before hv (decls_first hb (by simp [hv])) (by rw [hs]; nofun)
  obtain ⟨r', rfl⟩ := hw
  rw [hv] at hx
  have hread : Reads (declaration n) (t :: y) (t' :: y' ++ r' ++ k) :=
    reads_declaration (x := x) (i := i) (j := m) hx hl
  exact .cons ⟨t, y, rfl, not_rightBrace ht⟩ hread h

lemma BrokenList.cons (h : Broken declarationAt u (ahead v a)) (h' : BrokenList v a) :
    BrokenList (u ++ v) a where
  last {u₀ s} hw hs hnest n hl ha := by
    obtain ⟨u', rfl, hv⟩ | ⟨v', rfl, hv⟩ := split_append hw
    · rw [nesting_append, nesting_rule (decl_derives hx), Int.zero_add] at hnest
      refine .afterDeclaration hx hb hv hs (by simpa using hl) ⟨[], (List.append_nil _).symm⟩ ?_
      exact h'.last hv hs hnest (by simp at hl; omega) ha
    · obtain ⟨rfl, rfl⟩ := List.nil_eq_append_iff.1 hv
      obtain ⟨t, y, rfl, ht⟩ := first_before rfl hx.first (by rw [hs]; nofun)
      have hmeets : Meets (some 1) (declaration n) (t :: y ++ []) [] :=
        (h.last rfl hs hnest n).declaration (.finish rfl) nofun (by simpa using hl)
      rw [List.append_nil] at hmeets
      exact .single ⟨t, y, rfl, not_rightBrace ht⟩ hmeets
  inner {u₀ r s t} hw hs hnest n k ht hl hk ha := by
    obtain ⟨u', rfl, hv⟩ | ⟨v', rfl, hv⟩ := split_append hw
    · rw [nesting_append, nesting_rule (decl_derives hx), Int.zero_add] at hnest
      rw [List.append_assoc]
      refine .afterDeclaration hx hb hv hs (by simpa using hl) ⟨t :: r, rfl⟩ ?_
      exact h'.inner hv hs hnest ht (by simp at hl ⊢; omega) hk ha
    · obtain ⟨t', y, rfl, ht'⟩ := first_before rfl hx.first (by rw [hs]; nofun)
      have hfirst := not_rightBrace ht'
      -- The semicolon stands inside the first declaration, or it is its end.
      cases v' with
      | cons t'' v' =>
        cases hv
        rw [← hk] at hb
        have hrest : Series n k 0 v := series_of_reads hb (by simp at hl ⊢; omega)
        have hseries : Series n (v ++ k) 1 (t' :: y ++ t :: v') := by
          obtain hm | he := h.inner (n := n) (k := v ++ k) rfl hs hnest (by simpa using ht)
            (by simpa using hl) (by rw [ahead_append, hk])
          · refine .single ⟨t', y ++ t :: v', rfl, hfirst⟩ ?_
            rw [declaration_eq]
            exact hm.recovering
          · exact he.series ⟨t', y, rfl, hfirst⟩ (by simpa using hl)
        simpa using hseries.append hrest
      | nil =>
        obtain rfl : t :: r = v := hv
        exact (h.last rfl hs hnest n).series ⟨t', y, rfl, hfirst⟩ (hk ▸ hb)
          (List.cons_ne_nil _ _) ht (hk ▸ ha) (by simpa using hl)

end

end

-- By induction on the way in which the tokens are read with the semicolon.
mutual

lemma stmt_broken : ∀ {x w i j a}, ReadsStmt x w i j a → Broken statement w a
  | _, _, _, _, _, .expression he _ => broken_exprStmt (derived_of_reads he)
  | _, _, _, _, _, .rule h => rule_broken h

lemma rule_broken : ∀ {t x w i j a}, ReadsRule t x w i j a → Broken statement (t :: w) a
  | _, _, _, _, _, _, .print hk he _ => broken_print hk (derived_of_reads he)
  | _, _, _, _, _, _, .ret hk he _ => broken_return hk (derives_optional he)
  | _, _, _, _, _, _, .loop hk ho he hc hs => by
    simpa using (stmt_broken hs).loop hk ho (derived_of_reads he) hc
  | _, _, _, _, _, _, .ifThen hk ho he hc hs ha => by
    simpa using (stmt_broken hs).ifThen hk ho (derived_of_reads he) hc ha
  | _, _, _, _, _, _, .ifElse hk ho he hc hs hl ht => by
    simpa using (stmt_broken hs).ifElse (stmt_broken ht) hk ho (derived_of_reads he) hc hs hl ht
  | _, _, _, _, _, _, .forLoop hk ho hi hv hs hw hc hb => by
    simpa using (stmt_broken hb).forLoop hk ho hi hv hs hw hc
  | _, _, _, _, _, _, .block ho hb hc => ((decls_broken hb).block hc).block ho

lemma decl_broken : ∀ {x w i j a}, ReadsDecl x w i j a → Broken declarationAt w a
  | _, _, _, _, _, .function hk hf => function_broken hf hk
  | _, _, _, _, _, .var hk hv => broken_var hk hv
  | _, _, _, _, _, .statement hs => (stmt_broken hs).declaration hs

lemma function_broken : ∀ {x w i j a}, ReadsFunction x w i j a → ∀ {t : Token},
    t.type = .keyword .kwFun → Broken declarationAt (t :: w) a
  | _, _, _, _, _, .mk hn ho hp hc hb hd he => fun ht => by
    simpa using ((decls_broken hd).block he).function ht hn ho hp hc hb

lemma decls_broken : ∀ {b w i j a}, ReadsDecls b w i j a → BrokenList w a
  | _, _, _, _, _, .nil => brokenList_nil
  | _, _, _, _, _, .cons hs hb => .cons hs hb (decl_broken hs) (decls_broken hb)

end

lemma beforeEnd_ended {tokens : List Token} (h : ∃ t ∈ tokens, isEnd t = true)
    (more : List Token) : beforeEnd (tokens ++ more) = beforeEnd tokens := by
  obtain ⟨t, ht, hend⟩ := h
  rw [beforeEnd, beforeEnd, List.takeWhile_append, if_neg]
  intro hl
  have hall : beforeEnd tokens = tokens := (List.takeWhile_prefix _).eq_of_length hl
  rw [← hall] at ht
  rw [mem_beforeEnd ht] at hend
  cases hend

lemma errors_of_beforeEnd (first : SiteId) {tokens tokens' : List Token}
    (h : beforeEnd tokens = beforeEnd tokens') :
    (Reading.ofTokens first tokens).errors = (Reading.ofTokens first tokens').errors := by
  rw [ofTokens_eq, ofTokens_eq, h]

lemma errors_of_series {tokens : List Token} {d : ℕ} (first : SiteId)
    (h : Series ((beforeEnd tokens).length + 1) [] d (beforeEnd tokens)) :
    (Reading.ofTokens first tokens).errors.length ≤ d := by
  have hrun := h.program (Nat.lt_succ_self _) first []
  rw [List.append_nil] at hrun
  rw [ofTokens_eq]
  generalize program (declaration ((beforeEnd tokens).length + 1)) ((beforeEnd tokens).length + 1)
    ⟨beforeEnd tokens, first, []⟩ = r at hrun
  cases hrun with
  | passes hn => simpa using hn

/-- Tokens that are read without errors give one error at most when a semicolon is taken out that
stands outside all parentheses, and so not in the header of a loop, and what comes after it is
harmless. Where it is not, there are two causes of more errors. Braces are no boundary at which
reading goes on: with the semicolon missed at `}`, it goes on inside the block, and misses the end
of the block later. And the token at the error is skipped even where it begins a statement, so that
of an `if` with `else`, or of a loop with a block, only the parts inside are read. -/
theorem one_error_without_semicolon (first : SiteId) (before after : List Token) (s : Token)
    (hread : (Reading.ofTokens first (before ++ s :: after)).errors = [])
    (hs : s.type = .punct .semicolon) (hnest : nesting before = 0)
    (hafter : Harmless (beforeEnd after)) :
    (Reading.ofTokens first (before ++ after)).errors.length ≤ 1 := by
  by_cases hend : ∃ t ∈ before, isEnd t = true
  -- What stands behind the end is not read.
  · have hsame : beforeEnd (before ++ after) = beforeEnd (before ++ s :: after) := by
      rw [beforeEnd_ended hend, beforeEnd_ended hend]
    rw [errors_of_beforeEnd first hsame, hread]
    exact Nat.zero_le 1
  · have hnone : ∀ t ∈ before, isEnd t = false := fun t ht => by
      rw [← Bool.not_eq_true]
      exact fun h => hend ⟨t, ht, h⟩
    have hs' : isEnd s = false := by
      rw [isEnd, hs]
      rfl
    generalize hr : Reading.ofTokens first (before ++ s :: after) = r at hread
    obtain ⟨program, errors, j⟩ := r
    obtain rfl : errors = [] := hread
    have hdecls := (ofTokens_exact _ _ _ _).1 hr
    have hwhole : beforeEnd (before ++ s :: after) = before ++ s :: beforeEnd after := by
      rw [beforeEnd_append hnone, beforeEnd, List.takeWhile_cons, hs']
      rfl
    rw [hwhole] at hdecls
    have hbroken := decls_broken hdecls
    refine errors_of_series first ?_
    rw [beforeEnd_append hnone]
    generalize beforeEnd after = rest at hafter hdecls hbroken
    cases rest with
    | nil =>
      rw [List.append_nil]
      exact hbroken.last rfl hs hnest (Nat.lt_succ_self _) rfl
    | cons t rest =>
      exact hbroken.inner rfl hs hnest (by rwa [List.append_nil])
        (by rw [List.append_nil]; exact Nat.lt_succ_self _) rfl (Option.some_ne_none _).symm

def printNil (offset : ℕ) : List Token :=
  [⟨.keyword .kwPrint, "print", offset, 1⟩, ⟨.keyword .kwNil, "nil", offset + 6, 1⟩]

def thenPrint (offset : ℕ) : List Token :=
  [⟨.keyword .kwIf, "if", offset, 1⟩, ⟨.punct .leftParen, "(", offset + 3, 1⟩,
    ⟨.keyword .kwNil, "nil", offset + 4, 1⟩, ⟨.punct .rightParen, ")", offset + 7, 1⟩] ++
      printNil (offset + 9)

def elseReturn (offset : ℕ) : List Token :=
  [⟨.keyword .kwElse, "else", offset, 1⟩, ⟨.keyword .kwReturn, "return", offset + 5, 1⟩,
    ⟨.punct .semicolon, ";", offset + 11, 1⟩, ⟨.eof, "", offset + 12, 1⟩]

theorem elseReturn_read :
    (Reading.ofTokens 0 (thenPrint 0 ++ ⟨.punct .semicolon, ";", 18, 1⟩ :: elseReturn 20)).errors =
      [] ∧ nesting (thenPrint 0) = 0 ∧ Harmless (beforeEnd (elseReturn 20)) ∧
      (Reading.ofTokens 0 (thenPrint 0 ++ elseReturn 20)).errors.length ≤ 1 := by
  have hread : (Reading.ofTokens 0 (thenPrint 0 ++ ⟨.punct .semicolon, ";", 18, 1⟩ ::
      elseReturn 20)).errors = [] := rfl
  have hnest : nesting (thenPrint 0) = 0 := by simp [thenPrint, printNil, nestingOf]
  have hreturn : Derives (.rule .statement) ((elseReturn 20).extract 1 3) :=
    .rule (.right (.right (.right (.right (.left
      (.rule (.seq (.keyword rfl) (.seq .absent (.punct rfl)))))))))
  have hbrace : ahead ((elseReturn 20).extract 1 3) none ≠ some (.punct .leftBrace) :=
    ahead_ne (Eq.refl (TokenType.startsStatement (.keyword .kwReturn))) rfl
  have hafter : Harmless (beforeEnd (elseReturn 20)) :=
    .around (v := []) (.otherwise rfl) hreturn hbrace (Option.some_ne_none _).symm
  exact ⟨hread, hnest, hafter, one_error_without_semicolon 0 _ _ _ hread rfl hnest hafter⟩

/-- The brace is skipped, and then the block has no end. -/
example : (Reading.ofTokens 0 (⟨.punct .leftBrace, "\x7b", 0, 1⟩ :: (printNil 2 ++
    [⟨.punct .rightBrace, "\x7d", 12, 1⟩]))).errors =
      [⟨.missing .printEnd, some ⟨.punct .rightBrace, "\x7d", 12, 1⟩⟩,
        ⟨.missing .blockEnd, none⟩] :=
  rfl

/-- The `if` is skipped, and then nothing has this `else`. -/
example : (Reading.ofTokens 0 (printNil 0 ++ (thenPrint 10 ++
    ⟨.punct .semicolon, ";", 28, 1⟩ :: elseReturn 30))).errors =
      [⟨.missing .printEnd, some ⟨.keyword .kwIf, "if", 10, 1⟩⟩,
        ⟨.missing .expression, some ⟨.keyword .kwElse, "else", 30, 1⟩⟩] :=
  rfl

end Lox.Grammar
