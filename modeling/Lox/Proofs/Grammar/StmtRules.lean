import Lox.Proofs.Grammar.ExprRules

/-! The rules for statements and declarations read what `ReadsStmt` and `ReadsDecl` say. A broken
declaration notes an error, so it is none of these. -/

namespace Lox.Grammar

namespace Specifies

variable {n : ℕ} {expression : Parse Expr} {statement : Parse Stmt}
  {declaration : Parse (Option Stmt)}

section

variable (h : Specifies n expression (ReadsExpr .expression))

include h

lemma optional {finish : Punct} (hf : startsExpression (.punct finish) = false) :
    Specifies n (optional expression finish) (ReadsOptional finish) := by
  refine (whenFacing rfl (Specifies.pure none) (h.map some)).congr
    fun e u i j a => ⟨?_, fun h => ?_⟩
  · rintro (⟨ha, rfl, rfl, rfl⟩ | ⟨_, x, rfl, hx⟩)
    · exact .none ha
    · exact .some hx
  · cases h with
    | none ha => exact .inl ⟨ha, rfl, rfl, rfl⟩
    | some hx =>
      obtain ⟨t, v, rfl, ht⟩ := hx.first rfl
      exact .inr ⟨ahead_ne ht hf, _, rfl, hx⟩

lemma expressionStmt : Specifies n (expressionStmt expression) fun s u i j _ =>
    ∃ e v t, u = v ++ [t] ∧ ReadsExpr .expression e v i j (some t.type) ∧
      t.type = .punct .semicolon ∧ s = .expression e :=
  h.endExpect rfl

lemma varDeclaration : Specifies n (varDeclaration expression) ReadsVar := by
  refine (expectThen rfl fun name => accept rfl (Nat.le_succ n)
    (fun _ => endExpect (g := fun e _ => Stmt.var name e) (h.map some) rfl)
    (endExpect (Specifies.pure none) rfl)).congr fun s u i j a => ⟨?_, fun h => ?_⟩
  · rintro ⟨name, _, rfl, hn, ⟨eq, _, rfl, heq, _, v, t, rfl, ⟨e, rfl, he⟩, ht, rfl⟩ |
      ⟨_, _, _, t, rfl, ⟨rfl, rfl, rfl⟩, ht, rfl⟩⟩
    · exact .initialized hn heq he ht
    · exact .plain hn ht
  · cases h with
    | plain hn ht =>
      refine ⟨_, _, rfl, hn, .inr ⟨?_, _, [], _, rfl, ⟨rfl, rfl, rfl⟩, ht, rfl⟩⟩
      rw [ahead_cons, ht]
      simp
    | initialized hn heq he ht =>
      exact ⟨_, _, rfl, hn, .inl ⟨_, _, rfl, heq, _, _, _, rfl, ⟨_, rfl, he⟩, ht, rfl⟩⟩

lemma forInitializer : Specifies n (forInitializer expression) ReadsInitializer := by
  refine (accept rfl (Nat.le_succ n) (fun _ => Specifies.pure none)
    (accept rfl (Nat.le_succ n) (fun _ => h.varDeclaration.map some)
      (h.expressionStmt.map some))).congr fun s u i j a => ⟨?_, fun h => ?_⟩
  · rintro (⟨t, _, rfl, ht, rfl, rfl, rfl⟩ | ⟨_, ⟨k, v, rfl, hk, s, rfl, hs⟩ |
      ⟨_, _, rfl, e, v, t, rfl, he, ht, rfl⟩⟩)
    · exact .none ht
    · exact .var hk hs
    · exact .expression he ht
  · cases h with
    | none ht => exact .inl ⟨_, [], rfl, ht, rfl, rfl, rfl⟩
    | var hk hs =>
      refine .inr ⟨?_, .inl ⟨_, _, rfl, hk, _, rfl, hs⟩⟩
      rw [ahead_cons, hk]
      simp
    | expression he ht =>
      obtain ⟨t, v, rfl, hf⟩ := he.first rfl
      exact .inr ⟨ahead_ne hf rfl, .inr ⟨ahead_ne hf rfl, _, rfl, _, _, _, rfl, he, ht, rfl⟩⟩

variable {t : Token}

lemma printStmt (ht : t.type = .keyword .kwPrint) :
    Specifies n (printStmt expression) (ReadsRule t) := by
  refine (endExpect (g := fun e _ => Stmt.print e) h rfl).congr fun s u i j a => ⟨?_, fun h => ?_⟩
  · rintro ⟨e, v, c, rfl, he, hc, rfl⟩
    exact .print ht he hc
  · cases h with
    | print _ he hc => exact ⟨_, _, _, rfl, he, hc, rfl⟩
    | ret hk | loop hk | ifThen hk | ifElse hk | forLoop hk | block hk => simp [ht] at hk

lemma returnStmt (ht : t.type = .keyword .kwReturn) :
    Specifies n (returnStmt expression t) (ReadsRule t) := by
  refine (endExpect (g := fun e _ => Stmt.ret t e) (h.optional rfl) rfl).congr
    fun s u i j a => ⟨?_, fun h => ?_⟩
  · rintro ⟨e, v, c, rfl, he, hc, rfl⟩
    exact .ret ht he hc
  · cases h with
    | ret _ he hc => exact ⟨_, _, _, rfl, he, hc, rfl⟩
    | print hk | loop hk | ifThen hk | ifElse hk | forLoop hk | block hk => simp [ht] at hk

lemma whileStmt (hs : Specifies n statement ReadsStmt) (ht : t.type = .keyword .kwWhile) :
    Specifies n (whileStmt expression statement) (ReadsRule t) := by
  refine (expectThen rfl fun _ => h.thenExpect rfl fun e _ => hs.thenPure (Stmt.loop e)).congr
    fun s u i j a => ⟨?_, fun h => ?_⟩
  · rintro ⟨o, _, rfl, ho, e, v, c, w, k, rfl, he, hc, s, rfl, hs⟩
    exact .loop ht ho he hc hs
  · cases h with
    | loop _ ho he hc hs => exact ⟨_, _, rfl, ho, _, _, _, _, _, rfl, he, hc, _, rfl, hs⟩
    | print hk | ret hk | ifThen hk | ifElse hk | forLoop hk | block hk => simp [ht] at hk

lemma ifStmt (hs : Specifies n statement ReadsStmt) (ht : t.type = .keyword .kwIf) :
    Specifies n (ifStmt expression statement) (ReadsRule t) := by
  refine (expectThen rfl fun _ => h.thenExpect rfl fun e _ => hs.andThen fun s =>
    accept rfl (Nat.le_succ n) (fun _ => hs.thenPure (Stmt.ifElse e s))
      (Specifies.pure (Stmt.ifThen e s))).congr fun s u i j a => ⟨?_, fun h => ?_⟩
  · rintro ⟨o, _, rfl, ho, e, v, c, _, m, rfl, he, hc, s, w, _, k, rfl, hs,
      ⟨l, x, rfl, hl, s', rfl, hs'⟩ | ⟨hl, rfl, rfl, rfl⟩⟩
    · exact .ifElse ht ho he hc hs hl hs'
    · rw [List.append_nil]
      exact .ifThen ht ho he hc hs hl
  · cases h with
    | ifThen _ ho he hc hs hl =>
      exact ⟨_, _, rfl, ho, _, _, _, _, _, rfl, he, hc, _, _, [], _, (List.append_nil _).symm, hs,
        .inr ⟨hl, rfl, rfl, rfl⟩⟩
    | ifElse _ ho he hc hs hl hs' =>
      exact ⟨_, _, rfl, ho, _, _, _, _, _, rfl, he, hc, _, _, _, _, rfl, hs,
        .inl ⟨_, _, rfl, hl, _, rfl, hs'⟩⟩
    | print hk | ret hk | loop hk | forLoop hk | block hk => simp [ht] at hk

lemma forStmt (hs : Specifies n statement ReadsStmt) (ht : t.type = .keyword .kwFor) :
    Specifies n (forStmt expression statement) (ReadsRule t) := by
  refine (expectThen rfl fun _ => h.forInitializer.andThen fun initializer =>
    (h.optional rfl).thenExpect rfl fun condition _ => (h.optional rfl).thenExpect rfl
      fun increment _ => hs.thenPure (forLoop initializer condition increment)).congr
    fun s u i j a => ⟨?_, fun h => ?_⟩
  · rintro ⟨o, _, rfl, ho, init, v, _, m, rfl, hi, cond, w, c, _, k, rfl, hc, hc', inc, x, d, y, l,
      rfl, hn, hd, s, rfl, hs⟩
    exact .forLoop ht ho (by rwa [ahead_append] at hi) hc hc' hn hd hs
  · cases h with
    | forLoop _ ho hi hc hc' hn hd hs =>
      exact ⟨_, _, rfl, ho, _, _, _, _, rfl, by rwa [ahead_append], _, _, _, _, _, rfl, hc, hc', _,
        _,
        _, _, _, rfl, hn, hd, _, rfl, hs⟩
    | print hk | ret hk | loop hk | ifThen hk | ifElse hk | block hk => simp [ht] at hk

end

lemma recovering {rule : Parse Stmt} {R : Phrase Stmt} (h : Specifies n rule R) :
    Specifies n (recovering rule) fun o u i j a => ∃ s, o = some s ∧ R s u i j a := by
  refine ⟨fun c => ?_, fun {ts i es o rest j} hl => ⟨fun hc => ?_, ?_⟩⟩
  · have hk := h.keeps c
    rw [Grammar.recovering]
    cases hc : rule c with
    | ok s c' => rwa [hc] at hk
    | error e c' =>
      rw [hc] at hk
      exact ⟨hk.errors.trans (List.suffix_cons e _), hk.site⟩
  · have hk := h.keeps ⟨ts, i, es⟩
    rw [Grammar.recovering] at hc
    cases hr : rule ⟨ts, i, es⟩ with
    | ok s c' =>
      rw [hr] at hc
      cases hc
      obtain ⟨u, rfl, hu⟩ := (h.exact hl).1 hr
      exact ⟨u, rfl, s, rfl, hu⟩
    | error e c' =>
      rw [hr] at hc hk
      have hes := congrArg (fun r => (resultCursor r).errors.length) hc
      have hle := hk.errors.length_le
      simp only [resultCursor, List.length_cons] at hes hle
      omega
  · rintro ⟨u, rfl, s, rfl, hu⟩
    rw [Grammar.recovering, (h.exact hl).2 ⟨u, rfl, hu⟩]

lemma parameterList (k m p : ℕ) (hk : m ≤ k) :
    Specifies m (parameterList k p) (ReadsParams p) := by
  induction k generalizing m p with
  | zero =>
    obtain rfl := Nat.le_zero.1 hk
    exact (Specifies.pure [] (n := 0)).zero
  | succ k ih =>
    rw [Grammar.parameterList]
    refine Specifies.congr (limited (expectThen rfl fun name => accept rfl (by omega)
      (fun _ => (ih (m - 1) (p + 1) (by omega)).thenPure (name :: ·)) (Specifies.pure [name]))
      _ _) fun es u i j a => ⟨?_, fun h => ?_⟩
    · rintro ⟨hp, x, _, rfl, hx, ⟨t, v, rfl, ht, xs, rfl, hxs⟩ | ⟨ht, rfl, rfl, rfl⟩⟩
      · exact .more hp hx ht hxs
      · exact .last hp hx ht
    · cases h with
      | last hp hx ht => exact ⟨hp, _, [], rfl, hx, .inr ⟨ht, rfl, rfl, rfl⟩⟩
      | more hp hx ht hxs => exact ⟨hp, _, _, rfl, hx, .inl ⟨_, _, rfl, ht, _, rfl, hxs⟩⟩

section

variable (hd : Specifies n declaration fun o u i j a => ∃ s, o = some s ∧ ReadsDecl s u i j a)

include hd

lemma block (k m : ℕ) (hn : m ≤ n) (hk : m ≤ k) :
    Specifies m (block declaration k) fun b u i j _ => ∃ v c, u = v ++ [c] ∧
      ReadsDecls b v i j (some c.type) ∧ c.type = .punct .rightBrace := by
  induction k generalizing m with
  | zero =>
    obtain rfl := Nat.le_zero.1 hk
    exact (Specifies.fail (n := 0) _).zero
  | succ k ih =>
    have hmore := (hd.mono hn).bind (m := fun _ => m - 1) (f := fun o => do
        let more ← Grammar.block declaration k
        Pure.pure (o.toList ++ more))
      (fun h => by
        obtain ⟨s, rfl, hs⟩ := h
        obtain ⟨t, v, rfl, _⟩ := hs.first
        rw [List.length_cons]
        omega)
      fun o _ _ _ => (ih (m - 1) (by omega) (by omega)).thenPure (o.toList ++ ·)
    refine (accept rfl (Nat.le_succ m) (fun _ => Specifies.pure [])
      (whenAtEnd (Specifies.fail _) hmore)).congr fun b u i j a => ⟨?_, ?_⟩
    · rintro (⟨c, _, rfl, hc, rfl, rfl, rfl⟩ | ⟨_, ⟨_, h⟩ |
        ⟨_, o, u, _, k, rfl, ⟨s, rfl, hs⟩, more, rfl, v, c, rfl, hb, hc⟩⟩)
      · exact ⟨[], c, rfl, .nil, hc⟩
      · exact h.elim
      · rw [ahead_append] at hs
        exact ⟨u ++ v, c, (List.append_assoc ..).symm, .cons hs hb, hc⟩
    · rintro ⟨v, c, rfl, hb, hc⟩
      cases hb with
      | nil => exact .inl ⟨c, [], rfl, hc, rfl, rfl, rfl⟩
      | cons hs hb =>
        obtain ⟨t, w, rfl, ht⟩ := hs.first
        exact .inr ⟨ahead_ne ht rfl, .inr ⟨nofun, _, _, _, _, List.append_assoc ..,
          ⟨_, rfl, by rwa [ahead_append]⟩, _, rfl, _, _,
          rfl, hb, hc⟩⟩

lemma function (k m : ℕ) (hn : m ≤ n) (hk : m ≤ k) :
    Specifies m (function declaration k) ReadsFunction := by
  have hbody : ∀ (name : Token) (params : List Token), Specifies m (do
      let _ ← Grammar.expect (.punct .leftBrace) .functionBody
      let body ← Grammar.block declaration k
      Pure.pure (Stmt.function name params body)) _ := fun name params =>
    expectThen rfl fun _ => (hd.block k m hn hk).thenPure (Stmt.function name params)
  refine (expectThen rfl fun name => expectThen rfl fun _ => whenFacing rfl
    ((Specifies.pure []).thenExpect rfl fun params _ => hbody name params)
    ((parameterList k m 0 hk).thenExpect rfl fun params _ => hbody name params)).congr
    fun s u i j a => ⟨?_, fun h => ?_⟩
  · rintro ⟨name, _, rfl, hname, o, _, rfl, ho, ⟨_, _, _, c, _, _, rfl, ⟨rfl, rfl, rfl⟩, hc, b, _,
      rfl, hb, body, rfl, v, d, rfl, hv, hd⟩ | ⟨_, params, p, c, _, _, rfl, hp, hc, b, _, rfl, hb,
      body, rfl, v, d, rfl, hv, hd⟩⟩
    · exact .mk hname ho (.none (congrArg some hc)) hc hb hv hd
    · exact .mk hname ho (.some hp) hc hb hv hd
  · cases h with
    | mk hname ho hp hc hb hv hd =>
      refine ⟨_, _, rfl, hname, _, _, rfl, ho, ?_⟩
      cases hp with
      | none hp =>
        exact .inl ⟨hp, _, [], _, _, _, rfl, ⟨rfl, rfl, rfl⟩, hc, _, _, rfl, hb, _, rfl, _, _, rfl,
          hv, hd⟩
      | some hp =>
        refine .inr ⟨?_, _, _, _, _, _, rfl, hp, hc, _, _, rfl, hb, _, rfl, _, _, rfl, hv, hd⟩
        cases hp with
        | last _ hx _ => rw [List.singleton_append, ahead_cons, hx]; simp
        | more _ hx _ _ => rw [List.cons_append, ahead_cons, hx]; simp

lemma program (k m : ℕ) (hn : m ≤ n) (hk : m ≤ k) :
    Specifies m (program declaration k) fun b u i j a => a = none ∧ ReadsDecls b u i j none := by
  induction k generalizing m with
  | zero =>
    obtain rfl := Nat.le_zero.1 hk
    exact (Specifies.pure [] (n := 0)).zero
  | succ k ih =>
    have hmore := (hd.mono hn).bind (m := fun _ => m - 1) (f := fun o => do
        let more ← Grammar.program declaration k
        Pure.pure (o.toList ++ more))
      (fun h => by
        obtain ⟨s, rfl, hs⟩ := h
        obtain ⟨t, v, rfl, _⟩ := hs.first
        rw [List.length_cons]
        omega)
      fun o _ _ _ => (ih (m - 1) (by omega) (by omega)).thenPure (o.toList ++ ·)
    refine (whenAtEnd (Specifies.pure []) hmore).congr fun b u i j a => ⟨?_, ?_⟩
    · rintro (⟨ha, rfl, rfl, rfl⟩ | ⟨_, o, u, v, k, rfl, ⟨s, rfl, hs⟩, more, rfl, rfl, hb⟩)
      · exact ⟨ha, .nil⟩
      · exact ⟨rfl, .cons hs hb⟩
    · rintro ⟨rfl, hb⟩
      cases hb with
      | nil => exact .inl ⟨rfl, rfl, rfl, rfl⟩
      | cons hs hb =>
        obtain ⟨t, w, rfl, _⟩ := hs.first
        exact .inr ⟨nofun, _, _, _, _, rfl, ⟨_, rfl, hs⟩, _, rfl, rfl, hb⟩

lemma statementRule (he : Specifies (n + 1) expression (ReadsExpr .expression))
    (hs : Specifies n statement ReadsStmt) :
    Specifies (n + 1) (statementRule expression statement declaration (n + 1)) ReadsStmt := by
  have he' : Specifies n expression (ReadsExpr .expression) := he.mono (Nat.le_succ n)
  refine (choice (Nat.le_refl _) (Q := ReadsRule) (fun t ht => ?_) he.expressionStmt).congr
    fun s u i j a => ⟨?_, fun h => ?_⟩
  · rcases startsRule_cases ht with h | h | h | h | h | h <;> simp only [h]
    · refine ((hd.block (n + 1) n (Nat.le_refl n) (Nat.le_succ n)).map Stmt.block).congr
        fun s u i j a => ⟨?_, fun hr => ?_⟩
      · rintro ⟨b, rfl, v, c, rfl, hb, hc⟩
        exact .block h hb hc
      · cases hr with
        | block _ hb hc => exact ⟨_, rfl, _, _, rfl, hb, hc⟩
        | print hk | ret hk | loop hk | ifThen hk | ifElse hk | forLoop hk => simp [h] at hk
    · exact he'.forStmt hs h
    · exact he'.ifStmt hs h
    · exact he'.printStmt h
    · exact he'.returnStmt h
    · exact he'.whileStmt hs h
  · rintro (⟨t, v, rfl, _, hr⟩ | ⟨_, e, v, t, rfl, he, ht, rfl⟩)
    · exact .rule hr
    · exact .expression he ht
  · cases h with
    | rule hr => exact .inl ⟨_, _, rfl, hr.starts, hr⟩
    | expression he ht =>
      obtain ⟨t, v, rfl, hf⟩ := he.first rfl
      exact .inr ⟨not_startsRule_of_expression hf, _, _, _, rfl, he, ht, rfl⟩

lemma declarationRule (he : Specifies (n + 1) expression (ReadsExpr .expression))
    (hs : Specifies (n + 1) statement ReadsStmt) :
    Specifies (n + 1) (declarationRule expression statement declaration (n + 1)) ReadsDecl := by
  have hf := hd.function (n + 1) n (Nat.le_refl n) (Nat.le_succ n)
  refine (accept rfl (Nat.le_refl _) (fun _ => hf)
    (accept rfl (Nat.le_succ _) (fun _ => he.varDeclaration) hs)).congr
    fun s u i j a => ⟨?_, fun h => ?_⟩
  · rintro (⟨k, v, rfl, hk, hf⟩ | ⟨_, ⟨k, v, rfl, hk, hv⟩ | ⟨_, hs⟩⟩)
    · exact .function hk hf
    · exact .var hk hv
    · exact .statement hs
  · cases h with
    | function hk hf => exact .inl ⟨_, _, rfl, hk, hf⟩
    | var hk hv =>
      refine .inr ⟨?_, .inl ⟨_, _, rfl, hk, hv⟩⟩
      rw [ahead_cons, hk]
      simp
    | statement hs =>
      obtain ⟨t, v, rfl, ht⟩ := hs.first
      rcases ht with ht | ht
      · exact .inr ⟨ahead_ne ht rfl, .inr ⟨ahead_ne ht rfl, hs⟩⟩
      · exact .inr ⟨ahead_ne ht rfl, .inr ⟨ahead_ne ht rfl, hs⟩⟩

end

theorem statement_exact (n : ℕ) : Specifies n (Grammar.statement n) ReadsStmt ∧
    Specifies n (Grammar.declaration n) fun o u i j a => ∃ s, o = some s ∧ ReadsDecl s u i j a := by
  induction n with
  | zero =>
    exact ⟨(Specifies.fail (n := 0) _).zero, (recovering (Specifies.fail (n := 0) _)).zero⟩
  | succ n ih =>
    obtain ⟨hs, hd⟩ := ih
    have he := expression_exact (n + 1)
    have hs' := hd.statementRule he hs
    exact ⟨hs', recovering (hd.declarationRule he hs')⟩

end Specifies

lemma ofTokens_eq (first : SiteId) (tokens : List Token) :
    Reading.ofTokens first tokens =
      match program (declaration ((beforeEnd tokens).length + 1)) ((beforeEnd tokens).length + 1)
        ⟨beforeEnd tokens, first, []⟩ with
      | .ok statements c => ⟨statements, c.errors.reverse, c.nextSite⟩
      | .error e c => ⟨[], (e :: c.errors).reverse, c.nextSite⟩ := rfl

lemma le_nextSite (first : SiteId) (tokens : List Token) :
    first ≤ (Reading.ofTokens first tokens).nextSite := by
  have hp := (Specifies.statement_exact ((beforeEnd tokens).length + 1)).2.program _ _
    (Nat.le_refl _) (Nat.le_refl _)
  have hk := (hp.keeps ⟨beforeEnd tokens, first, []⟩).site
  rw [ofTokens_eq]
  split <;> next hr => rwa [hr] at hk

theorem ofTokens_exact (first : SiteId) (tokens : List Token) (program : List Stmt) (j : SiteId) :
    Reading.ofTokens first tokens = ⟨program, [], j⟩ ↔
      ReadsDecls program (beforeEnd tokens) first j none := by
  have hp := (Specifies.statement_exact ((beforeEnd tokens).length + 1)).2.program _ _
    (Nat.le_refl _) (Nat.le_refl _)
  have hx : Grammar.program (declaration ((beforeEnd tokens).length + 1))
      ((beforeEnd tokens).length + 1) ⟨beforeEnd tokens, first, []⟩ = .ok program ⟨[], j, []⟩ ↔
      ReadsDecls program (beforeEnd tokens) first j none := by
    refine (hp.exact (Nat.lt_succ_self _)).trans
      ⟨?_, fun h => ⟨_, (List.append_nil _).symm, rfl, h⟩⟩
    rintro ⟨u, hu, _, h⟩
    rw [List.append_nil] at hu
    rwa [hu]
  rw [← hx, ofTokens_eq]
  constructor
  · intro h
    cases hr : Grammar.program (declaration ((beforeEnd tokens).length + 1))
        ((beforeEnd tokens).length + 1) ⟨beforeEnd tokens, first, []⟩ with
    | error e c =>
      rw [hr] at h
      simp at h
    | ok s c =>
      rw [hr] at h
      obtain ⟨rest, k, es⟩ := c
      simp only [Reading.mk.injEq, List.reverse_eq_nil_iff] at h
      obtain ⟨rfl, rfl, rfl⟩ := h
      obtain ⟨u, _, ha, _⟩ := (hp.exact (Nat.lt_succ_self _)).1 hr
      cases rest with
      | nil => rfl
      | cons t rest => cases ha
  · intro h
    rw [h]
    rfl

end Lox.Grammar
