import Lox.Proofs.Viable.Expr

/-! The rules for statements and declarations as recognizers. A statement may be followed by `else`
only where the `else` could belong to it. -/

namespace Lox.Grammar

namespace Ebnf

open Form
open scoped Computability

def afterFirst (r : Rule) : Form :=
  match lenient r with
  | seq _ b => b
  | f => f

lemma words_keywordRule {r : Rule} {k : Keyword} (h : lenient r = seq (keyword k) (afterFirst r)) :
    words (rule r) = tokenOf (· = .keyword k) * words (afterFirst r) := by
  rw [words_rule, h, words_seq, words_keyword]

lemma words_block : words (rule .block) =
    tokenOf (· = .punct .leftBrace) * words (afterFirst .block) := by
  rw [words_rule, show lenient .block = seq (punct .leftBrace) (afterFirst .block) from rfl,
    words_seq, words_punct]

lemma words_exprStmt : words (rule .exprStmt) =
    words (rule .expression) * tokenOf (· = .punct .semicolon) := by
  rw [words_rule]
  simp [lenient, grammar, Form.all]

lemma words_parameters : words (rule .parameters) = tokenOf (· = .identifier) *
    (1 + tokenOf (· = .punct .comma) * words (rule .parameters)) := by
  have hp : words (rule .parameters) = words (anyList identifier) := words_rule _
  rw [hp]
  conv_lhs => rw [words_anyList, words_identifier]

def ruledStmt : Form := any (rule .forStmt) [rule .ifStmt, rule .printStmt, rule .returnStmt,
  rule .whileStmt, rule .block]

lemma words_statement : words (rule .statement) = words (rule .exprStmt) + words ruledStmt := by
  rw [words_rule, ← words_alt]
  rfl

lemma words_declaration : words (rule .declaration) =
    words (rule .funDecl) + (words (rule .varDecl) + words (rule .statement)) := by
  rw [words_rule]
  simp [lenient, grammar, Form.any, -add_eq_sup]

lemma words_program : words (rule .program) = (words (rule .declaration))∗ := by
  rw [words_rule]
  simp [lenient, grammar]

lemma leads_keywordRule {r : Rule} {k : Keyword} (h : lenient r = seq (keyword k) (afterFirst r)) :
    Leads (· = .keyword k) (words (rule r)) := by
  rw [words_keywordRule h]
  exact (leads_tokenOf _).mul _

lemma leads_exprStmt : Leads (startsExpression · = true) (words (rule .exprStmt)) := by
  rw [words_exprStmt]
  exact leads_expression.mul _

lemma leads_ruledStmt : Leads (startsRule · = true) (words ruledStmt) := by
  have hk : ∀ {r : Rule} {k : Keyword}, lenient r = seq (keyword k) (afterFirst r) →
      startsRule (.keyword k) = true → Leads (startsRule · = true) (words (rule r)) :=
    fun h hs => (leads_keywordRule h).imp fun t ht => ht ▸ hs
  simp only [ruledStmt, Form.any, words_alt]
  refine .add (hk rfl rfl) (.add (hk rfl rfl) (.add (hk rfl rfl) (.add (hk rfl rfl)
    (.add (hk rfl rfl) ?_))))
  rw [words_block]
  exact .mul ((leads_tokenOf _).imp fun t ht => ht ▸ rfl) _

lemma leads_statement :
    Leads (fun t => startsExpression t = true ∨ startsRule t = true) (words (rule .statement)) := by
  rw [words_statement]
  exact .add (leads_exprStmt.imp fun _ => .inl) (leads_ruledStmt.imp fun _ => .inr)

lemma leads_declaration : Leads (startsDeclaration · = true) (words (rule .declaration)) := by
  rw [words_declaration]
  refine .add ((leads_keywordRule rfl).imp ?_) (.add ((leads_keywordRule rfl).imp ?_)
    (leads_statement.imp ?_))
  · rintro _ rfl
    rfl
  · rintro _ rfl
    rfl
  · rintro t (ht | ht) <;> simp [startsDeclaration, ht]

lemma leads_parameters : Leads (· = .identifier) (words (rule .parameters)) := by
  rw [words_parameters]
  exact (leads_tokenOf _).mul _

def afterStart : TokenType → Form
  | .keyword .kwFor => afterFirst .forStmt
  | .keyword .kwIf => afterFirst .ifStmt
  | .keyword .kwPrint => afterFirst .printStmt
  | .keyword .kwReturn => afterFirst .returnStmt
  | .keyword .kwWhile => afterFirst .whileStmt
  | _ => afterFirst .block

lemma cons_mem_statement {t : Token} {v : List Token} {K : Language Token}
    (ht : startsRule t.type = true) :
    t :: v ∈ words (rule .statement) * K ↔ v ∈ words (afterStart t.type) * K := by
  have hexpr : t :: v ∉ words (rule .exprStmt) * K := (leads_exprStmt.mul K).not_mem fun he => by
    rw [not_startsRule_of_expression he] at ht
    cases ht
  have hk : ∀ {r : Rule} {k : Keyword}, lenient r = seq (keyword k) (afterFirst r) →
      (t :: v ∈ words (rule r) * K ↔ t.type = .keyword k ∧ v ∈ words (afterFirst r) * K) :=
    fun h => by rw [words_keywordRule h, mul_assoc, cons_mem_mul]
  have hb : t :: v ∈ words (rule .block) * K ↔
      t.type = .punct .leftBrace ∧ v ∈ words (afterFirst .block) * K := by
    rw [words_block, mul_assoc, cons_mem_mul]
  rw [words_statement]
  simp only [ruledStmt, Form.any, words_alt, add_mul, Language.mem_add, hexpr, hb,
    hk (r := .forStmt) rfl, hk (r := .ifStmt) rfl, hk (r := .printStmt) rfl,
    hk (r := .returnStmt) rfl, hk (r := .whileStmt) rfl]
  rcases startsRule_cases ht with h | h | h | h | h | h <;> simp [h, afterStart]

lemma nonempty_statement : ∃ u, u ∈ words (rule .statement) := by
  obtain ⟨u, hu⟩ := nonempty_expression
  refine ⟨u ++ [⟨.punct .semicolon, ";", 0, 1⟩], ?_⟩
  rw [words_statement, words_exprStmt]
  exact .inl (Language.append_mem_mul hu ⟨_, rfl, rfl⟩)

lemma nonempty_declaration : ∃ u, u ∈ words (rule .declaration) := by
  rw [words_declaration]
  exact nonempty_statement.imp fun u hu => .inr (.inr hu)

lemma nonempty_parameters : ∃ u, u ∈ words (rule .parameters) := by
  refine ⟨[aName] ++ [], ?_⟩
  rw [words_parameters]
  exact Language.append_mem_mul ⟨_, rfl, rfl⟩ (.inl rfl)

end Ebnf

open Ebnf Form
open scoped Computability

def ElseClosed : Follow := fun K => ∀ t v, t.type = .keyword .kwElse → t :: v ∈ K →
  v ∈ words (rule .statement) * K

lemma ElseClosed.of_leads {p : TokenType → Prop} {K : Language Token} (h : Leads p K)
    (hp : ¬ p (.keyword .kwElse)) : ElseClosed K :=
  fun _ _ ht hv => absurd hv (h.not_mem (ht ▸ hp))

lemma ElseClosed.optional {K : Language Token} (h : ElseClosed K) :
    ElseClosed ((1 + tokenOf (· = .keyword .kwElse) * words (rule .statement)) * K) := by
  intro t v ht hv
  have hle : words (rule .statement) * K ≤ words (rule .statement) *
      ((1 + tokenOf (· = .keyword .kwElse) * words (rule .statement)) * K) := by
    rw [add_mul, one_mul]
    exact mul_le_mul_right le_self_add _
  rw [add_mul, one_mul, mul_assoc] at hv
  exact hle (hv.elim (h t v ht) fun hv => (cons_mem_mul.1 hv).2)

namespace Recognizes

variable {n m : ℕ} {q : Ahead → Prop} {expression : Parse Expr} {statement : Parse Stmt}
  {declaration : Parse (Option Stmt)} {F : Follow}

section

variable (h : Recognizes n anywhere expression (words (rule .expression)) (Begins Closes))

include h

lemma optional {p : Punct} (hp : p = .semicolon ∨ p = .rightParen ∨ p = .comma) :
    Recognizes n anywhere (optional expression p) (1 + words (rule .expression))
      (Begins (· = some (.punct p))) := by
  refine unlessFacing none rfl ((h.before hp).map some) (leads_expression.imp ?_)
  rintro _ ht rfl
  rcases hp with rfl | rfl | rfl <;> cases ht

lemma expressionStmt :
    Recognizes n anywhere (expressionStmt expression) (words (rule .exprStmt)) F := by
  rw [words_exprStmt]
  exact (h.before (.inl rfl)).endExpect _ rfl fun e _ => Stmt.expression e

lemma printStmt : Recognizes n anywhere (printStmt expression) (words (afterFirst .printStmt)) F :=
  ((h.before (.inl rfl)).endExpect _ rfl fun e _ => Stmt.print e).ofEq <| by
    simp [afterFirst, lenient, grammar, Form.all]

lemma returnStmt (t : Token) : Recognizes n anywhere (returnStmt expression t)
    (words (afterFirst .returnStmt)) F :=
  ((h.optional (.inl rfl)).endExpect _ rfl fun e _ => Stmt.ret t e).ofEq <| by
    simp [afterFirst, lenient, grammar, Form.all, -add_eq_sup]

lemma varDeclaration : Recognizes n anywhere (varDeclaration expression)
    (words (afterFirst .varDecl)) F := by
  have hend : ∀ K : Language Token, Begins (· = some (.punct .semicolon)) K →
      ∀ t v, t.type = .punct .equal → t :: v ∈ K → v ∈ words (rule .expression) * K := by
    intro K hK t v ht hv
    have hnot := hK _ hv
    rw [ahead_cons, ht] at hnot
    cases hnot
  have hinit := optionally (q := anywhere)
    (f := fun o => o.elim (Pure.pure none) fun _ => some <$> expression) rfl (Nat.le_succ n)
    (fun _ => (h.before (.inl rfl)).map some) rfl hend
  refine (expectThen rfl fun name => (hinit.endExpect .variableEnd rfl fun e _ =>
    Stmt.var name e).assoc fun o => by cases o <;> rfl).ofEq ?_
  simp [afterFirst, lenient, grammar, Form.all, -add_eq_sup]

lemma forInitializer : Recognizes n anywhere (forInitializer expression)
    (words (any (rule .varDecl) [rule .exprStmt, punct .semicolon])) F := by
  refine (either rfl (Nat.le_succ n) (fun _ => pure none) (either rfl (Nat.le_succ n)
    (fun _ => h.varDeclaration.map some) (h.expressionStmt.map some) ?_) ?_).ofEq ?_
  · refine leads_exprStmt.imp ?_
    rintro _ ht rfl
    cases ht
  · refine .add ((leads_tokenOf _).mul _ |>.imp ?_) (leads_exprStmt.imp ?_)
    · rintro _ rfl
      nofun
    · rintro _ ht rfl
      cases ht
  · rw [mul_one, ← words_keywordRule rfl]
    simp only [Form.any, words_alt, words_punct]
    rw [add_comm, add_assoc]

lemma whileStmt (hs : Recognizes n anywhere statement (words (rule .statement)) ElseClosed) :
    Recognizes n anywhere (whileStmt expression statement) (words (afterFirst .whileStmt))
      ElseClosed :=
  (expectThen rfl fun _ => (h.before (.inr (.inl rfl))).thenExpect _ rfl fun e _ =>
    hs.thenPure (Stmt.loop e)).ofEq <| by simp [afterFirst, lenient, grammar, Form.all]

lemma ifStmt (hs : Recognizes n anywhere statement (words (rule .statement)) ElseClosed) :
    Recognizes n anywhere (ifStmt expression statement) (words (afterFirst .ifStmt))
      ElseClosed := by
  refine ofEq (expectThen rfl fun _ => (h.before (.inr (.inl rfl))).thenExpect _ rfl fun e _ =>
    hs.andThen (fun s => optionally rfl (Nat.le_succ n) (fun _ => hs.thenPure (Stmt.ifElse e s)) rfl
      fun _ hK => hK) fun _ hK => ⟨ElseClosed.optional hK, hK⟩) ?_
  simp [afterFirst, lenient, grammar, Form.all, -add_eq_sup]

lemma forStmt (hs : Recognizes n anywhere statement (words (rule .statement)) ElseClosed) :
    Recognizes n anywhere (forStmt expression statement) (words (afterFirst .forStmt))
      ElseClosed := by
  have hinit : Recognizes n anywhere (Grammar.forInitializer expression) _ fun _ => True :=
    h.forInitializer
  refine (expectThen rfl fun _ => hinit.andThen (fun initializer =>
    (h.optional (.inl rfl)).thenExpect _ rfl fun condition _ =>
      (h.optional (.inr (.inl rfl))).thenExpect _ rfl fun increment _ =>
        hs.thenPure (forLoop initializer condition increment)) fun K hK => ⟨trivial, hK⟩).ofEq ?_
  simp [afterFirst, lenient, grammar, Form.all, -add_eq_sup]

end

lemma parameterList (k m p : ℕ) (hk : m ≤ k) : Recognizes m anywhere (parameterList k p)
    (words (rule .parameters)) (Begins (· = some (.punct .rightParen))) := by
  induction k generalizing m p with
  | zero =>
    obtain rfl := Nat.le_zero.1 hk
    exact zero (fun _ => .rfl) nonempty_parameters
  | succ k ih =>
    rw [Grammar.parameterList, words_parameters]
    refine limited (expectThen rfl fun name => optionally (m := m - 1) (b := [name]) rfl (by omega)
      (fun _ => (ih (m - 1) (p + 1) (by omega)).thenPure (name :: ·)) rfl ?_) ?_ p
    · intro K hK t v ht hv
      have hend := hK _ hv
      rw [ahead_cons, ht] at hend
      cases hend
    · exact fun _ => rfl

section

variable (hd : Recognizes n anywhere declaration (words (rule .declaration)) ElseClosed)

include hd

lemma andMore {more : Parse (List Stmt)} {L : Language Token} (hn : m ≤ n)
    (hm : Recognizes (m - 1) anywhere more L F) (hF : ∀ K, F K → ElseClosed (L * K)) :
    Recognizes m q (declaration >>= fun o => more >>= fun ss => Pure.pure (o.toList ++ ss))
      (words (rule .declaration) * L) F := by
  refine ((hd.mono hn).when fun _ _ => trivial).bind (fun u hu => ?_)
    (fun o => hm.thenPure (o.toList ++ ·)) fun K hK => ⟨hF K hK, hK⟩
  have := leads_declaration.length_pos hu
  omega

lemma block (k m : ℕ) (hn : m ≤ n) (hk : m ≤ k) : Recognizes m anywhere (block declaration k)
    (words (afterFirst .block)) F := by
  have hwords : words (afterFirst .block) =
      (words (rule .declaration))∗ * tokenOf (· = .punct .rightBrace) := by
    simp [afterFirst, lenient, grammar, Form.all]
  have hne : ∃ u, u ∈ (words (rule .declaration))∗ * tokenOf (· = .punct .rightBrace) :=
    ⟨[] ++ [⟨.punct .rightBrace, "\x7d", 0, 1⟩],
      Language.append_mem_mul (Language.nil_mem_kstar _) ⟨_, rfl, rfl⟩⟩
  have hleads : Leads (fun t => startsDeclaration t = true ∨ t = .punct .rightBrace)
      ((words (rule .declaration))∗ * tokenOf (· = .punct .rightBrace)) :=
    (leads_declaration.imp fun _ => .inl).kstar_mul ((leads_tokenOf _).imp fun _ => .inr)
  rw [hwords]
  induction k generalizing m with
  | zero =>
    obtain rfl := Nat.le_zero.1 hk
    exact zero (fun _ => .rfl) hne
  | succ k ih =>
    have hmore := hd.andMore (q := fun a => anywhere a ∧ a ≠ none) hn
      (ih (m - 1) (by omega) (by omega)) fun K _ => .of_leads (hleads.mul K) <| by
        rintro (h | h) <;> cases h
    have hrest : Recognizes m anywhere (atEnd >>= fun b => if b then
        Grammar.fail (.missing .blockEnd) else declaration >>= fun o =>
          Grammar.block declaration k >>= fun ss => Pure.pure (o.toList ++ ss)) _ F :=
      whenAtEnd (fail _ hmore.nonempty fun K _ w hw => ?_) hmore
    · rw [kstar_mul]
      refine ofEq (either rfl (Nat.le_succ m) (fun _ => pure []) hrest ?_) (by rw [mul_one])
      refine (leads_declaration.mul _).imp ?_
      rintro _ ht rfl
      cases ht
    · obtain ⟨t, v, rfl, -⟩ := (leads_declaration.mul _).mul K w hw
      rintro ⟨-, h⟩
      cases h

lemma function (k m : ℕ) (hn : m ≤ n) (hk : m ≤ k) : Recognizes m anywhere (function declaration k)
    (words (afterFirst .funDecl)) F := by
  have hbody : ∀ (name : Token) (params : List Token), Recognizes m anywhere (do
      let _ ← Grammar.expect (.punct .leftBrace) .functionBody
      let body ← Grammar.block declaration k
      Pure.pure (Stmt.function name params body)) (words (rule .block)) F := fun name params => by
    rw [words_block]
    exact expectThen rfl fun _ => (hd.block k m hn hk).thenPure _
  have hparams := unlessFacing (q := anywhere) [] rfl (parameterList k m 0 hk)
    (leads_parameters.imp fun t ht => by rw [ht]; nofun)
  refine (expectThen rfl fun name => expectThen rfl fun _ => (hparams.thenExpect .parametersEnd rfl
    fun params _ => hbody name params).assoc fun b => by cases b <;> rfl).ofEq ?_
  simp [afterFirst, lenient, grammar, Form.all, -add_eq_sup]

lemma program (k m : ℕ) (hn : m ≤ n) (hk : m ≤ k) : Recognizes m anywhere (program declaration k)
    (words (rule .program)) fun K => ∀ w ∈ K, w = [] := by
  rw [words_program]
  induction k generalizing m with
  | zero =>
    obtain rfl := Nat.le_zero.1 hk
    exact zero (fun _ => .rfl) ⟨[], Language.nil_mem_kstar _⟩
  | succ k ih =>
    have hmore := hd.andMore (q := fun a => anywhere a ∧ a ≠ none) hn
      (ih (m - 1) (by omega) (by omega)) fun K hK t v ht hv => by
        rw [kstar_mul] at hv
        refine hv.elim (fun hv => nomatch hK _ hv) fun hv => ?_
        exact absurd hv ((leads_declaration.mul _).not_mem (by rw [ht]; nofun))
    refine whenAtEnd
      ((pure []).narrow (fun _ => mem_kstar_of_mem_one) (fun _ hK => hK) fun K hK w hw hv => ?_)
      (hmore.narrow (fun u hu => ?_) (fun _ hK => hK) fun K hK w hw hv => ?_)
    · rw [kstar_mul] at hv
      rw [one_mul]
      refine hv.resolve_right fun hv => ?_
      obtain ⟨t, v, rfl, -⟩ := leads_declaration.mul _ w hv
      exact absurd hw.2 nofun
    · rw [← Language.one_add_self_mul_kstar_eq_kstar]
      exact .inr hu
    · rw [kstar_mul] at hv
      rw [mul_assoc]
      refine hv.resolve_left fun hv => hw.2 ?_
      rw [hK w hv]
      rfl

lemma statementRule (he : Recognizes (n + 1) anywhere expression (words (rule .expression))
      (Begins Closes)) (hs : Recognizes n anywhere statement (words (rule .statement)) ElseClosed) :
    Recognizes (n + 1) anywhere (statementRule expression statement declaration (n + 1))
      (words (rule .statement)) ElseClosed := by
  have he' : Recognizes n anywhere expression (words (rule .expression)) (Begins Closes) :=
    he.mono (Nat.le_succ n)
  have hexpr : Recognizes (n + 1) anywhere (Grammar.expressionStmt expression)
      (words (rule .exprStmt)) ElseClosed := he.expressionStmt
  refine take (Nat.le_refl _) (fun t ht => ?_) (fun t v ht hv => ?_)
    (fun K _ t v ht => (cons_mem_statement ht).1)
    ((hexpr.when fun _ _ => trivial).narrow ?_ (fun _ hK => hK) fun K _ w hw hv => ?_)
  · rcases startsRule_cases ht with h | h | h | h | h | h <;> simp only [h, afterStart]
    · exact (hd.block (n + 1) n (Nat.le_refl n) (Nat.le_succ n)).map Stmt.block
    · exact he'.forStmt hs
    · exact he'.ifStmt hs
    · exact he'.printStmt
    · exact he'.returnStmt t
    · exact he'.whileStmt hs
  · have hone := (cons_mem_statement (K := 1) (v := v) ht).2
    rw [mul_one, mul_one] at hone
    exact hone hv
  · rw [words_statement]
    exact fun u hu => .inl hu
  · rw [words_statement, add_mul] at hv
    refine hv.resolve_right fun hv => ?_
    obtain ⟨t, v, rfl, ht⟩ := leads_ruledStmt.mul K w hv
    have hnot := hw.2
    rw [ahead_cons, Option.any_some, ht] at hnot
    cases hnot

lemma declarationRule (he : Recognizes (n + 1) anywhere expression (words (rule .expression))
      (Begins Closes))
    (hs : Recognizes (n + 1) anywhere statement (words (rule .statement)) ElseClosed) :
    Recognizes (n + 1) anywhere (declarationRule expression statement declaration (n + 1))
      (words (rule .declaration)) ElseClosed := by
  have hf := hd.function (F := ElseClosed) (n + 1) n (Nat.le_refl n) (Nat.le_succ n)
  refine ofEq (either rfl (Nat.le_refl _) (fun _ => hf) (either rfl (Nat.le_succ _)
    (fun _ => he.varDeclaration) hs (leads_statement.imp ?_))
    (.add ((leads_tokenOf _).mul _ |>.imp ?_) (leads_statement.imp ?_))) ?_
  · rintro _ (ht | ht) rfl <;> cases ht
  · rintro _ rfl
    nofun
  · rintro _ (ht | ht) rfl <;> cases ht
  · rw [words_declaration, words_keywordRule (r := .funDecl) rfl,
      words_keywordRule (r := .varDecl) rfl]

end

theorem statement_recognized (n : ℕ) :
    Recognizes n anywhere (Grammar.statement n) (words (rule .statement)) ElseClosed ∧
    Recognizes n anywhere (Grammar.declaration n) (words (rule .declaration)) ElseClosed := by
  induction n with
  | zero =>
    exact ⟨zero (fun _ => .rfl) nonempty_statement,
      recovering (zero (fun _ => .rfl) nonempty_declaration)⟩
  | succ n ih =>
    obtain ⟨hs, hd⟩ := ih
    have he := expression_recognized (n + 1)
    have hs' := hd.statementRule he hs
    exact ⟨hs', recovering (hd.declarationRule he hs')⟩

end Recognizes

end Lox.Grammar
