import Lox.Proofs.Grammar.Completeness
import Lox.Proofs.Viable.Judgement

/-! The rules for expressions as recognizers. -/

namespace Lox.Grammar

namespace Ebnf

open Form
open scoped Computability

lemma tokenOf_add (p q : TokenType → Prop) :
    tokenOf p + tokenOf q = tokenOf fun t => p t ∨ q t := by
  ext u
  constructor
  · rintro (⟨t, rfl, ht⟩ | ⟨t, rfl, ht⟩)
    · exact ⟨t, rfl, .inl ht⟩
    · exact ⟨t, rfl, .inr ht⟩
  · rintro ⟨t, rfl, ht | ht⟩
    · exact .inl ⟨t, rfl, ht⟩
    · exact .inr ⟨t, rfl, ht⟩

lemma words_expression : words (rule .expression) = words (rule .logicOr) *
    (1 + tokenOf (· = .punct .equal) * words (rule .expression)) := by
  have he : words (rule .expression) = words (rule .assignment) := words_rule _
  rw [he]
  conv_lhs => rw [words_rule]
  simp only [lenient, Form.any, Form.all, words_alt, words_seq, words_punct]
  rw [mul_add, mul_one, add_comm]

lemma words_level {l : Level} {tighter : List Level} (h : l :: tighter <:+ levels) :
    words (rule (levelRule (tighter.length + 1))) = words (rule (levelRule tighter.length)) *
      (tokenOf (l.allows · = true) * words (rule (levelRule tighter.length)))∗ := by
  simp only [levels, List.suffix_cons_iff, List.cons.injEq, List.suffix_nil, reduceCtorEq,
    or_false] at h
  rcases h with h | h | h | h | h | h
  all_goals
    obtain ⟨rfl, rfl⟩ := h
    rw [words_rule]
    simp [levelRule, lenient, grammar, infixList, Form.all, Form.any, tokenOf_add, allows_keyword,
      allows_punct, -add_eq_sup]

lemma words_unary : words (rule .unary) =
    tokenOf (isUnary · = true) * words (rule .unary) + words (rule .call) := by
  have hu : ∀ t, isUnary t = true ↔ t = .punct .bang ∨ t = .punct .minus := by
    intro t
    cases t with
    | punct p => cases p <;> simp [isUnary]
    | _ => simp [isUnary]
  conv_lhs => rw [words_rule]
  simp [lenient, grammar, Form.any, Form.all, tokenOf_add, hu, -add_eq_sup]

lemma words_call : words (rule .call) = words (rule .primary) * (words callForm)∗ := by
  rw [words_rule]
  simp [lenient, grammar, Form.all, callForm]

lemma words_callForm : words callForm = tokenOf (· = .punct .leftParen) *
    ((1 + words (rule .arguments)) * tokenOf (· = .punct .rightParen)) := by
  simp [callForm, Form.all]

lemma words_anyList (element : Form) : words (anyList element) = words element *
    (1 + tokenOf (· = .punct .comma) * words (anyList element)) := by
  simp only [anyList, Form.all, words_seq, words_many, words_punct]
  rw [← mul_assoc (tokenOf _) (words element), Language.one_add_self_mul_kstar_eq_kstar]

lemma words_arguments : words (rule .arguments) = words (rule .expression) *
    (1 + tokenOf (· = .punct .comma) * words (rule .arguments)) := by
  have ha : words (rule .arguments) = words (anyList (rule .expression)) := words_rule _
  rw [ha]
  exact words_anyList _

lemma startsPrimary_iff (t : TokenType) : startsPrimary t = true ↔
    (∃ x, t = .number x) ∨ (∃ s, t = .string s) ∨ t = .keyword .kwTrue ∨ t = .keyword .kwFalse ∨
      t = .keyword .kwNil ∨ t = .identifier ∨ t = .punct .leftParen := by
  cases t with
  | punct p => cases p <;> simp [startsPrimary, literal?]
  | keyword k => cases k <;> simp [startsPrimary, literal?]
  | _ => simp [startsPrimary, literal?]

lemma words_primary : words (rule .primary) =
    tokenOf (fun t => startsPrimary t = true ∧ t ≠ .punct .leftParen) +
      tokenOf (· = .punct .leftParen) *
        (words (rule .expression) * tokenOf (· = .punct .rightParen)) := by
  have hp : ∀ t, startsPrimary t = true ∧ t ≠ .punct .leftParen ↔ (∃ x, t = .number x) ∨
      (∃ s, t = .string s) ∨ t = .keyword .kwTrue ∨ t = .keyword .kwFalse ∨
        t = .keyword .kwNil ∨ t = .identifier := by
    intro t
    rw [startsPrimary_iff]
    cases t <;> simp
  rw [words_rule]
  simp only [lenient, grammar, Form.any, Form.all, words_alt, words_seq, words_punct, words_keyword,
    words_identifier, words_number, words_string, hp, ← add_assoc, tokenOf_add]

lemma leads_primary : Leads (startsPrimary · = true) (words (rule .primary)) := by
  rw [words_primary]
  refine .add ((leads_tokenOf _).imp fun t ht => ht.1) (.mul ((leads_tokenOf _).imp ?_) _)
  rintro _ rfl
  rfl

lemma leads_call : Leads (startsPrimary · = true) (words (rule .call)) := by
  rw [words_call]
  exact leads_primary.mul _

lemma leads_unary : Leads (startsExpression · = true) (words (rule .unary)) := by
  rw [words_unary]
  refine .add (.mul ((leads_tokenOf _).imp fun t ht => ?_) _) (leads_call.imp fun t ht => ?_)
  · rw [startsExpression, ht, Bool.true_or]
  · rw [startsExpression, ht, Bool.or_true]

lemma leads_level {ls : List Level} (h : ls <:+ levels) :
    Leads (startsExpression · = true) (words (rule (levelRule ls.length))) := by
  induction ls with
  | nil => exact leads_unary
  | cons l tighter ih =>
    rw [List.length_cons, words_level h]
    exact (ih ((List.suffix_cons _ _).trans h)).mul _

lemma leads_expression : Leads (startsExpression · = true) (words (rule .expression)) := by
  rw [words_expression]
  exact (leads_level List.suffix_rfl).mul _

lemma leads_arguments : Leads (startsExpression · = true) (words (rule .arguments)) := by
  rw [words_arguments]
  exact leads_expression.mul _

def aName : Token := ⟨.identifier, "a", 0, 1⟩

lemma nonempty_primary : ∃ u, u ∈ words (rule .primary) := by
  refine ⟨[aName], ?_⟩
  rw [words_primary]
  exact .inl ⟨aName, rfl, rfl, nofun⟩

lemma nonempty_unary : ∃ u, u ∈ words (rule .unary) := by
  obtain ⟨u, hu⟩ := nonempty_primary
  refine ⟨u, ?_⟩
  rw [words_unary, words_call, ← List.append_nil u]
  exact .inr (Language.append_mem_mul hu (Language.nil_mem_kstar _))

lemma nonempty_level {ls : List Level} (h : ls <:+ levels) :
    ∃ u, u ∈ words (rule (levelRule ls.length)) := by
  induction ls with
  | nil => exact nonempty_unary
  | cons l tighter ih =>
    obtain ⟨u, hu⟩ := ih ((List.suffix_cons _ _).trans h)
    refine ⟨u, ?_⟩
    rw [List.length_cons, words_level h, ← List.append_nil u]
    exact Language.append_mem_mul hu (Language.nil_mem_kstar _)

lemma nonempty_expression : ∃ u, u ∈ words (rule .expression) := by
  obtain ⟨u, hu⟩ := nonempty_level List.suffix_rfl
  refine ⟨u, ?_⟩
  rw [words_expression, ← List.append_nil u]
  exact Language.append_mem_mul hu (.inl rfl)

end Ebnf

open Ebnf Form
open scoped Computability

namespace Recognizes

variable {n : ℕ} {operand expression : Parse Expr} {F : Follow}

lemma before {α : Type} {q : Ahead → Prop} {rule : Parse α} {L : Language Token} {p : Punct}
    (h : Recognizes n q rule L (Begins Closes))
    (hp : p = .semicolon ∨ p = .rightParen ∨ p = .comma) :
    Recognizes n q rule L (Begins (· = some (.punct p))) :=
  h.follow fun _ hK => hK.imp fun _ ha => ha ▸ closes_punct hp

lemma begins_operations {l : Level} {tighter : List Level} (hs : l :: tighter <:+ levels)
    {K M : Language Token} (hK : Begins (Ends (l :: tighter)) K) :
    Begins (Ends tighter) ((tokenOf (l.allows · = true) * M)∗ * K) := by
  rw [kstar_mul, mul_assoc]
  refine .add (hK.imp fun _ ha => ha.tail) (((leads_tokenOf _).mul _).begins fun _ ht => ?_)
  exact ends_of_allows hs ht

lemma operations {l : Level} {tighter : List Level} (hs : l :: tighter <:+ levels)
    (h : Recognizes n anywhere operand (words (rule (levelRule tighter.length)))
      (Begins (Ends tighter))) (k m : ℕ) (left : Expr) (hn : m ≤ n) (hk : m ≤ k) :
    Recognizes m anywhere (operations l operand k left)
      (tokenOf (l.allows · = true) * words (rule (levelRule tighter.length)))∗
      (Begins (Ends (l :: tighter))) := by
  induction k generalizing m left with
  | zero =>
    obtain rfl := Nat.le_zero.1 hk
    exact zero (fun _ => .rfl) ⟨[], Language.nil_mem_kstar _⟩
  | succ k ih =>
    refine repeatedly (m := m - 1) (by omega) (fun op => (h.mono (by omega)).andThen
      (fun right => ih (m - 1) (l.node left op right) (by omega) (by omega))
      fun K hK => ⟨begins_operations hs hK, hK⟩) rfl fun K hK => hK.imp fun a ha => ?_
    exact ha.operator l List.mem_cons_self

lemma joined (h : Recognizes n anywhere operand (words (rule .unary))
    (Begins (· ≠ some (.punct .leftParen)))) {ls : List Level} (hs : ls <:+ levels) :
    Recognizes n anywhere (joined operand n ls) (words (rule (levelRule ls.length)))
      (Begins (Ends ls)) := by
  induction ls with
  | nil => exact h.follow fun K hK => hK.imp fun _ ha => ha.call
  | cons l tighter ih =>
    have ht := ih ((List.suffix_cons _ _).trans hs)
    rw [List.length_cons, words_level hs]
    exact ht.andThen (fun first => ht.operations hs n n first (Nat.le_refl n) (Nat.le_refl n))
      fun K hK => ⟨begins_operations hs hK, hK⟩

lemma argumentList (h : Recognizes n anywhere expression (words (rule .expression)) (Begins Closes))
    (k m p : ℕ) (hn : m ≤ n) (hk : m ≤ k) : Recognizes m anywhere (argumentList expression k p)
      (words (rule .arguments)) (Begins (· = some (.punct .rightParen))) := by
  have hne : ∃ u, u ∈ words (rule .arguments) := by
    obtain ⟨u, hu⟩ := nonempty_expression
    refine ⟨u, ?_⟩
    rw [words_arguments, ← List.append_nil u]
    exact Language.append_mem_mul hu (.inl rfl)
  induction k generalizing m p with
  | zero =>
    obtain rfl := Nat.le_zero.1 hk
    exact zero (fun _ => .rfl) hne
  | succ k ih =>
    rw [Grammar.argumentList, words_arguments]
    refine limited ((h.mono hn).andThen (fun e => optionally (b := [e]) rfl (by omega)
      (fun _ => (ih (m - 1) (p + 1) (by omega) (by omega)).thenPure _) rfl ?_) ?_) (fun _ => rfl) p
    · intro K hK t v ht hv
      have hend := hK _ hv
      rw [ahead_cons, ht] at hend
      cases hend
    · refine fun K hK => ⟨?_, hK⟩
      rw [add_mul, one_mul, mul_assoc]
      refine .add (hK.imp ?_) (((leads_tokenOf _).mul _).begins ?_)
      · rintro _ rfl
        exact closes_punct (.inr (.inl rfl))
      · rintro _ rfl
        exact closes_punct (.inr (.inr rfl))

lemma callEnd (h : Recognizes n anywhere expression (words (rule .expression)) (Begins Closes))
    {k : ℕ} (hk : n ≤ k) : Recognizes n anywhere (callEnd expression k)
      ((1 + words (rule .arguments)) * tokenOf (· = .punct .rightParen)) F := by
  have hargs := unlessFacing (q := anywhere) [] rfl (h.argumentList k n 0 (Nat.le_refl n) hk)
    (leads_arguments.imp fun t ht => ?_)
  · exact (hargs.endExpect .argumentsEnd rfl Prod.mk).assoc fun b => by cases b <;> rfl
  · rintro rfl
    cases ht

lemma calls (h : Recognizes n anywhere expression (words (rule .expression)) (Begins Closes))
    (k m : ℕ) (callee : Expr) (hn : m ≤ n + 1) (hk : m ≤ k) :
    Recognizes m anywhere (calls expression k callee) (words callForm)∗
      (Begins (· ≠ some (.punct .leftParen))) := by
  have hparen : tokenOf (· = .punct .leftParen) =
      tokenOf fun t => t.sameKind (.punct .leftParen) = true := by
    simp only [TokenType.sameKind_iff (t := .punct .leftParen) rfl]
  induction k generalizing m callee with
  | zero =>
    obtain rfl := Nat.le_zero.1 hk
    exact zero (fun _ => .rfl) ⟨[], Language.nil_mem_kstar _⟩
  | succ k ih =>
    have hend : Recognizes (m - 1) anywhere (Grammar.callEnd expression (k + 1)) _ fun _ => True :=
      (h.mono (by omega)).callEnd (by omega)
    rw [words_callForm, hparen] at ih ⊢
    refine repeatedly (m := m - 1) (by omega) (fun _ => hend.andThen
      (fun x => ih (m - 1) (.call callee x.2 x.1) (by omega) (by omega))
      fun K hK => ⟨trivial, hK⟩) rfl fun K hK => hK.imp fun a ha => ?_
    rwa [← Bool.not_eq_true, any_sameKind_iff rfl]

lemma primary (h : Recognizes n anywhere expression (words (rule .expression)) (Begins Closes)) :
    Recognizes (n + 1) anywhere (primary expression) (words (rule .primary)) F := by
  -- After a parenthesis there is a group, and after any other first token nothing.
  have hrest : ∀ {t : Token} {K : Language Token}, startsPrimary t.type = true → ∀ v,
      t :: v ∈ words (rule .primary) * K ↔ v ∈ (if t.type.sameKind (.punct .leftParen) then
        words (rule .expression) * tokenOf (· = .punct .rightParen) else 1) * K := by
    intro t K ht v
    rw [words_primary, add_mul, mul_assoc, Language.mem_add, cons_mem_mul, cons_mem_mul]
    by_cases hp : t.type = .punct .leftParen
    · rw [if_pos ((TokenType.sameKind_iff rfl).2 hp)]
      simp [hp]
    · rw [if_neg fun hs => hp ((TokenType.sameKind_iff rfl).1 hs)]
      simp [ht, hp]
  refine take (Nat.le_refl _) (fun t ht => ?_) (fun t v ht hv => ?_)
    (fun K _ t v ht => (hrest ht v).1) ?_
  · by_cases hp : t.type = .punct .leftParen
    · rw [if_pos ((TokenType.sameKind_iff rfl).2 hp)]
      simp only [hp, literal?]
      exact (h.before (.inr (.inl rfl))).endExpect _ rfl fun inner _ => inner.grouping
    · rw [if_neg fun hs => hp ((TokenType.sameKind_iff rfl).1 hs)]
      cases hl : literal? t.type with
      | some v =>
        simp only [hl]
        exact pure _
      | none =>
        by_cases hi : t.type = .identifier
        · simp only [hi]
          exact freshSite.thenPure _
        · exact absurd (leftParen_of_startsPrimary ht hl hi) hp
  · have hone := (hrest (K := 1) ht v).2
    rw [mul_one, mul_one] at hone
    exact hone hv
  · refine fail _ nonempty_primary fun K _ w hw => ?_
    obtain ⟨t, v, rfl, ht⟩ := leads_primary.mul _ w hw
    rintro ⟨-, hnot⟩
    rw [ahead_cons, Option.any_some, ht] at hnot
    cases hnot

lemma unary (h : Recognizes n anywhere expression (words (rule .expression)) (Begins Closes))
    (bound k m : ℕ) (hn : m ≤ n + 1) (hb : m ≤ bound) (hk : m ≤ k) :
    Recognizes m anywhere (unary expression bound k) (words (rule .unary))
      (Begins (· ≠ some (.punct .leftParen))) := by
  induction k generalizing m with
  | zero =>
    obtain rfl := Nat.le_zero.1 hk
    exact zero (fun _ => .rfl) nonempty_unary
  | succ k ih =>
    have hfirst : Recognizes m anywhere (Grammar.primary expression) (words (rule .primary))
        fun _ => True := h.primary.mono hn
    have hcall : Recognizes m anywhere (Grammar.primary expression >>= fun first =>
        Grammar.calls expression bound first) (words (rule .call))
        (Begins (· ≠ some (.punct .leftParen))) := by
      rw [words_call]
      exact hfirst.andThen (fun first => h.calls bound m first hn hb) fun K hK => ⟨trivial, hK⟩
    refine take (m := m - 1) (by omega) (fun op _ =>
      (ih (m - 1) (by omega) (by omega) (by omega)).thenPure _) (fun t v ht hv => ?_)
      (fun K _ t v ht hv => ?_) ((hcall.when fun _ _ => trivial).narrow ?_ (fun _ hK => hK)
        fun K _ w hw hv => ?_)
    · rw [words_unary]
      exact .inl (cons_mem_mul.2 ⟨ht, hv⟩)
    · rw [words_unary, add_mul, mul_assoc] at hv
      refine hv.elim (fun hv => (cons_mem_mul.1 hv).2) fun hv => ?_
      refine absurd hv ((leads_call.mul K).not_mem fun hp => ?_)
      rw [not_isUnary_of_startsPrimary hp] at ht
      cases ht
    · intro u hu
      rw [words_unary]
      exact .inr hu
    · rw [words_unary, add_mul, mul_assoc] at hv
      refine hv.resolve_left fun hv => ?_
      obtain ⟨t, v, rfl, ht, -⟩ := mem_tokenOf_mul.1 hv
      have hnot := hw.2
      rw [ahead_cons, Option.any_some, ht] at hnot
      cases hnot

lemma assigned (target : Expr) (equals : Token) (value : Expr) :
    Recognizes n anywhere (match target with
      | .ref _ name => do
        let site ← Grammar.freshSite
        Pure.pure (Expr.assign site name value)
      | _ => do
        Grammar.report ⟨.invalidAssignmentTarget, some equals⟩
        Pure.pure target) 1 F := by
  cases target with
  | ref site name => exact freshSite.thenPure _
  | _ => exact (report rfl).thenPure _

lemma assignment (h : Recognizes n anywhere operand (words (rule .logicOr)) (Begins (Ends levels)))
    (k m : ℕ) (hn : m ≤ n) (hk : m ≤ k) : Recognizes m anywhere (assignment operand k)
      (words (rule .expression)) (Begins Closes) := by
  induction k generalizing m with
  | zero =>
    obtain rfl := Nat.le_zero.1 hk
    exact zero (fun _ => .rfl) nonempty_expression
  | succ k ih =>
    have hvalue : ∀ target : Expr, ∀ equals : Token, Recognizes (m - 1) anywhere
        (Grammar.assignment operand k >>= fun value => _) (words (rule .expression))
        (Begins Closes) := fun target equals =>
      ((ih (m - 1) (by omega) (by omega)).andThen (assigned target equals) fun K hK =>
        ⟨by rwa [one_mul], hK⟩).ofEq (mul_one _)
    rw [Grammar.assignment, words_expression]
    refine (h.mono hn).andThen (fun target => optionally (b := target) rfl (by omega)
      (hvalue target) rfl ?_) ?_
    · intro K hK t v ht hv
      exact absurd (congrArg some ht) (hK _ hv).assign
    · refine fun K hK => ⟨?_, hK⟩
      rw [add_mul, one_mul, mul_assoc]
      refine .add (hK.imp fun _ ha => ha.toEnds) (((leads_tokenOf _).mul _).begins ?_)
      rintro _ rfl
      exact ends_equal

theorem expression_recognized (n : ℕ) : Recognizes n anywhere (Grammar.expression n)
    (words (rule .expression)) (Begins Closes) := by
  induction n with
  | zero => exact zero (fun _ => .rfl) nonempty_expression
  | succ n ih =>
    have hu := ih.unary (n + 1) (n + 1) (n + 1) (Nat.le_refl _) (Nat.le_refl _) (Nat.le_refl _)
    exact (hu.joined List.suffix_rfl).assignment (n + 1) (n + 1) (Nat.le_refl _) (Nat.le_refl _)

end Recognizes

end Lox.Grammar
