import Lox.Proofs.Grammar.Reads

/-! The rules for expressions read what `ReadsExpr` says, given enough fuel. -/

namespace Lox.Grammar

inductive ReadsAfter (t : Token) : Expr → List Token → SiteId → SiteId → Ahead → Prop
  | literal {v i a} : literal? t.type = some v → ReadsAfter t (.literal v) [] i i a
  | name {i a} : t.type = .identifier → ReadsAfter t (.ref i t) [] i (i + 1) a
  | grouping {e u c i j a} : literal? t.type = none → t.type ≠ .identifier →
      ReadsExpr .expression e u i j (some c.type) → c.type = .punct .rightParen →
      ReadsAfter t (.grouping e) (u ++ [c]) i j a

lemma ahead_ne {starts : TokenType → Bool} {t : Token} {v : List Token} {a : Ahead}
    {type : TokenType} (ht : starts t.type = true) (hs : starts type = false) :
    ahead (t :: v) a ≠ some type := by
  intro h
  obtain rfl : t.type = type := Option.some.inj h
  rw [ht] at hs
  cases hs

namespace Specifies

variable {n : ℕ} {operand expression : Parse Expr}

lemma operations {l : Level} {tighter : List Level}
    (h : Specifies n operand (ReadsExpr (.joined tighter))) (k m : ℕ) (left : Expr) (hn : m ≤ n)
    (hk : m ≤ k) :
    Specifies m (operations l operand k left) (ReadsExpr (.operations l tighter left)) := by
  induction k generalizing m left with
  | zero =>
    obtain rfl := Nat.le_zero.1 hk
    exact (Specifies.pure left (n := 0)).zero
  | succ k ih =>
    have hs : ∀ op, Specifies (m - 1)
        (operand >>= fun right => Grammar.operations l operand k (l.node left op right)) _ :=
      fun op => (h.mono (by omega)).andThen fun right =>
        ih (m - 1) (l.node left op right) (by omega) (by omega)
    refine (choice (by omega) (fun op _ => hs op) (Specifies.pure left)).congr
      fun e u i j a => ⟨?_, fun h => ?_⟩
    · rintro (⟨op, _, rfl, ho, right, u, v, k, rfl, hr, he⟩ | ⟨ho, rfl, rfl, rfl⟩)
      · exact .operator ho hr he
      · exact .noOperator ho
    · cases h with
      | noOperator ho => exact .inr ⟨ho, rfl, rfl, rfl⟩
      | operator ho hr he => exact .inl ⟨_, _, rfl, ho, _, _, _, _, rfl, hr, he⟩

lemma joined (h : Specifies n operand (ReadsExpr .unary)) (ls : List Level) :
    Specifies n (joined operand n ls) (ReadsExpr (.joined ls)) := by
  induction ls with
  | nil =>
    refine h.congr fun e u i j a => ⟨.tightest, fun h => ?_⟩
    cases h with
    | tightest h => exact h
  | cons l tighter ih =>
    have hs := ih.andThen fun first =>
      ih.operations (l := l) n n first (Nat.le_refl n) (Nat.le_refl n)
    refine hs.congr fun e u i j a => ⟨?_, fun h => ?_⟩
    · rintro ⟨first, u, v, k, rfl, hf, he⟩
      exact .level hf he
    · cases h with
      | level hf he => exact ⟨_, _, _, _, rfl, hf, he⟩

lemma argumentList (h : Specifies n expression (ReadsExpr .expression)) (k m p : ℕ) (hn : m ≤ n)
    (hk : m ≤ k) : Specifies m (argumentList expression k p) (ReadsArgs p) := by
  induction k generalizing m p with
  | zero =>
    obtain rfl := Nat.le_zero.1 hk
    exact (Specifies.pure [] (n := 0)).zero
  | succ k ih =>
    rw [Grammar.argumentList]
    refine Specifies.congr (limited ((h.mono hn).andThen fun e => accept rfl (by omega)
      (fun _ => (ih (m - 1) (p + 1) (by omega) (by omega)).thenPure (e :: ·))
      (Specifies.pure [e])) _ _) fun es u i j a => ⟨?_, fun h => ?_⟩
    · rintro ⟨hp, e, u, _, k, rfl, he, ⟨t, v, rfl, ht, es, rfl, hes⟩ | ⟨ht, rfl, rfl, rfl⟩⟩
      · exact .more hp he ht hes
      · rw [List.append_nil]
        exact .last hp he ht
    · cases h with
      | last hp he ht =>
        exact ⟨hp, _, _, [], _, (List.append_nil _).symm, he, .inr ⟨ht, rfl, rfl, rfl⟩⟩
      | more hp he ht hes => exact ⟨hp, _, _, _, _, rfl, he, .inl ⟨_, _, rfl, ht, _, rfl, hes⟩⟩

lemma callEnd {k : ℕ} (h : Specifies n expression (ReadsExpr .expression)) (hk : n ≤ k) :
    Specifies n (callEnd expression k) fun x u i j _ => ∃ v, u = v ++ [x.2] ∧
      x.2.type = .punct .rightParen ∧
      (x.1 = [] ∧ v = [] ∧ j = i ∨ ReadsArgs 0 x.1 v i j (some x.2.type)) := by
  refine ((whenFacing rfl
    (endExpect (g := fun args paren => (args, paren)) (Specifies.pure []) rfl)
    (endExpect (h.argumentList k n 0 (Nat.le_refl n) hk) rfl)).congr fun x u i j a => ⟨?_, ?_⟩)
  · rintro (⟨_, _, _, t, rfl, ⟨rfl, rfl, rfl⟩, ht, rfl⟩ | ⟨_, es, v, t, rfl, hes, ht, rfl⟩)
    · exact ⟨[], rfl, ht, .inl ⟨rfl, rfl, rfl⟩⟩
    · exact ⟨v, rfl, ht, .inr hes⟩
  · obtain ⟨es, t⟩ := x
    rintro ⟨v, rfl, ht, ⟨rfl, rfl, rfl⟩ | hes⟩
    · exact .inl ⟨congrArg some ht, [], [], t, rfl, ⟨rfl, rfl, rfl⟩, ht, rfl⟩
    · obtain ⟨s, w, rfl, hs⟩ := hes.first
      exact .inr ⟨ahead_ne hs rfl, es, _, t, rfl, hes, ht, rfl⟩

lemma calls (h : Specifies n expression (ReadsExpr .expression)) (k m : ℕ) (callee : Expr)
    (hn : m ≤ n + 1) (hk : m ≤ k) :
    Specifies m (calls expression k callee) (ReadsExpr (.calls callee)) := by
  induction k generalizing m callee with
  | zero =>
    obtain rfl := Nat.le_zero.1 hk
    exact (Specifies.pure callee (n := 0)).zero
  | succ k ih =>
    have hs : Specifies (m - 1) (Grammar.callEnd expression (k + 1) >>= fun x =>
        Grammar.calls expression k (.call callee x.2 x.1)) _ :=
      ((h.mono (by omega)).callEnd (by omega)).andThen fun x =>
        ih (m - 1) (.call callee x.2 x.1) (by omega) (by omega)
    refine (accept rfl (by omega) (fun _ => hs) (Specifies.pure callee)).congr
      fun e u i j a => ⟨?_, fun h => ?_⟩
    · rintro (⟨o, _, rfl, ho, ⟨es, c⟩, _, w, k, rfl, ⟨v, rfl, hc, hes⟩, he⟩ | ⟨ho, rfl, rfl, rfl⟩)
      · rcases hes with ⟨rfl, rfl, rfl⟩ | hes
        · exact .callWithout ho hc he
        · rw [List.append_assoc]
          exact .callWith ho (readsExpr_arguments.2 ⟨es, v, c, w, k, rfl, hes, hc, he⟩)
      · exact .noCall ho
    · cases h with
      | noCall hc => exact .inr ⟨hc, rfl, rfl, rfl⟩
      | @callWithout _ o c e v _ _ _ ho hc he =>
        exact .inl ⟨o, c :: v, rfl, ho, ([], c), [c], v, i, rfl,
          ⟨[], rfl, hc, .inl ⟨rfl, rfl, rfl⟩⟩, he⟩
      | @callWith _ o _ u _ _ _ ho he =>
        obtain ⟨es, v, c, w, k, rfl, hes, hc, he⟩ := readsExpr_arguments.1 he
        exact .inl ⟨o, _, rfl, ho, (es, c), v ++ [c], w, k, List.append_cons v c w,
          ⟨v, rfl, hc, .inr hes⟩, he⟩

lemma afterPrimary (h : Specifies n expression (ReadsExpr .expression)) (t : Token) :
    Specifies n (match literal? t.type with
      | some value => Pure.pure (Expr.literal value)
      | none =>
        if t.type.sameKind .identifier then do
          let site ← Grammar.freshSite
          Pure.pure (Expr.ref site t)
        else do
          let inner ← expression
          let _ ← Grammar.expect (.punct .rightParen) .groupingEnd
          Pure.pure (Expr.grouping inner)) (ReadsAfter t) := by
  cases hl : literal? t.type with
  | some value =>
    refine (Specifies.pure (Expr.literal value)).congr fun e u i j a => ⟨?_, fun h => ?_⟩
    · rintro ⟨rfl, rfl, rfl⟩
      exact .literal hl
    · cases h with
      | literal hv =>
        rw [hl] at hv
        cases hv
        exact ⟨rfl, rfl, rfl⟩
      | name ht => rw [ht] at hl; cases hl
      | grouping hn => rw [hl] at hn; cases hn
  | none =>
    have hk : t.type.sameKind .identifier = true ↔ t.type = .identifier :=
      TokenType.sameKind_iff rfl
    by_cases ht : t.type = .identifier
    · rw [if_pos (hk.2 ht)]
      refine (freshSite.thenPure fun site => Expr.ref site t).congr
        fun e u i j a => ⟨?_, fun h => ?_⟩
      · rintro ⟨_, rfl, rfl, rfl, rfl⟩
        exact .name ht
      · cases h with
        | literal hv => rw [hl] at hv; cases hv
        | name => exact ⟨i, rfl, rfl, rfl, rfl⟩
        | grouping _ hi => exact absurd ht hi
    · rw [if_neg fun h => ht (hk.1 h)]
      refine (endExpect (g := fun inner _ => Expr.grouping inner) h rfl).congr
        fun e u i j a => ⟨?_, fun h => ?_⟩
      · rintro ⟨inner, v, c, rfl, he, hc, rfl⟩
        exact .grouping hl ht he hc
      · cases h with
        | literal hv => rw [hl] at hv; cases hv
        | name hi => exact absurd hi ht
        | grouping _ _ he hc => exact ⟨_, _, _, rfl, he, hc, rfl⟩

lemma primary (h : Specifies n expression (ReadsExpr .expression)) :
    Specifies (n + 1) (primary expression) (ReadsExpr .primary) := by
  refine (choice (Nat.le_refl _) (fun t _ => h.afterPrimary t) (Specifies.fail _)).congr
    fun e u i j a => ⟨?_, fun h => .inl ?_⟩
  · rintro (⟨t, v, rfl, ht, hv⟩ | ⟨_, h⟩)
    · cases hv with
      | literal hl => exact .literal hl
      | name hi => exact .name hi
      | grouping hl hi he hc => exact .grouping (leftParen_of_startsPrimary ht hl hi) he hc
    · exact h.elim
  · cases h with
    | literal hl => exact ⟨_, _, rfl, startsPrimary_of_literal hl, .literal hl⟩
    | name ht => exact ⟨_, _, rfl, by rw [ht]; rfl, .name ht⟩
    | grouping ho he hc =>
      exact ⟨_, _, rfl, by rw [ho]; rfl, .grouping (by rw [ho]; rfl) (by rw [ho]; simp) he hc⟩

lemma unary (h : Specifies n expression (ReadsExpr .expression)) (bound k m : ℕ)
    (hn : m ≤ n + 1) (hb : m ≤ bound) (hk : m ≤ k) :
    Specifies m (unary expression bound k) (ReadsExpr .unary) := by
  induction k generalizing m with
  | zero =>
    obtain rfl := Nat.le_zero.1 hk
    exact (Specifies.fail (n := 0) _).zero
  | succ k ih =>
    have hs : ∀ op : Token, Specifies (m - 1) (Grammar.unary expression bound k >>= fun right =>
        Pure.pure (Expr.unary op right)) _ := fun op =>
      (ih (m - 1) (by omega) (by omega) (by omega)).thenPure _
    have hcall := (h.primary.mono hn).andThen fun first => h.calls bound m first hn hb
    refine (choice (by omega) (fun op _ => hs op) hcall).congr
      fun e u i j a => ⟨?_, fun h => ?_⟩
    · rintro (⟨op, v, rfl, ho, right, rfl, hr⟩ | ⟨_, first, u, v, k, rfl, hf, he⟩)
      · exact .sign ho hr
      · exact .call hf he
    · cases h with
      | sign ho hr => exact .inl ⟨_, _, rfl, ho, _, rfl, hr⟩
      | call hf he =>
        refine .inr ⟨?_, _, _, _, _, rfl, hf, he⟩
        obtain ⟨t, w, rfl, ht⟩ := hf.startsPrimary
        exact not_isUnary_of_startsPrimary ht

lemma assigned (target : Expr) (equals : Token) (value : Expr) :
    Specifies n (match target with
      | .ref _ name => do
        let site ← Grammar.freshSite
        Pure.pure (Expr.assign site name value)
      | _ => do
        Grammar.report ⟨.invalidAssignmentTarget, some equals⟩
        Pure.pure target) fun e u i j _ =>
      ∃ site name, target = .ref site name ∧ e = .assign i name value ∧ u = [] ∧ j = i + 1 := by
  cases target with
  | ref site name =>
    refine (freshSite.thenPure fun s => Expr.assign s name value).congr
      fun e u i j a => ⟨?_, ?_⟩
    · rintro ⟨_, rfl, rfl, rfl, rfl⟩
      exact ⟨site, name, rfl, rfl, rfl, rfl⟩
    · rintro ⟨_, _, h, rfl, rfl, rfl⟩
      cases h
      exact ⟨i, rfl, rfl, rfl, rfl⟩
  | _ =>
    refine ((report _).andThen fun _ => Specifies.pure _).congr fun e u i j a => ⟨?_, ?_⟩
    · rintro ⟨_, _, _, _, _, h, _⟩
      exact h.elim
    · rintro ⟨_, _, h, _⟩
      cases h

lemma assignment (h : Specifies n operand (ReadsExpr (.joined levels))) (k m : ℕ) (hn : m ≤ n)
    (hk : m ≤ k) : Specifies m (assignment operand k) (ReadsExpr .expression) := by
  induction k generalizing m with
  | zero =>
    obtain rfl := Nat.le_zero.1 hk
    exact (Specifies.fail (n := 0) _).zero
  | succ k ih =>
    rw [Grammar.assignment]
    refine Specifies.congr ((h.mono hn).andThen fun target => accept rfl (by omega)
      (fun equals => (ih (m - 1) (by omega) (by omega)).andThen (assigned target equals))
      (Specifies.pure target)) fun e u i j a => ⟨?_, fun h => ?_⟩
    · rintro ⟨target, u, _, k, rfl, ht, ⟨eq, _, rfl, heq, value, v, _, _, rfl, hv, site, name, rfl,
        rfl, rfl, rfl⟩ | ⟨heq, rfl, rfl, rfl⟩⟩
      · rw [List.append_nil]
        exact .assign ht heq hv
      · rw [List.append_nil]
        exact .operand ht heq
    · cases h with
      | operand he ha => exact ⟨e, u, [], j, (List.append_nil u).symm, he, .inr ⟨ha, rfl, rfl, rfl⟩⟩
      | @assign site name u _ k eq value v j _ ht heq hv =>
        exact ⟨_, u, _, k, rfl, ht, .inl ⟨eq, v, rfl, heq, value, v, [], j,
          (List.append_nil v).symm,
          hv, site, name, rfl, rfl, rfl, rfl⟩⟩

theorem expression_exact (n : ℕ) : Specifies n (Grammar.expression n) (ReadsExpr .expression) := by
  induction n with
  | zero => exact (Specifies.fail (n := 0) _).zero
  | succ n ih =>
    have hu := ih.unary (n + 1) (n + 1) (n + 1) (Nat.le_refl _) (Nat.le_refl _) (Nat.le_refl _)
    exact (hu.joined levels).assignment (n + 1) (n + 1) (Nat.le_refl _) (Nat.le_refl _)

end Specifies

end Lox.Grammar
