import Lox.Proofs.Semicolon.Runs
import Lox.Proofs.Semicolon.Skipped

/-! Statements without the semicolon at their end. Before most tokens that is an error there; before
an expression statement it may be that the two are read as one. -/

namespace Lox.Grammar

open Ebnf

variable {α β : Type} {n : ℕ} {u k D : List Token} {t : Token}

lemma closes_none : Closes none := ⟨⟨fun _ _ => rfl, nofun⟩, nofun⟩

lemma Announces.closes {type : TokenType} (h : Announces type) : Closes (some type) := by
  obtain ⟨w, rfl, ha, ho, -⟩ := h.keyword
  exact ⟨⟨by simp [levels, Level.allows, ha.symm, ho.symm], nofun⟩, nofun⟩

lemma closes_starts {type : TokenType} (h : startsExpression type = true)
    (hp : type ≠ .punct .leftParen) (hm : type ≠ .punct .minus) : Closes (some type) := by
  refine ⟨⟨?_, by simpa using hp⟩, ?_⟩
  · cases type with
    | punct p => cases p <;> simp_all [startsExpression, isUnary, startsPrimary, literal?, levels,
        Level.allows]
    | keyword k => cases k <;> simp_all [startsExpression, isUnary, startsPrimary, literal?, levels,
        Level.allows]
    | _ => simp [levels, Level.allows]
  · rintro ⟨⟩
    cases h

lemma Sequel.closes (h : Sequel k D) : Closes (ahead (D ++ k) none) ∨
    ∃ w s, D = w ++ [s] ∧ Derives (.rule .expression) w ∧ BeginsJoining w ∧
      s.type = .punct .semicolon := by
  cases h with
  | finish hk =>
    rw [hk]
    exact .inl closes_none
  | keyword ht _ => exact .inl ht.closes
  | @expression w s hw hs =>
    obtain ⟨t, v, rfl, ht⟩ := first_of_expression hw
    -- Only these two stand both at the beginning of an expression and behind an operand.
    by_cases hj : t.type = .punct .leftParen ∨ t.type = .punct .minus
    · exact .inr ⟨_, s, rfl, hw, ⟨t, v, rfl, hj⟩, hs⟩
    · rw [not_or] at hj
      exact .inl (closes_starts ht hj.1 hj.2)

/-- The rule fails where the missing semicolon should be, or it reads the next statement as well. -/
def Unended (n : ℕ) (rule : Parse α) (u : List Token) : Prop :=
  ∀ D k, Sequel k D → ahead k none ≠ some (.keyword .kwElse) → (u ++ (D ++ k)).length < n →
    Fails rule u (D ++ k) ∨ ahead D none ≠ some (.keyword .kwElse) ∧ Reads rule (u ++ D) k

lemma unended_expression {x : Parse α} {what : Expected} {g : α → Token → β}
    (hx : ∀ {u k}, Derives (.rule .expression) u → (u ++ k).length < n → Closes (ahead k none) →
      Reads x u k) (hu : Derives (.rule .expression) u) :
    Unended n (x >>= fun a => expect (.punct .semicolon) what >>= fun t => pure (g a t)) u := by
  intro D k hD _ hl
  obtain hc | ⟨w, s, rfl, hw, hj, hs⟩ := hD.closes
  · left
    have hfails : Fails (x >>= fun a => expect (.punct .semicolon) what >>= fun t =>
        pure (g a t)) (u ++ []) (D ++ k) :=
      Meets.after (v := []) (hx hu hl hc) fun a => (Meets.expectFails rfl (hD.ahead_ne rfl)).failed
    rwa [List.append_nil] at hfails
  · right
    have hclose : Closes (ahead (s :: k) none) := by
      rw [ahead_cons, hs]
      exact closes_punct (.inl rfl)
    have hjoined : Reads x (u ++ w) ([s] ++ k) :=
      hx (continues_expression hw hj u hu) (by simpa using hl) hclose
    obtain ⟨t, v, rfl, ht⟩ := first_of_expression hw
    refine ⟨Grammar.ahead_ne ht rfl, ?_⟩
    rw [← List.append_assoc]
    exact hjoined.after fun a => Meets.expect rfl hs (Meets.pure (g a s))

def Wraps (n : ℕ) (q : Ahead → Prop) (p : List Token) (x : Parse α) (y : Parse β) : Prop :=
  ∀ out u k, (p ++ (u ++ k)).length < n → (out.isSome → q (ahead k none)) → Meets out x u k →
    Meets out y (p ++ u) k

section

variable {x : Parse α} {y : Parse β}

lemma Unended.wrap {m : ℕ} {q : Ahead → Prop} {p : List Token} (h : Unended m x u)
    (hw : Wraps n q p x y) (hm : n ≤ m + p.length) (hq : ∀ a, a ≠ some (.keyword .kwElse) → q a) :
    Unended n y (p ++ u) := by
  intro D k hD hk hl
  have hl' : (u ++ (D ++ k)).length < m := by
    simp only [List.length_append] at hl ⊢
    omega
  refine (h D k hD hk hl').imp (fun hf => ?_) (And.imp_right fun hr => ?_)
  · exact hw none u (D ++ k) (by rwa [← List.append_assoc]) nofun hf
  · rw [List.append_assoc]
    exact hw _ (u ++ D) k (by simpa using hl) (fun _ => hq _ hk) hr

lemma Unended.fails {w : List Token} (h : Unended n x u) (ht : t.type = .keyword .kwElse)
    (hs : Skipped k (t :: w)) (hk : ahead k none ≠ some (.keyword .kwElse))
    (hl : (u ++ (t :: w ++ k)).length < n) : Fails x u (t :: w ++ k) := by
  obtain ⟨D, r, b, i, j, he, hD, hb⟩ := hs
  have helse : ahead (r ++ k) none ≠ some (.keyword .kwElse) := by
    rw [ahead_append]
    exact hb.ahead_ne_else hk
  rw [he, List.append_assoc] at hl ⊢
  refine (h D (r ++ k) hD helse hl).resolve_right fun hr => ?_
  cases D with
  | nil =>
    rw [List.nil_append] at he
    rw [← he, List.cons_append, ahead_cons, ht] at helse
    exact helse rfl
  | cons y D =>
    obtain rfl := (List.cons.inj he).1
    exact hr.1 (congrArg some ht)

lemma Unended.same (h : Unended n x u)
    (hxy : ∀ out v k, Meets out x (u ++ v) k → Meets out y (u ++ v) k) : Unended n y u := by
  intro D k hD hk hl
  refine (h D k hD hk hl).imp (fun hf => ?_) (And.imp_right (hxy _ D k))
  have hsame := hxy none [] (D ++ k)
  rw [List.append_nil] at hsame
  exact hsame hf

end

lemma fails_expression (n : ℕ) (h : (ahead k none).any startsExpression = false) :
    Fails (expression n) [] k := by
  have hunary : (ahead k none).any isUnary = false := by
    cases hk : ahead k none with
    | none => rfl
    | some t =>
      rw [hk] at h
      exact (Bool.or_eq_false_iff.1 h).1
  have hprimary : (ahead k none).any startsPrimary = false := by
    cases hk : ahead k none with
    | none => rfl
    | some t =>
      rw [hk] at h
      exact (Bool.or_eq_false_iff.1 h).2
  cases n with
  | zero => exact fun _ _ => .fails
  | succ n =>
    have hfirst : Fails (primary (expression n)) [] k := Meets.takeNone hprimary fun _ _ => .fails
    have hoperand : Fails (unary (expression n) (n + 1) (n + 1)) [] k :=
      Meets.takeNone hunary hfirst.failed
    have hjoined : ∀ ls, Fails (joined (unary (expression n) (n + 1) (n + 1)) (n + 1) ls) [] k := by
      intro ls
      induction ls with
      | nil => exact hoperand
      | cons l tighter ih => exact ih.failed
    exact (hjoined levels).failed

lemma unended_print (hu : Derives (.rule .expression) u) :
    Unended n (printStmt (expression n)) u :=
  unended_expression Meets.expression hu

lemma unended_exprStmt (hu : Derives (.rule .expression) u) :
    Unended n (expressionStmt (expression n)) u :=
  unended_expression Meets.expression hu

lemma reads_optional_some (hu : Derives (.rule .expression) u) (hl : (u ++ k).length < n)
    (hk : Closes (ahead k none)) : Reads (optional (expression n) .semicolon) u k := by
  refine Meets.notFacing rfl ?_ ((Meets.expression hu hl hk).map some)
  obtain ⟨t, v, rfl, ht⟩ := first_of_expression hu
  exact ahead_ne ht rfl

lemma unended_return (t : Token) (hu : Derives (.opt (.rule .expression)) u) :
    Unended n (returnStmt (expression n) t) u := by
  obtain rfl | hu := derives_opt.1 hu
  · intro D k hD hk hl
    have hnone : (ahead (D ++ k) none).any startsExpression = false →
        Fails (returnStmt (expression n) t) [] (D ++ k) := fun h => by
      have hvalue : Fails (optional (expression n) .semicolon) [] (D ++ k) :=
        Meets.notFacing rfl (hD.ahead_ne rfl) ((fails_expression n h).map some)
      exact hvalue.failed
    cases hD with
    | finish hk =>
      left
      exact hnone (by rw [hk]; rfl)
    | keyword ht =>
      left
      obtain ⟨w, ht, -, -, hw⟩ := ht.keyword
      exact hnone (by rw [List.cons_append, ahead_cons, ht]; exact hw)
    | @expression w s hw hs =>
      right
      have hclose : Closes (ahead (s :: k) none) := by
        rw [ahead_cons, hs]
        exact closes_punct (.inl rfl)
      have hvalue : Reads (optional (expression n) .semicolon) w ([s] ++ k) :=
        reads_optional_some hw (by simpa using hl) hclose
      obtain ⟨t', v, rfl, ht⟩ := first_of_expression hw
      exact ⟨Grammar.ahead_ne ht rfl, hvalue.after fun e => Meets.expect rfl hs (Meets.pure _)⟩
  · exact unended_expression reads_optional_some hu

lemma unended_var {name : Token} (hn : name.type = .identifier) :
    Unended n (varDeclaration (expression n)) [name] := by
  intro D k hD _ _
  left
  refine Meets.expect rfl hn (Meets.acceptNone rfl (hD.ahead_ne rfl) ?_)
  exact Meets.after (u := []) (v := []) (Meets.pure none) fun _ =>
    (Meets.expectFails rfl (hD.ahead_ne rfl)).failed

lemma unended_initializer {name eq : Token} (hn : name.type = .identifier)
    (heq : eq.type = .punct .equal) (hu : Derives (.rule .expression) u) :
    Unended n (varDeclaration (expression n)) (name :: eq :: u) := by
  have hvalue : Unended n (some <$> expression n >>= fun e =>
      expect (.punct .semicolon) .variableEnd >>= fun _ => pure (Stmt.var name e)) u :=
    unended_expression (fun hu hl hk => (Meets.expression hu hl hk).map some) hu
  have hwrap : Wraps n (fun _ => True) [name, eq] (some <$> expression n >>= fun e =>
      expect (.punct .semicolon) .variableEnd >>= fun _ => pure (Stmt.var name e))
      (varDeclaration (expression n)) :=
    fun out u k _ _ h => Meets.expect rfl hn (Meets.accept rfl heq h)
  exact hvalue.wrap hwrap (Nat.le_add_right n 2) fun _ _ => trivial

lemma meets_if {out : Option ℕ} (ht : t.type = .keyword .kwIf)
    (h : Meets out (ifStmt (expression (n + 1)) (statement n)) u k) :
    Meets out (statement (n + 1)) (t :: u) k := by
  exact Meets.take (by rw [ht]; rfl) (by simpa only [ht] using h)

section

variable {o c l : Token} {e w : List Token}

section

variable (ho : o.type = .punct .leftParen) (he : Derives (.rule .expression) e)
  (hc : c.type = .punct .rightParen)

include ho he hc

lemma meets_condition {out : Option ℕ} {what what' : Expected} {f : Expr → Parse β}
    (hl : (o :: (e ++ c :: (u ++ k))).length < n + 1) (hf : ∀ e, Meets out (f e) u k) :
    Meets out (expect (.punct .leftParen) what >>= fun _ => expression (n + 1) >>= fun e =>
      expect (.punct .rightParen) what' >>= fun _ => f e) (o :: (e ++ c :: u)) k := by
  have hclose : Closes (ahead (c :: u ++ k) none) := by
    rw [List.cons_append, ahead_cons, hc]
    exact closes_punct (.inr (.inl rfl))
  have hcond : Reads (expression (n + 1)) e (c :: u ++ k) :=
    Meets.expression he (by simp at hl ⊢; omega) hclose
  exact Meets.expect rfl ho (hcond.after fun e => Meets.expect rfl hc (hf e))

lemma wraps_while (ht : t.type = .keyword .kwWhile) : Wraps (n + 1) (fun _ => True)
    (t :: o :: (e ++ [c])) (statement n) (statement (n + 1)) := by
  intro out u k hl _ h
  have hrule : Meets out (whileStmt (expression (n + 1)) (statement n)) (o :: (e ++ c :: u)) k :=
    meets_condition ho he hc (by simp at hl ⊢; omega) fun e => h.thenPure (Stmt.loop e)
  have hstmt : Meets out (statement (n + 1)) (t :: o :: (e ++ c :: u)) k :=
    Meets.take (by rw [ht]; rfl) (by simpa only [ht] using hrule)
  simpa using hstmt

lemma wraps_ifThen (ht : t.type = .keyword .kwIf) : Wraps (n + 1) (· ≠ some (.keyword .kwElse))
    (t :: o :: (e ++ [c])) (statement n) (statement (n + 1)) := by
  intro out u k hl hk h
  have hrule : Meets out (ifStmt (expression (n + 1)) (statement n)) (o :: (e ++ c :: u)) k := by
    refine meets_condition ho he hc (by simp at hl ⊢; omega) fun e => ?_
    cases out with
    | none => exact h.failed
    | some d =>
      have hb : Meets (some d) (statement n) u ([] ++ k) := h
      rw [← List.append_nil u]
      exact hb.thenReads fun s => Meets.acceptNone rfl (hk rfl) (Meets.pure _)
  simpa using meets_if ht hrule

lemma wraps_else (ht : t.type = .keyword .kwIf) (hl : l.type = .keyword .kwElse)
    (hw : ∀ {k}, (w ++ l :: k).length < n → Reads (statement n) w (l :: k)) :
    Wraps (n + 1) (fun _ => True) (t :: o :: (e ++ c :: (w ++ [l]))) (statement n)
      (statement (n + 1)) := by
  intro out u k hlen _ h
  have hrule : Meets out (ifStmt (expression (n + 1)) (statement n))
      (o :: (e ++ c :: (w ++ l :: u))) k := by
    refine meets_condition ho he hc (by simp at hlen ⊢; omega) fun e => ?_
    have hthen : Reads (statement n) w (l :: u ++ k) := hw (by simp at hlen ⊢; omega)
    exact hthen.after fun s => Meets.accept rfl hl (h.thenPure (Stmt.ifElse e s))
  simpa using meets_if ht hrule

lemma meets_then {d : ℕ} (ht : t.type = .keyword .kwIf) (hl : l.type = .keyword .kwElse)
    (hlen : (t :: o :: (e ++ c :: (u ++ (l :: w ++ k)))).length < n + 1)
    (hu : Meets (some d) (statement n) u (l :: w ++ k)) (hw : Reads (statement n) w k) :
    Meets (some d) (statement (n + 1)) (t :: o :: (e ++ c :: (u ++ l :: w))) k := by
  refine meets_if ht (meets_condition ho he hc (by simp at hlen ⊢; omega) fun e => ?_)
  exact hu.thenReads fun s => Meets.accept rfl hl (hw.thenPure (Stmt.ifElse e s))

end

lemma wraps_for {s : Token} {i v : List Token} {init : Option Stmt}
    {condition increment : Option Expr} {a a' b b' d d' : SiteId} (ht : t.type = .keyword .kwFor)
    (ho : o.type = .punct .leftParen) (hi : ReadsInitializer init i a a' (ahead v (some s.type)))
    (hv : ReadsOptional .semicolon condition v b b' (some s.type)) (hs : s.type = .punct .semicolon)
    (hw : ReadsOptional .rightParen increment w d d' (some c.type))
    (hc : c.type = .punct .rightParen) :
    Wraps (n + 1) (fun _ => True) (t :: o :: (i ++ (v ++ s :: (w ++ [c])))) (statement n)
      (statement (n + 1)) := by
  intro out u k hl _ h
  have he := Specifies.expression_exact (n + 1)
  have hinit : Reads (forInitializer (expression (n + 1))) i (v ++ s :: (w ++ c :: u) ++ k) :=
    Meets.of_reads he.forInitializer (fun _ => Shifts.forInitializer (.expression _))
      (by simp at hl ⊢; omega) (by rw [List.append_assoc, ahead_append]; exact hi)
  have hcond : Reads (optional (expression (n + 1)) .semicolon) v (s :: (w ++ c :: u) ++ k) :=
    Meets.of_reads (he.optional rfl) (fun _ => Shifts.optional (.expression _) _)
      (by simp at hl ⊢; omega) hv
  have hincr : Reads (optional (expression (n + 1)) .rightParen) w (c :: u ++ k) :=
    Meets.of_reads (he.optional rfl) (fun _ => Shifts.optional (.expression _) _)
      (by simp at hl ⊢; omega) hw
  have hrule : Meets out (forStmt (expression (n + 1)) (statement n))
      (o :: (i ++ (v ++ s :: (w ++ c :: u)))) k :=
    Meets.expect rfl ho (hinit.after fun init => hcond.after fun condition => Meets.expect rfl hs
      (hincr.after fun increment => Meets.expect rfl hc
        (h.thenPure (forLoop init condition increment))))
  have hstmt : Meets out (statement (n + 1)) (t :: o :: (i ++ (v ++ s :: (w ++ c :: u)))) k :=
    Meets.take (by rw [ht]; rfl) (by simpa only [ht] using hrule)
  simpa using hstmt

end

end Lox.Grammar
