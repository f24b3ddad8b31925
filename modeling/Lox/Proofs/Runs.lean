import Lox.Eval.Machine
import Lox.Proofs.Sink

/-! Runs in pieces. What remains at the bottom waits until all above it is done, and what was
written stays written. -/

namespace Lox

namespace Machine

variable {t : Setting} {m : Machine}

lemma run_of_isOver (h : m.isOver = true) (n : ℕ) : m.run t n = m := by
  cases n with
  | zero => rfl
  | succ n => rw [run, if_pos h]

lemma run_succ (h : m.isOver = false) (n : ℕ) : m.run t (n + 1) = (m.step t).run t n := by
  rw [run, h]
  rfl

theorem run_add (m : Machine) (a b : ℕ) : m.run t (a + b) = (m.run t a).run t b := by
  induction a generalizing m with
  | zero => rw [Nat.zero_add, run]
  | succ a ih =>
    rw [Nat.succ_add]
    cases h : m.isOver with
    | true => rw [run_of_isOver h, run_of_isOver h, run_of_isOver h]
    | false => rw [run_succ h, run_succ h, ih]

lemma run_of_le {a b : ℕ} (hab : a ≤ b) (h : (m.run t a).isOver = true) :
    m.run t b = m.run t a := by
  obtain ⟨c, rfl⟩ := Nat.exists_eq_add_of_le hab
  rw [run_add, run_of_isOver h]

def above (below : List Pending) (m : Machine) : Machine :=
  { m with pending := m.pending ++ below }

section

variable (t) (below ps : List Pending) (w : World)

lemma apply_above (v : Value) (paren : Token) (args : List Value) :
    apply t v paren args (ps ++ below) w = (apply t v paren args ps w).above below := by
  cases v with
  | function i f closure =>
    simp only [apply]
    cases w.refusal? t f.params.length args <;> rfl
  | native i =>
    simp only [apply]
    cases t.natives[i]? with
    | none => rfl
    | some native =>
      simp only
      cases w.refusal? t native.arity args <;> rfl
  | _ => rfl

lemma nextArgument_above (v : Value) (paren : Token) (vs : List Value) (es : List Expr) :
    nextArgument t v paren vs es (ps ++ below) w =
      (nextArgument t v paren vs es ps w).above below := by
  cases es with
  | nil => exact apply_above t below ps w v paren vs.reverse
  | cons e es => rfl

lemma stepExpr_above (e : Expr) :
    stepExpr t e (ps ++ below) w = (stepExpr t e ps w).above below := by
  cases e with
  | ref site name =>
    simp only [stepExpr]
    cases w.lookUp? t site name.lexeme <;> rfl
  | _ => rfl

lemma stepStmt_above (s : Stmt) : stepStmt s (ps ++ below) w = (stepStmt s ps w).above below := by
  cases s with
  | var name e => cases e <;> rfl
  | ret keyword e => cases e <;> rfl
  | _ => rfl

lemma print_above (line? : Option ℕ) (v : Value) :
    print line? v (ps ++ below) w = (print line? v ps w).above below := by
  unfold print
  rcases w.print v with ⟨accepted, u⟩
  cases accepted <;> rfl

lemma stepValue_above (v : Value) (p : Pending) :
    stepValue t v p (ps ++ below) w = (stepValue t v p ps w).above below := by
  cases p with
  | logicalLeft op e =>
    simp only [stepValue]
    split <;> rfl
  | assign site name =>
    simp only [stepValue]
    cases w.target? t site name.lexeme <;> rfl
  | callee paren es => exact nextArgument_above t below ps w v paren [] es
  | argument f paren vs es => exact nextArgument_above t below ps w f paren (v :: vs) es
  | print line? => exact print_above below ps w line? v
  | branch s other =>
    simp only [stepValue]
    cases other <;> split <;> rfl
  | loopTest c s =>
    simp only [stepValue]
    split <;> rfl
  | sequence b => cases b <;> rfl
  | _ => rfl

lemma step_above (h : m.isOver = false) : (m.above below).step t = (m.step t).above below := by
  obtain ⟨c, ps, w⟩ := m
  cases c with
  | eval e => exact stepExpr_above t below ps w e
  | exec s => exact stepStmt_above below ps w s
  | yield v =>
    cases ps with
    | nil => cases h
    | cons p ps => exact stepValue_above t below ps w v p
  | returning v =>
    cases ps with
    | nil => cases h
    | cons p ps => cases p <;> rfl
  | failing e =>
    cases ps with
    | nil => cases h
    | cons p ps => cases p <;> rfl

end

lemma isOver_above_cons (p : Pending) (ps : List Pending) : (m.above (p :: ps)).isOver = false := by
  obtain ⟨c, qs, w⟩ := m
  cases qs <;> cases c <;> rfl

theorem run_sequence {body : List Stmt} {n : ℕ} {v : Value} {w : World}
    (h : (m.above [.sequence body]).run t n = ⟨.yield v, [], w⟩) (rest : List Stmt) :
    ∃ k ≤ n, ∃ u,
      (m.above [.sequence (body ++ rest)]).run t k = ⟨.yield u, [.sequence rest], w⟩ := by
  induction n generalizing m body with
  | zero =>
    obtain ⟨c, ps, w'⟩ := m
    have hpending := congrArg Machine.pending h
    cases List.append_ne_nil_of_right_ne_nil ps (List.cons_ne_nil _ []) hpending
  | succ n ih =>
    rw [run_succ (isOver_above_cons _ _)] at h
    cases hover : m.isOver with
    | false =>
      rw [step_above t _ hover] at h
      obtain ⟨k, hk, u, hrun⟩ := ih h
      refine ⟨k + 1, Nat.succ_le_succ hk, u, ?_⟩
      rw [run_succ (isOver_above_cons _ _), step_above t _ hover, hrun]
    | true =>
      obtain ⟨c, ps, w'⟩ := m
      -- The statements below are next, unless an error or a `return` passes by them.
      cases ps with
      | cons => cases c <;> cases hover
      | nil =>
        cases c with
        | eval | exec => cases hover
        | returning | failing =>
          have hcontrol := (run_of_isOver rfl n).symm.trans h
          cases hcontrol
        | yield u =>
          cases body with
          | nil =>
            have hend := (run_of_isOver rfl n).symm.trans h
            cases hend
            exact ⟨0, Nat.zero_le _, u, rfl⟩
          | cons s body =>
            have hnext : (above [.sequence body] ⟨.exec s, [], w'⟩).run t n =
                ⟨.yield v, [], w⟩ := h
            obtain ⟨k, hk, u', hrun⟩ := ih hnext
            exact ⟨k + 1, Nat.succ_le_succ hk, u', hrun⟩

section

variable (t) (ps : List Pending) (w : World)

lemma out_apply (v : Value) (paren : Token) (args : List Value) :
    (apply t v paren args ps w).world.out = w.out := by
  cases v with
  | function i f closure =>
    simp only [apply]
    cases w.refusal? t f.params.length args <;> rfl
  | native i =>
    simp only [apply]
    cases t.natives[i]? with
    | none => rfl
    | some native =>
      simp only
      cases w.refusal? t native.arity args <;> rfl
  | _ => rfl

lemma out_nextArgument (v : Value) (paren : Token) (vs : List Value) (es : List Expr) :
    (nextArgument t v paren vs es ps w).world.out = w.out := by
  cases es with
  | nil => exact out_apply t ps w v paren vs.reverse
  | cons e es => rfl

lemma out_stepExpr (e : Expr) : (stepExpr t e ps w).world.out = w.out := by
  cases e with
  | ref site name =>
    simp only [stepExpr]
    cases w.lookUp? t site name.lexeme <;> rfl
  | _ => rfl

lemma out_stepStmt (s : Stmt) : (stepStmt s ps w).world.out = w.out := by
  cases s with
  | var name e => cases e <;> rfl
  | ret keyword e => cases e <;> rfl
  | _ => rfl

lemma out_print (line? : Option ℕ) (v : Value) :
    (print line? v ps w).world.out = (w.out.writeLine v.pieces).2 := by
  have hw : (w.print v).2.out = (w.out.writeLine v.pieces).2 := rfl
  rw [← hw]
  unfold print
  rcases w.print v with ⟨accepted, u⟩
  cases accepted <;> rfl

lemma print_accepted (line? : Option ℕ) (v : Value)
    (h : (w.out.writeLine v.pieces).1 = true) :
    print line? v ps w = ⟨.yield .nil, ps, { w with out := (w.out.writeLine v.pieces).2 }⟩ := by
  have hw : w.print v = (true, { w with out := (w.out.writeLine v.pieces).2 }) := by
    rw [← h]
    rfl
  rw [print, hw]

lemma out_stepValue (v : Value) (p : Pending) :
    (stepValue t v p ps w).world.out = w.out ∨
      ∃ pieces, (stepValue t v p ps w).world.out = (w.out.writeLine pieces).2 := by
  cases p with
  | print line? => exact .inr ⟨_, out_print ps w line? v⟩
  | callee paren es => exact .inl (out_nextArgument t ps w v paren [] es)
  | argument f paren vs es => exact .inl (out_nextArgument t ps w f paren (v :: vs) es)
  | logicalLeft op e =>
    left
    simp only [stepValue]
    split <;> rfl
  | assign site name =>
    left
    simp only [stepValue]
    cases w.target? t site name.lexeme <;> rfl
  | branch s other =>
    left
    simp only [stepValue]
    cases other <;> split <;> rfl
  | loopTest c s =>
    left
    simp only [stepValue]
    split <;> rfl
  | sequence b => cases b <;> exact .inl rfl
  | _ => exact .inl rfl

end

theorem out_step (t : Setting) (m : Machine) : (m.step t).world.out = m.world.out ∨
    ∃ pieces, (m.step t).world.out = (m.world.out.writeLine pieces).2 := by
  obtain ⟨c, ps, w⟩ := m
  cases c with
  | eval e => exact .inl (out_stepExpr t ps w e)
  | exec s => exact .inl (out_stepStmt ps w s)
  | yield v =>
    cases ps with
    | nil => exact .inl rfl
    | cons p ps => exact out_stepValue t ps w v p
  | returning v =>
    cases ps with
    | nil => exact .inl rfl
    | cons p ps => cases p <;> exact .inl rfl
  | failing e =>
    cases ps with
    | nil => exact .inl rfl
    | cons p ps => cases p <;> exact .inl rfl

lemma writes_step (t : Setting) (m : Machine) :
    m.world.out.writes <:+ (m.step t).world.out.writes := by
  rcases out_step t m with h | ⟨pieces, h⟩
  · exact h ▸ List.suffix_rfl
  · rw [h]
    exact Sink.writes_write _ _

theorem writes_run (t : Setting) (n : ℕ) (m : Machine) :
    m.world.out.writes <:+ (m.run t n).world.out.writes := by
  induction n generalizing m with
  | zero => exact List.suffix_rfl
  | succ n ih =>
    cases h : m.isOver with
    | true => simp only [run_of_isOver h, List.suffix_rfl]
    | false =>
      rw [run_succ h]
      exact (writes_step t m).trans (ih _)

lemma step_failing (t : Setting) (e : RuntimeError) (p : Pending) (ps : List Pending) (w : World) :
    ∃ env depth line, step t ⟨.failing e, p :: ps, w⟩ =
      ⟨.failing e, ps, { w with env := env, callDepth := depth, callLine := line }⟩ := by
  cases p <;> exact ⟨_, _, _, rfl⟩

theorem run_failing (t : Setting) (e : RuntimeError) (n : ℕ) (ps : List Pending) (w : World) :
    ∃ env depth line, run t n ⟨.failing e, ps, w⟩ = ⟨.failing e, ps.drop n,
      { w with env := env, callDepth := depth, callLine := line }⟩ := by
  induction n generalizing ps w with
  | zero => exact ⟨_, _, _, rfl⟩
  | succ n ih =>
    cases ps with
    | nil => exact ⟨_, _, _, rfl⟩
    | cons p ps =>
      obtain ⟨env, depth, line, hstep⟩ := step_failing t e p ps w
      rw [run_succ rfl, hstep]
      exact ih ps _

end Machine

end Lox
