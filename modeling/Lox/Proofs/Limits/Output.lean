import Lox.Proofs.Control.Calls
import Lox.Proofs.Limits.CallDepth
import Lox.Proofs.Limits.Printing

/-! A sink that refuses a write ends the run there, with the error of that `print`. Up to there the
run is that with a sink that accepts everything. -/

namespace Lox

def Sink.unrefusing (s : Sink) : Sink := { s with refuses? := fun _ _ => none }

def World.unrefusing (w : World) : World := { w with out := w.out.unrefusing }

namespace Sink

lemma offer_unrefusing {piece : String} {s : Sink} (h : (s.offer piece).1 = true) :
    s.unrefusing.offer piece = (true, (s.offer piece).2.unrefusing) := by
  have hnone : s.refuses? s.writes piece = none := Option.isNone_iff_eq_none.1 h
  simp [offer, unrefusing, hnone]

lemma bytes_offer_unrefusing (piece : String) (s : Sink) :
    (s.offer piece).2.bytes <+: (s.unrefusing.offer piece).2.bytes := by
  have hcut : Write.bytes ⟨piece, s.refuses? s.writes piece⟩ <+: utf8 piece := by
    cases s.refuses? s.writes piece with
    | none => exact List.prefix_rfl
    | some n => exact List.take_prefix n (utf8 piece)
  rw [bytes_offer, bytes_offer]
  exact (List.prefix_append_right_inj s.bytes).2 hcut

lemma write_unrefusing (pieces : List String) (s : Sink) :
    (s.write pieces).2.bytes <+: (s.unrefusing.write pieces).2.bytes ∧
      ((s.write pieces).1 = true →
        s.unrefusing.write pieces = (true, (s.write pieces).2.unrefusing)) := by
  induction pieces generalizing s with
  | nil => exact ⟨List.prefix_rfl, fun _ => rfl⟩
  | cons piece rest ih =>
    cases hp : piece.isEmpty with
    | true =>
      rw [write, write, hp]
      exact ih s
    | false =>
      have hfree : s.unrefusing.write (piece :: rest) = write rest (s.unrefusing.offer piece).2 :=
        write_cons hp rest s.unrefusing
      rw [write_cons hp, hfree]
      cases hr : (s.offer piece).1 with
      | true =>
        rw [offer_unrefusing hr]
        exact ih _
      | false =>
        refine ⟨?_, fun h => by cases h⟩
        exact (bytes_offer_unrefusing piece s).trans (bytes_of_suffix (writes_write rest _))

end Sink

namespace Machine

def unrefusing (m : Machine) : Machine := { m with world := m.world.unrefusing }

/-- The next step prints a value, and the sink refuses a part of its line. -/
inductive Refusal : Machine → Prop
  | mk {v line? ps w} : (w.out.writeLine v.pieces).1 = false →
      Refusal ⟨.yield v, .print line? :: ps, w⟩

lemma reason_run (t : Setting) (n : ℕ) (m : Machine) :
    (m.run t n).world.out.reason = m.world.out.reason := by
  induction n generalizing m with
  | zero => rfl
  | succ n ih =>
    cases h : m.isOver with
    | true => rw [run_of_isOver h]
    | false =>
      rw [run_succ h, ih]
      rcases out_step t m with hout | ⟨pieces, hout⟩
      · rw [hout]
      · rw [hout]
        exact Sink.reason_write _ _

section

variable (t : Setting) (ps : List Pending) (w : World)

lemma apply_unrefusing (v : Value) (paren : Token) (args : List Value) :
    apply t v paren args ps w.unrefusing = (apply t v paren args ps w).unrefusing := by
  cases v with
  | function i f closure =>
    have hr : w.unrefusing.refusal? t f.params.length args =
        w.refusal? t f.params.length args := rfl
    simp only [apply, hr]
    cases w.refusal? t f.params.length args <;> rfl
  | native i =>
    simp only [apply]
    cases t.natives[i]? with
    | none => rfl
    | some native =>
      have hr : w.unrefusing.refusal? t native.arity args = w.refusal? t native.arity args := rfl
      simp only [hr]
      cases w.refusal? t native.arity args <;> rfl
  | _ => rfl

lemma nextArgument_unrefusing (v : Value) (paren : Token) (vs : List Value) (es : List Expr) :
    nextArgument t v paren vs es ps w.unrefusing =
      (nextArgument t v paren vs es ps w).unrefusing := by
  cases es with
  | nil => exact apply_unrefusing t ps w v paren vs.reverse
  | cons e es => rfl

lemma stepExpr_unrefusing (e : Expr) :
    stepExpr t e ps w.unrefusing = (stepExpr t e ps w).unrefusing := by
  cases e with
  | ref site name =>
    have hv : w.unrefusing.lookUp? t site name.lexeme = w.lookUp? t site name.lexeme := rfl
    simp only [stepExpr, hv]
    cases w.lookUp? t site name.lexeme <;> rfl
  | _ => rfl

lemma stepStmt_unrefusing (s : Stmt) :
    stepStmt s ps w.unrefusing = (stepStmt s ps w).unrefusing := by
  cases s with
  | var name e => cases e <;> rfl
  | ret keyword e => cases e <;> rfl
  | _ => rfl

end

section

variable (line? : Option ℕ) (v : Value) (ps : List Pending) (w : World)

lemma print_refused (h : (w.out.writeLine v.pieces).1 = false) : print line? v ps w =
    ⟨.failing ⟨.output w.out.reason, line?.getD w.callLine⟩, ps,
      { w with out := (w.out.writeLine v.pieces).2 }⟩ := by
  have hw : w.print v = (false, { w with out := (w.out.writeLine v.pieces).2 }) := by
    rw [← h]
    rfl
  have hreason : (w.out.writeLine v.pieces).2.reason = w.out.reason := Sink.reason_write _ _
  rw [print, hw]
  simp only [hreason]

lemma print_unrefusing (h : (w.out.writeLine v.pieces).1 = true) :
    print line? v ps w.unrefusing = (print line? v ps w).unrefusing := by
  have hfree : w.unrefusing.out.writeLine v.pieces = _ := (Sink.write_unrefusing _ w.out).2 h
  rw [print_accepted ps w line? v h, print_accepted ps w.unrefusing line? v (by rw [hfree]), hfree]
  rfl

end

section

variable (t : Setting) {m : Machine}

lemma stepValue_unrefusing (v : Value) (p : Pending) (ps : List Pending) (w : World)
    (h : ¬ Refusal ⟨.yield v, p :: ps, w⟩) :
    stepValue t v p ps w.unrefusing = (stepValue t v p ps w).unrefusing := by
  cases p with
  | logicalLeft op e =>
    simp only [stepValue]
    split <;> rfl
  | assign site name =>
    have hf : w.unrefusing.target? t site name.lexeme = w.target? t site name.lexeme := rfl
    simp only [stepValue, hf]
    cases w.target? t site name.lexeme <;> rfl
  | callee paren es => exact nextArgument_unrefusing t ps w v paren [] es
  | argument f paren vs es => exact nextArgument_unrefusing t ps w f paren (v :: vs) es
  | print line? =>
    refine print_unrefusing line? v ps w ?_
    rw [← Bool.not_eq_false]
    exact fun hr => h (.mk hr)
  | branch s other =>
    simp only [stepValue]
    cases other <;> split <;> rfl
  | loopTest c s =>
    simp only [stepValue]
    split <;> rfl
  | sequence b => cases b <;> rfl
  | _ => rfl

theorem step_unrefusing (h : ¬ Refusal m) : m.unrefusing.step t = (m.step t).unrefusing := by
  obtain ⟨c, ps, w⟩ := m
  cases c with
  | eval e => exact stepExpr_unrefusing t ps w e
  | exec s => exact stepStmt_unrefusing ps w s
  | yield v =>
    cases ps with
    | nil => rfl
    | cons p ps => exact stepValue_unrefusing t v p ps w h
  | returning v =>
    cases ps with
    | nil => rfl
    | cons p ps => cases p <;> rfl
  | failing e =>
    cases ps with
    | nil => rfl
    | cons p ps => cases p <;> rfl

lemma isOver_unrefusing (m : Machine) : m.unrefusing.isOver = m.isOver := by
  obtain ⟨c, ps, w⟩ := m
  cases c <;> cases ps <;> rfl

theorem run_unrefusing {n : ℕ} (h : ∀ k < n, ¬ Refusal (m.run t k)) :
    m.unrefusing.run t n = (m.run t n).unrefusing := by
  induction n with
  | zero => rfl
  | succ n ih =>
    have hn := ih fun k hk => h k (Nat.lt_succ_of_lt hk)
    cases hover : (m.run t n).isOver with
    | true =>
      have hfree : (m.unrefusing.run t n).isOver = true := by
        rw [hn, isOver_unrefusing, hover]
      rw [run_of_le (Nat.le_succ n) hfree, run_of_le (Nat.le_succ n) hover, hn]
    | false =>
      have hfree : (m.unrefusing.run t n).isOver = false := by
        rw [hn, isOver_unrefusing, hover]
      rw [run_step t n hfree, run_step t n hover, hn]
      exact step_unrefusing t (h n (Nat.lt_succ_self n))

lemma run_refusal {k : ℕ} {v : Value} {line? : Option ℕ} {ps : List Pending} {w : World}
    (hk : m.run t k = ⟨.yield v, .print line? :: ps, w⟩)
    (h : (w.out.writeLine v.pieces).1 = false) (n : ℕ) :
    ∃ env depth line, m.run t (k + 1 + n) =
      ⟨.failing ⟨.output w.out.reason, line?.getD w.callLine⟩, ps.drop n,
        { w with
          out := (w.out.writeLine v.pieces).2
          env := env, callDepth := depth, callLine := line }⟩ := by
  have hstep : m.run t (k + 1) = _ := (run_step t k (by rw [hk]; rfl)).trans
    ((congrArg (step t) hk).trans (print_refused line? v ps w h))
  rw [run_add, hstep]
  exact run_failing t _ n ps _

lemma not_refusal_after {k n : ℕ} (h : Refusal (m.run t k)) (hn : k < n) :
    ¬ Refusal (m.run t n) := by
  generalize hk : m.run t k = at_k at h
  obtain ⟨hr⟩ := h
  obtain ⟨i, rfl⟩ := Nat.exists_eq_add_of_lt hn
  obtain ⟨_, _, _, hrun⟩ := run_refusal t hk hr i
  rw [Nat.add_right_comm, hrun]
  rintro ⟨⟩

theorem bytes_unrefusing (m : Machine) (n : ℕ) :
    (m.run t n).world.out.bytes <+: (m.unrefusing.run t n).world.out.bytes := by
  by_cases h : ∃ k < n, Refusal (m.run t k)
  · obtain ⟨k, hn, hk⟩ := h
    have hbefore : ∀ j < k, ¬ Refusal (m.run t j) := fun j hj hr => not_refusal_after t hr hj hk
    have hsame := run_unrefusing t hbefore
    generalize hm : m.run t k = at_k at hk hsame
    obtain @⟨v, line?, ps, w, hr⟩ := hk
    obtain ⟨i, rfl⟩ := Nat.exists_eq_add_of_lt hn
    obtain ⟨_, _, _, hrun⟩ := run_refusal t hm hr i
    have hfree : (m.unrefusing.run t (k + 1)).world.out =
        (w.unrefusing.out.writeLine v.pieces).2 := by
      rw [run_step t k (by rw [hsame]; rfl), hsame]
      exact out_print ps w.unrefusing line? v
    rw [Nat.add_right_comm, hrun, run_add]
    refine List.IsPrefix.trans ?_ (Sink.bytes_of_suffix (writes_run t i _))
    rw [hfree]
    exact (Sink.write_unrefusing _ w.out).1
  · have hnone : ∀ k < n, ¬ Refusal (m.run t k) := fun k hk hr => h ⟨k, hk, hr⟩
    rw [run_unrefusing t hnone]
    exact List.prefix_rfl

end

end Machine

def Expr.GroupedLiteral : Expr → Prop
  | .literal _ => True
  | .grouping e => e.GroupedLiteral
  | _ => False

lemma Expr.line?_eq_none_iff (e : Expr) : e.line? = none ↔ e.GroupedLiteral := by
  cases e with
  | literal => exact ⟨fun _ => trivial, fun _ => rfl⟩
  | grouping e => exact line?_eq_none_iff e
  | unary | binary | logical | ref | assign | call =>
    refine ⟨?_, False.elim⟩
    rintro ⟨⟩

namespace Machine

/-- At step `k` of a run the value of a printed expression is refused by the sink, which ends the
run with an error. -/
structure PrintFails (t : Setting) (start : Machine) (k : ℕ) (e : Expr) (error : RuntimeError) :
    Prop where
  printing : ∃ ps, Printing t start k e [] ps
  first : ∀ j < k, ¬ Refusal (start.run t j)
  message : error.fault.message = "Output error: " ++ start.world.out.reason
  line : ∀ l, e.line? = some l → error.line = l
  literalLine : e.GroupedLiteral → error.line = innermostLine (callsDuring t k start [])
  after : ∀ n > k, (start.run t n).control = .failing error ∧
    (start.run t n).world.store = (start.run t k).world.store ∧
    (start.run t n).world.out = (start.run t (k + 1)).world.out
  ends : ∃ n, (start.run t n).result? = some (.error error)

/-- Let a program run from rest with a sink that may refuse writes. What the sink accepts is the
beginning of what the program writes to one that refuses none. As long as no write is refused the
two runs are the same but for that. When one is, the run ends there: the `print` that wrote it is
the last statement, and the error is on the line of its expression, or of the innermost call. -/
theorem refused_write_ends_run (t : Setting) {w : World} (hw : w.standing = .rest)
    (program : List Stmt) :
    (∀ n, ((load program w).run t n).world.out.bytes <+:
      ((load program w.unrefusing).run t n).world.out.bytes) ∧
    (∀ n, (∀ k < n, ¬ Refusal ((load program w).run t k)) →
      (load program w.unrefusing).run t n = ((load program w).run t n).unrefusing) ∧
    ∀ k, Refusal ((load program w).run t k) →
      ∃ e error, PrintFails t (load program w) k e error := by
  refine ⟨bytes_unrefusing t _, fun n hn => run_unrefusing t hn, fun k hk => ?_⟩
  · have hfirst : ∀ j < k, ¬ Refusal ((load program w).run t j) :=
      fun j hj hr => not_refusal_after t hr hj hk
    have hcalls := inCalls_of_rest (t := t) (m := load program w) rfl hw k
    have hreason := reason_run t k (load program w)
    generalize hm : (load program w).run t k = at_k at hk hcalls hreason
    obtain @⟨v, line?, ps, u, hr⟩ := hk
    have hpending : ((load program w).run t k).pending = [] ++ .print line? :: ps := by
      rw [hm]
      rfl
    obtain ⟨e, rfl, hprinting⟩ := printing_of_run rfl k hpending
    refine ⟨e, ⟨.output u.out.reason, e.line?.getD u.callLine⟩, ⟨_, hprinting⟩, hfirst,
      congrArg ("Output error: " ++ ·) hreason, fun l hl => ?_, fun hl => ?_, fun n hn => ?_, ?_⟩
    · rw [hl, Option.getD_some]
    · rw [(Expr.line?_eq_none_iff e).2 hl, Option.getD_none]
      exact hcalls.line
    · obtain ⟨i, rfl⟩ := Nat.exists_eq_add_of_lt hn
      obtain ⟨_, _, _, hrun⟩ := run_refusal t hm hr i
      have hnext : ((load program w).run t (k + 1)).world.out = (u.out.writeLine v.pieces).2 := by
        obtain ⟨_, _, _, hfirst⟩ := run_refusal t hm hr 0
        rw [hfirst]
      rw [Nat.add_right_comm, hrun, hm, hnext]
      exact ⟨rfl, rfl, rfl⟩
    · obtain ⟨_, _, _, hrun⟩ := run_refusal t hm hr ps.length
      refine ⟨k + 1 + ps.length, ?_⟩
      rw [hrun, List.drop_length]
      rfl

def room (n : ℕ) (reason : String) : Sink where
  refuses? writes text :=
    let left := n - (writes.flatMap Write.bytes).length
    if (utf8 text).length ≤ left then none else some left
  reason := reason
  writes := []

theorem nestedCalls_refused :
    let start := load nestedCalls (startWith (room 6 "failed to write whole buffer"))
    (∃ e, PrintFails (withoutSites 2) start 23 e ⟨.output "failed to write whole buffer", 4⟩) ∧
      (start.run (withoutSites 2) 27).result? =
        some (.error ⟨.output "failed to write whole buffer", 4⟩) ∧
      (start.run (withoutSites 2) 27).world.out.bytes = utf8 "nil\nni" := by
  intro start
  have hinside : start.run (withoutSites 2) 17 = _ := run_nestedCalls 1 rfl
  have hrefusal : Refusal (start.run (withoutSites 2) 23) := by
    rw [run_add _ 17 6, hinside]
    exact .mk rfl
  have hend : (start.run (withoutSites 2) 27).control =
        .failing ⟨.output "failed to write whole buffer", 4⟩ ∧
      (start.run (withoutSites 2) 27).result? =
        some (.error ⟨.output "failed to write whole buffer", 4⟩) ∧
      (start.run (withoutSites 2) 27).world.out.bytes = utf8 "nil\nni" := by
    rw [run_add _ 17 10, hinside]
    exact ⟨rfl, rfl, rfl⟩
  obtain ⟨hcontrol, hresult⟩ := hend
  obtain ⟨-, -, hfails⟩ := refused_write_ends_run (withoutSites 2)
    (w := startWith (room 6 "failed to write whole buffer")) rfl nestedCalls
  obtain ⟨e, error, hfail⟩ := hfails 23 hrefusal
  have hafter := (hfail.after 27 (by decide)).1
  rw [hcontrol] at hafter
  cases hafter
  exact ⟨⟨e, hfail⟩, hresult⟩

end Machine

end Lox
