import Lox.Proofs.Control.Standing

/-! What waits to be printed is the value of the expression of a `print` statement, and that
statement is under way. -/

namespace Lox.Machine

def Pending.isPrint : Pending → Bool
  | .print _ => true
  | _ => false

def below (m : Machine) : List Pending :=
  match m.control with
  | .eval _ | .exec _ => m.pending
  | _ => m.pending.tail

inductive Adds : Control → List Pending → Prop
  | begins (e) : Adds (.exec (.print e)) [.print e.line?]
  | others {c new} : new.all (!·.isPrint) = true → Adds c new

def AddsTo (c : Control) (rest : List Pending) (m : Machine) : Prop :=
  ∃ new, Adds c new ∧ m.pending = new ++ rest

section

variable (t : Setting) (ps : List Pending) (w : World)

lemma AddsTo.none {c : Control} {m : Machine} (h : m.pending = ps) : AddsTo c ps m :=
  ⟨[], .others rfl, h⟩

lemma AddsTo.one {c : Control} {m : Machine} {p : Pending} (hp : p.isPrint = false)
    (h : m.pending = p :: ps) : AddsTo c ps m := by
  refine ⟨[p], .others ?_, h⟩
  simp [hp]

lemma apply_adds (c : Control) (v : Value) (paren : Token) (args : List Value) :
    AddsTo c ps (apply t v paren args ps w) := by
  cases v with
  | function i f closure =>
    simp only [apply]
    cases w.refusal? t f.params.length args with
    | some fault => exact .none ps rfl
    | none => exact ⟨[_, _], .others rfl, rfl⟩
  | native i =>
    simp only [apply]
    cases t.natives[i]? with
    | none => exact .none ps rfl
    | some native =>
      simp only
      cases w.refusal? t native.arity args <;> exact .none ps rfl
  | _ => exact .none ps rfl

lemma nextArgument_adds (c : Control) (v : Value) (paren : Token) (vs : List Value)
    (es : List Expr) : AddsTo c ps (nextArgument t v paren vs es ps w) := by
  cases es with
  | nil => exact apply_adds t ps w c v paren vs.reverse
  | cons e es => exact .one ps rfl rfl

lemma stepExpr_adds (e : Expr) : AddsTo (.eval e) ps (stepExpr t e ps w) := by
  cases e with
  | literal | grouping => exact .none ps rfl
  | ref site name =>
    simp only [stepExpr]
    cases w.lookUp? t site name.lexeme <;> exact .none ps rfl
  | _ => exact .one ps rfl rfl

lemma stepStmt_adds (s : Stmt) : AddsTo (.exec s) ps (stepStmt s ps w) := by
  cases s with
  | print e => exact ⟨_, .begins e, rfl⟩
  | expression | function => exact .none ps rfl
  | var name e =>
    cases e with
    | none => exact .none ps rfl
    | some e => exact .one ps rfl rfl
  | ret keyword e =>
    cases e with
    | none => exact .none ps rfl
    | some e => exact .one ps rfl rfl
  | block body => exact ⟨[_, _], .others rfl, rfl⟩
  | _ => exact .one ps rfl rfl

lemma print_adds (c : Control) (line? : Option ℕ) (v : Value) :
    AddsTo c ps (print line? v ps w) := by
  unfold print
  rcases w.print v with ⟨accepted, u⟩
  cases accepted <;> exact .none ps rfl

lemma stepValue_adds (v : Value) (p : Pending) : AddsTo (.yield v) ps (stepValue t v p ps w) := by
  cases p with
  | binaryLeft | loopBody => exact .one ps rfl rfl
  | logicalLeft op e =>
    simp only [stepValue]
    split <;> exact .none ps rfl
  | assign site name =>
    simp only [stepValue]
    cases w.target? t site name.lexeme <;> exact .none ps rfl
  | callee paren es => exact nextArgument_adds t ps w _ v paren [] es
  | argument f paren vs es => exact nextArgument_adds t ps w _ f paren (v :: vs) es
  | print line? => exact print_adds ps w _ line? v
  | branch s other =>
    simp only [stepValue]
    cases other <;> split <;> exact .none ps rfl
  | loopTest c s =>
    simp only [stepValue]
    split
    · exact .one ps rfl rfl
    · exact .none ps rfl
  | sequence b =>
    cases b with
    | nil => exact .none ps rfl
    | cons s b => exact .one ps rfl rfl
  | _ => exact .none ps rfl

end

theorem step_adds (t : Setting) (m : Machine) : AddsTo m.control m.below (m.step t) := by
  obtain ⟨c, ps, w⟩ := m
  cases c with
  | eval e => exact stepExpr_adds t ps w e
  | exec s => exact stepStmt_adds ps w s
  | yield v =>
    cases ps with
    | nil => exact .none [] rfl
    | cons p ps => exact stepValue_adds t ps w v p
  | returning v =>
    cases ps with
    | nil => exact .none [] rfl
    | cons p ps => cases p <;> exact .none ps rfl
  | failing e =>
    cases ps with
    | nil => exact .none [] rfl
    | cons p ps => cases p <;> exact .none ps rfl

def withPending (qs : List Pending) (m : Machine) : Machine := { m with pending := qs }

lemma pending_of_below {m : Machine} (hover : m.isOver = false) {qs rest : List Pending}
    (h : m.below = qs ++ rest) :
    ∃ qs', m.pending = qs' ++ rest ∧ (m.withPending qs').isOver = false := by
  obtain ⟨c, ps, w⟩ := m
  cases c with
  | eval | exec => exact ⟨qs, h, by cases qs <;> rfl⟩
  | yield | returning | failing =>
    cases ps with
    | nil => cases hover
    | cons p ps => exact ⟨p :: qs, congrArg (p :: ·) h, rfl⟩

lemma step_withPending {t : Setting} {m : Machine} {qs qs' rest : List Pending}
    (hm : m.pending = qs' ++ rest) (hover : (m.withPending qs').isOver = false)
    (h : (m.step t).pending = qs ++ rest) :
    (m.withPending qs').step t = (m.step t).withPending qs := by
  have habove : m = (m.withPending qs').above rest := by
    obtain ⟨c, ps, w⟩ := m
    exact congrArg (Machine.mk c · w) hm
  have hstep : m.step t = ((m.withPending qs').step t).above rest := by
    rw [← step_above t rest hover, ← habove]
  rw [hstep] at h ⊢
  obtain rfl : ((m.withPending qs').step t).pending = qs := List.append_cancel_right h
  rfl

lemma print_of_step {t : Setting} {m : Machine} (hover : m.isOver = false) {qs ps : List Pending}
    {line? : Option ℕ} (h : (m.step t).pending = qs ++ .print line? :: ps) :
    (∃ e, m.control = .exec (.print e) ∧ e.line? = line? ∧ m.pending = ps ∧ qs = []) ∨
      ∃ qs', m.pending = qs' ++ .print line? :: ps ∧
        (m.withPending qs').step t = (m.step t).withPending qs ∧
        (m.withPending qs').isOver = false := by
  have hold : ∀ qs', m.below = qs' ++ .print line? :: ps → ∃ qs',
      m.pending = qs' ++ .print line? :: ps ∧
        (m.withPending qs').step t = (m.step t).withPending qs ∧
        (m.withPending qs').isOver = false := by
    intro qs' hbelow
    obtain ⟨qs', hm, hcore⟩ := pending_of_below hover hbelow
    exact ⟨qs', hm, step_withPending hm hcore h, hcore⟩
  obtain ⟨new, hadds, hnew⟩ := step_adds t m
  rw [h] at hnew
  generalize hc : m.control = c at hadds
  cases hadds with
  | begins e =>
    have hbelow : m.below = m.pending := by rw [below, hc]
    cases qs with
    | nil =>
      obtain ⟨hline, hps⟩ := List.cons.inj hnew
      refine .inl ⟨e, rfl, ?_, hbelow ▸ hps.symm, rfl⟩
      cases hline
      rfl
    | cons q qs =>
      exact .inr (hold qs (List.cons.inj hnew).2.symm)
  | others hnone =>
    right
    rcases List.append_eq_append_iff.1 hnew with ⟨a, rfl, hrest⟩ | ⟨a, rfl, hrest⟩
    · cases a with
      | nil => exact hold [] hrest.symm
      | cons q a =>
        obtain ⟨rfl, -⟩ := List.cons.inj hrest
        simp [Pending.isPrint] at hnone
    · exact hold a hrest

/-- A `print` statement that began before step `k`, of whose expression the value comes next but for
what `qs` says. -/
structure Printing (t : Setting) (start : Machine) (k : ℕ) (e : Expr) (qs ps : List Pending) :
    Prop where
  begun : ∃ j i w, k = j + 1 + i ∧ start.run t j = ⟨.exec (.print e), ps, w⟩ ∧
    (evaluating e w).run t i = (start.run t k).withPending qs

lemma run_step (t : Setting) (k : ℕ) {m : Machine} (h : (m.run t k).isOver = false) :
    m.run t (k + 1) = (m.run t k).step t := by
  rw [run_add, run_succ h]
  rfl

theorem printing_of_run {t : Setting} {start : Machine}
    (hstart : start.pending.all (!·.isPrint) = true) (k : ℕ) {qs ps : List Pending}
    {line? : Option ℕ} (h : (start.run t k).pending = qs ++ .print line? :: ps) :
    ∃ e, e.line? = line? ∧ Printing t start k e qs ps := by
  induction k generalizing qs with
  | zero =>
    have hpending : start.pending = qs ++ .print line? :: ps := h
    rw [hpending] at hstart
    simp [Pending.isPrint] at hstart
  | succ k ih =>
    cases hover : (start.run t k).isOver with
    | true =>
      rw [run_add, run_of_isOver hover, pending_of_isOver hover] at h
      cases List.append_ne_nil_of_right_ne_nil qs (List.cons_ne_nil _ ps) h.symm
    | false =>
      have hrun := run_step t k hover
      rw [hrun] at h
      rcases print_of_step hover h with ⟨e, hc, hline, hps, rfl⟩ | ⟨qs', hm, hstep, hcore⟩
      · refine ⟨e, hline, k, 0, (start.run t k).world, rfl, ?_, ?_⟩
        · rw [← hc, ← hps]
        · rw [hrun]
          generalize start.run t k = m at hc
          obtain ⟨c, ps, w⟩ := m
          obtain rfl : c = .exec (.print e) := hc
          rfl
      · obtain ⟨e, hline, j, i, w, rfl, hbegun, heval⟩ := ih hm
        refine ⟨e, hline, j, i + 1, w, rfl, hbegun, ?_⟩
        rw [hrun, ← hstep, ← heval]
        exact run_step t i (heval ▸ hcore)

end Lox.Machine
