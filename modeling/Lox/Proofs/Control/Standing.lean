import Lox.Proofs.Runs

/-!
Where control stands: the current frame, how many calls are in progress, the line of the innermost.
A block or a call that begins leaves below it what it takes to come back, and every way out takes
that up again. So what remains always leads back to where control stood at first.
-/

namespace Lox

structure Standing where
  env : FrameId
  callDepth : Nat
  callLine : Nat

def World.standing (w : World) : Standing := ⟨w.env, w.callDepth, w.callLine⟩

lemma World.lt_of_refusal {t : Setting} {w : World} {arity : ℕ} {args : List Value}
    (h : w.refusal? t arity args = none) : w.callDepth < t.maxCallDepth := by
  unfold refusal? at h
  split at h
  · cases h
  split at h
  · cases h
  · next hd => exact Nat.lt_of_not_le hd

namespace Machine

/-- What has to be put back when a block or a call is left. -/
inductive Saved where
  | block (outer : FrameId)
  | call (caller : FrameId) (callerLine : Nat)

def Pending.saved? : Pending → Option Saved
  | .leaveBlock outer => some (.block outer)
  | .leaveCall caller callerLine => some (.call caller callerLine)
  | _ => none

def saved (pending : List Pending) : List Saved := pending.filterMap Pending.saved?

def unwind : List Saved → Standing → Standing
  | [], here => here
  | .block outer :: rest, here => unwind rest { here with env := outer }
  | .call caller callerLine :: rest, here => unwind rest ⟨caller, here.callDepth - 1, callerLine⟩

structure Application where
  callee : Value
  paren : Token
  args : List Value

def application? : Machine → Option Application
  | ⟨.yield callee, .callee paren [] :: _, _⟩ => some ⟨callee, paren, []⟩
  | ⟨.yield v, .argument callee paren evaluated [] :: _, _⟩ =>
    some ⟨callee, paren, (v :: evaluated).reverse⟩
  | _ => none

inductive CallEvent where
  | begins (paren : Token)
  | ends

def Application.event? (t : Setting) (w : World) (a : Application) : Option CallEvent :=
  match a.callee with
  | .function _ declaration _ =>
    match w.refusal? t declaration.params.length a.args with
    | some _ => none
    | none => some (.begins a.paren)
  | _ => none

def callEvent? (t : Setting) (m : Machine) : Option CallEvent :=
  match m with
  | ⟨.yield _, .leaveCall _ _ :: _, _⟩ | ⟨.returning _, .leaveCall _ _ :: _, _⟩
  | ⟨.failing _, .leaveCall _ _ :: _, _⟩ => some .ends
  | _ => m.application?.bind (·.event? t m.world)

/-- What a step does to where control stands and to what is saved. -/
inductive Moves (maxCallDepth : Nat) :
    Option CallEvent → List Saved → Standing → List Saved → Standing → Prop
  | stays {ss here} : Moves maxCallDepth none ss here ss here
  | enterBlock {ss env depth line} (f) :
      Moves maxCallDepth none ss ⟨env, depth, line⟩ (.block env :: ss) ⟨f, depth, line⟩
  | leaveBlock {ss env depth line outer} :
      Moves maxCallDepth none (.block outer :: ss) ⟨env, depth, line⟩ ss ⟨outer, depth, line⟩
  | enterCall {ss env depth line} (f paren) : depth < maxCallDepth →
      Moves maxCallDepth (some (.begins paren)) ss ⟨env, depth, line⟩
        (.call env line :: ss) ⟨f, depth + 1, paren.line⟩
  | leaveCall {ss env depth line caller callerLine} :
      Moves maxCallDepth (some .ends) (.call caller callerLine :: ss) ⟨env, depth, line⟩
        ss ⟨caller, depth - 1, callerLine⟩

def MovesTo (t : Setting) (event? : Option CallEvent) (ps : List Pending) (w : World)
    (m : Machine) : Prop :=
  Moves t.maxCallDepth event? (saved ps) w.standing (saved m.pending) m.world.standing

section

variable (t : Setting) (ps : List Pending) (w : World)

lemma apply_moves (a : Application) :
    MovesTo t (a.event? t w) ps w (apply t a.callee a.paren a.args ps w) := by
  obtain ⟨v, paren, args⟩ := a
  cases v with
  | function i f closure =>
    simp only [apply, Application.event?]
    cases hr : w.refusal? t f.params.length args with
    | some fault => exact .stays
    | none =>
      exact .enterCall _ paren (World.lt_of_refusal hr)
  | native i =>
    simp only [apply, Application.event?]
    cases t.natives[i]? with
    | none => exact .stays
    | some native =>
      simp only
      cases w.refusal? t native.arity args <;> exact .stays
  | _ => exact .stays

lemma stepExpr_moves (e : Expr) : MovesTo t none ps w (stepExpr t e ps w) := by
  cases e with
  | ref site name =>
    simp only [stepExpr]
    cases w.lookUp? t site name.lexeme <;> exact .stays
  | _ => exact .stays

lemma stepStmt_moves (s : Stmt) : MovesTo t none ps w (stepStmt s ps w) := by
  cases s with
  | var name e => cases e <;> exact .stays
  | ret keyword e => cases e <;> exact .stays
  | block body => exact .enterBlock _
  | _ => exact .stays

lemma print_moves (line? : Option ℕ) (v : Value) : MovesTo t none ps w (print line? v ps w) := by
  have hw : (w.print v).2.standing = w.standing := rfl
  unfold print
  generalize w.print v = result at hw
  obtain ⟨accepted, u⟩ := result
  unfold MovesTo
  rw [← hw]
  cases accepted <;> exact .stays

end

theorem step_moves (t : Setting) (m : Machine) :
    MovesTo t (m.callEvent? t) m.pending m.world (m.step t) := by
  obtain ⟨c, ps, w⟩ := m
  cases c with
  | eval e => exact stepExpr_moves t ps w e
  | exec s => exact stepStmt_moves t ps w s
  | yield v =>
    cases ps with
    | nil => exact .stays
    | cons p ps =>
      cases p with
      | callee paren es =>
        cases es with
        | nil => exact apply_moves t ps w ⟨v, paren, []⟩
        | cons e es => exact .stays
      | argument f paren vs es =>
        cases es with
        | nil => exact apply_moves t ps w ⟨f, paren, (v :: vs).reverse⟩
        | cons e es => exact .stays
      | print line? => exact print_moves t ps w line? v
      | logicalLeft op e =>
        simp only [step, stepValue]
        split <;> exact .stays
      | assign site name =>
        simp only [step, stepValue]
        cases w.target? t site name.lexeme <;> exact .stays
      | branch s other =>
        simp only [step, stepValue]
        cases other <;> split <;> exact .stays
      | loopTest c s =>
        simp only [step, stepValue]
        split <;> exact .stays
      | sequence b => cases b <;> exact .stays
      | leaveBlock outer => exact .leaveBlock
      | leaveCall caller callerLine => exact .leaveCall
      | _ => exact .stays
  | returning v =>
    cases ps with
    | nil => exact .stays
    | cons p ps =>
      cases p with
      | leaveBlock outer => exact .leaveBlock
      | leaveCall caller callerLine => exact .leaveCall
      | _ => exact .stays
  | failing e =>
    cases ps with
    | nil => exact .stays
    | cons p ps =>
      cases p with
      | leaveBlock outer => exact .leaveBlock
      | leaveCall caller callerLine => exact .leaveCall
      | _ => exact .stays

-- What is saved above is taken up again, so a step does not change where all of it leads back to.
lemma Moves.unwind {maxCallDepth : ℕ} {event? : Option CallEvent} {ss ss' : List Saved}
    {here here' : Standing} (h : Moves maxCallDepth event? ss here ss' here') :
    Machine.unwind ss' here' = Machine.unwind ss here := by
  cases h <;> rfl

theorem unwind_run (t : Setting) (n : ℕ) (m : Machine) :
    unwind (saved (m.run t n).pending) (m.run t n).world.standing =
      unwind (saved m.pending) m.world.standing := by
  induction n generalizing m with
  | zero => rfl
  | succ n ih =>
    cases h : m.isOver with
    | true => rw [run_of_isOver h]
    | false =>
      rw [run_succ h, ih]
      exact (step_moves t m).unwind

lemma pending_of_isOver {m : Machine} (h : m.isOver = true) : m.pending = [] := by
  obtain ⟨c, ps, w⟩ := m
  cases ps with
  | nil => rfl
  | cons p ps => cases c <;> cases h

theorem standing_of_isOver {t : Setting} {n : ℕ} {m : Machine}
    (h : (m.run t n).isOver = true) :
    (m.run t n).world.standing = unwind (saved m.pending) m.world.standing := by
  rw [← unwind_run t n m, pending_of_isOver h]
  rfl

lemma isOver_above {m : Machine} (h : m.isOver = false) (below : List Pending) :
    (m.above below).isOver = false := by
  obtain ⟨c, ps, w⟩ := m
  cases ps with
  | cons p ps => cases c <;> rfl
  | nil =>
    cases c with
    | eval | exec => cases below <;> rfl
    | yield | returning | failing => cases h

theorem run_above {t : Setting} {n : ℕ} {m : Machine} (h : (m.run t n).isOver = true)
    (below : List Pending) : ∃ k ≤ n, (m.above below).run t k = (m.run t n).above below := by
  induction n generalizing m with
  | zero => exact ⟨0, Nat.le_refl 0, rfl⟩
  | succ n ih =>
    cases hover : m.isOver with
    | true =>
      rw [run_of_isOver hover]
      exact ⟨0, Nat.zero_le _, rfl⟩
    | false =>
      rw [run_succ hover] at h ⊢
      obtain ⟨k, hk, hrun⟩ := ih h
      refine ⟨k + 1, Nat.succ_le_succ hk, ?_⟩
      rw [run_succ (isOver_above hover below), step_above t below hover, hrun]

end Machine

end Lox
