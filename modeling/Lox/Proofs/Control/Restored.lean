import Lox.Proofs.Control.Calls
import Lox.Proofs.History

/-! Every way out of a statement, an expression or a call leads back to where control stood, and a
session is at rest between its chunks. -/

namespace Lox

open Machine

/-- The beginning of what may be run in a world. -/
inductive Machine.Begins (t : Setting) (w : World) : Machine → Prop
  | eval (e) : Begins t w ⟨.eval e, [], w⟩
  | exec (s) : Begins t w ⟨.exec s, [], w⟩
  | apply (callee paren args) : Begins t w (apply t callee paren args [] w)
  | load (program) : Begins t w (load program w)

lemma Machine.Begins.unwind {t : Setting} {w : World} {m : Machine} (h : Begins t w m) :
    unwind (saved m.pending) m.world.standing = w.standing := by
  cases h with
  | apply callee paren args => exact (apply_moves t [] w ⟨callee, paren, args⟩).unwind
  | eval | exec | load => rfl

theorem Machine.Begins.standing {t : Setting} {w : World} {m : Machine} (h : Begins t w m) {n : ℕ}
    (hover : (m.run t n).isOver = true) : (m.run t n).world.standing = w.standing :=
  (standing_of_isOver hover).trans h.unwind

theorem Session.History.standing {host : Host} {s : Session} (h : History host s) :
    s.world.standing = .rest := by
  induction h with
  | start depth clock out diagnostics => rfl
  | run _ hr ih =>
    obtain hworld | ⟨program, t, hover, hworld⟩ := run_world hr
    · rw [hworld, ih]
    · rw [hworld, (Begins.load program).standing hover, ih]
  | resetError _ ih => exact ih
  | defineGlobal name _ _ ih => exact ih
  | makeFunction declaration _ ih => exact ih
  | defineNative _ _ ih => exact ih

/-- However something that is run in a world comes to an end, control stands where it stood before,
there and wherever else it is run. Between the chunks of a session control is at rest; while a
program runs, the world knows the calls in progress, and the error of a function of the host is on
the line of its call. -/
theorem control_restored :
    (∀ {t w m n}, Begins t w m → (m.run t n).isOver = true →
      (m.run t n).world.standing = w.standing ∧
      ∀ below, ∃ k ≤ n, (m.above below).run t k = (m.run t n).above below) ∧
    ∀ {host s}, Session.History host s → s.world.standing = .rest ∧
      ∀ t program n,
        let m := (Machine.load program s.world).run t n
        let calls := callsDuring t n (.load program s.world) []
        m.world.standing.InCalls t.maxCallDepth calls ∧
        ∀ {native a}, CallsHost t m native a →
          (m.world.enterNative a.paren.line).standing.InCalls t.maxCallDepth (a.paren :: calls) ∧
          ∀ {message}, native.call m.world.clock.now a.args = .error message →
            (m.step t).control = .failing ⟨.native message, a.paren.line⟩ := by
  constructor
  · intro t w m n hb hover
    exact ⟨hb.standing hover, run_above hover⟩
  · intro host s h
    refine ⟨h.standing, fun t program n => ?_⟩
    have hcalls := inCalls_of_rest (t := t) (m := .load program s.world) rfl h.standing n
    exact ⟨hcalls, fun hc => ⟨hc.inCalls hcalls, hc.step⟩⟩

def refusing : Native := ⟨"fail", 0, fun _ _ => .error "native failure."⟩

def withRefusing : Session := (Session.start 1 .stopped .unlimited .unlimited).defineNative refusing

def refusedCall : List Stmt :=
  [.expression (.call (.ref 0 ⟨.identifier, "fail", 8, 3⟩) ⟨.punct .rightParen, ")", 13, 3⟩ [])]

lemma lookUp_refusing :
    withRefusing.world.lookUp? withRefusing.setting 0 "fail" = some (.native 1) := by
  have hnone : withRefusing.setting.distances[0]? = none := Std.HashMap.getElem?_empty
  simp only [World.lookUp?, hnone, Store.get?_globals]
  rfl

lemma run_refusedCall (n : ℕ) :
    (Machine.load refusedCall withRefusing.world).run withRefusing.setting (4 + n) =
      (⟨.yield (.native 1), [.callee ⟨.punct .rightParen, ")", 13, 3⟩ [], .sequence []],
        withRefusing.world⟩ : Machine).run withRefusing.setting n := by
  have hread : (Machine.load refusedCall withRefusing.world).run withRefusing.setting 3 =
      ⟨.eval (.ref 0 ⟨.identifier, "fail", 8, 3⟩),
        [.callee ⟨.punct .rightParen, ")", 13, 3⟩ [], .sequence []], withRefusing.world⟩ := rfl
  have hstep : (Machine.mk (.eval (.ref 0 ⟨.identifier, "fail", 8, 3⟩))
      [.callee ⟨.punct .rightParen, ")", 13, 3⟩ [], .sequence []] withRefusing.world).run
        withRefusing.setting 1 = ⟨.yield (.native 1),
          [.callee ⟨.punct .rightParen, ")", 13, 3⟩ [], .sequence []], withRefusing.world⟩ := by
    rw [run_succ rfl]
    simp only [step, stepExpr, lookUp_refusing]
    rfl
  rw [run_add _ 4 n, run_add _ 3 1, hread, hstep]

theorem refusedCall_restored :
    let m := (Machine.load refusedCall withRefusing.world).run withRefusing.setting 4
    (m.step withRefusing.setting).control = .failing ⟨.native "native failure.", 3⟩ ∧
      (m.world.enterNative 3).standing.InCalls 1 [⟨.punct .rightParen, ")", 13, 3⟩] ∧
      ((Machine.load refusedCall withRefusing.world).run withRefusing.setting 6).world.standing =
        .rest := by
  intro m
  have hm : m = _ := run_refusedCall 0
  have hover : ((Machine.load refusedCall withRefusing.world).run
      withRefusing.setting 6).isOver = true := by
    rw [run_refusedCall 2]
    rfl
  obtain ⟨hrestored, hsession⟩ := control_restored
  have hs : Session.History .any withRefusing :=
    .defineNative (.start 1 .stopped .unlimited .unlimited) trivial
  obtain ⟨hrest, hruns⟩ := hsession hs
  obtain ⟨-, hhost⟩ := hruns withRefusing.setting refusedCall 4
  have hcall : CallsHost withRefusing.setting m refusing
      ⟨.native 1, ⟨.punct .rightParen, ")", 13, 3⟩, []⟩ := by
    rw [hm]
    exact ⟨rfl, ⟨1, rfl, rfl⟩, rfl⟩
  obtain ⟨hin, herror⟩ := hhost hcall
  exact ⟨herror rfl, hin, ((hrestored (.load _) hover).1).trans hrest⟩

end Lox
