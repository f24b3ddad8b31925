import Lox.Proofs.Session

/-! Sessions: chunks run one after another, with what the host does between them. -/

namespace Lox

structure Host where
  value : Session → Value → Prop
  native : Native → Prop

def Host.any : Host := ⟨fun _ _ => True, fun _ => True⟩

namespace Session

def makeFunction (declaration : Function) (s : Session) : Value × Session :=
  let (v, w) := s.world.makeFunction declaration
  (v, { s with world := w })

inductive History (host : Host) : Session → Prop
  | start (depth clock out diagnostics) : History host (.start depth clock out diagnostics)
  | run {s s' source fuel outcome} : History host s → s.run fuel source = (some outcome, s') →
      History host s'
  | resetError {s} : History host s → History host s.resetError
  | defineGlobal {s v} (name) : History host s → host.value s v →
      History host (s.defineGlobal name v)
  | makeFunction {s} (declaration) : History host s → History host (s.makeFunction declaration).2
  | defineNative {s native} : History host s → host.native native →
      History host (s.defineNative native)

theorem run_world {s s' : Session} {fuel : ℕ} {source : String} {outcome : Outcome}
    (h : s.run fuel source = (some outcome, s')) : s'.world = s.world ∨
      ∃ program t, ((Machine.load program s.world).run t fuel).isOver = true ∧
        s'.world = ((Machine.load program s.world).run t fuel).world := by
  rcases hp : s.prepare source with ⟨program?, s₁⟩
  cases program? with
  | none =>
    obtain ⟨_, _, _, _, rfl, -, -⟩ := prepare_eq_none hp
    rw [run, hp] at h
    cases h
    exact .inl rfl
  | some program =>
    obtain ⟨_, _, rfl, -, -⟩ := prepare_extends hp
    rw [run_eq_of_prepare hp] at h
    obtain ⟨hover, _, _, _, rfl⟩ := finish_eq h
    exact .inr ⟨program, _, hover, rfl⟩

end Session

end Lox
