import Lox.Proofs.Control.Standing

/-! The calls in progress along a run, and what a world keeps of them: how many they are and the
line of the innermost. -/

namespace Lox

def innermostLine : List Token → Nat
  | [] => 0
  | paren :: _ => paren.line

structure Standing.InCalls (maxCallDepth : Nat) (calls : List Token) (here : Standing) : Prop where
  depth : here.callDepth = calls.length
  bound : here.callDepth ≤ maxCallDepth
  line : here.callLine = innermostLine calls

def Standing.rest : Standing := ⟨Store.globals, 0, 0⟩

namespace Machine

def callsAfter : Option CallEvent → List Token → List Token
  | none, calls => calls
  | some (.begins paren), calls => paren :: calls
  | some .ends, calls => calls.tail

def callsDuring (t : Setting) : Nat → Machine → List Token → List Token
  | 0, _, calls => calls
  | n + 1, m, calls =>
    if m.isOver then calls else callsDuring t n (m.step t) (callsAfter (m.callEvent? t) calls)

def outerLines : List Token → List Nat
  | [] => []
  | _ :: calls => innermostLine calls :: outerLines calls

def Saved.callerLine? : Saved → Option Nat
  | .block _ => none
  | .call _ callerLine => some callerLine

structure CallsFit (maxCallDepth : Nat) (calls : List Token) (ss : List Saved) (here : Standing) :
    Prop extends here.InCalls maxCallDepth calls where
  returns : ss.filterMap Saved.callerLine? = outerLines calls

lemma Moves.callsFit {maxCallDepth : ℕ} {event? : Option CallEvent} {ss ss' : List Saved}
    {here here' : Standing} {calls : List Token}
    (h : Moves maxCallDepth event? ss here ss' here')
    (hc : CallsFit maxCallDepth calls ss here) :
    CallsFit maxCallDepth (callsAfter event? calls) ss' here' := by
  obtain ⟨⟨hdepth, hbound, hline⟩, hreturns⟩ := hc
  cases h with
  | stays => exact ⟨⟨hdepth, hbound, hline⟩, hreturns⟩
  | enterBlock f => exact ⟨⟨hdepth, hbound, hline⟩, hreturns⟩
  | leaveBlock => exact ⟨⟨hdepth, hbound, hline⟩, hreturns⟩
  | enterCall f paren hlt =>
    refine ⟨⟨congrArg (· + 1) hdepth, hlt, rfl⟩, ?_⟩
    exact congrArg₂ List.cons hline hreturns
  | leaveCall =>
    -- Something is given back, so a call is in progress.
    cases calls with
    | nil => cases hreturns
    | cons paren calls =>
      obtain ⟨hl, hrest⟩ := List.cons.inj hreturns
      refine ⟨⟨?_, ?_, hl⟩, hrest⟩
      · exact congrArg (· - 1) hdepth
      · exact Nat.le_trans (Nat.sub_le _ 1) hbound

theorem run_callsFit {t : Setting} {n : ℕ} {m : Machine} {calls : List Token}
    (h : CallsFit t.maxCallDepth calls (saved m.pending) m.world.standing) :
    CallsFit t.maxCallDepth (callsDuring t n m calls) (saved (m.run t n).pending)
      (m.run t n).world.standing := by
  induction n generalizing m calls with
  | zero => exact h
  | succ n ih =>
    rw [callsDuring]
    cases hover : m.isOver with
    | true => rwa [run_of_isOver hover, if_pos rfl]
    | false =>
      rw [run_succ hover, if_neg Bool.false_ne_true]
      exact ih ((step_moves t m).callsFit h)

lemma inCalls_of_rest {t : Setting} {m : Machine} (hs : saved m.pending = [])
    (hw : m.world.standing = .rest) (n : ℕ) :
    (m.run t n).world.standing.InCalls t.maxCallDepth (callsDuring t n m []) := by
  refine (run_callsFit ?_).toInCalls
  rw [hs, hw]
  exact ⟨⟨rfl, Nat.zero_le _, rfl⟩, rfl⟩

structure CallsHost (t : Setting) (m : Machine) (native : Native) (a : Application) : Prop where
  applies : m.application? = some a
  callee : ∃ index, a.callee = .native index ∧ t.natives[index]? = some native
  accepted : m.world.refusal? t native.arity a.args = none

lemma step_of_application {m : Machine} {a : Application} (h : m.application? = some a)
    (t : Setting) : m.step t = apply t a.callee a.paren a.args m.pending.tail m.world := by
  obtain ⟨c, ps, w⟩ := m
  unfold application? at h
  split at h
  · next heq =>
    cases heq
    cases h
    rfl
  · next heq =>
    cases heq
    cases h
    rfl
  · cases h

section

variable {t : Setting} {m : Machine} {native : Native} {a : Application}

lemma CallsHost.step (h : CallsHost t m native a) {message : String}
    (hf : native.call m.world.clock.now a.args = .error message) :
    (m.step t).control =
      .failing ⟨.native message, (m.world.enterNative a.paren.line).callLine⟩ := by
  obtain ⟨index, hcallee, hnative⟩ := h.callee
  rw [step_of_application h.applies, hcallee]
  simp only [apply, hnative, h.accepted, hf]
  rfl

lemma CallsHost.inCalls (h : CallsHost t m native a) {calls : List Token}
    (hc : m.world.standing.InCalls t.maxCallDepth calls) :
    (m.world.enterNative a.paren.line).standing.InCalls t.maxCallDepth (a.paren :: calls) :=
  ⟨congrArg (· + 1) hc.depth, World.lt_of_refusal h.accepted, rfl⟩

end

end Machine

end Lox
