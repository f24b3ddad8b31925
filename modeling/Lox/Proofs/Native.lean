import Lox.Eval.Machine
import Mathlib.Data.List.Forall2

/-! Functions of the host that treat functions of the program as opaque: they may look at data, and
may hand on a function that they were given, but they see neither its body nor its frame. -/

namespace Lox

def Value.Alike : Value → Value → Prop
  | .function i f _, .function j g _ =>
    i = j ∧ f.name.lexeme = g.name.lexeme ∧ f.params.length = g.params.length
  | v, w => v = w

def Value.IsData : Value → Prop
  | .function _ _ _ => False
  | _ => True

inductive Native.ResultRel (r : Value → Value → Prop) :
    Except String Value → Except String Value → Prop
  | ok {v w} : r v w → ResultRel r (.ok v) (.ok w)
  | error (message) : ResultRel r (.error message) (.error message)

/-- Arguments that are related by a relation of values alike give results that are. -/
def Native.Uniform (native : Native) : Prop :=
  ∀ r : Value → Value → Prop, (∀ v w, r v w → v.Alike w) → (∀ v, v.IsData → r v v) →
    ∀ now args args', List.Forall₂ r args args' →
      Native.ResultRel r (native.call now args) (native.call now args')

lemma Native.uniform_clock : Native.clock.Uniform :=
  fun _ _ hd now _ _ _ => .ok (hd (.number now) trivial)

lemma Value.alike_refl (v : Value) : v.Alike v := by
  cases v <;> simp [Alike]

lemma Native.Uniform.result {native : Native} (hn : native.Uniform) {good : Value → Prop}
    (hd : ∀ v, v.IsData → good v) {now : Float} {args : List Value} (ha : ∀ v ∈ args, good v)
    {v : Value} (h : native.call now args = .ok v) : good v := by
  have hr := hn (fun v w => v = w ∧ good v) (fun v w h => h.1 ▸ v.alike_refl)
    (fun v hv => ⟨rfl, hd v hv⟩) now args args (List.forall₂_same.2 fun v hv => ⟨rfl, ha v hv⟩)
  rw [h] at hr
  cases hr with
  | ok hv => exact hv.2

namespace Value

lemma isData_unary {op : TokenType} {v u : Value} (h : v.unary op = .ok u) : u.IsData := by
  unfold unary at h
  split at h <;> cases h <;> trivial

lemma isData_arithmetic {f : Float → Float → Value} (hf : ∀ a b, (f a b).IsData) {v w u : Value}
    (h : arithmetic f v w = .ok u) : u.IsData := by
  unfold arithmetic at h
  split at h
  · cases h
    exact hf _ _
  · cases h

lemma isData_binary {op : TokenType} {v w u : Value} (h : v.binary op w = .ok u) : u.IsData := by
  unfold binary at h
  split at h
  · unfold add at h
    split at h <;> cases h <;> trivial
  case h_9 | h_10 =>
    cases h
    trivial
  case h_11 => cases h
  all_goals
    refine isData_arithmetic ?_ h
    exact fun _ _ => trivial

end Value

end Lox
