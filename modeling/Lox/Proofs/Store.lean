import Lox.Eval.World
import Mathlib.Data.List.Basic

/-! Views of a store after a frame is made, and the frames that a site reaches. -/

namespace Lox

namespace Store

variable {s : Store}

lemma size_push (p : Option FrameId) : (s.push p).1.frames.size = s.frames.size + 1 := by
  simp [push]

lemma size_define (f : FrameId) (name : String) (v : Value) :
    (s.define f name v).frames.size = s.frames.size := by
  simp [define]

lemma local?_push (p : Option FrameId) (f : FrameId) (name : String) :
    (s.push p).1.local? f name = s.local? f name := by
  simp only [push, local?, Array.getElem?_push]
  split
  · next h => subst h; simp [Frame.find?]
  · rfl

lemma parent?_push (p f : FrameId) (hp : p < s.frames.size) :
    (s.push (some p)).1.parent? f = if f = s.frames.size then some p else s.parent? f := by
  simp only [push, parent?, Array.getElem?_push]
  split
  · next h => subst h; simp [hp]
  · rfl

lemma parent?_eq_none {f : FrameId} (h : s.frames.size ≤ f) : s.parent? f = none := by
  simp [parent?, Array.getElem?_eq_none h]

lemma lt_of_parent {f p : FrameId} (h : s.parent? f = some p) : f < s.frames.size := by
  apply Nat.lt_of_not_le
  intro hle
  rw [parent?_eq_none hle] at h
  cases h

lemma local?_eq_none {f : FrameId} (h : s.frames.size ≤ f) (name : String) :
    s.local? f name = none := by
  simp [local?, Array.getElem?_eq_none h]

lemma lt_of_local {f : FrameId} {name : String} (h : (s.local? f name).isSome) :
    f < s.frames.size := by
  apply Nat.lt_of_not_le
  intro hle
  rw [local?_eq_none hle] at h
  cases h

lemma parent?_globals : s.parent? globals = none := by
  cases h : s.parent? globals with
  | none => rfl
  | some p => exact absurd (parent?_lt h) (Nat.not_lt_zero p)

lemma owner?_of_local {f : FrameId} {name : String} (h : (s.local? f name).isSome) :
    s.owner? f name = some f := by
  rw [owner?, if_pos h]

lemma owner?_of_parent {f p : FrameId} {name : String} (h : ¬ (s.local? f name).isSome)
    (hp : s.parent? f = some p) : s.owner? f name = s.owner? p name := by
  rw [owner?, if_neg h]
  split
  · next q hq =>
    obtain rfl := Option.some.inj (hq.symm.trans hp)
    rfl
  · next hq =>
    rw [hq] at hp
    cases hp

lemma owner?_globals (name : String) :
    s.owner? globals name = if (s.local? globals name).isSome then some globals else none := by
  rw [owner?]
  split
  · rfl
  · split
    · next h => simp [parent?_globals] at h
    · rfl

lemma get?_globals (name : String) : s.get? globals name = s.local? globals name := by
  rw [get?, owner?_globals]
  cases h : s.local? globals name <;> simp [h]

end Store

lemma World.isSome_of_target {setting : Setting} {w : World} {site : SiteId} {name : String}
    {f : FrameId} (h : w.target? setting site name = some f) : (w.store.local? f name).isSome := by
  rw [target?] at h
  split at h
  · rw [Store.holder?, Option.filter_eq_some_iff] at h
    exact h.2
  · rw [Store.owner?_globals] at h
    split at h
    · next hl => exact Option.some.inj h ▸ hl
    · cases h

end Lox
