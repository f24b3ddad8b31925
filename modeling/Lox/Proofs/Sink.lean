import Lox.Eval.Sink
import Mathlib.Data.List.Basic

/-! What a sink has accepted after some writes. -/

namespace Lox

lemma utf8_append (a b : String) : utf8 (a ++ b) = utf8 a ++ utf8 b := by simp [utf8]

namespace Sink

lemma write_cons {piece : String} (h : piece.isEmpty = false) (rest : List String) (s : Sink) :
    s.write (piece :: rest) =
      if (s.offer piece).1 then write rest (s.offer piece).2 else (false, (s.offer piece).2) := by
  rw [write, h]
  rfl

lemma write_induction {P : Sink → Prop} (hoffer : ∀ s piece, P s → P (s.offer piece).2)
    {s : Sink} (hs : P s) (pieces : List String) : P (s.write pieces).2 := by
  induction pieces generalizing s with
  | nil => exact hs
  | cons piece rest ih =>
    cases hp : piece.isEmpty with
    | true =>
      rw [write, hp]
      exact ih hs
    | false =>
      rw [write_cons hp]
      split
      · exact ih (hoffer s piece hs)
      · exact hoffer s piece hs

lemma reason_write (pieces : List String) (s : Sink) : (s.write pieces).2.reason = s.reason :=
  write_induction (P := fun t => t.reason = s.reason) (fun _ _ h => h) rfl pieces

lemma writes_write (pieces : List String) (s : Sink) : s.writes <:+ (s.write pieces).2.writes := by
  refine write_induction (P := fun t => s.writes <:+ t.writes) (fun t _ h => ?_) List.suffix_rfl
    pieces
  exact h.trans (List.suffix_cons _ t.writes)

lemma bytes_of_suffix {s s' : Sink} (h : s.writes <:+ s'.writes) : s.bytes <+: s'.bytes := by
  obtain ⟨more, h⟩ := h
  refine ⟨more.reverse.flatMap Write.bytes, ?_⟩
  rw [bytes, bytes, ← h, List.reverse_append, List.flatMap_append]

lemma bytes_offer (piece : String) (s : Sink) : (s.offer piece).2.bytes =
    s.bytes ++ Write.bytes ⟨piece, s.refuses? s.writes piece⟩ := by
  simp [bytes, offer]

def Accepting (s : Sink) : Prop := ∀ writes text, s.refuses? writes text = none

lemma Accepting.write {s : Sink} (h : s.Accepting) (pieces : List String) :
    (s.write pieces).2.Accepting ∧
      (s.write pieces).2.bytes = s.bytes ++ utf8 (String.join pieces) := by
  induction pieces generalizing s with
  | nil => exact ⟨h, (List.append_nil _).symm⟩
  | cons piece rest ih =>
    rw [String.join_cons, utf8_append]
    cases hp : piece.isEmpty with
    | true =>
      obtain rfl := String.isEmpty_iff.1 hp
      exact ih h
    | false =>
      have hnone : s.refuses? s.writes piece = none := h _ _
      have haccepted : (s.offer piece).1 = true := congrArg Option.isNone hnone
      have hoffer : (s.offer piece).2.Accepting := h
      obtain ⟨hrest, hbytes⟩ := ih hoffer
      rw [write_cons hp, if_pos haccepted, ← List.append_assoc]
      refine ⟨hrest, hbytes.trans ?_⟩
      rw [bytes_offer, hnone]
      rfl

end Sink

end Lox
