import Mathlib.Data.List.TakeWhile

/-! Nested lists of words, and their text: the parts of a list in parentheses, one space apart. If
no word is empty or contains a space or a parenthesis, the text can be read in one way only. -/

namespace Lox

inductive Sexp where
  | word (w : String)
  | list (parts : List Sexp)

namespace Sexp

mutual

def chars : Sexp → List Char
  | word w => w.toList
  | list [] => ['(', ')']
  | list (first :: rest) => '(' :: (first.chars ++ moreChars rest)

def moreChars : List Sexp → List Char
  | [] => [')']
  | part :: rest => ' ' :: (part.chars ++ moreChars rest)

end

def Delimiter (c : Char) : Prop := c = ' ' ∨ c = '(' ∨ c = ')'

instance : DecidablePred Delimiter := fun _ => inferInstanceAs (Decidable (_ ∨ _))

def PlainWord (w : String) : Prop := w.toList ≠ [] ∧ ∀ c ∈ w.toList, ¬ Delimiter c

mutual

def Plain : Sexp → Prop
  | word w => PlainWord w
  | list parts => ListPlain parts

def ListPlain : List Sexp → Prop
  | [] => True
  | part :: rest => part.Plain ∧ ListPlain rest

end

def Cut (rest : List Char) : Prop := ∀ c ∈ rest.head?, Delimiter c

lemma cut_moreChars (parts : List Sexp) (rest : List Char) : Cut (moreChars parts ++ rest) := by
  cases parts <;> simp [Cut, moreChars, Delimiter]

lemma takeWhile_word {w : String} (hw : PlainWord w) {rest : List Char} (hr : Cut rest) :
    (w.toList ++ rest).takeWhile (fun c => decide (¬ Delimiter c)) = w.toList := by
  rw [List.takeWhile_append_of_pos fun c hc => decide_eq_true (hw.2 c hc)]
  cases rest with
  | nil => simp
  | cons c rest =>
    have hc : Delimiter c := hr c rfl
    simp [hc]

lemma word_ne_delimiter {w : String} (hw : PlainWord w) {rest more : List Char} {c : Char}
    (hc : Delimiter c) : w.toList ++ rest ≠ c :: more := by
  obtain ⟨d, ds, hd⟩ := List.exists_cons_of_ne_nil hw.1
  rw [hd, List.cons_append]
  intro h
  have hplain := hw.2 d (hd ▸ List.mem_cons_self)
  rw [(List.cons.inj h).1] at hplain
  exact hplain hc

lemma chars_ne_close {s : Sexp} (hs : s.Plain) {rest more : List Char} :
    s.chars ++ rest ≠ ')' :: more := by
  cases s with
  | word w => exact word_ne_delimiter hs (.inr (.inr rfl))
  | list parts => cases parts <;> simp [chars]

-- The first character tells a word from a list. A word ends where a delimiter follows, a list where
-- the parenthesis stands that is followed by no further part.
mutual

theorem chars_unique : ∀ {s t : Sexp} {rest more : List Char}, s.Plain → t.Plain → Cut rest →
    Cut more → s.chars ++ rest = t.chars ++ more → s = t ∧ rest = more
  | word w, word v, rest, more, hw, hv, hr, hm, h => by
    have htake := congrArg (List.takeWhile fun c => decide (¬ Delimiter c)) h
    simp only [chars, takeWhile_word hw hr, takeWhile_word hv hm] at htake
    obtain rfl := String.toList_inj.1 htake
    exact ⟨rfl, List.append_cancel_left h⟩
  | word w, list ps, _, _, hw, _, _, _, h => by
    cases ps <;> exact absurd h (word_ne_delimiter hw (.inr (.inl rfl)))
  | list ps, word v, _, _, _, hv, _, _, h => by
    cases ps <;> exact absurd h.symm (word_ne_delimiter hv (.inr (.inl rfl)))
  | list [], list [], _, _, _, _, _, _, h => ⟨rfl, List.append_cancel_left h⟩
  | list [], list (q :: qs), _, _, _, hq, _, _, h => by
    simp only [chars, List.cons_append, List.nil_append, List.append_assoc, List.cons.injEq] at h
    exact absurd h.2.symm (chars_ne_close hq.1)
  | list (p :: ps), list [], _, _, hp, _, _, _, h => by
    simp only [chars, List.cons_append, List.nil_append, List.append_assoc, List.cons.injEq] at h
    exact absurd h.2 (chars_ne_close hp.1)
  | list (p :: ps), list (q :: qs), rest, more, hp, hq, hr, hm, h => by
    simp only [chars, List.cons_append, List.append_assoc, List.cons.injEq, true_and] at h
    obtain ⟨rfl, hparts⟩ := chars_unique hp.1 hq.1 (cut_moreChars ps rest) (cut_moreChars qs more) h
    obtain ⟨rfl, hrest⟩ := moreChars_unique hp.2 hq.2 hr hm hparts
    exact ⟨rfl, hrest⟩

lemma moreChars_unique : ∀ {ps qs : List Sexp} {rest more : List Char}, ListPlain ps →
    ListPlain qs → Cut rest → Cut more → moreChars ps ++ rest = moreChars qs ++ more →
    ps = qs ∧ rest = more
  | [], [], _, _, _, _, _, _, h => ⟨rfl, List.append_cancel_left h⟩
  | [], _ :: _, _, _, _, _, _, _, h | _ :: _, [], _, _, _, _, _, _, h => by
    simp [moreChars] at h
  | p :: ps, q :: qs, rest, more, hp, hq, hr, hm, h => by
    simp only [moreChars, List.cons_append, List.append_assoc, List.cons.injEq, true_and] at h
    obtain ⟨rfl, hparts⟩ := chars_unique hp.1 hq.1 (cut_moreChars ps rest) (cut_moreChars qs more) h
    obtain ⟨rfl, hrest⟩ := moreChars_unique hp.2 hq.2 hr hm hparts
    exact ⟨rfl, hrest⟩

end

theorem chars_inj {s t : Sexp} (hs : s.Plain) (ht : t.Plain) (h : s.chars = t.chars) : s = t := by
  have hcut : Cut [] := by simp [Cut]
  exact (chars_unique hs ht hcut hcut (congrArg (· ++ []) h)).1

end Sexp

end Lox
