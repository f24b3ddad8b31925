import Lox.Token.Scan
import Mathlib.Data.List.Basic
import Mathlib.Data.List.TakeWhile

/-! The lexical grammar, and the piece that is cut at one place: the longest lexeme there. -/

namespace Lox.Scan

def Blank (c : Char) : Prop := c = ' ' ∨ c = '\r' ∨ c = '\t' ∨ c = '\n'

def Digit (c : Char) : Prop := '0' ≤ c ∧ c ≤ '9'

def WordStart (c : Char) : Prop := ('a' ≤ c ∧ c ≤ 'z') ∨ ('A' ≤ c ∧ c ≤ 'Z') ∨ c = '_'

def WordPart (c : Char) : Prop := WordStart c ∨ Digit c

instance : DecidablePred Blank := fun _ => inferInstanceAs (Decidable (_ ∨ _))

instance : DecidablePred Digit := fun _ => inferInstanceAs (Decidable (_ ∧ _))

instance : DecidablePred WordStart := fun _ => inferInstanceAs (Decidable (_ ∨ _))

instance : DecidablePred WordPart := fun _ => inferInstanceAs (Decidable (_ ∨ _))

/-- The texts of each class. A text that is rejected is no lexeme. -/
inductive Lexeme : Class → List Char → Prop
  | blank {c} : Blank c → Lexeme .skipped [c]
  | comment {body} : '\n' ∉ body → Lexeme .skipped ('/' :: '/' :: body)
  | punct (p : Punct) : Lexeme (.token (.punct p)) p.spelling
  | string {body} : '"' ∉ body → Lexeme (.token (.string (.ofList body))) ('"' :: body ++ ['"'])
  | integer {whole} : whole ≠ [] → (∀ d ∈ whole, Digit d) →
      Lexeme (.token (.number (Binary64.ofNumeral whole []))) whole
  | decimal {whole fraction} : whole ≠ [] → (∀ d ∈ whole, Digit d) → fraction ≠ [] →
      (∀ d ∈ fraction, Digit d) →
      Lexeme (.token (.number (Binary64.ofNumeral whole fraction))) (whole ++ '.' :: fraction)
  | keyword (k : Keyword) : Lexeme (.token (.keyword k)) k.spelling
  | identifier {c cs} : WordStart c → (∀ d ∈ cs, WordPart d) →
      (∀ k : Keyword, k.spelling ≠ c :: cs) →
      Lexeme (.token .identifier) (c :: cs)

section

variable {c : Char}

lemma isBlank_iff : isBlank c = true ↔ Blank c := by
  simp [isBlank, Blank, or_assoc]

lemma isDigit_iff : isDigit c = true ↔ Digit c := by
  simp [isDigit, Digit]

lemma isWordStart_iff : isWordStart c = true ↔ WordStart c := by
  simp [isWordStart, WordStart, or_assoc]

lemma isWordPart_iff : isWordPart c = true ↔ WordPart c := by
  simp [isWordPart, WordPart, isWordStart_iff, isDigit_iff]

lemma WordStart.not_digit (h : WordStart c) : ¬ Digit c := by
  rcases h with h | h | rfl
  · simp [Digit, Char.le_def, UInt32.le_iff_toNat_le] at *
    omega
  · simp [Digit, Char.le_def, UInt32.le_iff_toNat_le] at *
    omega
  · decide

lemma Digit.not_blank (h : Digit c) : ¬ Blank c := by
  rintro (rfl | rfl | rfl | rfl) <;> revert h <;> decide

lemma Digit.ne_quote (h : Digit c) : c ≠ '"' := by
  rintro rfl
  revert h
  decide

lemma WordStart.not_blank (h : WordStart c) : ¬ Blank c := by
  rintro (rfl | rfl | rfl | rfl) <;> revert h <;> decide

lemma WordStart.ne_quote (h : WordStart c) : c ≠ '"' := by
  rintro rfl
  revert h
  decide

lemma not_letter_of_punct (h : punct? c ≠ none) :
    ¬ Blank c ∧ c ≠ '"' ∧ ¬ Digit c ∧ ¬ WordStart c := by
  unfold punct? at h
  split at h
  case h_16 => exact absurd rfl h
  all_goals decide

end

lemma Keyword.mem_all (k : Keyword) : k ∈ Keyword.all := by
  cases k <;> decide

lemma wordType_spelling (k : Keyword) : wordType k.spelling = .keyword k := by
  cases k <;> rfl

lemma wordType_lexeme {c : Char} {cs : List Char} (hc : WordStart c) (hcs : ∀ d ∈ cs, WordPart d) :
    Lexeme (.token (wordType (c :: cs))) (c :: cs) := by
  unfold wordType Keyword.ofSpelling?
  cases hk : Keyword.all.find? (·.spelling = c :: cs) with
  | some k =>
    have hs : k.spelling = c :: cs := by simpa using List.find?_some hk
    exact hs ▸ .keyword k
  | none =>
    refine .identifier hc hcs fun k => ?_
    simpa using List.find?_eq_none.1 hk k (Keyword.mem_all k)

lemma wordType_identifier {word : List Char} (h : ∀ k : Keyword, k.spelling ≠ word) :
    wordType word = .identifier := by
  have hk : Keyword.all.find? (·.spelling = word) = none :=
    List.find?_eq_none.2 fun k _ => by simpa using h k
  unfold wordType Keyword.ofSpelling?
  rw [hk]

lemma keyword_letters (k : Keyword) : ∃ c cs, k.spelling = c :: cs ∧ WordStart c ∧
    ∀ d ∈ cs, WordPart d := by
  suffices ∃ c cs, k.spelling = c :: cs ∧ isWordStart c = true ∧ cs.all isWordPart = true by
    obtain ⟨c, cs, hk, hc, hcs⟩ := this
    exact ⟨c, cs, hk, isWordStart_iff.1 hc,
      fun d hd => isWordPart_iff.1 (List.all_eq_true.1 hcs d hd)⟩
  cases k <;> exact ⟨_, _, rfl, rfl, rfl⟩

section

variable {c : Char} (cs : List Char)

lemma munch_blank (h : Blank c) : munch c cs = ⟨.skipped, [c], cs⟩ := by
  rw [munch, if_pos (isBlank_iff.2 h)]

lemma munch_digit (h : Digit c) : munch c cs = munchNumber c cs := by
  rw [munch, if_neg (mt isBlank_iff.1 h.not_blank), if_neg h.ne_quote, if_pos (isDigit_iff.2 h)]

lemma munch_word (h : WordStart c) : munch c cs = munchWord c cs := by
  rw [munch, if_neg (mt isBlank_iff.1 h.not_blank), if_neg h.ne_quote,
    if_neg (mt isDigit_iff.1 h.not_digit), if_pos (isWordStart_iff.2 h)]

lemma munch_other (hb : ¬ Blank c) (hq : c ≠ '"') (hd : ¬ Digit c) (hw : ¬ WordStart c)
    (hs : ¬ (c = '/' ∧ cs.head? = some '/')) : munch c cs = munchPunct c cs := by
  rw [munch, if_neg (mt isBlank_iff.1 hb), if_neg hq, if_neg (mt isDigit_iff.1 hd),
    if_neg (mt isWordStart_iff.1 hw), if_neg hs]

lemma munch_punct (h : punct? c ≠ none) (hs : ¬ (c = '/' ∧ cs.head? = some '/')) :
    munch c cs = munchPunct c cs := by
  obtain ⟨hb, hq, hd, hw⟩ := not_letter_of_punct h
  exact munch_other cs hb hq hd hw hs

end

lemma mem_takeWhile_ne {x c : Char} {cs : List Char} (h : c ∈ cs.takeWhile (· != x)) : c ≠ x := by
  simpa using List.mem_takeWhile_imp h

lemma takeWhile_ne {x : Char} {body : List Char} (h : x ∉ body) (rest : List Char) :
    (body ++ rest).takeWhile (· != x) = body ++ rest.takeWhile (· != x) ∧
      (body ++ rest).dropWhile (· != x) = rest.dropWhile (· != x) := by
  have hall : ∀ c ∈ body, (c != x) = true := by
    intro c hc
    simpa using ne_of_mem_of_not_mem hc h
  exact ⟨List.takeWhile_append_of_pos hall, List.dropWhile_append_of_pos hall⟩

lemma munchString_closed {body : List Char} (h : '"' ∉ body) (rest : List Char) :
    munchString (body ++ '"' :: rest) =
      ⟨.token (.string (.ofList body)), '"' :: body ++ ['"'], rest⟩ := by
  obtain ⟨ht, hd⟩ := takeWhile_ne h ('"' :: rest)
  simp only [munchString, ht, hd]
  simp

lemma munchString_open {body : List Char} (h : '"' ∉ body) :
    munchString body = ⟨.rejected .unterminatedString, '"' :: body, []⟩ := by
  obtain ⟨ht, hd⟩ := takeWhile_ne h []
  rw [List.append_nil] at ht hd
  simp only [munchString, ht, hd]
  simp

lemma munchNumber_fraction {c d : Char} {cs rest : List Char}
    (h : cs.dropWhile isDigit = '.' :: d :: rest) (hd : Digit d) : munchNumber c cs =
      ⟨.token (.number (Binary64.ofNumeral (c :: cs.takeWhile isDigit)
          (d :: rest.takeWhile isDigit))),
        (c :: cs.takeWhile isDigit) ++ '.' :: d :: rest.takeWhile isDigit,
        rest.dropWhile isDigit⟩ := by
  simp only [munchNumber, h, isDigit_iff.2 hd, if_true]

lemma munchNumber_whole {c : Char} {cs : List Char}
    (h : ∀ d rest, cs.dropWhile isDigit = '.' :: d :: rest → ¬ Digit d) : munchNumber c cs =
      ⟨.token (.number (Binary64.ofNumeral (c :: cs.takeWhile isDigit) [])),
        c :: cs.takeWhile isDigit, cs.dropWhile isDigit⟩ := by
  unfold munchNumber
  split
  · next d rest hr =>
    rw [if_neg (mt isDigit_iff.1 (h d rest hr)), hr]
  · rfl

lemma digits_takeWhile (cs : List Char) : ∀ d ∈ cs.takeWhile isDigit, Digit d :=
  fun _ hd => isDigit_iff.1 (List.mem_takeWhile_imp hd)

lemma number_lexeme {c : Char} (cs : List Char) (hc : Digit c) :
    Lexeme (munchNumber c cs).kind (munchNumber c cs).text := by
  have hw : ∀ d ∈ c :: cs.takeWhile isDigit, Digit d :=
    List.forall_mem_cons.2 ⟨hc, digits_takeWhile cs⟩
  by_cases h : ∃ d rest, cs.dropWhile isDigit = '.' :: d :: rest ∧ Digit d
  · obtain ⟨d, rest, hr, hd⟩ := h
    rw [munchNumber_fraction hr hd]
    exact .decimal (List.cons_ne_nil _ _) hw (List.cons_ne_nil _ _)
      (List.forall_mem_cons.2 ⟨hd, digits_takeWhile rest⟩)
  · rw [munchNumber_whole fun d rest hr hd => h ⟨d, rest, hr, hd⟩]
    exact .integer (List.cons_ne_nil _ _) hw

lemma spelling_of_punct {c : Char} {short : Punct} {longer? : Option Punct}
    (h : punct? c = some (short, longer?)) :
    short.spelling = [c] ∧ ∀ longer, longer? = some longer → longer.spelling = [c, '='] := by
  unfold punct? at h
  split at h
  case h_16 => cases h
  all_goals
    cases h
    refine ⟨rfl, fun longer hl => ?_⟩
    cases hl <;> rfl

lemma munchPunct_longer {c : Char} {short longer : Punct} (h : punct? c = some (short, some longer))
    (cs : List Char) : munchPunct c ('=' :: cs) = ⟨.token (.punct longer), [c, '='], cs⟩ := by
  simp [munchPunct, h]

lemma munchPunct_none {c : Char} (h : punct? c = none) (cs : List Char) :
    munchPunct c cs = ⟨.rejected .unexpectedCharacter, [c], cs⟩ := by
  simp [munchPunct, h]

lemma munchPunct_cases {c : Char} {short : Punct} {longer? : Option Punct}
    (h : punct? c = some (short, longer?)) (cs : List Char) :
    (∃ longer rest, longer? = some longer ∧ cs = '=' :: rest ∧
      munchPunct c cs = ⟨.token (.punct longer), [c, '='], rest⟩) ∨
    munchPunct c cs = ⟨.token (.punct short), [c], cs⟩ := by
  unfold munchPunct
  rw [h]
  split
  · next longer rest heq =>
    cases heq
    exact .inl ⟨longer, rest, rfl, rfl, rfl⟩
  · next heq _ =>
    cases heq
    exact .inr rfl
  · next heq => cases heq

lemma punct_lexeme {c : Char} {short : Punct} {longer? : Option Punct}
    (h : punct? c = some (short, longer?)) (cs : List Char) :
    Lexeme (munchPunct c cs).kind (munchPunct c cs).text := by
  obtain ⟨hs, hl⟩ := spelling_of_punct h
  obtain ⟨longer, rest, rfl, rfl, hm⟩ | hm := munchPunct_cases h cs
  · rw [hm]
    exact hl longer rfl ▸ .punct longer
  · rw [hm]
    exact hs ▸ .punct short

inductive Cut (c : Char) (cs : List Char) : Munch → Prop
  | lexeme {m} : Lexeme m.kind m.text → Cut c cs m
  | unterminated : c = '"' → '"' ∉ cs → Cut c cs ⟨.rejected .unterminatedString, c :: cs, []⟩
  | unexpected : c ≠ '"' → Cut c cs ⟨.rejected .unexpectedCharacter, [c], cs⟩

theorem munch_cut (c : Char) (cs : List Char) : Cut c cs (munch c cs) := by
  by_cases hb : Blank c
  · rw [munch_blank cs hb]
    exact .lexeme (.blank hb)
  by_cases hq : c = '"'
  · subst hq
    change Cut '"' cs (munchString cs)
    by_cases h : '"' ∈ cs
    · obtain ⟨body, rest, rfl, hbody⟩ := List.eq_append_cons_of_mem h
      rw [munchString_closed hbody]
      exact .lexeme (.string hbody)
    · rw [munchString_open h]
      exact .unterminated rfl h
  by_cases hd : Digit c
  · rw [munch_digit cs hd]
    exact .lexeme (number_lexeme cs hd)
  by_cases hw : WordStart c
  · rw [munch_word cs hw]
    exact .lexeme (wordType_lexeme hw fun d hd => isWordPart_iff.1 (List.mem_takeWhile_imp hd))
  by_cases hs : c = '/' ∧ cs.head? = some '/'
  · obtain ⟨rfl, hs⟩ := hs
    cases cs with
    | nil => cases hs
    | cons d cs =>
      obtain rfl := Option.some.inj hs
      exact .lexeme (.comment fun h => mem_takeWhile_ne h rfl)
  rw [munch_other cs hb hq hd hw hs]
  cases hp : punct? c with
  | some found => exact .lexeme (punct_lexeme hp cs)
  | none =>
    rw [munchPunct_none hp]
    exact .unexpected hq

structure Within (kind : Class) (text : List Char) (m : Munch) : Prop where
  length : text.length ≤ m.text.length
  kind : text = m.text → kind = m.kind

lemma within_self (m : Munch) : Within m.kind m.text m := ⟨Nat.le_refl _, fun _ => rfl⟩

lemma within_of_lt {kind : Class} {text : List Char} {m : Munch}
    (h : text.length < m.text.length) : Within kind text m :=
  ⟨Nat.le_of_lt h, fun he => absurd (congrArg List.length he) (Nat.ne_of_lt h)⟩

lemma takeWhile_digits {w : List Char} (h : ∀ d ∈ w, Digit d) (rest : List Char) :
    (w ++ rest).takeWhile isDigit = w ++ rest.takeWhile isDigit ∧
      (w ++ rest).dropWhile isDigit = rest.dropWhile isDigit := by
  have hall : ∀ d ∈ w, isDigit d = true := fun d hd => isDigit_iff.2 (h d hd)
  exact ⟨List.takeWhile_append_of_pos hall, List.dropWhile_append_of_pos hall⟩

lemma integer_within {c : Char} {w : List Char} (hc : Digit c) (hw : ∀ d ∈ w, Digit d)
    (rest : List Char) :
    Within (.token (.number (Binary64.ofNumeral (c :: w) []))) (c :: w) (munch c (w ++ rest)) := by
  obtain ⟨ht, -⟩ := takeWhile_digits hw rest
  rw [munch_digit _ hc]
  by_cases h : ∃ d more, (w ++ rest).dropWhile isDigit = '.' :: d :: more ∧ Digit d
  · obtain ⟨d, more, hr, hd⟩ := h
    rw [munchNumber_fraction hr hd]
    apply within_of_lt
    simp [ht]
    omega
  · rw [munchNumber_whole fun d more hr hd => h ⟨d, more, hr, hd⟩, ht]
    constructor
    · simp
    · intro he
      rw [he]

lemma decimal_within {c d : Char} {w f : List Char} (hc : Digit c) (hw : ∀ d ∈ w, Digit d)
    (hd : Digit d) (hf : ∀ d ∈ f, Digit d) (rest : List Char) :
    Within (.token (.number (Binary64.ofNumeral (c :: w) (d :: f)))) (c :: w ++ '.' :: d :: f)
      (munch c (w ++ '.' :: d :: (f ++ rest))) := by
  obtain ⟨ht, hr⟩ := takeWhile_digits hw ('.' :: d :: (f ++ rest))
  obtain ⟨hf, -⟩ := takeWhile_digits hf rest
  have hpoint : isDigit '.' = false := rfl
  have hnumber := @munchNumber_fraction c d _ (f ++ rest) (hr.trans (by simp [hpoint])) hd
  rw [munch_digit _ hc, hnumber, ht, hf]
  simp only [List.takeWhile_cons, hpoint]
  constructor
  · simp
  · intro he
    have hnil : rest.takeWhile isDigit = [] := by simpa using congrArg List.length he
    rw [hnil]
    simp

lemma word_within {c : Char} {w : List Char} (hc : WordStart c) (hw : ∀ d ∈ w, WordPart d)
    (rest : List Char) :
    Within (.token (wordType (c :: w))) (c :: w) (munch c (w ++ rest)) := by
  have hall : ∀ d ∈ w, isWordPart d = true := fun d hd => isWordPart_iff.2 (hw d hd)
  rw [munch_word _ hc, munchWord, List.takeWhile_append_of_pos hall]
  constructor
  · simp
  · intro he
    rw [he]

lemma punct_within {c : Char} {short : Punct} {longer? : Option Punct}
    (h : punct? c = some (short, longer?)) (cs : List Char) :
    Within (.token (.punct short)) [c] (munch c cs) := by
  by_cases hs : c = '/' ∧ cs.head? = some '/'
  · obtain ⟨rfl, hs⟩ := hs
    cases cs with
    | nil => cases hs
    | cons d cs =>
      obtain rfl := Option.some.inj hs
      exact within_of_lt (Nat.succ_lt_succ (Nat.succ_pos _))
  · rw [munch_punct cs (by simp [h]) hs]
    obtain ⟨longer, rest, rfl, rfl, hm⟩ | hm := munchPunct_cases h cs
    · rw [hm]
      exact within_of_lt (Nat.lt_succ_self 1)
    · rw [hm]
      exact within_self ⟨.token (.punct short), [c], cs⟩

lemma equal_within {c : Char} {short longer : Punct} (h : punct? c = some (short, some longer))
    (cs : List Char) : Within (.token (.punct longer)) [c, '='] (munch c ('=' :: cs)) := by
  have hs : ¬ (c = '/' ∧ ('=' :: cs).head? = some '/') := by simp
  rw [munch_punct _ (by simp [h]) hs, munchPunct_longer h]
  exact within_self ⟨.token (.punct longer), [c, '='], cs⟩

theorem lexeme_within {kind : Class} {text rest : List Char} (h : Lexeme kind text) {c : Char}
    {cs : List Char} (ht : text ++ rest = c :: cs) : Within kind text (munch c cs) := by
  cases h with
  | blank hb =>
    obtain ⟨rfl, rfl⟩ := List.cons.inj (List.cons_append.symm.trans ht)
    rw [munch_blank _ hb]
    exact within_self ⟨.skipped, _, _⟩
  | @comment body hbody =>
    obtain ⟨rfl, rfl⟩ := List.cons.inj (List.cons_append.symm.trans ht)
    have hslash : '\n' ∉ '/' :: body := by simpa using hbody
    obtain ⟨htake, -⟩ := takeWhile_ne hslash rest
    have hm : (munch '/' ('/' :: body ++ rest)).text =
        '/' :: ('/' :: body ++ rest).takeWhile (· != '\n') := rfl
    refine ⟨?_, fun _ => rfl⟩
    rw [hm, htake]
    simp
  | @string body hbody =>
    obtain ⟨rfl, rfl⟩ := List.cons.inj (List.cons_append.symm.trans ht)
    have hm : munch '"' (body.append ['"'] ++ rest) = munchString (body ++ '"' :: rest) :=
      congrArg munchString (List.append_assoc body ['"'] rest)
    rw [hm, munchString_closed hbody]
    exact within_self ⟨.token (.string (.ofList body)), '"' :: body ++ ['"'], rest⟩
  | @integer text hne hw =>
    cases text with
    | nil => exact absurd rfl hne
    | cons d w =>
      obtain ⟨rfl, rfl⟩ := List.cons.inj (List.cons_append.symm.trans ht)
      rw [List.forall_mem_cons] at hw
      exact integer_within hw.1 hw.2 rest
  | @decimal whole fraction hne hw hne' hf =>
    cases whole with
    | nil => exact absurd rfl hne
    | cons d w =>
      cases fraction with
      | nil => exact absurd rfl hne'
      | cons e f =>
        obtain ⟨rfl, rfl⟩ := List.cons.inj (List.cons_append.symm.trans ht)
        rw [List.forall_mem_cons] at hw hf
        have hm := decimal_within hw.1 hw.2 hf.1 hf.2 rest
        simpa using hm
  | keyword k =>
    obtain ⟨d, w, hk, hd, hw⟩ := keyword_letters k
    rw [← wordType_spelling k]
    rw [hk] at ht ⊢
    obtain ⟨rfl, rfl⟩ := List.cons.inj (List.cons_append.symm.trans ht)
    exact word_within hd hw rest
  | identifier hd hw hk =>
    obtain ⟨rfl, rfl⟩ := List.cons.inj (List.cons_append.symm.trans ht)
    rw [← wordType_identifier hk]
    exact word_within hd hw rest
  | punct p =>
    cases p <;> obtain ⟨rfl, rfl⟩ := List.cons.inj (List.cons_append.symm.trans ht) <;>
      first | exact punct_within rfl _ | exact equal_within rfl _

end Lox.Scan
