import Lox.Proofs.Lexical.Joined
import Lox.Proofs.Number.Decimal

/-! What a written number says. `numeral?` reads the numerals of the language, `decimal?` also a
power of ten after them and a sign before them. -/

namespace Lox.Binary64

open Scan

def numeral? (text : List Char) : Option ℚ :=
  match text.takeWhile isDigit, text.dropWhile isDigit with
  | [], _ => none
  | whole, [] => some (ofDigits whole)
  | whole, '.' :: fraction =>
    if fraction ≠ [] ∧ fraction.all isDigit then
      some (ofDigits (whole ++ fraction) / 10 ^ fraction.length)
    else none
  | _, _ => none

def exponent? : List Char → Option ℤ
  | [] => none
  | sign :: places =>
    if 2 ≤ places.length ∧ places.all isDigit then
      match sign with
      | '+' => some (ofDigits places)
      | '-' => some (-ofDigits places)
      | _ => none
    else none

def unsigned? (text : List Char) : Option ℚ :=
  match text.dropWhile (· != 'e') with
  | [] => numeral? text
  | _ :: places => do
    let mantissa ← numeral? (text.takeWhile (· != 'e'))
    let exponent ← exponent? places
    some (mantissa * 10 ^ exponent)

/-- The value of a decimal: a numeral, perhaps with an exponent, perhaps with a minus sign. -/
def decimal? : List Char → Option ℚ
  | '-' :: text => (unsigned? text).map (-·)
  | text => unsigned? text

def Digits (ds : List Char) : Prop := ∀ d ∈ ds, Digit d

lemma ofDigits_eq (ds : List Char) : ofDigits ds = Nat.ofDigitChars 10 ds 0 := rfl

lemma ofDigits_toDigits (n : ℕ) : ofDigits (Nat.toDigits 10 n) = n := Nat.ofDigitChars_ten_toDigits

lemma digits_toDigits (n : ℕ) : Digits (Nat.toDigits 10 n) := by
  intro d hd
  have h := Nat.isDigit_of_mem_toDigits (by decide) (by decide) hd
  simpa [Char.isDigit, Digit, Char.le_def, UInt32.le_iff_toNat_le] using h

lemma digits_zeros (n : ℕ) : Digits (List.replicate n '0') := by
  intro d hd
  rw [List.eq_of_mem_replicate hd]
  decide

lemma ofDigits_zeros_append (n : ℕ) (ds : List Char) :
    ofDigits (List.replicate n '0' ++ ds) = ofDigits ds := by
  rw [ofDigits_eq, Nat.ofDigitChars_append, Nat.ofDigitChars_replicate_zero, Nat.mul_zero]
  rfl

lemma ofDigits_append_zeros (n : ℕ) (ds : List Char) :
    ofDigits (ds ++ List.replicate n '0') = ofDigits ds * 10 ^ n := by
  rw [ofDigits_eq, Nat.ofDigitChars_append, Nat.ofDigitChars_replicate_zero, Nat.mul_comm]
  rfl

lemma padded (width n : ℕ) :
    Digits (List.replicate (width - (Nat.toDigits 10 n).length) '0' ++ Nat.toDigits 10 n) ∧
    ofDigits (List.replicate (width - (Nat.toDigits 10 n).length) '0' ++ Nat.toDigits 10 n) = n ∧
    width ≤ (List.replicate (width - (Nat.toDigits 10 n).length) '0' ++
      Nat.toDigits 10 n).length := by
  refine ⟨fun c hc => ?_, ?_, ?_⟩
  · exact (List.mem_append.1 hc).elim (digits_zeros _ c) (digits_toDigits _ c)
  · rw [ofDigits_zeros_append, ofDigits_toDigits]
  · rw [List.length_append, List.length_replicate]
    omega

section

variable {whole fraction : List Char}

lemma numeral?_whole (hne : whole ≠ []) (hw : Digits whole) :
    numeral? whole = some (ofDigits whole : ℚ) := by
  obtain ⟨ht, hd⟩ := takeWhile_digits hw []
  rw [List.append_nil] at ht hd
  rw [numeral?, ht, hd, List.takeWhile_nil, List.dropWhile_nil, List.append_nil]
  obtain ⟨c, cs, rfl⟩ := List.exists_cons_of_ne_nil hne
  rfl

lemma numeral?_point (hne : whole ≠ []) (hw : Digits whole) (hne' : fraction ≠ [])
    (hf : Digits fraction) : numeral? (whole ++ '.' :: fraction) =
      some (ofDigits (whole ++ fraction) / 10 ^ fraction.length : ℚ) := by
  obtain ⟨ht, hd⟩ := takeWhile_digits hw ('.' :: fraction)
  have hpoint : isDigit '.' = false := rfl
  have hall : fraction.all isDigit = true := List.all_eq_true.2 fun d h => isDigit_iff.2 (hf d h)
  rw [numeral?, ht, hd, List.takeWhile_cons_of_neg (by simp [hpoint]),
    List.dropWhile_cons_of_neg (by simp [hpoint]), List.append_nil]
  obtain ⟨c, cs, rfl⟩ := List.exists_cons_of_ne_nil hne
  exact if_pos ⟨hne', hall⟩

lemma numeral?_split {ds : List Char} (hds : Digits ds) {n : ℕ} (hpos : 0 < n)
    (hn : n < ds.length) : numeral? (ds.take (ds.length - n) ++ '.' :: ds.drop (ds.length - n)) =
      some (ofDigits ds / 10 ^ n : ℚ) := by
  have hwhole : ds.take (ds.length - n) ≠ [] := by
    rw [← List.length_pos_iff, List.length_take]
    omega
  have hfraction : ds.drop (ds.length - n) ≠ [] := by
    rw [← List.length_pos_iff, List.length_drop]
    omega
  rw [numeral?_point hwhole (fun d hd => hds d (List.mem_of_mem_take hd)) hfraction
    fun d hd => hds d (List.mem_of_mem_drop hd)]
  rw [List.take_append_drop, List.length_drop, Nat.sub_sub_self (Nat.le_of_lt hn)]

lemma lexeme_of_numeral {text : List Char} {q : ℚ} (h : numeral? text = some q) :
    ∃ whole fraction, Lexeme (.token (.number (ofNumeral whole fraction))) text ∧
      q = ofDigits (whole ++ fraction) / 10 ^ fraction.length := by
  unfold numeral? at h
  have happend := List.takeWhile_append_dropWhile (p := isDigit) (l := text)
  have hw : Digits (text.takeWhile isDigit) := digits_takeWhile text
  generalize text.takeWhile isDigit = whole, text.dropWhile isDigit = rest at h happend hw
  subst happend
  split at h
  · cases h
  · next hne =>
    rw [List.append_nil]
    refine ⟨_, [], .integer hne hw, ?_⟩
    simpa using (Option.some.inj h).symm
  · next fraction hne =>
    split at h
    · next hf =>
      refine ⟨_, _, .decimal hne hw hf.1 ?_, (Option.some.inj h).symm⟩
      exact fun d hd => isDigit_iff.1 (List.all_eq_true.1 hf.2 d hd)
    · cases h
  · cases h

lemma chars_of_lexeme {x : Float} {text : List Char} (h : Lexeme (.token (.number x)) text) :
    ∀ c ∈ text, Digit c ∨ c = '.' := by
  intro c hc
  cases h with
  | integer _ hw => exact .inl (hw c hc)
  | decimal _ hw _ hf =>
    rw [List.mem_append, List.mem_cons] at hc
    rcases hc with hc | hc | hc
    · exact .inl (hw c hc)
    · exact .inr hc
    · exact .inl (hf c hc)

variable {text : List Char} {q : ℚ}

lemma numeral_chars (h : numeral? text = some q) : ∀ c ∈ text, Digit c ∨ c = '.' := by
  obtain ⟨_, _, hl, -⟩ := lexeme_of_numeral h
  exact chars_of_lexeme hl

lemma not_mem_of_numeral (h : numeral? text = some q) {c : Char} (hc : ¬ (Digit c ∨ c = '.')) :
    c ∉ text :=
  fun hmem => hc (numeral_chars h c hmem)

end

section

variable {text : List Char} {q : ℚ}

lemma unsigned?_of_numeral (h : numeral? text = some q) : unsigned? text = some q := by
  obtain ⟨ht, hd⟩ := takeWhile_ne (not_mem_of_numeral h (by decide : ¬ (Digit 'e' ∨ 'e' = '.'))) []
  rw [List.append_nil, List.dropWhile_nil] at hd
  rw [unsigned?, hd]
  exact h

lemma unsigned?_exponent (h : numeral? text = some q) {places : List Char} {e : ℤ}
    (he : exponent? places = some e) : unsigned? (text ++ 'e' :: places) = some (q * 10 ^ e) := by
  obtain ⟨ht, hd⟩ := takeWhile_ne (not_mem_of_numeral h (by decide : ¬ (Digit 'e' ∨ 'e' = '.')))
    ('e' :: places)
  have hdrop : (text ++ 'e' :: places).dropWhile (· != 'e') = 'e' :: places := by simp [hd]
  have htake : (text ++ 'e' :: places).takeWhile (· != 'e') = text := by simp [ht]
  rw [unsigned?, hdrop, htake]
  simp [h, he]

lemma decimal?_signed (negative : Bool) (h : unsigned? text = some q) (hc : text.head? ≠ some '-') :
    decimal? (signed negative text) = some (if negative then -q else q) := by
  cases negative with
  | true => simp [signed, decimal?, h]
  | false =>
    cases text with
    | nil => exact h
    | cons c cs =>
      have hne : c ≠ '-' := fun he => hc (congrArg some he)
      unfold signed decimal?
      split
      · next heq => exact absurd (List.cons.inj heq).1 hne
      · exact h

end

namespace Decimal

lemma value_ofNat (n k : ℕ) : (⟨n, .ofNat k⟩ : Decimal).value = (n * 10 ^ k : ℕ) := by
  simp [value]

lemma value_negSucc (n k : ℕ) : (⟨n, .negSucc k⟩ : Decimal).value = n / 10 ^ (k + 1) := by
  rw [value, zpow_negSucc, div_eq_mul_inv]

theorem numeral?_positional (d : Decimal) : numeral? d.positional = some d.value := by
  obtain ⟨digits, exponent⟩ := d
  cases exponent with
  | ofNat k =>
    have hdigits : Digits (Nat.toDigits 10 digits ++ List.replicate k '0') := by
      intro c hc
      exact (List.mem_append.1 hc).elim (digits_toDigits _ c) (digits_zeros _ c)
    rw [value_ofNat]
    refine (numeral?_whole (by simp) hdigits).trans ?_
    rw [ofDigits_append_zeros, ofDigits_toDigits]
  | negSucc k =>
    obtain ⟨hdigits, hvalue, hlength⟩ := padded (k + 2) digits
    rw [value_negSucc]
    refine (numeral?_split hdigits (Nat.succ_pos k) hlength).trans ?_
    rw [hvalue]

lemma numeral?_mantissa (first : Char) (rest : List Char) (h : Digits (first :: rest)) :
    numeral? (match first :: rest with
      | first :: (second :: rest) => first :: '.' :: second :: rest
      | single => single) = some (ofDigits (first :: rest) / 10 ^ rest.length : ℚ) := by
  cases rest with
  | nil => simpa using numeral?_whole (List.cons_ne_nil _ _) h
  | cons second rest =>
    obtain ⟨hfirst, hrest⟩ := List.forall_mem_cons.1 h
    have hwhole : Digits [first] := fun d hd => List.mem_singleton.1 hd ▸ hfirst
    exact numeral?_point (List.cons_ne_nil _ _) hwhole (List.cons_ne_nil _ _) hrest

lemma exponent?_leading (d : Decimal) :
    exponent? ((if d.leading < 0 then '-' else '+') ::
      (List.replicate (2 - (Nat.toDigits 10 d.leading.natAbs).length) '0' ++
        Nat.toDigits 10 d.leading.natAbs)) = some d.leading := by
  obtain ⟨hdigits, hvalue, hlength⟩ := padded 2 d.leading.natAbs
  have hall := List.all_eq_true.2 fun c hc => isDigit_iff.2 (hdigits c hc)
  by_cases hnegative : d.leading < 0
  · rw [if_pos hnegative, exponent?, if_pos ⟨hlength, hall⟩, hvalue]
    exact congrArg some (by omega)
  · rw [if_neg hnegative, exponent?, if_pos ⟨hlength, hall⟩, hvalue]
    exact congrArg some (by omega)

theorem unsigned?_scientific (d : Decimal) : unsigned? (d.scientific 2) = some d.value := by
  obtain ⟨first, rest, htext⟩ : ∃ first rest, d.text = first :: rest :=
    List.exists_cons_of_ne_nil Nat.toDigits_ne_nil
  have hmantissa := numeral?_mantissa first rest (htext ▸ digits_toDigits d.digits)
  have hscientific := unsigned?_exponent hmantissa d.exponent?_leading
  have hdigits : ofDigits (first :: rest) = d.digits := htext ▸ ofDigits_toDigits d.digits
  have hleading : d.leading = d.exponent + rest.length := by
    rw [leading, htext, List.length_cons]
    omega
  rw [scientific, htext]
  refine hscientific.trans (congrArg some ?_)
  rw [hdigits, hleading, value, zpow_add₀ (by norm_num), zpow_natCast]
  field_simp

end Decimal

end Lox.Binary64
