import Lox.Eval.Value
import Lox.Proofs.Number.Float
import Lox.Proofs.Number.Numeral
import Lox.Syntax.Text

/-! The written forms of a finite number. In a source each is a single token, and each denotes a
value to which the number is the nearest. -/

namespace Lox.Binary64

/-- The number of this pattern is the nearest to the value. -/
def RoundsTo (q : ℚ) (p : ℕ) : Prop := ∀ n m : ℕ, 0 < m → (n : ℚ) / m = q → nearest n m = p

lemma Decimal.roundsTo (d : Decimal) : RoundsTo d.value d.nearest := fun _ _ => d.nearest_of_value

lemma roundsTo_whole {n p : ℕ} (hp : p < infinity) (h : n * one = units p) : RoundsTo n p := by
  intro a m hm hvalue
  have ha : a = n * m := by
    rw [div_eq_iff (by positivity)] at hvalue
    exact_mod_cast hvalue
  apply nearest_units hm hp
  rw [ha, Nat.mul_right_comm, h]

/-- The decimal with the fewest digits among those that read back as the number of the pattern. -/
def digits (p : ℕ) : Decimal := if p = 0 then ⟨0, 0⟩ else shortest .up p

lemma zero_nearest : (⟨0, 0⟩ : Decimal).nearest = 0 := by
  decide +kernel

theorem digits_nearest {p : ℕ} (hp : p < infinity) : (digits p).nearest = p := by
  by_cases hzero : p = 0
  · rw [digits, if_pos hzero, zero_nearest, hzero]
  · rw [digits, if_neg hzero, shortest_nearest .up hp]

lemma digits_value_inj {p q : ℕ} (hp : p < infinity) (hq : q < infinity)
    (h : (digits p).value = (digits q).value) : p = q := by
  rw [← digits_nearest hp, ← digits_nearest hq]
  exact Decimal.nearest_congr h

lemma digits_value_nonneg (p : ℕ) : 0 ≤ (digits p).value := by
  unfold Decimal.value
  positivity

lemma digits_zero : (digits 0).value = 0 := by
  simp [digits, Decimal.value]

lemma digits_leading {p : ℕ} (hp : p < infinity) :
    -324 ≤ (digits p).leading ∧ (digits p).leading ≤ 308 := by
  by_cases hzero : p = 0
  · subst hzero
    decide
  · have hnearest := digits_nearest hp
    exact Decimal.leading_bounds (by omega) (by omega)

lemma Layout.write_up {l : Layout} (htie : l.tie = .up) (hsuffix : l.wholeSuffix = []) (p : ℕ) :
    l.write p = if l.least ≤ (digits p).leading ∧ (digits p).leading ≤ l.greatest then
      (digits p).positional else (digits p).scientific l.exponentWidth := by
  rw [Layout.write, htie, hsuffix, ite_self, List.append_nil]
  rfl

lemma plain_write {p : ℕ} (hp : p < infinity) : Layout.plain.write p = (digits p).positional := by
  rw [Layout.write_up rfl rfl]
  exact if_pos (digits_leading hp)

lemma numeral?_plain {p : ℕ} (hp : p < infinity) :
    ∃ q, numeral? (Layout.plain.write p) = some q ∧ RoundsTo q p := by
  refine ⟨(digits p).value, ?_, ?_⟩
  · rw [plain_write hp, Decimal.numeral?_positional]
  · simpa only [digits_nearest hp] using (digits p).roundsTo

lemma numeral?_point_zero (n : ℕ) :
    numeral? (Nat.toDigits 10 n ++ ".0".toList) = some (n : ℚ) := by
  have hzero : Digits ['0'] := by simp [Digits, Scan.Digit]
  refine (numeral?_point Nat.toDigits_ne_nil (digits_toDigits n) (by simp) hzero).trans ?_
  have hdigits := ofDigits_append_zeros 1 (Nat.toDigits 10 n)
  rw [ofDigits_toDigits] at hdigits
  rw [← List.replicate_one, hdigits]
  simp

theorem numeral?_wholeOrPlain (bound : Option ℕ) {p : ℕ} (hp : p < infinity) :
    ∃ q, numeral? (wholeOrPlain bound p) = some q ∧ RoundsTo q p := by
  unfold wholeOrPlain
  split
  · next n hn =>
    split
    · refine ⟨n, numeral?_point_zero n, roundsTo_whole hp ?_⟩
      unfold whole? at hn
      split at hn
      · next hmod =>
        obtain rfl := Option.some.inj hn
        exact Nat.div_mul_cancel (Nat.dvd_of_mod_eq_zero hmod)
      · cases hn
    · exact numeral?_plain hp
  · exact numeral?_plain hp

lemma lexeme_of_roundsTo {text : List Char} {q : ℚ} {p : ℕ} (h : numeral? text = some q)
    (hq : RoundsTo q p) : Scan.Lexeme (.token (.number (ofPattern false p))) text := by
  obtain ⟨whole, fraction, hl, hvalue⟩ := lexeme_of_numeral h
  have hnumber : ofNumeral whole fraction = ofPattern false p := by
    refine congrArg (ofPattern false) (hq _ _ (Nat.pow_pos (by decide)) ?_)
    rw [hvalue, Nat.pow_eq]
    push_cast
    rfl
  exact hnumber ▸ hl

lemma isNegative_of_lexeme {x : Float} {text : List Char}
    (h : Scan.Lexeme (.token (.number x)) text) : isNegative x = false := by
  cases h <;> exact isNegative_ofPattern false (Nat.min_le_left _ _)

lemma datum_of_finite {x : Float} (hx : x.isFinite = true) :
    datum x = .finite (isNegative x) (pattern x) := if_pos ((isFinite_iff x).1 hx)

section

variable {x : Float} (hx : x.isFinite = true) (hsign : isNegative x = false)

include hx hsign

lemma lexeme_wholeOrPlain (bound : Option ℕ) :
    Scan.Lexeme (.token (.number x)) (wholeOrPlain bound (pattern x)) := by
  obtain ⟨q, hnumeral, hq⟩ := numeral?_wholeOrPlain bound ((isFinite_iff x).1 hx)
  have hlexeme := lexeme_of_roundsTo hnumeral hq
  rwa [← hsign, ofPattern_pattern] at hlexeme

theorem literal_lexeme : Scan.Lexeme (.token (.number x)) (literal x).toList := by
  have hliteral : literal x = .ofList (wholeOrPlain (some signBit) (pattern x)) := by
    simp [literal, datum_of_finite hx, hsign, signed]
  rw [hliteral, String.toList_ofList]
  exact lexeme_wholeOrPlain hx hsign _

theorem expanded_lexeme : Scan.Lexeme (.token (.number x)) (expanded x).toList := by
  have hexpanded : expanded x = .ofList (wholeOrPlain none (pattern x)) := by
    simp [expanded, datum_of_finite hx, hsign, signed]
  rw [hexpanded, String.toList_ofList]
  exact lexeme_wholeOrPlain hx hsign _

end

lemma unsigned?_minus (text : List Char) : unsigned? ('-' :: text) = none := by
  have hdigit : Scan.isDigit '-' = false := rfl
  have hnumeral : ∀ rest, numeral? ('-' :: rest) = none := by
    intro rest
    rw [numeral?, List.takeWhile_cons_of_neg (by simp [hdigit])]
  have htake : ('-' :: text).takeWhile (· != 'e') = '-' :: text.takeWhile (· != 'e') := rfl
  unfold unsigned?
  rw [htake, hnumeral]
  split
  · exact hnumeral text
  · rfl

lemma unsigned?_printed (p : ℕ) : unsigned? (Layout.printed.write p) = some (digits p).value := by
  rw [Layout.write_up rfl rfl]
  split
  · exact unsigned?_of_numeral (Decimal.numeral?_positional _)
  · exact Decimal.unsigned?_scientific _

def shown (x : Float) : ℚ :=
  if isNegative x then -(digits (pattern x)).value else (digits (pattern x)).value

theorem decimal?_printed {x : Float} (hx : x.isFinite = true) :
    decimal? (printed x).toList = some (shown x) := by
  have hhead : (Layout.printed.write (pattern x)).head? ≠ some '-' := by
    intro hminus
    obtain ⟨text, htext⟩ := List.head?_eq_some_iff.1 hminus
    have hvalue := unsigned?_printed (pattern x)
    rw [htext, unsigned?_minus] at hvalue
    cases hvalue
  rw [printed, datum_of_finite hx]
  dsimp only
  rw [String.toList_ofList, decimal?_signed _ (unsigned?_printed _) hhead, shown]
  by_cases hzero : pattern x = 0
  · simp [hzero, digits_zero]
  · simp [hzero]

theorem shown_inj {x y : Float} (hx : x.isFinite = true) (hy : y.isFinite = true)
    (h : shown x = shown y) : (x == y) = true := by
  have hpx := (isFinite_iff x).1 hx
  have hpy := (isFinite_iff y).1 hy
  have hnx := digits_value_nonneg (pattern x)
  have hny := digits_value_nonneg (pattern y)
  unfold shown at h
  have hvalue : (digits (pattern x)).value = (digits (pattern y)).value := by
    split at h <;> split at h <;> linarith
  refine beq_of_pattern hx (digits_value_inj hpx hpy hvalue) fun hne => ?_
  -- Two values that are opposite to each other and not negative are zero.
  by_contra hsign
  have hzero : (digits (pattern x)).value = (digits 0).value := by
    rw [digits_zero]
    cases hsx : isNegative x <;> cases hsy : isNegative y <;> simp [hsx, hsy] at h hsign
    · linarith
    · linarith
  exact hne (digits_value_inj hpx (by decide) hzero)

end Lox.Binary64

namespace Lox

open Binary64

/-- The texts of a finite number say which it is. In a list of tokens or in a tree, where it has no
sign, it is a text that a program can contain, and is read as the number; on the output it is a
decimal whose value is that of the shortest digits. -/
theorem numerals_identify {x : Float} (hx : x.isFinite = true) :
    (isNegative x = false →
      ∀ text ∈ [(TokenType.number x).payload, (Expr.literal (.number x)).text], ∃ token last,
        scan text = [.token token, .token last] ∧ token.type = .number x ∧ last.type = .eof) ∧
    (decimal? (Value.number x).display.toList = some (shown x) ∧
      (digits (pattern x)).nearest = pattern x) ∧
    ∀ y : Float, y.isFinite = true → (Value.number x).display = (Value.number y).display →
      (x == y) = true := by
  have hdisplay : ∀ z : Float, (Value.number z).display = printed z := fun z => by
    simp [Value.display, Value.pieces]
  have hnearest := digits_nearest ((isFinite_iff x).1 hx)
  refine ⟨fun hsign text htext => ?_, ⟨?_, hnearest⟩, fun y hy h => ?_⟩
  · have hscan : Scan.Lexeme (.token (.number x)) text.toList := by
      simp only [List.mem_cons, List.not_mem_nil, or_false] at htext
      rcases htext with rfl | rfl
      · exact literal_lexeme hx hsign
      · exact expanded_lexeme hx hsign
    obtain ⟨token, last, hitems, htype, -, hlast⟩ := Scan.itemsFrom_lexeme hscan .start
    exact ⟨token, last, hitems, htype, hlast⟩
  · rw [hdisplay]
    exact decimal?_printed hx
  · rw [hdisplay, hdisplay] at h
    apply shown_inj hx hy
    have hxy := decimal?_printed hx
    rw [h, decimal?_printed hy] at hxy
    exact (Option.some.inj hxy).symm

def sextillion : Float := ofPattern false 0x444b1ae4d6e2ef50

theorem sextillion_identified : sextillion.isFinite = true ∧
    (∃ token last, scan "1000000000000000000000" = [.token token, .token last] ∧
      token.type = .number sextillion ∧ last.type = .eof) ∧
    (∃ token last, scan "1000000000000000000000.0" = [.token token, .token last] ∧
      token.type = .number sextillion ∧ last.type = .eof) ∧
    decimal? "1e+21".toList = some (10 ^ 21) ∧
    (Value.number (ofPattern false 0)).display = (Value.number (ofPattern true 0)).display ∧
    (ofPattern false 0 == ofPattern true 0) = true := by
  have hfinite : sextillion.isFinite = true := by decide +kernel
  have hsign : isNegative sextillion = false := by decide +kernel
  have hliteral : (TokenType.number sextillion).payload = "1000000000000000000000" := by
    decide +kernel
  have hexpanded : (Expr.literal (.number sextillion)).text =
      "1000000000000000000000.0" := by decide +kernel
  have hdisplay : (Value.number sextillion).display = "1e+21" := by decide +kernel
  have hshown : shown sextillion = 10 ^ 21 := by decide +kernel
  have hzeros : (Value.number (ofPattern false 0)).display =
      (Value.number (ofPattern true 0)).display := by decide +kernel
  obtain ⟨hscan, ⟨hdecimal, -⟩, -⟩ := numerals_identify hfinite
  have hzero : (ofPattern false 0).isFinite = true := by decide +kernel
  obtain ⟨-, -, halike⟩ := numerals_identify hzero
  rw [hliteral, hexpanded] at hscan
  rw [hdisplay, hshown] at hdecimal
  exact ⟨hfinite, hscan hsign _ (by simp), hscan hsign _ (by simp), hdecimal, hzeros,
    halike _ (by decide +kernel) hzeros⟩

end Lox
