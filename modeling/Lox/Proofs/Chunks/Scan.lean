import Lox.Token.Scan
import Mathlib.Data.List.Basic

/-! Scanning across a line end. No piece but a string reaches over one, so the items before it and
those after it do not depend on each other but for their places. -/

namespace Lox

def Position.shift (bytes lines : ℕ) (pos : Position) : Position :=
  ⟨pos.offset + bytes, pos.line + lines⟩

def Token.shift (bytes lines : ℕ) (t : Token) : Token :=
  { t with offset := t.offset + bytes, line := t.line + lines }

def Item.shift (bytes lines : ℕ) : Item → Item
  | token t => .token (t.shift bytes lines)
  | error e => .error { e with line := e.line + lines }

namespace Scan

variable (bytes lines : ℕ)

lemma advance_shift (pos : Position) (cs : List Char) :
    (pos.shift bytes lines).advance cs = (pos.advance cs).shift bytes lines := by
  induction cs generalizing pos with
  | nil => rfl
  | cons c cs ih =>
    rw [Position.advance, Position.advance, ← ih]
    apply congrArg (Position.advance · cs)
    by_cases h : c = '\n'
    · simp [Position.shift, h]
      omega
    · simp [Position.shift, h]
      omega

lemma item_shift (before after : Position) (m : Munch) :
    item? (before.shift bytes lines) (after.shift bytes lines) m =
      (item? before after m).map (Item.shift bytes lines) := by
  unfold item?
  cases m.kind <;> rfl

theorem itemsFrom_shift (pos : Position) (cs : List Char) :
    itemsFrom (pos.shift bytes lines) cs = (itemsFrom pos cs).map (Item.shift bytes lines) := by
  induction hn : cs.length using Nat.strongRecOn generalizing pos cs with
  | ind n ih =>
    cases cs with
    | nil =>
      rw [itemsFrom, itemsFrom]
      rfl
    | cons c cs =>
      have hlt : (munch c cs).rest.length < n := hn ▸ length_munch_rest c cs
      rw [itemsFrom, itemsFrom]
      simp only [advance_shift, item_shift, List.map_append, ih _ hlt _ _ rfl]
      cases item? pos (pos.advance (munch c cs).text) (munch c cs) <;> rfl

section

variable {p : Char → Bool}

lemma takeWhile_append_found {cs : List Char} (h : cs.dropWhile p ≠ []) (ds : List Char) :
    (cs ++ ds).takeWhile p = cs.takeWhile p := by
  rw [List.takeWhile_append, if_neg]
  intro hl
  have happ := congrArg List.length (List.takeWhile_append_dropWhile (p := p) (l := cs))
  rw [List.length_append, hl] at happ
  exact h (List.length_eq_zero_iff.1 (by omega))

lemma dropWhile_append_found {cs : List Char} (h : cs.dropWhile p ≠ []) (ds : List Char) :
    (cs ++ ds).dropWhile p = cs.dropWhile p ++ ds := by
  rw [List.dropWhile_append, if_neg]
  simpa using h

variable {x : Char} (hx : p x = false) (cs ds : List Char)

include hx

lemma takeWhile_append_stop : (cs ++ x :: ds).takeWhile p = cs.takeWhile p := by
  induction cs with
  | nil => simp [hx]
  | cons c cs ih => rw [List.cons_append, List.takeWhile_cons, List.takeWhile_cons, ih]

lemma dropWhile_append_stop : (cs ++ x :: ds).dropWhile p = cs.dropWhile p ++ x :: ds := by
  rw [List.dropWhile_append]
  split
  · next h =>
    rw [List.isEmpty_iff.1 h, List.dropWhile_cons, hx]
    rfl
  · rfl

end

def Munch.before (m : Munch) (cs : List Char) : Munch := { m with rest := m.rest ++ cs }

variable (ds : List Char)

lemma munchString_before {cs : List Char}
    (h : (munchString cs).kind ≠ .rejected .unterminatedString) :
    munchString (cs ++ ds) = (munchString cs).before ds := by
  have hfound : cs.dropWhile (· != '"') ≠ [] := by
    intro hd
    rw [munchString, hd] at h
    exact h rfl
  rw [munchString, munchString, takeWhile_append_found hfound, dropWhile_append_found hfound]
  cases hd : cs.dropWhile (· != '"') with
  | nil => exact absurd hd hfound
  | cons quote rest => rfl

section

variable {x : Char} (hx : isBlank x = true)
include hx

lemma blank_cases : x = ' ' ∨ x = '\r' ∨ x = '\t' ∨ x = '\n' := by
  simpa [isBlank, or_assoc] using hx

lemma blank_ends_digits : isDigit x = false := by
  rcases blank_cases hx with rfl | rfl | rfl | rfl <;> rfl

lemma munchNumber_before (c : Char) (cs : List Char) :
    munchNumber c (cs ++ x :: ds) = (munchNumber c cs).before (x :: ds) := by
  have hn := blank_ends_digits hx
  rw [munchNumber, munchNumber, takeWhile_append_stop hn, dropWhile_append_stop hn]
  cases cs.dropWhile isDigit with
  | nil => rcases blank_cases hx with rfl | rfl | rfl | rfl <;> rfl
  | cons point rest =>
    by_cases hp : point = '.'
    · subst hp
      cases rest with
      | nil =>
        simp only [List.cons_append, List.nil_append, hn, Bool.false_eq_true, if_false]
        rfl
      | cons d rest =>
        cases hd : isDigit d with
        | true =>
          simp only [List.cons_append, hd, if_true, takeWhile_append_stop hn,
            dropWhile_append_stop hn]
          rfl
        | false =>
          simp only [List.cons_append, hd, Bool.false_eq_true, if_false]
          rfl
    · split
      · next h => exact absurd (List.cons.inj h).1 hp
      · split
        · next h => exact absurd (List.cons.inj h).1 hp
        · rfl

lemma munchWord_before (c : Char) (cs : List Char) :
    munchWord c (cs ++ x :: ds) = (munchWord c cs).before (x :: ds) := by
  have hn : isWordPart x = false := by
    rcases blank_cases hx with rfl | rfl | rfl | rfl <;> rfl
  rw [munchWord, munchWord, takeWhile_append_stop hn, dropWhile_append_stop hn]
  rfl

lemma munchPunct_before (c : Char) (cs : List Char) :
    munchPunct c (cs ++ x :: ds) = (munchPunct c cs).before (x :: ds) := by
  unfold munchPunct
  cases punct? c with
  | none => rfl
  | some found =>
    obtain ⟨short, longer?⟩ := found
    cases longer? with
    | none => rfl
    | some longer =>
      cases cs with
      | nil => rcases blank_cases hx with rfl | rfl | rfl | rfl <;> rfl
      | cons d cs =>
        by_cases hd : d = '='
        · subst hd
          rfl
        · split <;> split <;> simp_all [Munch.before]

theorem munch_before (c : Char) {cs : List Char}
    (h : (munch c cs).kind ≠ .rejected .unterminatedString)
    (hc : x = '\n' ∨ (munch c cs).kind ≠ .skipped) :
    munch c (cs ++ x :: ds) = (munch c cs).before (x :: ds) := by
  unfold munch at h hc ⊢
  split
  · rfl
  split
  · exact munchString_before _ (by simp_all)
  split
  · exact munchNumber_before ds hx c cs
  split
  · exact munchWord_before ds hx c cs
  have hhead : (cs ++ x :: ds).head? = some '/' ↔ cs.head? = some '/' := by
    cases cs with
    | nil => rcases blank_cases hx with rfl | rfl | rfl | rfl <;> simp
    | cons d cs => rfl
  simp only [hhead]
  split
  · have hline : x = '\n' := by simp_all
    have hn : (x != '\n') = false := by simp [hline]
    rw [takeWhile_append_stop (p := (· != '\n')) hn, dropWhile_append_stop (p := (· != '\n')) hn]
    rfl
  · exact munchPunct_before ds hx c cs

end

lemma itemsFrom_ne_nil (pos : Position) (cs : List Char) : itemsFrom pos cs ≠ [] := by
  induction hn : cs.length using Nat.strongRecOn generalizing pos cs with
  | ind n ih =>
    cases cs with
    | nil =>
      rw [itemsFrom]
      exact List.cons_ne_nil _ _
    | cons c cs =>
      rw [itemsFrom]
      exact List.append_ne_nil_of_right_ne_nil _ (ih _ (hn ▸ length_munch_rest c cs) _ _ rfl)

theorem itemsFrom_append (pos : Position) (cs ds : List Char)
    (h : ∀ e, Item.error e ∈ itemsFrom pos cs → e.fault ≠ .unterminatedString) :
    itemsFrom pos (cs ++ '\n' :: ds) =
      (itemsFrom pos cs).dropLast ++ itemsFrom (pos.advance (cs ++ ['\n'])) ds := by
  induction hn : cs.length using Nat.strongRecOn generalizing pos cs with
  | ind n ih =>
    cases cs with
    | nil =>
      rw [List.nil_append, itemsFrom, itemsFrom]
      rfl
    | cons c cs =>
      have hlt : (munch c cs).rest.length < n := hn ▸ length_munch_rest c cs
      rw [itemsFrom] at h
      have hkind : (munch c cs).kind ≠ .rejected .unterminatedString := by
        intro hk
        refine h ⟨.unterminatedString, (pos.advance (munch c cs).text).line⟩
          (List.mem_append_left _ ?_) rfl
        rw [item?, hk]
        exact List.mem_singleton_self _
      have hrest := ih _ hlt (pos.advance (munch c cs).text) (munch c cs).rest
        (fun e he => h e (List.mem_append_right _ he)) rfl
      have hadvance : pos.advance (c :: cs ++ ['\n']) =
          (pos.advance (munch c cs).text).advance ((munch c cs).rest ++ ['\n']) := by
        rw [← munch_append, List.append_assoc, Position.advance_append]
      rw [List.cons_append, itemsFrom, munch_before ds rfl c hkind (.inl rfl)]
      simp only [Munch.before, hadvance]
      rw [hrest, itemsFrom, List.dropLast_append_of_ne_nil (itemsFrom_ne_nil _ _),
        List.append_assoc]
      rfl

lemma wordType_ne_eof (word : List Char) : wordType word ≠ .eof := by
  unfold wordType
  split <;> exact nofun

lemma token_ne_eof {c : Char} {cs : List Char} {type : TokenType}
    (h : (munch c cs).kind = .token type) : type ≠ .eof := by
  unfold munch at h
  split at h
  · cases h
  split at h
  · unfold munchString at h
    split at h <;> cases h
    exact nofun
  split at h
  · unfold munchNumber at h
    split at h
    · split at h <;> cases h <;> exact nofun
    · cases h
      exact nofun
  split at h
  · cases h
    exact wordType_ne_eof _
  split at h
  · cases h
  · unfold munchPunct at h
    split at h <;> cases h <;> exact nofun

theorem itemsFrom_eq (pos : Position) (cs : List Char) : ∃ items last,
    itemsFrom pos cs = items ++ [.token last] ∧ last.type = .eof ∧
      ∀ t, Item.token t ∈ items → t.type ≠ .eof := by
  induction hn : cs.length using Nat.strongRecOn generalizing pos cs with
  | ind n ih =>
    cases cs with
    | nil =>
      rw [itemsFrom]
      exact ⟨[], _, rfl, rfl, fun _ ht => absurd ht List.not_mem_nil⟩
    | cons c cs =>
      have hlt : (munch c cs).rest.length < n := hn ▸ length_munch_rest c cs
      obtain ⟨items, last, he, hlast, hitems⟩ :=
        ih _ hlt (pos.advance (munch c cs).text) (munch c cs).rest rfl
      rw [itemsFrom]
      refine ⟨(item? pos (pos.advance (munch c cs).text) (munch c cs)).toList ++ items, last, ?_,
        hlast, fun t ht => ?_⟩
      · rw [List.append_assoc, ← he]
      · rcases List.mem_append.1 ht with ht | ht
        · rw [item?] at ht
          cases hk : (munch c cs).kind with
          | token type =>
            rw [hk] at ht
            obtain rfl := Item.token.inj (List.mem_singleton.1 ht)
            exact token_ne_eof hk
          | skipped =>
            rw [hk] at ht
            cases ht
          | rejected fault =>
            rw [hk] at ht
            cases List.mem_singleton.1 ht
        · exact hitems t ht

end Scan

end Lox
