import Lox.Proofs.Lexical.Bytes

/-! The scanner that yields one item at a time yields the items of its source. -/

namespace Lox.Scanner

open Scan

def inside (before text rest : List Char) (pending : Option TokenType) : Scanner :=
  ⟨.ofList (before ++ text ++ rest), byteOffset before, byteOffset (before ++ text),
    lineAfter (before ++ text), pending⟩

section

variable {before text rest : List Char} {pending : Option TokenType}

lemma ahead_inside : (inside before text rest pending).ahead = bytes rest := by
  rw [ahead, List.map_drop]
  change ((String.ofList _).toByteArray.data.toList.map Char.ofUInt8).drop (byteOffset _) = _
  rw [bytes_ofList, bytes_append, ← length_bytes, List.drop_left]

lemma examined_inside : (inside before text rest pending).examined = bytes text := by
  have hahead : { inside before text rest pending with curr := byteOffset before }.ahead =
      bytes (text ++ rest) := by
    have h := @ahead_inside before [] (text ++ rest) pending
    simp only [inside, List.append_nil, ← List.append_assoc] at h
    exact h
  have hlength : byteOffset (before ++ text) - byteOffset before = (bytes text).length := by
    rw [byteOffset_append, Nat.add_sub_cancel_left, length_bytes]
  calc (inside before text rest pending).examined
    _ = (bytes (text ++ rest)).take (bytes text).length := by
      rw [← hahead, ← hlength]
      rfl
    _ = bytes text := by rw [bytes_append, List.take_left]

lemma inside_append (more : List Char) : inside before (text ++ more) rest pending =
    { inside before text (more ++ rest) pending with
      curr := byteOffset (before ++ text) + byteOffset more
      line := lineAfter (before ++ text) + more.count '\n' } := by
  simp only [inside, ← List.append_assoc, byteOffset_append, lineAfter_append]

lemma atEnd_inside : (inside before text rest pending).length ≤
    (inside before text rest pending).curr ↔ rest = [] := by
  change (String.ofList (before ++ text ++ rest)).utf8ByteSize ≤ byteOffset (before ++ text) ↔ _
  rw [utf8ByteSize_ofList, byteOffset_append]
  cases rest with
  | nil => simp [byteOffset]
  | cons c cs =>
    have hc := c.utf8Size_pos
    simp [byteOffset]
    omega

lemma byteOffset_narrow {c : Char} (hc : c.toNat < 128) : byteOffset [c] = 1 := by
  rw [← length_bytes, bytes_narrow hc, List.length_singleton]

lemma skip_inside (more : List Char) (hm : '\n' ∉ more) {n : Nat} (hn : n = byteOffset more) :
    (inside before text (more ++ rest) pending).skip n =
      inside before (text ++ more) rest pending := by
  rw [inside_append, List.count_eq_zero_of_not_mem hm, hn]
  rfl

lemma skip_narrow {c : Char} (hc : c.toNat < 128) (hn : c ≠ '\n') :
    (inside before text (c :: rest) pending).skip 1 = inside before (text ++ [c]) rest pending :=
  skip_inside [c] (by simpa using hn.symm) (byteOffset_narrow hc).symm

section

variable {p : Char → Bool} (hp : Narrow p)
include hp

lemma passWhile_inside : (inside before text rest pending).passWhile p =
    inside before (text ++ rest.takeWhile p) (rest.dropWhile p) pending := by
  rw [inside_append, List.takeWhile_append_dropWhile, passWhile, skipWhile, ahead_inside,
    takeWhile_bytes hp, length_bytes, count_bytes]
  rfl

lemma skipWhile_inside (hn : p '\n' = false) : (inside before text rest pending).skipWhile p =
    inside before (text ++ rest.takeWhile p) (rest.dropWhile p) pending := by
  have hm : '\n' ∉ rest.takeWhile p := fun h => absurd (List.mem_takeWhile_imp h) (by simp [hn])
  rw [inside_append, List.takeWhile_append_dropWhile, skipWhile, ahead_inside, takeWhile_bytes hp,
    length_bytes, List.count_eq_zero_of_not_mem hm]
  rfl

end

lemma slice?_inside : slice? (inside before text rest pending).source
    (inside before text rest pending).start (inside before text rest pending).curr =
      some (.ofList text) :=
  slice?_byteOffset before text rest

end

section

variable {c : Char} (h : 128 ≤ c.toNat)
include h

lemma wide_ne {x : Char} (hx : x.toNat < 128) : c ≠ x := by
  rintro rfl
  omega

lemma wide_not_blank : ¬ Blank c := by
  rintro (rfl | rfl | rfl | rfl) <;> exact absurd h (by decide)

lemma wide_not_digit : ¬ Digit c := by
  rintro ⟨-, h9⟩
  rw [Char.le_def, UInt32.le_iff_toNat_le] at h9
  exact absurd (h.trans h9) (by decide)

lemma wide_not_wordStart : ¬ WordStart c := by
  rintro (⟨-, hz⟩ | ⟨-, hz⟩ | rfl)
  · rw [Char.le_def, UInt32.le_iff_toNat_le] at hz
    exact absurd (h.trans hz) (by decide)
  · rw [Char.le_def, UInt32.le_iff_toNat_le] at hz
    exact absurd (h.trans hz) (by decide)
  · exact absurd h (by decide)

lemma wide_not_punct : punct? c = none := by
  unfold punct?
  split
  case h_16 => rfl
  all_goals exact absurd h (by decide)

lemma munch_wide (cs : List Char) : munch c cs = ⟨.rejected .unexpectedCharacter, [c], cs⟩ := by
  rw [munch_other cs (wide_not_blank h) (wide_ne h (by decide)) (wide_not_digit h)
    (wide_not_wordStart h) fun hs => wide_ne h (by decide) hs.1, munchPunct_none (wide_not_punct h)]

end

lemma narrow_of_wide {p : Char → Bool} {b : Bool} (h : ∀ c : Char, 128 ≤ c.toNat → p c = b) :
    Narrow p :=
  fun c d hc hd => (h c hc).trans (h d hd).symm

lemma narrow_eq {x : Char} (hx : x.toNat < 128) : Narrow (· == x) :=
  narrow_of_wide fun _ hc => beq_eq_false_iff_ne.2 (wide_ne hc hx)

lemma narrow_ne {x : Char} (hx : x.toNat < 128) : Narrow (· != x) :=
  narrow_of_wide fun _ hc => bne_iff_ne.2 (wide_ne hc hx)

lemma narrow_isDigit : Narrow isDigit :=
  narrow_of_wide fun _ hc => eq_false_of_ne_true (mt isDigit_iff.1 (wide_not_digit hc))

lemma narrow_isWordPart : Narrow isWordPart := by
  refine narrow_of_wide fun c hc => eq_false_of_ne_true (mt isWordPart_iff.1 ?_)
  rintro (hw | hd)
  · exact wide_not_wordStart hc hw
  · exact wide_not_digit hc hd

def past (before : List Char) : Munch → Scanner × Option LexicalError
  | ⟨.skipped, text, rest⟩ => (inside before text rest none, none)
  | ⟨.token type, text, rest⟩ => (inside before text rest (some type), none)
  | ⟨.rejected fault, text, rest⟩ =>
    (inside before text rest none, some ⟨fault, lineAfter (before ++ text)⟩)

section

variable (before : List Char)

lemma closeString_inside (body rest : List Char) :
    (inside before ('"' :: body ++ ['"']) rest none).closeString =
      some (past before ⟨.token (.string (.ofList body)), '"' :: body ++ ['"'], rest⟩) := by
  have hquote : byteOffset ['"'] = 1 := byteOffset_narrow (by decide)
  have hslice := slice?_byteOffset (before ++ ['"']) body ('"' :: rest)
  have hsource : before ++ ['"'] ++ body ++ '"' :: rest =
      before ++ ('"' :: body ++ ['"']) ++ rest := by
    simp
  have hfirst : byteOffset (before ++ ['"']) = byteOffset before + 1 := by
    rw [byteOffset_append, hquote]
  have hlast : byteOffset (before ++ ['"'] ++ body) =
      byteOffset (before ++ ('"' :: body ++ ['"'])) - 1 := by
    have hbody : byteOffset ('"' :: body) = 1 + byteOffset body := rfl
    rw [byteOffset_append, hfirst, byteOffset_append before, byteOffset_append, hbody, hquote]
    omega
  rw [hsource, hfirst, hlast] at hslice
  exact congrArg (Option.map _) hslice

lemma string_inside (cs : List Char) :
    (inside before ['"'] cs none).string = some (past before (munchString cs)) := by
  rw [string, passWhile_inside (narrow_ne (by decide))]
  by_cases h : '"' ∈ cs
  · obtain ⟨body, rest, rfl, hq⟩ := List.eq_append_cons_of_mem h
    obtain ⟨ht, hd⟩ := takeWhile_ne hq ('"' :: rest)
    have ht : (body ++ '"' :: rest).takeWhile (· != '"') = body := by simpa using ht
    have hd : (body ++ '"' :: rest).dropWhile (· != '"') = '"' :: rest := by simpa using hd
    rw [munchString_closed hq, ht, hd, if_neg (mt atEnd_inside.1 (List.cons_ne_nil _ _)),
      skip_narrow (by decide) (by decide)]
    exact closeString_inside before body rest
  · obtain ⟨ht, hd⟩ := takeWhile_ne h []
    have ht : cs.takeWhile (· != '"') = cs := by simpa using ht
    have hd : cs.dropWhile (· != '"') = [] := by simpa using hd
    rw [munchString_open h, ht, hd, if_pos (atEnd_inside.2 rfl)]
    rfl

lemma closeNumber_inside {whole fraction point : List Char} (rest : List Char)
    (hw : ∀ d ∈ whole, Digit d) (hp : point = [] ∧ fraction = [] ∨ point = ['.']) :
    (inside before (whole ++ (point ++ fraction)) rest none).closeNumber =
      some (past before ⟨.token (.number (Binary64.ofNumeral whole fraction)),
        whole ++ (point ++ fraction), rest⟩) := by
  have hne : ∀ d ∈ whole, (d != '.') = true := by
    intro d hd
    rw [bne_iff_ne]
    rintro rfl
    exact absurd (hw _ hd) (by decide)
  rw [closeNumber, slice?_inside, Option.map_some, String.toList_ofList,
    List.takeWhile_append_of_pos hne, List.dropWhile_append_of_pos hne]
  obtain ⟨rfl, rfl⟩ | rfl := hp
  · simp [past, inside, emit]
  · simp [past, inside, emit]

lemma peek_inside {text rest : List Char} {pending : Option TokenType} {x : Char}
    (hx : x.toNat < 128) (h0 : x ≠ '\x00') :
    (inside before text rest pending).peek = x ↔ rest.head? = some x := by
  have h : ((bytes rest).headD '\x00' == x) = (rest.headD '\x00' == x) :=
    headD_bytes (narrow_eq hx) rest
  rw [peek, ahead_inside, ← beq_iff_eq, h, beq_iff_eq]
  cases rest with
  | nil => simp [h0.symm]
  | cons c cs => simp

lemma isDigit_peekNext_inside {text rest : List Char} {pending : Option TokenType} {x : Char}
    (hx : x.toNat < 128) : isDigit (inside before text (x :: rest) pending).peekNext =
      isDigit (rest.headD '\x00') := by
  rw [peekNext, ahead_inside, bytes_cons, bytes_narrow hx]
  exact headD_bytes narrow_isDigit rest

lemma number_inside {c : Char} (hc : Digit c) (cs : List Char) :
    (inside before [c] cs none).number = some (past before (munchNumber c cs)) := by
  have hw : ∀ d ∈ c :: cs.takeWhile isDigit, Digit d :=
    List.forall_mem_cons.2 ⟨hc, digits_takeWhile cs⟩
  rw [number, skipWhile_inside narrow_isDigit rfl, List.singleton_append]
  by_cases h : ∃ d rest, cs.dropWhile isDigit = '.' :: d :: rest ∧ Digit d
  · obtain ⟨d, rest, hr, hd⟩ := h
    have hpoint : (inside before (c :: cs.takeWhile isDigit) ('.' :: d :: rest) none).peek = '.' :=
      (peek_inside before (by decide) (by decide)).2 rfl
    have hnext : isDigit
        (inside before (c :: cs.takeWhile isDigit) ('.' :: d :: rest) none).peekNext = true :=
      (isDigit_peekNext_inside before (by decide)).trans (isDigit_iff.2 hd)
    rw [munchNumber_fraction hr hd, hr, if_pos ⟨hpoint, hnext⟩,
      skip_narrow (by decide) (by decide), skipWhile_inside narrow_isDigit rfl, List.append_assoc,
      closeNumber_inside before _ hw (.inr rfl), List.takeWhile_cons, List.dropWhile_cons,
      if_pos (isDigit_iff.2 hd), if_pos (isDigit_iff.2 hd)]
    rfl
  · have hwhole := closeNumber_inside before (cs.dropWhile isDigit) hw (.inl ⟨rfl, rfl⟩)
    simp only [List.append_nil] at hwhole
    rw [munchNumber_whole fun d rest hr hd => h ⟨d, rest, hr, hd⟩, if_neg, hwhole]
    rintro ⟨hpoint, hnext⟩
    rw [peek_inside before (by decide) (by decide)] at hpoint
    obtain ⟨rest, hr⟩ := List.head?_eq_some_iff.1 hpoint
    rw [hr, isDigit_peekNext_inside before (by decide)] at hnext
    cases rest with
    | nil => exact absurd hnext (by decide)
    | cons d rest => exact h ⟨d, rest, hr, isDigit_iff.1 hnext⟩

lemma wordPart_narrow {c : Char} (h : WordPart c) : c.toNat < 128 := by
  by_contra hc
  exact absurd (isWordPart_iff.2 h) (by
    rw [narrow_isWordPart c '\x80' (Nat.le_of_not_lt hc) (by decide)]; decide)

lemma word_inside {c : Char} (hc : WordStart c) (cs : List Char) :
    (inside before [c] cs none).word = (past before (munchWord c cs)).1 := by
  have hw : ∀ d ∈ c :: cs.takeWhile isWordPart, d.toNat < 128 :=
    List.forall_mem_cons.2 ⟨wordPart_narrow (.inl hc), fun d hd =>
      wordPart_narrow (isWordPart_iff.1 (List.mem_takeWhile_imp hd))⟩
  rw [word, skipWhile_inside narrow_isWordPart rfl, List.singleton_append]
  change Scanner.emit _ (wordType (examined _)) = _
  rw [examined_inside, bytes_all_narrow hw]
  rfl

lemma punct_inside {c : Char} {short : Punct} {longer? : Option Punct}
    (hp : punct? c = some (short, longer?)) (cs : List Char) :
    ((inside before [c] cs none).punct short longer?, none) = past before (munchPunct c cs) := by
  have hcases := munchPunct_cases hp cs
  cases longer? with
  | none =>
    obtain ⟨_, _, h, -⟩ | hm := hcases
    · cases h
    · rw [hm]
      rfl
  | some longer =>
    by_cases h : cs.head? = some '='
    · obtain ⟨rest, rfl⟩ := List.head?_eq_some_iff.1 h
      rw [munchPunct_longer hp, punct, if_pos ((peek_inside before (by decide) (by decide)).2 h),
        skip_narrow (by decide) (by decide)]
      rfl
    · obtain ⟨_, _, -, rfl, -⟩ | hm := hcases
      · exact absurd rfl h
      · rw [hm, punct, if_neg (mt (peek_inside before (by decide) (by decide)).1 h)]
        rfl

lemma unexpected_inside {c : Char} (cs : List Char) (hc : c ≠ '\n') :
    ((inside before [] (c :: cs) none).skip 1).unexpected =
      some (past before ⟨.rejected .unexpectedCharacter, [c], cs⟩) := by
  have hslice : slice? (.ofList (before ++ [] ++ c :: cs)) (byteOffset before)
      (String.ofList (before ++ [] ++ c :: cs)).utf8ByteSize = some (.ofList (c :: cs)) := by
    have h := slice?_byteOffset before (c :: cs) []
    rw [List.append_nil] at h
    rw [List.append_nil, utf8ByteSize_ofList, h]
  have hline : lineAfter (before ++ [c]) = lineAfter before := by
    rw [lineAfter_append, List.count_eq_zero_of_not_mem (by simpa using hc.symm), Nat.add_zero]
  have hcurr : byteOffset (before ++ [c]) = byteOffset before + c.utf8Size := byteOffset_append _ _
  refine (congrArg (Option.map _) hslice).trans ?_
  simp [past, inside, skip, hline, hcurr]

theorem scanToken_inside (c : Char) (cs : List Char) :
    (inside before [] (c :: cs) none).scanToken = some (past before (munch c cs)) := by
  by_cases hn : c.toNat < 128
  · rw [scanToken, ahead_inside, bytes_cons, bytes_narrow hn, List.singleton_append]
    dsimp only
    by_cases hline : c = '\n'
    · subst hline
      rw [if_pos rfl, munch_blank cs (by decide)]
      exact congrArg (fun t => some (t, none)) (inside_append ['\n']).symm
    rw [if_neg hline, skip_narrow hn hline, List.nil_append]
    by_cases hb : Blank c
    · rw [if_pos (isBlank_iff.2 hb), munch_blank cs hb]
      rfl
    rw [if_neg (mt isBlank_iff.1 hb)]
    by_cases hq : c = '"'
    · subst hq
      rw [if_pos rfl]
      exact string_inside before cs
    rw [if_neg hq]
    by_cases hd : Digit c
    · rw [if_pos (isDigit_iff.2 hd), munch_digit cs hd]
      exact number_inside before hd cs
    rw [if_neg (mt isDigit_iff.1 hd)]
    by_cases hw : WordStart c
    · rw [if_pos (isWordStart_iff.2 hw), munch_word cs hw, word_inside before hw]
      rfl
    rw [if_neg (mt isWordStart_iff.1 hw)]
    simp only [peek_inside before (show '/'.toNat < 128 by decide) (by decide)]
    by_cases hs : c = '/' ∧ cs.head? = some '/'
    · rw [if_pos hs]
      obtain ⟨rfl, hs⟩ := hs
      obtain ⟨rest, rfl⟩ := List.head?_eq_some_iff.1 hs
      rw [skip_narrow (by decide) (by decide), skipWhile_inside (narrow_ne (by decide)) rfl]
      rfl
    rw [if_neg hs, munch_other cs hb hq hd hw hs]
    cases hp : punct? c with
    | some found => exact congrArg some (punct_inside before hp cs)
    | none =>
      rw [munchPunct_none hp]
      have hskip := @skip_narrow before [] cs none c hn hline
      rw [List.nil_append] at hskip
      exact hskip ▸ unexpected_inside before cs hline
  · have hc := Nat.le_of_not_lt hn
    obtain ⟨b, hb, bs, hbytes⟩ := first_byte c cs
    have hb := bytes_wide hc b hb
    rw [scanToken, ahead_inside, hbytes]
    dsimp only
    rw [if_neg (wide_ne hb (by decide)), if_neg (mt isBlank_iff.1 (wide_not_blank hb)),
      if_neg (wide_ne hb (by decide)), if_neg (mt isDigit_iff.1 (wide_not_digit hb)),
      if_neg (mt isWordStart_iff.1 (wide_not_wordStart hb)),
      if_neg fun hs => wide_ne hb (by decide) hs.1, wide_not_punct hb, munch_wide hc]
    exact unexpected_inside before cs (wide_ne hc (by decide))

end

lemma next_eq {s : Scanner} (hs : s.curr < s.length) : s.next =
    match s.begin.scanToken with
    | none => none
    | some (t, some error) => some (some (.error error), t)
    | some (t, none) =>
      match t.pending with
      | some type => t.yieldToken type
      | none => t.next := by
  rw [next, if_neg (Nat.lt_asymm hs), if_neg (Nat.ne_of_lt hs)]
  split
  · next h => rw [h]
  · next h => rw [h]
  · next h => exact h ▸ rfl

def Stands (s : Scanner) (before rest : List Char) : Prop := s.begin = inside before [] rest none

lemma Stands.curr {s : Scanner} {before rest : List Char} (h : s.Stands before rest) :
    s.curr = byteOffset before := by
  have hcurr := congrArg Scanner.curr h
  rwa [inside, List.append_nil] at hcurr

lemma Stands.line {s : Scanner} {before rest : List Char} (h : s.Stands before rest) :
    s.line = lineAfter before := by
  have hline := congrArg Scanner.line h
  rwa [inside, List.append_nil] at hline

lemma Stands.length {s : Scanner} {before rest : List Char} (h : s.Stands before rest) :
    s.length = byteOffset (before ++ rest) := by
  have hlength : s.length = (String.ofList (before ++ [] ++ rest)).utf8ByteSize :=
    congrArg Scanner.length h
  rw [hlength, utf8ByteSize_ofList, List.append_nil]

lemma stands_inside (before text rest : List Char) (pending : Option TokenType) :
    (inside before text rest pending).Stands (before ++ text) rest := by
  simp [Stands, begin, inside]

inductive Yields : Scanner → List Item → Prop
  | nothing {s} : s.length < s.curr → Yields s []
  | rest {s before rest} : s.Stands before rest →
      Yields s (itemsFrom (Position.start.advance before) rest)

lemma next_rest {s : Scanner} {before rest : List Char} (hs : s.Stands before rest) :
    ∃ item items t, itemsFrom (Position.start.advance before) rest = item :: items ∧
      s.next = some (some item, t) ∧ t.Yields items := by
  -- By the length of the rest. A piece that is skipped is passed within the same call.
  induction hn : rest.length using Nat.strong_induction_on generalizing s before rest with
  | _ n ih =>
  cases rest with
  | nil =>
    have hend : s.curr = s.length := by rw [hs.curr, hs.length, List.append_nil]
    refine ⟨_, [], s.skip 1, itemsFrom_nil, ?_, .nothing (hend ▸ Nat.lt_succ_self _)⟩
    rw [next, if_neg (Nat.not_lt.2 (Nat.le_of_eq hend)), if_pos hend, endToken, ← hs.curr,
      ← hs.line, hend]
  | cons c cs =>
    subst hn
    have hcurr : s.curr < s.length := by
      have hc := length_bytes (c :: cs)
      obtain ⟨_, -, _, hbytes⟩ := first_byte c cs
      rw [hbytes, List.length_cons] at hc
      rw [hs.curr, hs.length, byteOffset_append]
      omega
    have hlt := length_munch_rest c cs
    rw [next_eq hcurr, hs, scanToken_inside]
    generalize hm : munch c cs = m at hlt
    obtain ⟨kind, text, rest⟩ := m
    rw [itemsFrom_munch hm]
    cases kind with
    | skipped => exact ih _ hlt (stands_inside before text rest none) rfl
    | token type =>
      have hyield : (inside before text rest (some type)).yieldToken type =
          some (some (.token ⟨type, .ofList text, byteOffset before, lineAfter (before ++ text)⟩),
            inside before text rest none) := by
        rw [yieldToken, slice?_inside]
        rfl
      exact ⟨_, _, _, rfl, hyield, .rest (stands_inside before text rest none)⟩
    | rejected fault => exact ⟨_, _, _, rfl, rfl, .rest (stands_inside before text rest none)⟩

theorem next_yields {s : Scanner} {items : List Item} (h : s.Yields items) :
    ∃ t, s.next = some (items.head?, t) ∧ t.Yields items.tail := by
  cases h with
  | nothing hs => exact ⟨s, by rw [next, if_pos hs]; rfl, .nothing hs⟩
  | rest hs =>
    obtain ⟨item, items, t, hitems, hnext, ht⟩ := next_rest hs
    rw [hitems]
    exact ⟨t, hnext, ht⟩

theorem call_yields {s : Scanner} {items : List Item} (h : s.Yields items) (k : ℕ) :
    s.call k = some items[k]? := by
  induction k generalizing s items with
  | zero =>
    obtain ⟨t, hnext, -⟩ := next_yields h
    rw [call, hnext, List.head?_eq_getElem?]
    rfl
  | succ k ih =>
    obtain ⟨t, hnext, ht⟩ := next_yields h
    rw [call, hnext, ← List.getElem?_tail]
    exact ih ht

theorem call_ofSource (source : String) (k : ℕ) :
    (ofSource source).call k = some (scan source)[k]? := by
  have hstands : (ofSource source).Stands [] source.toList := by
    simp [Stands, begin, ofSource, inside, byteOffset, lineAfter]
  exact call_yields (.rest hstands) k

end Lox.Scanner

namespace Lox

open Scan

/-- The calls of the scanner yield these items one after the other, and then nothing. -/
def Scanned (source : String) (items : List Item) : Prop :=
  ∀ k, (Scanner.ofSource source).call k = some items[k]?

lemma scanned_scan (source : String) : Scanned source (scan source) := Scanner.call_ofSource source

lemma scanned_iff {source : String} {items : List Item} :
    Scanned source items ↔ scan source = items := by
  constructor
  · intro h
    apply List.ext_getElem?
    intro k
    exact Option.some.inj ((Scanner.call_ofSource source k).symm.trans (h k))
  · rintro rfl
    exact scanned_scan source

lemma scan_eq_iff {source : String} {items : List Item} :
    scan source = items ↔ Tokenizes [] source.toList items := by
  constructor
  · rintro rfl
    exact tokenizes_itemsFrom [] source.toList
  · exact fun h => h.itemsFrom

/-- The scanner yields the longest-match tokenization of its source, whose last item is the token
of the end. -/
theorem scan_longest_match (source : String) :
    (∀ items, Scanned source items ↔ Tokenizes [] source.toList items) ∧
      (∀ items, scan source = items ↔ Tokenizes [] source.toList items) ∧
      (scan source).getLast? = some (.token (endToken source.toList)) :=
  ⟨fun _ => scanned_iff.trans scan_eq_iff, fun _ => scan_eq_iff, (scan_eq_iff.1 rfl).getLast?⟩

end Lox
