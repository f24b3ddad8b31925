import Lox.Proofs.Lexical.Lexeme

/-!
The scanner is the longest match of the lexical grammar. `Tokenizes` says, without a scanner, which
tokens and errors a text has; the scanner yields these items and no others.
-/

namespace Lox.Scan

structure Longest (kind : Class) (text source : List Char) : Prop where
  lexeme : Lexeme kind text
  starts : text <+: source
  longest : ∀ {kind' text'}, Lexeme kind' text' → text' <+: source → text'.length ≤ text.length

def byteOffset (before : List Char) : Nat := before.foldr (fun c n => c.utf8Size + n) 0

def lineAfter (before : List Char) : Nat := 1 + before.count '\n'

def endToken (before : List Char) : Token := ⟨.eof, "", byteOffset before, lineAfter before⟩

/-- The items of what follows `before`. A token begins where the text before it ends; it and an
error are on the line on which their text ends. -/
inductive Tokenizes : List Char → List Char → List Item → Prop
  | finish {before} : Tokenizes before [] [.token (endToken before)]
  | skipped {before text rest items} :
      Longest .skipped text (text ++ rest) → Tokenizes (before ++ text) rest items →
      Tokenizes before (text ++ rest) items
  | token {before type text rest items} :
      Longest (.token type) text (text ++ rest) → Tokenizes (before ++ text) rest items →
      Tokenizes before (text ++ rest)
        (.token ⟨type, .ofList text, byteOffset before, lineAfter (before ++ text)⟩ :: items)
  | unterminated {before body} : '"' ∉ body →
      Tokenizes before ('"' :: body)
        [.error ⟨.unterminatedString, lineAfter (before ++ '"' :: body)⟩,
          .token (endToken (before ++ '"' :: body))]
  | unexpected {before c rest items} : c ≠ '"' →
      (∀ {kind text}, Lexeme kind text → ¬ text <+: c :: rest) →
      Tokenizes (before ++ [c]) rest items →
      Tokenizes before (c :: rest)
        (.error ⟨.unexpectedCharacter, lineAfter (before ++ [c])⟩ :: items)

lemma Lexeme.ne_nil {kind : Class} {text : List Char} (h : Lexeme kind text) : text ≠ [] := by
  cases h with
  | punct p => cases p <;> exact List.cons_ne_nil _ _
  | keyword k =>
    obtain ⟨c, cs, hk, -⟩ := keyword_letters k
    exact hk ▸ List.cons_ne_nil c cs
  | integer hne _ => exact hne
  | _ => simp

lemma Lexeme.not_rejected {kind : Class} {text : List Char} (h : Lexeme kind text)
    (fault : LexicalFault) : kind ≠ .rejected fault := by
  cases h <;> simp

lemma not_wordStart_quote : ¬ WordStart '"' := by decide

lemma Lexeme.quote_mem {kind : Class} {text : List Char} (h : Lexeme kind ('"' :: text)) :
    '"' ∈ text := by
  generalize ht : '"' :: text = lexeme at h
  cases h with
  | string _ =>
    obtain ⟨-, rfl⟩ := List.cons.inj (ht.trans List.cons_append)
    simp
  | blank hb =>
    obtain ⟨rfl, -⟩ := List.cons.inj ht
    exact absurd hb (by decide)
  | comment _ => cases ht
  | punct p => cases p <;> cases ht
  | keyword k =>
    obtain ⟨c, cs, hk, hc, -⟩ := keyword_letters k
    obtain ⟨rfl, -⟩ := List.cons.inj (ht.trans hk)
    exact absurd hc not_wordStart_quote
  | integer _ hw =>
    subst ht
    exact absurd rfl (hw '"' List.mem_cons_self).ne_quote
  | @decimal whole _ hne hw _ _ =>
    cases whole with
    | nil => exact absurd rfl hne
    | cons d _ =>
      obtain ⟨rfl, -⟩ := List.cons.inj ht
      exact absurd rfl (hw '"' List.mem_cons_self).ne_quote
  | identifier hc _ _ =>
    obtain ⟨rfl, -⟩ := List.cons.inj ht
    exact absurd hc not_wordStart_quote

section

variable {kind : Class} {text rest : List Char} {c : Char} {cs : List Char}

lemma prefix_munch (c : Char) (cs : List Char) : (munch c cs).text <+: c :: cs :=
  ⟨_, munch_append c cs⟩

lemma Lexeme.within (h : Lexeme kind text) (hp : text <+: c :: cs) :
    Within kind text (munch c cs) := by
  obtain ⟨rest, hrest⟩ := hp
  exact lexeme_within h hrest

lemma longest_munch (h : Lexeme (munch c cs).kind (munch c cs).text) :
    Longest (munch c cs).kind (munch c cs).text (c :: cs) :=
  ⟨h, prefix_munch c cs, fun h' hp => (h'.within hp).length⟩

lemma no_lexeme_of_unexpected (h : munch c cs = ⟨.rejected .unexpectedCharacter, [c], cs⟩)
    (hl : Lexeme kind text) : ¬ text <+: c :: cs := by
  intro hp
  have hw := hl.within hp
  rw [h] at hw
  obtain ⟨d, ds, rfl⟩ := List.exists_cons_of_ne_nil hl.ne_nil
  obtain ⟨rfl, -⟩ := List.cons_prefix_cons.1 hp
  have hds : ds = [] := by
    have := hw.length
    simpa using this
  subst hds
  exact hl.not_rejected _ (hw.kind rfl)

lemma munch_of_longest (h : Longest kind text (c :: cs)) (ht : text ++ rest = c :: cs) :
    munch c cs = ⟨kind, text, rest⟩ := by
  have hwithin := h.lexeme.within h.starts
  have hcut := munch_cut c cs
  have happend := munch_append c cs
  generalize hm : munch c cs = m at hwithin hcut happend
  cases hcut with
  | lexeme hlexeme =>
    have hle := h.longest hlexeme ⟨_, happend⟩
    obtain ⟨htext, hrest⟩ :=
      List.append_inj (happend.trans ht.symm) (Nat.le_antisymm hle hwithin.length)
    obtain ⟨kind', text', rest'⟩ := m
    obtain rfl : text' = text := htext
    obtain rfl : rest' = rest := hrest
    rw [hwithin.kind rfl]
  | unterminated hc hcs =>
    subst hc
    obtain ⟨d, ds, rfl⟩ := List.exists_cons_of_ne_nil h.lexeme.ne_nil
    obtain ⟨rfl, rfl⟩ := List.cons.inj (List.cons_append.symm.trans ht)
    exact absurd (List.mem_append_left _ h.lexeme.quote_mem) hcs
  | unexpected _ => exact absurd h.starts (no_lexeme_of_unexpected hm h.lexeme)

lemma munch_of_unexpected (hc : c ≠ '"')
    (h : ∀ {kind text}, Lexeme kind text → ¬ text <+: c :: cs) :
    munch c cs = ⟨.rejected .unexpectedCharacter, [c], cs⟩ := by
  have hcut := munch_cut c cs
  have hp := prefix_munch c cs
  generalize munch c cs = m at hcut hp
  cases hcut with
  | lexeme hl => exact absurd hp (h hl)
  | unterminated hq _ => exact absurd hq hc
  | unexpected _ => rfl

end

lemma advance_start (before : List Char) :
    Position.start.advance before = ⟨byteOffset before, lineAfter before⟩ := by
  suffices ∀ pos : Position,
      pos.advance before = ⟨pos.offset + byteOffset before, pos.line + before.count '\n'⟩ by
    rw [this, lineAfter, Position.start, Nat.zero_add]
  induction before with
  | nil => exact fun pos => rfl
  | cons c cs ih =>
    intro pos
    rw [Position.advance, ih, byteOffset, byteOffset, List.foldr_cons, List.count_cons]
    by_cases hc : c = '\n'
    · simp [hc]
      omega
    · simp [hc]
      omega

section

variable {before rest : List Char} {kind : Class} {text : List Char}

lemma itemsFrom_munch {c : Char} {cs : List Char} (h : munch c cs = ⟨kind, text, rest⟩) :
    itemsFrom (Position.start.advance before) (c :: cs) =
      (item? ⟨byteOffset before, lineAfter before⟩
        ⟨byteOffset (before ++ text), lineAfter (before ++ text)⟩ ⟨kind, text, rest⟩).toList ++
      itemsFrom (Position.start.advance (before ++ text)) rest := by
  rw [itemsFrom, h, ← advance_start, ← advance_start, Position.advance_append]

lemma itemsFrom_nil :
    itemsFrom (Position.start.advance before) [] = [.token (endToken before)] := by
  rw [itemsFrom, advance_start, endToken]

lemma itemsFrom_longest (h : Longest kind text (text ++ rest)) :
    itemsFrom (Position.start.advance before) (text ++ rest) =
      (item? ⟨byteOffset before, lineAfter before⟩
        ⟨byteOffset (before ++ text), lineAfter (before ++ text)⟩ ⟨kind, text, rest⟩).toList ++
      itemsFrom (Position.start.advance (before ++ text)) rest := by
  obtain ⟨c, cs, hcs⟩ := List.exists_cons_of_ne_nil (List.append_ne_nil_of_left_ne_nil
    h.lexeme.ne_nil rest)
  rw [hcs]
  rw [hcs] at h
  exact itemsFrom_munch (munch_of_longest h hcs)

end

theorem Tokenizes.itemsFrom {before rest : List Char} {items : List Item}
    (h : Tokenizes before rest items) :
    itemsFrom (Position.start.advance before) rest = items := by
  induction h with
  | finish => exact itemsFrom_nil
  | skipped hl _ ih => rw [itemsFrom_longest hl, ih]; rfl
  | token hl _ ih => rw [itemsFrom_longest hl, ih]; rfl
  | unterminated hq =>
    have hm : munch '"' _ = _ := munchString_open hq
    rw [itemsFrom_munch hm, itemsFrom_nil]
    rfl
  | unexpected hc hno _ ih => rw [itemsFrom_munch (munch_of_unexpected hc hno), ih]; rfl

theorem tokenizes_itemsFrom (before rest : List Char) :
    Tokenizes before rest (itemsFrom (Position.start.advance before) rest) := by
  -- By the length of what remains. A piece is cut off that is the longest lexeme, if there is one.
  induction hn : rest.length using Nat.strong_induction_on generalizing before rest with
  | _ n ih =>
  cases rest with
  | nil => rw [itemsFrom_nil]; exact .finish
  | cons c cs =>
    subst hn
    have hrest := ih _ (length_munch_rest c cs)
    have hcut := munch_cut c cs
    have happend := munch_append c cs
    have hlongest := @longest_munch c cs
    generalize hm : munch c cs = m at hrest hcut happend hlongest
    rw [itemsFrom_munch (hm : munch c cs = ⟨m.kind, m.text, m.rest⟩)]
    cases hcut with
    | lexeme hl =>
      obtain ⟨kind, text, rest⟩ := m
      have hlong := hlongest hl
      rw [← happend] at hlong ⊢
      cases kind with
      | skipped => exact .skipped hlong (hrest _ _ rfl)
      | token type => exact .token hlong (hrest _ _ rfl)
      | rejected fault => exact absurd rfl (hl.not_rejected fault)
    | unterminated hc hq =>
      subst hc
      rw [itemsFrom_nil]
      exact .unterminated hq
    | unexpected hc =>
      exact .unexpected hc (fun hl => no_lexeme_of_unexpected hm hl) (hrest _ _ rfl)

lemma Tokenizes.getLast? {before rest : List Char} {items : List Item}
    (h : Tokenizes before rest items) :
    items.getLast? = some (.token (endToken (before ++ rest))) := by
  induction h with
  | finish => rw [List.append_nil]; rfl
  | unterminated _ => rfl
  | skipped _ _ ih => rw [ih, List.append_assoc]
  | token _ _ ih => rw [List.getLast?_cons, ih, List.append_assoc]; rfl
  | unexpected _ _ _ ih => rw [List.getLast?_cons, ih, List.append_assoc]; rfl

end Lox.Scan
