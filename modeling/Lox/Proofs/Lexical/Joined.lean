import Lox.Proofs.Chunks.Scan
import Lox.Proofs.Lexical.Calls

/-! Texts put together. At a line end nothing of one text runs into the next, and a lexeme that has
a blank behind it is cut off whole, whatever it was cut off from before. -/

namespace Lox.Scan

lemma start_advance (cs : List Char) :
    Position.start.advance cs = Position.start.shift (byteOffset cs) (cs.count '\n') := by
  rw [advance_start]
  simp [Position.shift, Position.start, lineAfter]

lemma scan_line {first : String}
    (h : ∀ e, .error e ∈ scan first → e.fault ≠ .unterminatedString) (second : String) :
    scan (first ++ "\n" ++ second) = (scan first).dropLast ++
      (scan second).map (Item.shift (first.utf8ByteSize + 1) (first.toList.count '\n' + 1)) := by
  have hlist : (first ++ "\n" ++ second).toList = first.toList ++ '\n' :: second.toList := by simp
  have hbytes : byteOffset (first.toList ++ ['\n']) = first.utf8ByteSize + 1 := by
    rw [byteOffset_append, ← utf8ByteSize_ofList, String.ofList_toList]
    rfl
  have hlines : (first.toList ++ ['\n']).count '\n' = first.toList.count '\n' + 1 := by simp
  rw [scan, hlist, itemsFrom_append _ _ _ h, start_advance, itemsFrom_shift, hbytes, hlines]
  rfl

section

variable {type : TokenType} {c : Char} {cs : List Char}

lemma munch_lexeme {kind : Class} (h : Lexeme kind (c :: cs)) :
    munch c cs = ⟨kind, c :: cs, []⟩ := by
  apply munch_of_longest ⟨h, List.prefix_rfl, fun _ hp => hp.length_le⟩
  simp

lemma munch_lexeme_blank (h : Lexeme (.token type) (c :: cs)) (rest : List Char) :
    munch c (cs ++ ' ' :: rest) = ⟨.token type, c :: cs, ' ' :: rest⟩ := by
  have hm := munch_lexeme h
  rw [munch_before rest rfl c (by simp [hm]) (by simp [hm]), hm]
  rfl

end

variable {type : TokenType} {text : List Char}

lemma itemsFrom_lexeme (h : Lexeme (.token type) text) (pos : Position) : ∃ token last,
    itemsFrom pos text = [.token token, .token last] ∧
      token.type = type ∧ token.lexeme = .ofList text ∧ last.type = .eof := by
  obtain ⟨c, cs, rfl⟩ := List.exists_cons_of_ne_nil h.ne_nil
  rw [itemsFrom, munch_lexeme h, itemsFrom]
  exact ⟨_, _, rfl, rfl, rfl, rfl⟩

lemma itemsFrom_lexeme_blank (h : Lexeme (.token type) text) (pos : Position) (rest : List Char) :
    ∃ token next, itemsFrom pos (text ++ ' ' :: rest) = .token token :: itemsFrom next rest ∧
      token.type = type ∧ token.lexeme = .ofList text := by
  obtain ⟨c, cs, rfl⟩ := List.exists_cons_of_ne_nil h.ne_nil
  rw [List.cons_append, itemsFrom, munch_lexeme_blank h]
  simp only
  rw [itemsFrom, munch_blank rest (by decide)]
  exact ⟨_, _, rfl, rfl, rfl⟩

/-- The tokens as they are told apart, places left out. -/
def Agree (ts us : List Token) : Prop :=
  ts.map (fun t => (t.type, t.lexeme)) = us.map fun t => (t.type, t.lexeme)

lemma itemsFrom_lexemes {ts : List Token} (h : ∀ t ∈ ts, Lexeme (.token t.type) t.lexeme.toList)
    (pos : Position) : ∃ again last,
      itemsFrom pos ([' '].intercalate (ts.map (·.lexeme.toList))) =
        again.map Item.token ++ [.token last] ∧
      Agree again ts ∧ last.type = .eof := by
  induction ts generalizing pos with
  | nil =>
    rw [List.map_nil, List.intercalate_nil, itemsFrom]
    exact ⟨[], _, rfl, rfl, rfl⟩
  | cons t ts ih =>
    rw [List.forall_mem_cons] at h
    obtain ⟨ht, hts⟩ := h
    cases ts with
    | nil =>
      obtain ⟨u, last, hitems, htype, hlexeme, hlast⟩ := itemsFrom_lexeme ht pos
      refine ⟨[u], last, ?_, by simp [Agree, htype, hlexeme], hlast⟩
      simpa using hitems
    | cons t' ts =>
      obtain ⟨u, next, hitems, htype, hlexeme⟩ := itemsFrom_lexeme_blank ht pos
        ([' '].intercalate ((t' :: ts).map (·.lexeme.toList)))
      obtain ⟨again, last, hagain, hsame, hlast⟩ := ih hts next
      rw [hagain] at hitems
      refine ⟨u :: again, last, ?_, ?_, hlast⟩
      · rw [List.map_cons, List.map_cons, List.intercalate_cons_cons, List.append_assoc]
        exact hitems
      · rw [Agree, List.map_cons, hsame, htype, hlexeme, String.ofList_toList]
        rfl

lemma Tokenizes.lexeme {before rest : List Char} {items : List Item}
    (h : Tokenizes before rest items)
    {t : Token} (ht : .token t ∈ items) (hend : t.type ≠ .eof) :
    Lexeme (.token t.type) t.lexeme.toList := by
  induction h with
  | finish =>
    obtain rfl := Item.token.inj (List.mem_singleton.1 ht)
    exact absurd rfl hend
  | skipped _ _ ih => exact ih ht
  | token hl _ ih =>
    rcases List.mem_cons.1 ht with he | ht
    · obtain rfl := Item.token.inj he
      simpa using hl.lexeme
    · exact ih ht
  | unterminated _ =>
    rcases List.mem_cons.1 ht with he | ht
    · cases he
    · obtain rfl := Item.token.inj (List.mem_singleton.1 ht)
      exact absurd rfl hend
  | unexpected _ _ _ ih =>
    rcases List.mem_cons.1 ht with he | ht
    · cases he
    · exact ih ht

end Lox.Scan

namespace Lox

open Scan

/-- A source may be cut at any line end that is not inside a string. -/
theorem scan_append_line (first second : String)
    (h : ∀ e, .error e ∈ scan first → e.fault ≠ .unterminatedString) : ∃ items last,
      scan first = items ++ [.token last] ∧ last.type = .eof ∧
      scan (first ++ "\n" ++ second) = items ++
        (scan second).map (Item.shift (first.utf8ByteSize + 1) (first.toList.count '\n' + 1)) ∧
      ∀ source ∈ [first, second, first ++ "\n" ++ second], Scanned source (scan source) := by
  obtain ⟨items, last, hitems, hlast, -⟩ := itemsFrom_eq .start first.toList
  refine ⟨items, last, hitems, hlast, ?_, fun source _ => scanned_scan source⟩
  have hdrop : (scan first).dropLast = items := by simp [scan, hitems]
  rw [scan_line h, hdrop]

lemma scan_equal : scan "=" = [.token ⟨.punct .equal, "=", 0, 1⟩, .token ⟨.eof, "", 1, 1⟩] := by
  simp [scan, itemsFrom, munch, isBlank, isDigit, isWordStart, munchPunct, punct?,
    Position.advance, Position.start, item?]
  rfl

lemma scan_equal_comment : scan "= // =" =
    [.token ⟨.punct .equal, "=", 0, 1⟩, .token ⟨.eof, "", 6, 1⟩] := by
  simp [scan, itemsFrom, munch, isBlank, isDigit, isWordStart, munchPunct, punct?,
    Position.advance, Position.start, item?]
  rfl

theorem equal_append_equal : (∀ e, .error e ∈ scan "= // =" → e.fault ≠ .unterminatedString) ∧
    Scanned ("= // =" ++ "\n" ++ "=") [.token ⟨.punct .equal, "=", 0, 1⟩,
      .token ⟨.punct .equal, "=", 7, 2⟩, .token ⟨.eof, "", 8, 2⟩] := by
  have hnone : ∀ e, .error e ∈ scan "= // =" → e.fault ≠ .unterminatedString := by
    simp [scan_equal_comment]
  obtain ⟨items, last, hitems, -, happend, hscanned⟩ := scan_append_line "= // =" "=" hnone
  have hdrop : items = [.token ⟨.punct .equal, "=", 0, 1⟩] := by
    have h := congrArg List.dropLast (hitems.symm.trans scan_equal_comment)
    simpa using h
  have hboth := hscanned ("= // =" ++ "\n" ++ "=") (by simp)
  rw [happend, hdrop, scan_equal] at hboth
  exact ⟨hnone, hboth⟩

def words (source : String) : List Token :=
  ((scan source).filterMap Item.token?).filter fun t => !t.type.sameKind .eof

theorem scan_lexemes (source : String) : ∃ again last,
    scan (" ".intercalate ((words source).map (·.lexeme))) =
      again.map Item.token ++ [.token last] ∧
    Agree again (words source) ∧ last.type = .eof ∧
    ∀ text ∈ [source, " ".intercalate ((words source).map (·.lexeme))],
      Scanned text (scan text) := by
  have hwords : ∀ t ∈ words source, Lexeme (.token t.type) t.lexeme.toList := by
    intro t ht
    obtain ⟨htoken, hend⟩ := List.mem_filter.1 ht
    obtain ⟨item, hitem, hsome⟩ := List.mem_filterMap.1 htoken
    have htokens : Tokenizes [] source.toList (scan source) := tokenizes_itemsFrom [] source.toList
    cases item with
    | error e => cases hsome
    | token u =>
      obtain rfl := Option.some.inj hsome
      apply htokens.lexeme hitem
      intro he
      simp [he, TokenType.sameKind] at hend
  obtain ⟨again, last, hitems, hagree, hlast⟩ := itemsFrom_lexemes hwords .start
  refine ⟨again, last, ?_, hagree, hlast, fun text _ => scanned_scan text⟩
  rw [scan, String.toList_intercalate, List.map_map]
  exact hitems

end Lox
