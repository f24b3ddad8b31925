import Lox.Proofs.Grammar.Lookahead
import Lox.Proofs.Grammar.Tokens
import Lox.Proofs.Lexical.Joined
import Lox.Proofs.Session

/-! Reading two sources as one, the second on the lines after the first: it says the same, but for
the places of its tokens. -/

namespace Lox.Session

open Grammar Scan

lemma isEnd_eq_true {t : Token} : isEnd t = true ↔ t.type = .eof := by
  rw [isEnd]
  cases t.type <;> simp [TokenType.sameKind]

lemma beforeEnd_tokens (source : String) :
    beforeEnd (tokens source) = (scan source).dropLast.filterMap Item.token? := by
  obtain ⟨items, last, he, hlast, hitems⟩ := itemsFrom_eq .start source.toList
  have hscan : scan source = items ++ [.token last] := he
  have hall : ∀ t ∈ items.filterMap Item.token?, (!isEnd t) = true := by
    intro t ht
    obtain ⟨item, hi, hit⟩ := List.mem_filterMap.1 ht
    cases item with
    | error e => cases hit
    | token u =>
      obtain rfl := Option.some.inj hit
      have hne := mt isEnd_eq_true.1 (hitems u hi)
      simpa using hne
  have hend : (!isEnd last) = false := by simpa using isEnd_eq_true.2 hlast
  rw [beforeEnd, tokens, hscan, List.dropLast_concat, List.filterMap_append,
    List.takeWhile_append_of_pos hall]
  simp [Item.token?, hend]

lemma filterMap_token_shift (bytes lines : ℕ) (items : List Item) :
    (items.map (Item.shift bytes lines)).filterMap Item.token? =
      (items.filterMap Item.token?).map (Token.shift bytes lines) := by
  rw [List.filterMap_map, List.map_filterMap]
  apply List.filterMap_congr
  intro item _
  cases item <;> rfl

lemma filterMap_error_shift (bytes lines : ℕ) {items : List Item}
    (h : items.filterMap Item.error? = []) :
    (items.map (Item.shift bytes lines)).filterMap Item.error? = [] := by
  rw [List.filterMap_map, List.filterMap_eq_nil_iff]
  intro item hi
  have hnone := List.filterMap_eq_nil_iff.1 h item hi
  cases item with
  | token t => rfl
  | error e => cases hnone

section

variable {first : String} (h : lexicalErrors first = []) (second : String)

include h

lemma scan_append : ∃ bytes lines, scan (first ++ "\n" ++ second) =
    (scan first).dropLast ++ (scan second).map (Item.shift bytes lines) := by
  have herrors : ∀ e, Item.error e ∈ scan first → e.fault ≠ .unterminatedString := by
    intro e he
    cases List.filterMap_eq_nil_iff.1 h _ he
  exact ⟨_, _, scan_line herrors second⟩

theorem beforeEnd_append : ∃ bytes lines, beforeEnd (tokens (first ++ "\n" ++ second)) =
    beforeEnd (tokens first) ++ (beforeEnd (tokens second)).map (Token.shift bytes lines) := by
  obtain ⟨bytes, lines, hscan⟩ := scan_append h second
  have hne : (scan second).map (Item.shift bytes lines) ≠ [] := by
    rw [Ne, List.map_eq_nil_iff]
    exact itemsFrom_ne_nil _ _
  refine ⟨bytes, lines, ?_⟩
  simp only [beforeEnd_tokens]
  rw [hscan, List.dropLast_append_of_ne_nil hne, List.filterMap_append, ← List.map_dropLast,
    filterMap_token_shift]

lemma lexicalErrors_append {second : String} (h' : lexicalErrors second = []) :
    lexicalErrors (first ++ "\n" ++ second) = [] := by
  obtain ⟨bytes, lines, hscan⟩ := scan_append h second
  have hfirst : (scan first).dropLast.filterMap Item.error? = [] := by
    rw [List.filterMap_eq_nil_iff]
    exact fun item hi => List.filterMap_eq_nil_iff.1 h item (List.dropLast_subset _ hi)
  rw [lexicalErrors, hscan, List.filterMap_append, hfirst, filterMap_error_shift _ _ h',
    List.nil_append]

theorem reads_append {p q : List Stmt} {i k j : SiteId}
    (hp : ReadsDecls p (beforeEnd (tokens first)) i k none)
    (hq : ReadsDecls q (beforeEnd (tokens second)) k j none) :
    ∃ bytes lines, ReadsDecls (p ++ Stmt.listMapTokens (Token.shift bytes lines) q)
      (beforeEnd (tokens (first ++ "\n" ++ second))) i j none := by
  obtain ⟨bytes, lines, htokens⟩ := beforeEnd_append h second
  have htype : ∀ t : Token, (t.shift bytes lines).type = t.type := fun _ => rfl
  rw [htokens]
  exact ⟨bytes, lines, hp.append (hq.map htype) nofun⟩

end

end Lox.Session
