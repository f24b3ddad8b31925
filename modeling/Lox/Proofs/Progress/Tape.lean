import Lox.Proofs.Progress.Script
import Lox.Proofs.Recovery.Statements

/-! Scripts on a tape. A tape holds all the tokens, those after the end too, and the place that was
come to. Looking at a place where there is no token leaves the whole without an answer. A script
does on a tape what it does on the tokens before the end. -/

namespace Lox.Grammar

structure Report where
  error : SyntaxError
  place : ℕ

structure Tape where
  tokens : List Token
  place : ℕ
  nextSite : SiteId
  reports : List Report

namespace Tape

variable (t : Tape)

def front? : Option Token := t.tokens[t.place]?

def previous? : Option Token := t.tokens[t.place - 1]?

def forward : Tape := { t with place := t.place + 1 }

def note (r : Report) : Tape := { t with reports := r :: t.reports }

def advance? : Option (Token × Tape) :=
  t.front?.bind fun x =>
    let t' := if isEnd x then t else t.forward
    t'.previous?.map (·, t')

variable {t} in
lemma advance_of_front {x : Token} (hfront : t.front? = some x) (hx : isEnd x = false) :
    t.advance? = some (x, t.forward) := by
  have hprevious : t.forward.previous? = some x := hfront
  simp [advance?, hfront, hx, hprevious]

def blame? (fault : SyntaxFault) : Option Report :=
  t.front?.map fun x => ⟨⟨fault, if isEnd x then none else some x⟩, t.place⟩

def settle? (t : Tape) : Option Tape :=
  match _h : t.front? with
  | none => none
  | some x =>
    if isEnd x then some t
    else match t.previous? with
      | none => none
      | some skipped =>
        if skipped.type.sameKind (.punct .semicolon) || x.type.startsStatement then some t
        else t.forward.settle?
termination_by t.tokens.length - t.place
decreasing_by
  obtain ⟨hlt, -⟩ := List.getElem?_eq_some_iff.1 _h
  change t.tokens.length - (t.place + 1) < t.tokens.length - t.place
  omega

def synchronize? : Option Tape := t.advance?.bind (·.2.settle?)

end Tape

def Script.play : {α : Type} → Script α → Tape → Option (EStateM.Result Report Tape α)
  | _, .pure a, t => some (.ok a t)
  | _, .bind first next, t =>
    match first.play t with
    | some (.ok a t) => (next a).play t
    | some (.error r t) => some (.error r t)
    | none => none
  | _, .take ok, t => t.front?.bind fun x =>
    if !isEnd x && ok x.type then t.advance?.map fun (x, t) => .ok (some x) t else some (.ok none t)
  | _, .facing type, t => t.front?.map fun x => .ok (!isEnd x && x.type.sameKind type) t
  | _, .atEnd, t => t.front?.map fun x => .ok (isEnd x) t
  | _, .freshSite, t => some (.ok t.nextSite { t with nextSite := t.nextSite + 1 })
  | _, .report e _, t => some (.ok () (t.note ⟨e, t.place⟩))
  | _, .reportHere fault _, t => (t.blame? fault).map fun r => .ok () (t.note r)
  | _, .fail fault, t => (t.blame? fault).map fun r => .error r t
  | _, .recovering rule, t =>
    match rule.play t with
    | some (.ok s t) => some (.ok (some s) t)
    | some (.error r t) => (t.note r).synchronize?.map fun t => .ok none t
    | none => none

structure Tape.Shows (before : List Token) (last : Token) (after : List Token) (t : Tape)
    (c : Cursor) : Prop where
  tokens : t.tokens = before ++ last :: after
  place : t.place ≤ before.length
  rest : c.rest = before.drop t.place
  site : t.nextSite = c.nextSite
  errors : t.reports.map (·.error) = c.errors

def Tape.cursor (before : List Token) (t : Tape) : Cursor :=
  ⟨before.drop t.place, t.nextSite, t.reports.map (·.error)⟩

lemma Tape.shows_cursor {before after : List Token} {last : Token} {t : Tape}
    (htokens : t.tokens = before ++ last :: after) (hplace : t.place ≤ before.length) :
    t.Shows before last after (t.cursor before) :=
  ⟨htokens, hplace, rfl, rfl, rfl⟩

structure Report.At (before : List Token) (p : ℕ) (r : Report) : Prop where
  place : r.place = p
  found : r.error.found = before[p]?

def Earlier (stop p q : ℕ) : Prop := p < q ∨ p = stop ∧ q = stop

lemma Earlier.mono {stop p q q' : ℕ} (h : Earlier stop p q) (hq : q ≤ q') (hstop : q' ≤ stop) :
    Earlier stop p q' := by
  obtain h | ⟨hp, hq'⟩ := h
  · exact .inl (Nat.lt_of_lt_of_le h hq)
  · exact .inr ⟨hp, by omega⟩

structure Tape.Orderly (before : List Token) (t : Tape) : Prop where
  found : ∀ r ∈ t.reports, r.error.isHard = true → r.At before r.place
  passed : ∀ r ∈ t.reports, r.error.isHard = true → Earlier before.length r.place t.place
  sorted : (t.reports.filter (·.error.isHard)).Pairwise fun r r' =>
    Earlier before.length r'.place r.place

namespace Tape.Orderly

variable {before : List Token} {t t' : Tape} {r : Report}

lemma moved (h : t.Orderly before) (hr : t'.reports = t.reports) (hle : t.place ≤ t'.place)
    (hstop : t'.place ≤ before.length) : t'.Orderly before := by
  refine ⟨hr ▸ h.found, fun r hin hhard => ?_, hr ▸ h.sorted⟩
  rw [hr] at hin
  exact (h.passed r hin hhard).mono hle hstop

lemma note (h : t.Orderly before) (hr : r.error.isHard = false) : (t.note r).Orderly before := by
  refine ⟨fun r' hin hhard => ?_, fun r' hin hhard => ?_, ?_⟩
  · rcases List.mem_cons.1 hin with rfl | hin
    · simp [hr] at hhard
    · exact h.found r' hin hhard
  · rcases List.mem_cons.1 hin with rfl | hin
    · simp [hr] at hhard
    · exact h.passed r' hin hhard
  · rw [Tape.note, List.filter_cons_of_neg (by simp [hr])]
    exact h.sorted

lemma noteAt (h : t.Orderly before) (hat : r.At before t.place)
    (ht' : t'.reports = (t.note r).reports) (hlater : Earlier before.length t.place t'.place)
    (hstop : t'.place ≤ before.length) : t'.Orderly before := by
  have hle : t.place ≤ t'.place := by
    rcases hlater with hlt | ⟨hp, hq⟩
    · exact Nat.le_of_lt hlt
    · rw [hp, hq]
  refine ⟨fun r' hin hhard => ?_, fun r' hin hhard => ?_, ?_⟩
  · rw [ht'] at hin
    rcases List.mem_cons.1 hin with rfl | hin
    · exact hat.place.symm ▸ hat
    · exact h.found r' hin hhard
  · rw [ht'] at hin
    rcases List.mem_cons.1 hin with rfl | hin
    · rwa [hat.place]
    · exact (h.passed r' hin hhard).mono hle hstop
  · rw [ht', Tape.note, List.filter_cons]
    split
    · refine List.pairwise_cons.2 ⟨fun r' hin => ?_, h.sorted⟩
      obtain ⟨hin, hhard⟩ := List.mem_filter.1 hin
      rw [hat.place]
      exact h.passed r' hin hhard
    · exact h.sorted

end Tape.Orderly

section

variable {before after : List Token} {last : Token} {t : Tape} {c : Cursor}

/-- What a script does on a tape, beside what its rule does on the cursor. -/
inductive Plays {α : Type} (before : List Token) (last : Token) (after : List Token) (t : Tape) :
    Option (EStateM.Result Report Tape α) → EStateM.Result SyntaxError Cursor α → Prop
  | ok {a t' c} : t'.Shows before last after c → (t.Orderly before → t'.Orderly before) →
      Plays before last after t (some (.ok a t')) (.ok a c)
  | error {r t' c} : t'.Shows before last after c → (t.Orderly before → t'.Orderly before) →
      r.At before t'.place → Plays before last after t (some (.error r t')) (.error r.error c)

lemma Plays.since {α : Type} {t' : Tape} {p : Option (EStateM.Result Report Tape α)}
    {r : EStateM.Result SyntaxError Cursor α} (h : Plays before last after t' p r)
    (ho : t.Orderly before → t'.Orderly before) : Plays before last after t p r := by
  cases h with
  | ok hshows hkeeps => exact .ok hshows fun h => hkeeps (ho h)
  | error hshows hkeeps hat => exact .error hshows (fun h => hkeeps (ho h)) hat

variable (hbefore : ∀ x ∈ before, isEnd x = false) (hlast : isEnd last = true)

namespace Tape.Shows

lemma note {r : Report} (h : t.Shows before last after c) :
    (t.note r).Shows before last after { c with errors := r.error :: c.errors } :=
  ⟨h.tokens, h.place, h.rest, h.site, by simp [Tape.note, h.errors]⟩

include hbefore in
lemma front_cases (h : t.Shows before last after c) :
    (∃ x xs, c.rest = x :: xs ∧ t.front? = some x ∧ isEnd x = false ∧ before[t.place]? = some x ∧
      t.forward.Shows before last after { c with rest := xs }) ∨
    c.rest = [] ∧ t.front? = some last ∧ t.place = before.length ∧ before[t.place]? = none := by
  rcases Nat.lt_or_eq_of_le h.place with hlt | heq
  · have hget : before[t.place]? = some before[t.place] := List.getElem?_eq_getElem hlt
    refine .inl ⟨before[t.place], before.drop (t.place + 1), ?_, ?_,
      hbefore _ (List.getElem_mem hlt),
      hget, ?_⟩
    · rw [h.rest, List.drop_eq_getElem_cons hlt]
    · rw [front?, h.tokens, List.getElem?_append_left hlt, hget]
    · exact ⟨h.tokens, hlt, rfl, h.site, h.errors⟩
  · refine .inr ⟨?_, ?_, heq, ?_⟩
    · rw [h.rest, heq, List.drop_length]
    · rw [front?, h.tokens, heq]
      simp
    · simp [heq]

lemma previous (h : t.Shows before last after c) : ∃ x, t.previous? = some x := by
  rw [previous?, h.tokens]
  apply Option.isSome_iff_exists.1
  have hplace := h.place
  simp
  omega

include hbefore

lemma looks {α : Type} {f : Token → α} {b : α} (h : t.Shows before last after c)
    (hsome : ∀ x xs, c.rest = x :: xs → isEnd x = false → f x = b)
    (hnone : c.rest = [] → f last = b) :
    Plays before last after t (t.front?.map fun x => .ok (f x) t) (.ok b c) := by
  obtain ⟨x, xs, hrest, hfront, hx, -⟩ | ⟨hrest, hfront, -⟩ := h.front_cases hbefore
  · rw [hfront, Option.map_some, hsome x xs hrest hx]
    exact .ok h id
  · rw [hfront, Option.map_some, hnone hrest]
    exact .ok h id

include hlast

lemma blame (h : t.Shows before last after c) (fault : SyntaxFault) :
    ∃ r : Report, t.blame? fault = some r ∧ r.error = ⟨fault, c.rest.head?⟩ ∧
      r.At before t.place := by
  obtain ⟨x, xs, hrest, hfront, hx, hget, -⟩ | ⟨hrest, hfront, -, hget⟩ := h.front_cases hbefore
  · refine ⟨⟨⟨fault, some x⟩, t.place⟩, ?_, ?_, rfl, hget.symm⟩
    · simp [blame?, hfront, hx]
    · simp [hrest]
  · refine ⟨⟨⟨fault, none⟩, t.place⟩, ?_, ?_, rfl, hget.symm⟩
    · simp [blame?, hfront, hlast]
    · simp [hrest]

lemma settle {rest : List Token} {skipped : Token} (hskipped : t.previous? = some skipped)
    (h : t.Shows before last after { c with rest := rest }) :
    ∃ t', t.settle? = some t' ∧
      t'.Shows before last after { c with rest := resumeAfter skipped rest } ∧
      t'.reports = t.reports ∧ t.place ≤ t'.place := by
  induction rest generalizing t skipped with
  | nil =>
    obtain ⟨x, xs, hrest, -⟩ | ⟨-, hfront, -⟩ := h.front_cases hbefore
    · cases hrest
    · refine ⟨t, ?_, h, rfl, Nat.le_refl _⟩
      rw [settle?]
      split <;> simp_all
  | cons x rest ih =>
    obtain ⟨y, ys, hrest, hfront, hy, -, hforward⟩ | ⟨hrest, -⟩ := h.front_cases hbefore
    · cases hrest
      have hprevious : t.forward.previous? = some x := hfront
      rw [settle?, resumeAfter]
      split
      · simp_all
      · next z hz =>
        obtain rfl := Option.some.inj (hfront.symm.trans hz)
        simp only [hy, Bool.false_eq_true, if_false, hskipped]
        split
        · exact ⟨t, rfl, h, rfl, Nat.le_refl _⟩
        · obtain ⟨t', hsettle, hshows, hreports, hle⟩ := ih hprevious hforward
          exact ⟨t', hsettle, hshows, hreports, Nat.le_of_succ_le hle⟩
    · cases hrest

lemma synchronize (h : t.Shows before last after c) :
    ∃ t', t.synchronize? = some t' ∧
      t'.Shows before last after { c with rest := resume c.rest } ∧ t'.reports = t.reports ∧
      Earlier before.length t.place t'.place := by
  obtain ⟨rest, site, errors⟩ := c
  obtain ⟨x, xs, hrest, hfront, hx, -, hforward⟩ | ⟨hrest, hfront, hplace, -⟩ :=
    h.front_cases hbefore
  · cases hrest
    obtain ⟨t', hsettle, hshows, hreports, hle⟩ :=
      settle (t := t.forward) hbefore hlast hfront hforward
    refine ⟨t', ?_, hshows, hreports, .inl hle⟩
    rw [synchronize?, advance_of_front hfront hx]
    exact hsettle
  · cases hrest
    obtain ⟨skipped, hskipped⟩ := h.previous
    refine ⟨t, ?_, h, rfl, .inr ⟨hplace, hplace⟩⟩
    simp only [synchronize?, advance?, hfront, hlast, hskipped, if_true, Option.bind_some,
      Option.map_some]
    rw [settle?]
    split <;> simp_all

end Tape.Shows

include hbefore hlast

theorem Script.play_shows {α : Type} (s : Script α) (h : t.Shows before last after c) :
    Plays before last after t (s.play t) (s.run c) := by
  -- What is shown after one command is shown before the next, so it holds from any place on.
  induction s generalizing t c with
  | pure a => exact .ok h id
  | bind first next ihf ihn =>
    have hfirst := ihf h
    simp only [Script.play, Script.run]
    generalize hr : first.run c = r at hfirst
    generalize hp : first.play t = p at hfirst
    cases hfirst with
    | ok hshows hkeeps =>
      rw [bind_ok hr]
      exact (ihn _ hshows).since hkeeps
    | error hshows hkeeps hat =>
      rw [bind_error hr]
      exact .error hshows hkeeps hat
  | take ok =>
    obtain ⟨rest, site, errors⟩ := c
    obtain ⟨x, xs, hrest, hfront, hx, -, hforward⟩ | ⟨hrest, hfront, -⟩ := h.front_cases hbefore
    · cases hrest
      simp only [Script.play, Script.run, hfront, Option.bind_some, hx, take?]
      cases hok : ok x.type with
      | true =>
        simp only [Tape.advance_of_front hfront hx]
        exact .ok hforward fun ho => ho.moved rfl (Nat.le_succ t.place) hforward.place
      | false => exact .ok h id
    · cases hrest
      simp only [Script.play, Script.run, hfront, Option.bind_some, hlast, take?]
      exact .ok h id
  | facing type =>
    apply h.looks hbefore
    · intro x xs hrest hx
      simp [hrest, hx]
    · intro hrest
      simp [hrest, hlast]
  | atEnd =>
    apply h.looks hbefore
    · intro x xs hrest hx
      simp [hrest, hx]
    · intro hrest
      simp [hrest, hlast]
  | freshSite =>
    rw [Script.play, h.site]
    exact .ok ⟨h.tokens, h.place, h.rest, rfl, h.errors⟩ fun ho =>
      ho.moved rfl (Nat.le_refl _) h.place
  | report e soft => exact .ok h.note fun ho => ho.note soft
  | reportHere fault soft =>
    obtain ⟨r, hblame, herror, -⟩ := h.blame hbefore hlast fault
    have hnote := h.note (r := r)
    rw [herror] at hnote
    simp only [Script.play, hblame, Option.map_some]
    exact .ok hnote fun ho => ho.note (by rw [herror, soft])
  | fail fault =>
    obtain ⟨r, hblame, herror, hat⟩ := h.blame hbefore hlast fault
    simp only [Script.play, Script.run, hblame, Option.map_some, Grammar.fail, ← herror]
    exact .error h id hat
  | recovering rule ih =>
    have hrule := ih h
    simp only [Script.play, Script.run]
    generalize hr : rule.run c = r at hrule
    generalize hp : rule.play t = p at hrule
    cases hrule with
    | ok hshows hkeeps =>
      rw [recovering_ok hr]
      exact .ok hshows hkeeps
    | @error e t₁ c₁ hshows hkeeps hat =>
      obtain ⟨t₂, hsync, hshows', hreports, hlater⟩ :=
        (hshows.note (r := e)).synchronize hbefore hlast
      rw [recovering_error hr]
      simp only [hsync, Option.map_some]
      exact .ok hshows' fun ho => (hkeeps ho).noteAt hat hreports hlater hshows'.place

end

end Lox.Grammar
