import Lox.Proofs.Grammar.StmtRules
import Lox.Proofs.Semicolon.Adjacent

/-! What an error in front of some tokens skips, and what may come after a missing semicolon so that
nothing else is broken by that. -/

namespace Lox.Grammar

open Ebnf

def Announces (t : TokenType) : Prop := t.startsStatement = true ∨ t = .keyword .kwElse

/-- Tokens that an error at the first of them skips, up to `k`; or an expression statement, whose
first token may go on an expression before it. -/
inductive Sequel (k : List Token) : List Token → Prop
  | finish : k = [] → Sequel k []
  | keyword {t w} : Announces t.type → resume (t :: (w ++ k)) = k → Sequel k (t :: w)
  | expression {w s} : Derives (.rule .expression) w → s.type = .punct .semicolon →
      Sequel k (w ++ [s])

inductive Head : List Token → Prop
  | condition {t o c e} : t.type = .keyword .kwWhile ∨ t.type = .keyword .kwIf →
      o.type = .punct .leftParen → Derives (.rule .expression) e → c.type = .punct .rightParen →
      Head (t :: o :: (e ++ [c]))
  | otherwise {t} : t.type = .keyword .kwElse → Head [t]

def BeginsSimple (t : TokenType) : Prop :=
  startsExpression t = true ∨ t = .keyword .kwVar ∨ t = .keyword .kwPrint ∨ t = .keyword .kwReturn

/-- What may come after a missing semicolon: nothing, a declaration without statements inside, or
`while`, `if` or `else` with a statement that is no block, and no `else` after that. -/
inductive Harmless : List Token → Prop
  | finish : Harmless []
  | simple {t v} : BeginsSimple t.type → Harmless (t :: v)
  | around {p w v} : Head p → Derives (.rule .statement) w →
      ahead w none ≠ some (.punct .leftBrace) → ahead v none ≠ some (.keyword .kwElse) →
      Harmless (p ++ w ++ v)

/-- An error at the first of these tokens skips some of them, and the others are read. -/
def Skipped (k w : List Token) : Prop := ∃ D r b i j, w = D ++ r ∧ Sequel (r ++ k) D ∧
  ReadsDecls b r i j (ahead k none)

variable {k p u v w D : List Token} {s t : Token} {x : Stmt} {i j : SiteId}

lemma Announces.keyword {type : TokenType} (h : Announces type) :
    ∃ w : Keyword, type = .keyword w ∧ w ≠ .kwAnd ∧ w ≠ .kwOr ∧
      startsExpression (.keyword w) = false := by
  obtain h | rfl := h
  · cases type with
    | keyword w =>
      refine ⟨w, rfl, ?_⟩
      cases w <;> first | cases h; done | exact ⟨nofun, nofun, rfl⟩
    | _ => cases h
  · exact ⟨.kwElse, rfl, nofun, nofun, rfl⟩

lemma Announces.ne_punct {type : TokenType} (h : Announces type) (p : Punct) :
    type ≠ .punct p := by
  obtain ⟨w, rfl, -⟩ := h.keyword
  nofun

lemma first_of_expression {w : List Token} (h : Derives (.rule .expression) w) :
    ∃ t v, w = t :: v ∧ startsExpression t.type = true := by
  obtain ⟨e, j, he⟩ := reads_shorter _ w (Nat.lt_succ_self _) h 0 _ (closes_punct (.inl rfl))
  exact he.first rfl

lemma plain_expression {w : List Token} (h : Derives (.rule .expression) w) :
    ∀ t ∈ w, IsPlain t.type :=
  plain_of_derives h (by simp [Form.Plain, Form.InExpression])

lemma resumeAfter_skips {ts : List Token} (ht : t.type ≠ .punct .semicolon)
    (hs : s.type.startsStatement = false) : resumeAfter t (s :: ts) = resumeAfter s ts := by
  rw [resumeAfter, if_neg]
  rw [hs, Bool.or_false, TokenType.sameKind_iff rfl]
  exact ht

lemma resumeAfter_plain {w : List Token} (hw : ∀ x ∈ w, IsPlain x.type)
    (ht : t.type ≠ .punct .semicolon) :
    ∃ x : Token, x.type ≠ .punct .semicolon ∧ resumeAfter t (w ++ k) = resumeAfter x k := by
  induction w generalizing t with
  | nil => exact ⟨t, ht, rfl⟩
  | cons y w ih =>
    rw [List.forall_mem_cons] at hw
    rw [List.cons_append, resumeAfter_skips ht hw.1.2]
    exact ih hw.2 hw.1.1

lemma resumeAfter_semicolon {w : List Token} (hw : ∀ x ∈ w, IsPlain x.type)
    (hs : s.type = .punct .semicolon) (ht : t.type ≠ .punct .semicolon) :
    resumeAfter t (w ++ s :: k) = k := by
  obtain ⟨x, hx, he⟩ := resumeAfter_plain (k := s :: k) hw ht
  rw [he, resumeAfter_skips hx (by rw [hs]; rfl)]
  cases k with
  | nil => rfl
  | cons y ts =>
    rw [resumeAfter, if_pos]
    rw [(TokenType.sameKind_iff rfl).2 hs, Bool.true_or]

lemma resumeAfter_starts {w : List Token} (hw : ∀ x ∈ w, IsPlain x.type)
    (hs : s.type.startsStatement = true) (ht : t.type ≠ .punct .semicolon) :
    resumeAfter t (w ++ s :: k) = s :: k := by
  obtain ⟨x, -, he⟩ := resumeAfter_plain (k := s :: k) hw ht
  rw [he, resumeAfter, if_pos]
  rw [hs, Bool.or_true]

namespace Sequel

lemma resume (h : Sequel k D) : resume (D ++ k) = k := by
  cases h with
  | finish hk =>
    rw [hk]
    rfl
  | keyword _ hw => exact hw
  | @expression w s hw hs =>
    obtain ⟨t, v, rfl, -⟩ := first_of_expression hw
    have hplain := plain_expression hw
    rw [List.forall_mem_cons] at hplain
    rw [List.cons_append, List.cons_append, List.append_assoc]
    exact resumeAfter_semicolon hplain.2 hs hplain.1.1

lemma ahead_ne (h : Sequel k D) {p : Punct} (hp : startsExpression (.punct p) = false) :
    ahead (D ++ k) none ≠ some (.punct p) := by
  cases h with
  | finish hk =>
    rw [hk]
    nofun
  | keyword ht _ => exact fun he => ht.ne_punct p (Option.some.inj he)
  | expression hw _ =>
    obtain ⟨t, v, rfl, ht⟩ := first_of_expression hw
    exact Grammar.ahead_ne ht hp

lemma skipped (h : Sequel k D) : Skipped k D :=
  ⟨D, [], [], 0, 0, (List.append_nil D).symm, h, .nil⟩

end Sequel

lemma Head.first (h : Head p) :
    ∃ t q, p = t :: q ∧ Announces t.type ∧ ∀ y ∈ q, IsPlain y.type := by
  cases h with
  | @condition t o c e ht ho he hc =>
    refine ⟨t, _, rfl, ?_, ?_⟩
    · rcases ht with ht | ht <;> exact .inl (by rw [ht]; rfl)
    · simp only [List.forall_mem_cons, List.forall_mem_append, ho, hc]
      exact ⟨⟨nofun, rfl⟩, plain_expression he, ⟨nofun, rfl⟩, nofun⟩
  | otherwise ht => exact ⟨_, [], rfl, .inr ht, nofun⟩

lemma Harmless.ne_rightBrace (h : Harmless (t :: v)) : t.type ≠ .punct .rightBrace := by
  intro ht
  generalize he : t :: v = u at h
  cases h with
  | finish => cases he
  | simple hb =>
    cases he
    rw [ht] at hb
    rcases hb with hb | hb | hb | hb <;> cases hb
  | around hp _ _ _ =>
    obtain ⟨t', q, rfl, hannounces, -⟩ := hp.first
    cases he
    exact hannounces.ne_punct _ ht

lemma sequel_keyword (ht : Announces t.type) (hw : ∀ y ∈ w, IsPlain y.type)
    (hs : s.type = .punct .semicolon) : Sequel k (t :: (w ++ [s])) := by
  refine .keyword ht ?_
  rw [List.append_assoc]
  exact resumeAfter_semicolon hw hs (ht.ne_punct _)

lemma sequel_of_reads {a : Ahead} (h : ReadsDecl x D i j a)
    (hD : ∃ t v, D = t :: v ∧ BeginsSimple t.type) : Sequel k D := by
  obtain ⟨t, v, he, ht⟩ := hD
  cases h with
  | function hf =>
    cases he
    rcases ht with ht | ht | ht | ht <;> rw [hf] at ht <;> cases ht
  | @var d _ _ _ _ _ hd hv =>
    have hannounces : Announces d.type := .inl (by rw [hd]; rfl)
    cases hv with
    | @plain name s _ _ hn hs =>
      refine sequel_keyword hannounces (List.forall_mem_singleton.2 ?_) hs
      rw [hn]
      exact ⟨nofun, rfl⟩
    | @initialized name eq e u s _ _ _ hn heq he' hs =>
      have hplain : ∀ y ∈ name :: eq :: u, IsPlain y.type := by
        simp only [List.forall_mem_cons, hn, heq]
        exact ⟨⟨nofun, rfl⟩, ⟨nofun, rfl⟩, plain_expression (derived_of_reads he')⟩
      exact sequel_keyword hannounces hplain hs
  | statement hx =>
    cases hx with
    | expression he' hs => exact .expression (derived_of_reads he') hs
    | @rule r _ _ _ _ _ hr =>
      cases he
      cases hr with
      | print hk he' hs =>
        exact sequel_keyword (.inl (by rw [hk]; rfl)) (plain_expression (derived_of_reads he')) hs
      | ret hk he' hs =>
        refine sequel_keyword (.inl (by rw [hk]; rfl)) ?_ hs
        cases he' with
        | none => nofun
        | some he' => exact plain_expression (derived_of_reads he')
      | loop hk | ifThen hk | ifElse hk | forLoop hk | block hk =>
        rcases ht with ht | ht | ht | ht <;> rw [hk] at ht <;> cases ht

lemma stmt_unique (h : ReadsStmt x w i j (ahead k none)) (hu : Derives (.rule .statement) u)
    (hv : ahead v none ≠ some (.keyword .kwElse)) (he : w ++ k = u ++ v) : w = u ∧ k = v := by
  obtain ⟨y, m, hy⟩ := readable_of_derives (blocks_shorter _) hu (Nat.le_refl _) hv i
  have hrule := (Specifies.statement_exact ((w ++ k).length + 1)).1
  have hleft : statement ((w ++ k).length + 1) ⟨w ++ k, i, []⟩ = .ok x ⟨k, j, []⟩ :=
    (hrule.exact (Nat.lt_succ_self _)).2 ⟨w, rfl, h⟩
  have hright : statement ((w ++ k).length + 1) ⟨w ++ k, i, []⟩ = .ok y ⟨v, m, []⟩ :=
    (hrule.exact (Nat.lt_succ_self _)).2 ⟨u, he, hy⟩
  obtain ⟨-, hc⟩ := EStateM.Result.ok.inj (hleft.symm.trans hright)
  obtain rfl : k = v := congrArg Cursor.rest hc
  exact ⟨List.append_cancel_right he, rfl⟩

lemma Head.skipped (hp : Head p) (hw : ReadsStmt x w i j (ahead k none))
    (hne : ahead w none ≠ some (.punct .leftBrace)) : Skipped k (p ++ w) := by
  obtain ⟨t, q, rfl, ht, hq⟩ := hp.first
  cases hw with
  | @expression e v s _ _ _ he hs =>
    have hplain : ∀ y ∈ q ++ v, IsPlain y.type :=
      List.forall_mem_append.2 ⟨hq, plain_expression (derived_of_reads he)⟩
    rw [List.cons_append, ← List.append_assoc]
    exact (sequel_keyword ht hplain hs).skipped
  | @rule t' _ v _ _ _ hr =>
    have hstarts : t'.type.startsStatement = true := by
      rcases startsRule_cases hr.starts with h | h | h | h | h | h
      · exact absurd (congrArg some h) hne
      all_goals rw [h]; rfl
    have hskip : resume (t :: (q ++ (t' :: v ++ k))) = t' :: v ++ k :=
      resumeAfter_starts hq hstarts (ht.ne_punct _)
    have hread : ReadsDecl x (t' :: v) i j (ahead [] (ahead k none)) := .statement (.rule hr)
    refine ⟨t :: q, t' :: v, [x], i, j, rfl, .keyword ht hskip, ?_⟩
    rw [← List.append_nil (t' :: v)]
    exact .cons hread .nil

lemma skipped_otherwise (ht : t.type = .keyword .kwElse) (hw : ReadsStmt x w i j (ahead k none))
    (h : Harmless (t :: w ++ k)) : ahead k none ≠ some (.keyword .kwElse) ∧ Skipped k (t :: w) := by
  generalize hall : t :: w ++ k = all at h
  cases h with
  | finish => cases hall
  | simple hb =>
    cases hall
    rw [ht] at hb
    rcases hb with hb | hb | hb | hb <;> cases hb
  | @around p u v hp hu hne hv =>
    cases hp with
    | condition hk _ _ _ =>
      obtain rfl := (List.cons.inj hall).1
      simp [ht] at hk
    | otherwise hl =>
      obtain ⟨rfl, rfl⟩ := stmt_unique hw hu hv (List.cons.inj hall).2
      exact ⟨hv, Head.skipped (.otherwise ht) hw hne⟩

lemma skipped_of_decl (h : ReadsDecl x D i j (ahead k none)) (hD : Harmless (D ++ k)) :
    Skipped k D := by
  obtain ⟨t, y, rfl, ht⟩ := h.first
  generalize hall : t :: y ++ k = all at hD
  cases hD with
  | finish => cases hall
  | simple hb =>
    cases hall
    exact (sequel_of_reads h ⟨t, y, rfl, hb⟩).skipped
  | @around p w v hp hw hne hv =>
    cases hp with
    | otherwise hl =>
      obtain rfl := (List.cons.inj hall).1
      rw [hl] at ht
      cases ht
    | @condition t' o c e hk ho he hc =>
      have hwhole : Derives (.rule .statement) (t' :: o :: (e ++ [c]) ++ w) := by
        obtain hk | hk := hk
        · exact (whileHead hk ho he hc).derives hw
        · exact (ifHead hk ho he hc).derives hw
      obtain rfl : t = t' := (List.cons.inj hall).1
      cases h with
      | function hf => simp [hf] at hk
      | var hd _ => simp [hd] at hk
      | statement hs =>
        obtain ⟨hD, rfl⟩ := stmt_unique hs hwhole hv hall
        obtain ⟨s, m, hr⟩ := readable_of_derives (blocks_shorter _) hw (Nat.le_refl _) hv 0
        rw [hD]
        exact Head.skipped (.condition hk ho he hc) hr hne

end Lox.Grammar
