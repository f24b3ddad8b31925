import Lox.Grammar.Program
import Mathlib.Data.List.Basic

/-! What a rule reads when it notes no error. A `Phrase` tells it without the cursor: the result,
the tokens that are taken, the numbers of the next site before and after, and what comes next. -/

namespace Lox

def TokenType.isFixed : TokenType → Bool
  | string _ | number _ => false
  | _ => true

lemma TokenType.sameKind_iff {s t : TokenType} (h : t.isFixed = true) :
    s.sameKind t = true ↔ s = t := by
  cases t with
  | string _ | number _ => cases h
  | _ => cases s <;> simp [sameKind]

namespace Grammar

abbrev Ahead := Option TokenType

def ahead (ts : List Token) (a : Ahead) : Ahead := (ts.head?.map (·.type)).or a

@[simp] lemma ahead_nil (a : Ahead) : ahead [] a = a := rfl

@[simp] lemma ahead_cons (t : Token) (ts : List Token) (a : Ahead) :
    ahead (t :: ts) a = some t.type := rfl

lemma ahead_append (u v : List Token) (a : Ahead) : ahead (u ++ v) a = ahead u (ahead v a) := by
  cases u <;> rfl

lemma any_sameKind_iff {a : Ahead} {type : TokenType} (h : type.isFixed = true) :
    a.any (·.sameKind type) = true ↔ a = some type := by
  cases a <;> simp [TokenType.sameKind_iff h]

abbrev Phrase (α : Type) := α → List Token → SiteId → SiteId → Ahead → Prop

variable {α β : Type}

def Phrase.bind (P : Phrase α) (Q : α → Phrase β) : Phrase β := fun b used i j a =>
  ∃ x u v k, used = u ++ v ∧ P x u i k (ahead v a) ∧ Q x b v k j a

def resultCursor : EStateM.Result SyntaxError Cursor α → Cursor
  | .ok _ c | .error _ c => c

structure Cursor.Grows (c c' : Cursor) : Prop where
  errors : c.errors <:+ c'.errors
  site : c.nextSite ≤ c'.nextSite

lemma Cursor.Grows.rfl {c : Cursor} : c.Grows c := ⟨List.suffix_rfl, Nat.le_refl _⟩

lemma Cursor.Grows.trans {c d e : Cursor} (h : c.Grows d) (h' : d.Grows e) : c.Grows e :=
  ⟨h.errors.trans h'.errors, Nat.le_trans h.site h'.site⟩

lemma Cursor.grows_error (e : SyntaxError) (c : Cursor) :
    c.Grows { c with errors := e :: c.errors } :=
  ⟨List.suffix_cons e c.errors, Nat.le_refl _⟩

/-- On fewer than `n` tokens, the rule reads the phrase exactly. -/
structure Specifies (n : ℕ) (rule : Parse α) (R : Phrase α) : Prop where
  keeps : ∀ c : Cursor, c.Grows (resultCursor (rule c))
  exact : ∀ {ts i es a rest j}, ts.length < n → (rule ⟨ts, i, es⟩ = .ok a ⟨rest, j, es⟩ ↔
    ∃ used, ts = used ++ rest ∧ R a used i j (ahead rest none))

namespace Specifies

variable {n m : ℕ} {rule : Parse α} {P R : Phrase α}

lemma mono (h : Specifies n rule R) (hm : m ≤ n) : Specifies m rule R :=
  ⟨h.keeps, fun hl => h.exact (Nat.lt_of_lt_of_le hl hm)⟩

lemma congr (h : Specifies n rule P) (hr : ∀ x u i j a, P x u i j a ↔ R x u i j a) :
    Specifies n rule R := by
  refine ⟨h.keeps, fun hl => (h.exact hl).trans ?_⟩
  simp only [hr]

lemma zero (h : Specifies n rule P) : Specifies 0 rule R :=
  ⟨h.keeps, fun hl => absurd hl (Nat.not_lt_zero _)⟩

lemma pure (x : α) : Specifies n (pure x) fun y u i j _ => y = x ∧ u = [] ∧ j = i := by
  refine ⟨fun c => .rfl, fun {ts i es a rest j} _ => ⟨?_, ?_⟩⟩
  · intro h
    cases h
    exact ⟨[], rfl, rfl, rfl, rfl⟩
  · rintro ⟨_, rfl, rfl, rfl, rfl⟩
    rfl

lemma fail (fault : SyntaxFault) : Specifies n (fail fault : Parse α) fun _ _ _ _ _ => False :=
  ⟨fun _ => .rfl, fun _ => ⟨(by intro h; cases h), fun ⟨_, _, h⟩ => h.elim⟩⟩

lemma report (e : SyntaxError) : Specifies n (report e) fun _ _ _ _ _ => False := by
  refine ⟨fun c => Cursor.grows_error e c, fun _ => ⟨fun h => ?_, fun ⟨_, _, h⟩ => h.elim⟩⟩
  have he := congrArg (fun r => (resultCursor r).errors.length) h
  simp [Grammar.report, resultCursor] at he

lemma reportHere (fault : SyntaxFault) :
    Specifies n (reportHere fault) fun _ _ _ _ _ => False := by
  refine ⟨fun c => Cursor.grows_error _ c, fun _ => ⟨fun h => ?_, fun ⟨_, _, h⟩ => h.elim⟩⟩
  have he := congrArg (fun r => (resultCursor r).errors.length) h
  simp [Grammar.reportHere, resultCursor] at he

lemma facing (type : TokenType) : Specifies n (facing type) fun b u i j a =>
    b = a.any (·.sameKind type) ∧ u = [] ∧ j = i := by
  have hf : ∀ ts : List Token, ts.head?.any (·.type.sameKind type) =
      (ahead ts none).any (·.sameKind type) := by
    rintro (_ | ⟨t, ts⟩) <;> rfl
  refine ⟨fun c => .rfl, fun {ts i es a rest j} _ => ⟨?_, ?_⟩⟩
  · intro h
    cases h
    exact ⟨[], rfl, hf ts, rfl, rfl⟩
  · rintro ⟨_, rfl, rfl, rfl, rfl⟩
    exact congrArg (EStateM.Result.ok · _) (hf rest)

lemma atEnd : Specifies n atEnd fun b u i j a => b = a.isNone ∧ u = [] ∧ j = i := by
  have hf : ∀ ts : List Token, ts.isEmpty = (ahead ts none).isNone := by
    rintro (_ | ⟨t, ts⟩) <;> rfl
  refine ⟨fun c => .rfl, fun {ts i es a rest j} _ => ⟨?_, ?_⟩⟩
  · intro h
    cases h
    exact ⟨[], rfl, hf ts, rfl, rfl⟩
  · rintro ⟨_, rfl, rfl, rfl, rfl⟩
    exact congrArg (EStateM.Result.ok · _) (hf rest)

lemma freshSite : Specifies n freshSite fun s u i j _ => s = i ∧ u = [] ∧ j = i + 1 := by
  refine ⟨fun c => ⟨List.suffix_rfl, Nat.le_succ _⟩, fun {ts i es a rest j} _ => ⟨?_, ?_⟩⟩
  · intro h
    cases h
    exact ⟨[], rfl, rfl, rfl, rfl⟩
  · rintro ⟨_, rfl, rfl, rfl, rfl⟩
    rfl

lemma bind {x : Parse α} {f : α → Parse β} {Q : α → Phrase β} {m : α → ℕ}
    (hx : Specifies n x P) (hm : ∀ {b u i k a}, P b u i k a → n ≤ m b + u.length)
    (hf : ∀ b c c', x c = .ok b c' → Specifies (m b) (f b) (Q b)) :
    Specifies n (x >>= f) (P.bind Q) := by
  have hb : ∀ c, (x >>= f) c = match x c with
      | .ok b c => f b c
      | .error e c => .error e c := by
    intro c
    simp only [Bind.bind, EStateM.bind]
    cases x c <;> rfl
  constructor
  · intro c
    have hk := hx.keeps c
    rw [hb]
    cases hc : x c with
    | ok b c' =>
      rw [hc] at hk
      exact hk.trans ((hf b c c' hc).keeps c')
    | error e c' => rwa [hc] at hk
  · intro ts i es y rest j hl
    rw [hb]
    constructor
    · intro h
      cases hc : x ⟨ts, i, es⟩ with
      | error e c' => rw [hc] at h; cases h
      | ok b c' =>
        rw [hc] at h
        replace h : f b c' = .ok y ⟨rest, j, es⟩ := h
        have hfirst := hx.keeps ⟨ts, i, es⟩
        have hlater := (hf b _ _ hc).keeps c'
        rw [hc] at hfirst
        rw [h] at hlater
        -- Errors are only added, so if none was added at the end none was in between.
        have he : es = c'.errors := hfirst.errors.eq_of_length_le hlater.errors.length_le
        obtain ⟨middle, k, es'⟩ := c'
        obtain rfl : es = es' := he
        obtain ⟨u, rfl, hu⟩ := (hx.exact hl).1 hc
        have hlm : middle.length < m b := by
          have hn := hm hu
          rw [List.length_append] at hl
          omega
        obtain ⟨v, rfl, hv⟩ := ((hf b _ _ hc).exact hlm).1 h
        rw [ahead_append] at hu
        exact ⟨u ++ v, (List.append_assoc ..).symm, b, u, v, k, rfl, hu, hv⟩
    · rintro ⟨_, rfl, b, u, v, k, rfl, hu, hv⟩
      rw [← ahead_append] at hu
      rw [List.append_assoc] at hl ⊢
      have hlm : (v ++ rest).length < m b := by
        have hn := hm hu
        rw [List.length_append] at hl
        omega
      have hc : x ⟨u ++ (v ++ rest), i, es⟩ = .ok b ⟨v ++ rest, k, es⟩ :=
        (hx.exact hl).2 ⟨u, rfl, hu⟩
      rw [hc]
      exact ((hf b _ _ hc).exact hlm).2 ⟨v, rfl, hv⟩

lemma andThen {x : Parse α} {f : α → Parse β} {Q : α → Phrase β} (hx : Specifies n x P)
    (hf : ∀ b, Specifies n (f b) (Q b)) : Specifies n (x >>= f) (P.bind Q) :=
  hx.bind (m := fun _ => n) (fun _ => Nat.le_add_right _ _) fun b _ _ _ => hf b

lemma take (ok : TokenType → Bool) : Specifies n (take? ok) fun o u i j a =>
    j = i ∧ match o with
      | some t => u = [t] ∧ ok t.type = true
      | none => u = [] ∧ a.any ok = false := by
  refine ⟨fun c => ?_, fun {ts i es o rest j} _ => ?_⟩
  · obtain ⟨_ | ⟨t, ts⟩, i, es⟩ := c
    · exact .rfl
    · simp only [take?]
      split <;> exact ⟨List.suffix_rfl, Nat.le_refl _⟩
  cases ts with
  | nil =>
    constructor
    · intro h
      cases h
      exact ⟨[], rfl, rfl, rfl, rfl⟩
    · rintro ⟨used, hu, rfl, ho⟩
      obtain ⟨rfl, rfl⟩ := List.append_eq_nil_iff.1 hu.symm
      cases o with
      | none => rfl
      | some t => cases ho.1
  | cons t ts =>
    simp only [take?]
    cases hok : ok t.type with
    | true =>
      constructor
      · intro h
        cases h
        exact ⟨[t], rfl, rfl, rfl, hok⟩
      · rintro ⟨used, hu, rfl, ho⟩
        cases o with
        | none =>
          obtain ⟨rfl, ho⟩ := ho
          obtain rfl : t :: ts = rest := hu
          simp [hok] at ho
        | some t' =>
          obtain ⟨rfl, _⟩ := ho
          cases hu
          rfl
    | false =>
      constructor
      · intro h
        cases h
        exact ⟨[], rfl, rfl, rfl, hok⟩
      · rintro ⟨used, hu, rfl, ho⟩
        cases o with
        | none =>
          obtain ⟨rfl, ho⟩ := ho
          obtain rfl : t :: ts = rest := hu
          rfl
        | some t' =>
          obtain ⟨rfl, ho⟩ := ho
          cases hu
          simp [hok] at ho

lemma take_ok {ok : TokenType → Bool} {t : Token} {c c' : Cursor}
    (h : take? ok c = .ok (some t) c') : ok t.type = true := by
  obtain ⟨_ | ⟨s, rest⟩, i, es⟩ := c
  · cases h
  · rw [take?] at h
    split at h
    · next hok => cases h; exact hok
    · cases h

lemma choice {ok : TokenType → Bool} {f : Option Token → Parse β} {Q : Token → Phrase β}
    {R : Phrase β} (hm : n ≤ m + 1) (hs : ∀ t, ok t.type = true → Specifies m (f (some t)) (Q t))
    (hn : Specifies n (f none) R) : Specifies n (take? ok >>= f) fun y u i j a =>
      (∃ t v, u = t :: v ∧ ok t.type = true ∧ Q t y v i j a) ∨
        (ahead u a).any ok = false ∧ R y u i j a := by
  have hb := (take (n := n) ok).bind (f := f) (Q := fun o => o.elim R Q)
    (m := fun o => o.elim n fun _ => m)
    (fun {o u i k a} h => by
      cases o with
      | none => exact Nat.le_add_right _ _
      | some t =>
        obtain ⟨_, rfl, _⟩ := h
        exact hm)
    (fun o c c' hc => by
      cases o with
      | none => exact hn
      | some t => exact hs t (take_ok hc))
  refine hb.congr fun y u i j a => ⟨?_, ?_⟩
  · rintro ⟨_ | t, u, v, k, rfl, ⟨rfl, rfl, ho⟩, hv⟩
    · exact .inr ⟨ho, hv⟩
    · exact .inl ⟨t, v, rfl, ho, hv⟩
  · rintro (⟨t, v, rfl, ho, hv⟩ | ⟨ho, hv⟩)
    · exact ⟨some t, [t], v, i, rfl, ⟨rfl, rfl, ho⟩, hv⟩
    · exact ⟨none, [], u, i, rfl, ⟨rfl, rfl, ho⟩, hv⟩

lemma accept {type : TokenType} {f : Option Token → Parse β} {Q : Token → Phrase β}
    {R : Phrase β} (ht : type.isFixed = true) (hm : n ≤ m + 1)
    (hs : ∀ t, Specifies m (f (some t)) (Q t)) (hn : Specifies n (f none) R) :
    Specifies n (accept? type >>= f) fun y u i j a =>
      (∃ t v, u = t :: v ∧ t.type = type ∧ Q t y v i j a) ∨
        ahead u a ≠ some type ∧ R y u i j a := by
  refine (choice hm (fun t _ => hs t) hn).congr fun y u i j a => ?_
  simp only [TokenType.sameKind_iff ht, ← Bool.not_eq_true, any_sameKind_iff ht, ne_eq]

lemma test {x : Parse Bool} {p : Ahead → Bool} {f : Bool → Parse β} {P R : Phrase β}
    (hx : Specifies n x fun b u i j a => b = p a ∧ u = [] ∧ j = i)
    (hs : Specifies n (f true) P) (hn : Specifies n (f false) R) :
    Specifies n (x >>= f) fun y u i j a =>
      p (ahead u a) = true ∧ P y u i j a ∨ p (ahead u a) = false ∧ R y u i j a := by
  have hb := hx.andThen (f := f) (Q := fun b => cond b P R) fun b => by
    cases b with
    | true => exact hs
    | false => exact hn
  refine hb.congr fun y u i j a => ⟨?_, ?_⟩
  · rintro ⟨b, u, v, k, rfl, ⟨hb, rfl, rfl⟩, hv⟩
    cases b with
    | true => exact .inl ⟨hb.symm, hv⟩
    | false => exact .inr ⟨hb.symm, hv⟩
  · rintro (⟨hb, hv⟩ | ⟨hb, hv⟩)
    · exact ⟨true, [], u, i, rfl, ⟨hb.symm, rfl, rfl⟩, hv⟩
    · exact ⟨false, [], u, i, rfl, ⟨hb.symm, rfl, rfl⟩, hv⟩

lemma whenFacing {type : TokenType} {f : Bool → Parse β} {P R : Phrase β}
    (ht : type.isFixed = true) (hs : Specifies n (f true) P) (hn : Specifies n (f false) R) :
    Specifies n (Grammar.facing type >>= f) fun y u i j a =>
      ahead u a = some type ∧ P y u i j a ∨ ahead u a ≠ some type ∧ R y u i j a := by
  refine (test (facing type) hs hn).congr fun y u i j a => ?_
  simp only [← Bool.not_eq_true, any_sameKind_iff ht, ne_eq]

lemma whenAtEnd {f : Bool → Parse β} {P R : Phrase β} (hs : Specifies n (f true) P)
    (hn : Specifies n (f false) R) : Specifies n (Grammar.atEnd >>= f) fun y u i j a =>
      ahead u a = none ∧ P y u i j a ∨ ahead u a ≠ none ∧ R y u i j a := by
  refine (test atEnd hs hn).congr fun y u i j a => ?_
  simp only [← Bool.not_eq_true, Option.isNone_iff_eq_none, ne_eq]

lemma thenPure (h : Specifies n rule R) (g : α → β) :
    Specifies n (rule >>= fun x => Pure.pure (g x)) fun y u i j a =>
      ∃ x, y = g x ∧ R x u i j a := by
  refine (h.andThen fun x => Specifies.pure (g x)).congr fun y u i j a => ⟨?_, ?_⟩
  · rintro ⟨x, u, v, k, rfl, hx, rfl, rfl, rfl⟩
    exact ⟨x, rfl, by simpa using hx⟩
  · rintro ⟨x, rfl, hx⟩
    exact ⟨x, u, [], j, (List.append_nil u).symm, hx, rfl, rfl, rfl⟩

lemma map (g : α → β) (h : Specifies n rule R) :
    Specifies n (g <$> rule) fun y u i j a => ∃ x, y = g x ∧ R x u i j a :=
  h.thenPure g

lemma expect {type : TokenType} (what : Expected) (ht : type.isFixed = true) :
    Specifies n (expect type what) fun t u i j _ => t.type = type ∧ u = [t] ∧ j = i := by
  refine (accept ht (Nat.le_succ n) (fun t => Specifies.pure t) (fail _)).congr
    fun t u i j a => ⟨?_, ?_⟩
  · rintro (⟨_, _, rfl, ho, rfl, rfl, rfl⟩ | ⟨_, h⟩)
    · exact ⟨ho, rfl, rfl⟩
    · exact h.elim
  · rintro ⟨ho, rfl, rfl⟩
    exact .inl ⟨t, [], rfl, ho, rfl, rfl, rfl⟩

lemma expectThen {type : TokenType} {what : Expected} {f : Token → Parse β} {Q : Token → Phrase β}
    (ht : type.isFixed = true) (hf : ∀ t, Specifies n (f t) (Q t)) :
    Specifies n (Grammar.expect type what >>= f) fun y used i j a =>
      ∃ t u, used = t :: u ∧ t.type = type ∧ Q t y u i j a := by
  refine ((expect what ht).andThen hf).congr fun y used i j a => ⟨?_, ?_⟩
  · rintro ⟨t, _, u, _, rfl, ⟨ht, rfl, rfl⟩, hu⟩
    exact ⟨t, u, rfl, ht, hu⟩
  · rintro ⟨t, u, rfl, ht, hu⟩
    exact ⟨t, [t], u, i, rfl, ⟨ht, rfl, rfl⟩, hu⟩

lemma thenExpect {type : TokenType} {what : Expected} {f : α → Token → Parse β}
    {Q : α → Token → Phrase β} (h : Specifies n rule R) (ht : type.isFixed = true)
    (hf : ∀ x t, Specifies n (f x t) (Q x t)) :
    Specifies n (rule >>= fun x => Grammar.expect type what >>= f x) fun y used i j a =>
      ∃ x u t v k, used = u ++ t :: v ∧ R x u i k (some t.type) ∧ t.type = type ∧
        Q x t y v k j a := by
  refine (h.andThen fun x => expectThen ht (hf x)).congr fun y used i j a => ⟨?_, ?_⟩
  · rintro ⟨x, u, _, k, rfl, hx, t, v, rfl, ht, hv⟩
    exact ⟨x, u, t, v, _, rfl, hx, ht, hv⟩
  · rintro ⟨x, u, t, v, k, rfl, hx, ht, hv⟩
    exact ⟨x, u, t :: v, k, rfl, hx, t, v, rfl, ht, hv⟩

lemma endExpect {type : TokenType} {what : Expected} {g : α → Token → β}
    (h : Specifies n rule R) (ht : type.isFixed = true) :
    Specifies n (rule >>= fun x => Grammar.expect type what >>= fun t => Pure.pure (g x t))
      fun y used i j _ => ∃ x u t, used = u ++ [t] ∧ R x u i j (some t.type) ∧ t.type = type ∧
        y = g x t := by
  refine (h.thenExpect ht fun x t => Specifies.pure (g x t)).congr fun y used i j a => ⟨?_, ?_⟩
  · rintro ⟨x, u, t, _, _, rfl, hx, ht, rfl, rfl, rfl⟩
    exact ⟨x, u, t, rfl, hx, ht, rfl⟩
  · rintro ⟨x, u, t, rfl, hx, ht, rfl⟩
    exact ⟨x, u, t, [], j, rfl, hx, ht, rfl, rfl, rfl⟩

lemma limited {x : Parse α} (hx : Specifies n x R) (fault : SyntaxFault) (p : ℕ) :
    Specifies n (if p ≥ maxArity then Grammar.reportHere fault >>= fun _ => x else x)
      fun y u i j a => p < maxArity ∧ R y u i j a := by
  by_cases hp : p ≥ maxArity
  · rw [if_pos hp]
    refine ((reportHere fault).andThen fun _ => hx).congr fun y u i j a => ⟨?_, fun h => ?_⟩
    · rintro ⟨_, _, _, _, _, h, _⟩
      exact h.elim
    · exact absurd h.1 (Nat.not_lt.2 hp)
  · rw [if_neg hp]
    exact hx.congr fun y u i j a => ⟨fun h => ⟨Nat.lt_of_not_le hp, h⟩, fun h => h.2⟩

end Specifies

end Grammar

end Lox
