import Lox.Proofs.Grammar.Completeness
import Lox.Proofs.Recovery.Statements
import Lox.Proofs.Sites.Shift

/-! Runs of rules over some tokens, told by how they end: past them, with so many errors noted at
most, or with a failure right behind them. -/

namespace Lox.Grammar

variable {α β : Type}

inductive Settles (k : List Token) (es : List SyntaxError) :
    Option ℕ → EStateM.Result SyntaxError Cursor α → Prop
  | passes {a j w d} : w.length ≤ d → Settles k es (some d) (.ok a ⟨k, j, w ++ es⟩)
  | fails {e j} : Settles k es none (.error e ⟨k, j, es⟩)

/-- On `u` with `k` behind it the rule passes `u` and notes at most `d` errors, for `some d`, or
fails where `k` begins and notes no error, for `none`. -/
def Meets (out : Option ℕ) (rule : Parse α) (u k : List Token) : Prop :=
  ∀ i es, Settles k es out (rule ⟨u ++ k, i, es⟩)

abbrev Reads (rule : Parse α) (u k : List Token) : Prop := Meets (some 0) rule u k

abbrev Fails (rule : Parse α) (u k : List Token) : Prop := Meets none rule u k

namespace Meets

variable {out : Option ℕ} {d d' : ℕ} {x : Parse α} {f : α → Parse β} {t : Token}
  {u v k : List Token} {type : TokenType}

lemma pure (a : α) : Reads (Pure.pure a) [] k :=
  fun i _ => .passes (j := i) (w := []) (Nat.le_refl 0)

lemma mono (h : Meets (some d) x u k) (hd : d ≤ d') : Meets (some d') x u k := by
  intro i es
  have hx := h i es
  generalize x ⟨u ++ k, i, es⟩ = r at hx ⊢
  cases hx with
  | passes hn => exact .passes (Nat.le_trans hn hd)

lemma after (hx : Reads x u (v ++ k)) (hf : ∀ a, Meets out (f a) v k) :
    Meets out (x >>= f) (u ++ v) k := by
  intro i es
  have h := hx i es
  rw [List.append_assoc]
  generalize hr : x ⟨u ++ (v ++ k), i, es⟩ = r at h
  cases h with
  | passes hn =>
    obtain rfl := List.length_eq_zero_iff.1 (Nat.le_zero.1 hn)
    rw [bind_ok hr]
    exact hf _ _ es

lemma andThen (hx : Meets (some d) x u (v ++ k)) (hf : ∀ a, Meets (some d') (f a) v k) :
    Meets (some (d' + d)) (x >>= f) (u ++ v) k := by
  intro i es
  have h := hx i es
  rw [List.append_assoc]
  generalize hr : x ⟨u ++ (v ++ k), i, es⟩ = r at h
  cases h with
  | @passes a j w _ hn =>
    rw [bind_ok hr]
    have h' := hf a j (w ++ es)
    generalize f a ⟨v ++ k, j, w ++ es⟩ = r' at h'
    cases h' with
    | passes hn' =>
      rw [← List.append_assoc]
      exact .passes (by rw [List.length_append]; omega)

lemma thenReads (hx : Meets (some d) x u (v ++ k)) (hf : ∀ a, Reads (f a) v k) :
    Meets (some d) (x >>= f) (u ++ v) k :=
  (hx.andThen hf).mono (Nat.le_of_eq (Nat.zero_add d))

lemma failed (hx : Fails x u k) : Fails (x >>= f) u k := by
  intro i es
  have h := hx i es
  generalize hr : x ⟨u ++ k, i, es⟩ = r at h
  cases h with
  | fails =>
    rw [bind_error hr]
    exact .fails

lemma thenPure (h : Meets out x u k) (g : α → β) :
    Meets out (x >>= fun a => Pure.pure (g a)) u k := by
  cases out with
  | none => exact h.failed
  | some d =>
    have hg : Meets (some d) x u ([] ++ k) := h
    have hb := hg.thenReads (fun a => pure (g a))
    rwa [List.append_nil] at hb

lemma map (h : Meets out x u k) (g : α → β) : Meets out (g <$> x) u k := h.thenPure g

lemma take {ok : TokenType → Bool} {f : Option Token → Parse β} (ht : ok t.type = true)
    (hf : Meets out (f (some t)) u k) : Meets out (take? ok >>= f) (t :: u) k := by
  intro i es
  have hc : take? ok ⟨t :: (u ++ k), i, es⟩ = .ok (some t) ⟨u ++ k, i, es⟩ := by
    rw [take?, ht]
    rfl
  rw [List.cons_append, bind_ok hc]
  exact hf i es

lemma takeNone {ok : TokenType → Bool} {f : Option Token → Parse β}
    (ht : (ahead (u ++ k) none).any ok = false) (hf : Meets out (f none) u k) :
    Meets out (take? ok >>= f) u k := by
  intro i es
  have hc : take? ok ⟨u ++ k, i, es⟩ = .ok none ⟨u ++ k, i, es⟩ := by
    cases h : u ++ k with
    | nil => rfl
    | cons t ts =>
      rw [h] at ht
      have htype : ok t.type = false := ht
      rw [take?, htype]
      rfl
  rw [bind_ok hc]
  exact hf i es

lemma accept {f : Option Token → Parse β} (hfixed : type.isFixed = true) (ht : t.type = type)
    (hf : Meets out (f (some t)) u k) : Meets out (accept? type >>= f) (t :: u) k :=
  take ((TokenType.sameKind_iff hfixed).2 ht) hf

lemma acceptNone {f : Option Token → Parse β} (hfixed : type.isFixed = true)
    (ht : ahead (u ++ k) none ≠ some type) (hf : Meets out (f none) u k) :
    Meets out (accept? type >>= f) u k := by
  refine takeNone ?_ hf
  rwa [← Bool.not_eq_true, any_sameKind_iff hfixed]

lemma expect {f : Token → Parse β} {what : Expected} (hfixed : type.isFixed = true)
    (ht : t.type = type) (hf : Meets out (f t) u k) :
    Meets out (Grammar.expect type what >>= f) (t :: u) k := by
  rw [Grammar.expect, bind_assoc]
  exact accept hfixed ht hf

lemma expectFails {what : Expected} (hfixed : type.isFixed = true)
    (ht : ahead k none ≠ some type) : Fails (Grammar.expect type what) [] k :=
  acceptNone hfixed ht fun _ _ => .fails

lemma facing {f : Bool → Parse β} (hfixed : type.isFixed = true)
    (ht : ahead (u ++ k) none = some type) (hf : Meets out (f true) u k) :
    Meets out (Grammar.facing type >>= f) u k := by
  intro i es
  have hc : Grammar.facing type ⟨u ++ k, i, es⟩ =
      .ok ((ahead (u ++ k) none).any (·.sameKind type)) ⟨u ++ k, i, es⟩ := by
    cases u ++ k <;> rfl
  rw [bind_ok hc, (any_sameKind_iff hfixed).2 ht]
  exact hf i es

lemma notFacing {f : Bool → Parse β} (hfixed : type.isFixed = true)
    (ht : ahead (u ++ k) none ≠ some type) (hf : Meets out (f false) u k) :
    Meets out (Grammar.facing type >>= f) u k := by
  intro i es
  have hc : Grammar.facing type ⟨u ++ k, i, es⟩ =
      .ok ((ahead (u ++ k) none).any (·.sameKind type)) ⟨u ++ k, i, es⟩ := by
    cases u ++ k <;> rfl
  have hnot : (ahead (u ++ k) none).any (·.sameKind type) = false := by
    rwa [← Bool.not_eq_true, any_sameKind_iff hfixed]
  rw [bind_ok hc, hnot]
  exact hf i es

lemma beforeEnd {f : Bool → Parse β} (hne : u ++ k ≠ []) (hf : Meets out (f false) u k) :
    Meets out (atEnd >>= f) u k := by
  intro i es
  have hc : atEnd ⟨u ++ k, i, es⟩ = .ok false ⟨u ++ k, i, es⟩ := by
    cases h : u ++ k with
    | nil => exact absurd h hne
    | cons => rfl
  rw [bind_ok hc]
  exact hf i es

lemma of_reads {n : ℕ} {rule : Parse α} {R : Phrase α} {act : ℕ → α → α} {a : α} {i j : SiteId}
    (hrule : Specifies n rule R) (hs : ∀ m, Shifts m (act m) rule rule) (hl : (u ++ k).length < n)
    (hr : R a u i j (ahead k none)) : Reads rule u k := by
  intro i' es
  have hfrom : rule ⟨u ++ k, i, es⟩ = .ok a ⟨k, j, es⟩ := (hrule.exact hl).2 ⟨u, rfl, hr⟩
  have hlift : ∀ m, rule ⟨u ++ k, 0 + m, es⟩ = shiftResult m (act m) (rule ⟨u ++ k, 0, es⟩) :=
    fun m => hs m ⟨u ++ k, 0, es⟩
  have hi := hlift i
  rw [Nat.zero_add, hfrom] at hi
  have hi' := hlift i'
  rw [Nat.zero_add] at hi'
  rw [hi']
  cases h : rule ⟨u ++ k, 0, es⟩ with
  | error e c =>
    rw [h] at hi
    cases hi
  | ok b c =>
    rw [h] at hi
    obtain ⟨rest, j', es'⟩ := c
    cases hi
    exact .passes (w := []) (Nat.le_refl 0)

lemma expression {n : ℕ} (h : Ebnf.Derives (.rule .expression) u) (hl : (u ++ k).length < n)
    (hk : Ebnf.Closes (ahead k none)) : Reads (expression n) u k := by
  intro i es
  obtain ⟨e, j, he⟩ := Ebnf.reads_shorter _ u (Nat.lt_succ_self _) h i _ hk
  have hrun : Grammar.expression n ⟨u ++ k, i, es⟩ = .ok e ⟨k, j, es⟩ :=
    ((Specifies.expression_exact n).exact hl).2 ⟨u, rfl, he⟩
  rw [hrun]
  exact .passes (w := []) (Nat.le_refl 0)

lemma recovering {rule : Parse Stmt} (h : Meets (some d) rule u k) :
    Meets (some d) (recovering rule) u k := by
  intro i es
  have hx := h i es
  generalize hr : rule ⟨u ++ k, i, es⟩ = r at hx
  cases hx with
  | passes hn =>
    rw [recovering_ok hr]
    exact .passes hn

lemma resumed {rule : Parse Stmt} (h : Fails rule u (v ++ k)) (hv : resume (v ++ k) = k) :
    Meets (some 1) (Grammar.recovering rule) (u ++ v) k := by
  intro i es
  have hx := h i es
  rw [List.append_assoc]
  generalize hr : rule ⟨u ++ (v ++ k), i, es⟩ = r at hx
  cases hx with
  | @fails e j =>
    rw [recovering_error hr, hv]
    exact .passes (w := [e]) (Nat.le_refl 1)

end Meets

end Lox.Grammar
