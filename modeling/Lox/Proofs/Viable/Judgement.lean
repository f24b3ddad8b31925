import Lox.Proofs.Recovery.Continued
import Lox.Proofs.Viable.Words

/-! Rules as recognizers. Either a rule reads a word, and in no word followed by what may follow
does anything else begin like that; or it notes an error where what it has read can still be
completed, but not with the token it found. Languages of what may follow take the place of the rest
of the grammar. -/

namespace Lox

/-- An error after which reading is taken up somewhere else. -/
def SyntaxError.isHard (e : SyntaxError) : Bool :=
  match e.fault with
  | .missing _ => true
  | _ => false

instance : Nonempty Token := ⟨⟨.eof, "", 0, 0⟩⟩

instance : Nonempty Expr := ⟨.literal .nil⟩

instance : Nonempty Stmt := ⟨.block []⟩

namespace Grammar

open Ebnf
open scoped Computability

variable {α β : Type}

def hard (es : List SyntaxError) : List SyntaxError := es.filter (·.isHard)

def raised : EStateM.Result SyntaxError Cursor α → List SyntaxError
  | .ok _ c => c.errors
  | .error e c => e :: c.errors

abbrev Follow := Language Token → Prop

structure Done (L : Language Token) (F : Follow) (u rest : List Token) : Prop where
  mem : u ∈ L
  exact : ∀ {K}, F K → ∀ {w}, w.head? = rest.head? → u ++ w ∈ L * K → w ∈ K

structure Stuck (L : Language Token) (F : Follow) (u rest : List Token) : Prop where
  viable : ∃ w, u ++ w ∈ L
  exact : ∀ {K}, F K → ∀ {w}, w.head? = rest.head? → u ++ w ∉ L * K

inductive Outcome (L : Language Token) (F : Follow) (ts : List Token) (es : List SyntaxError) :
    EStateM.Result SyntaxError Cursor α → Prop
  | done {u a rest j es'} : ts = u ++ rest → hard es' = hard es → Done L F u rest →
      Outcome L F ts es (.ok a ⟨rest, j, es'⟩)
  | stuck {u rest e later r} : ts = u ++ rest → e.found = rest.head? →
      hard (raised r) = later ++ e :: hard es → Stuck L F u rest → Outcome L F ts es r

abbrev anywhere : Ahead → Prop := fun _ => True

/-- On fewer than `n` tokens whose first one is such as `q` says. -/
structure Recognizes (n : ℕ) (q : Ahead → Prop) (rule : Parse α) (L : Language Token)
    (F : Follow) : Prop where
  keeps : ∀ c : Cursor, c.Grows (resultCursor (rule c))
  nonempty : ∃ u, u ∈ L
  outcome : ∀ {ts i es}, ts.length < n → q (ahead ts none) → Outcome L F ts es (rule ⟨ts, i, es⟩)

lemma Outcome.imp {L L' : Language Token} {F F' : Follow} {ts : List Token} {es : List SyntaxError}
    {r : EStateM.Result SyntaxError Cursor α} (h : Outcome L F ts es r)
    (hd : ∀ {u rest}, ts = u ++ rest → Done L F u rest → Done L' F' u rest)
    (hs : ∀ {u rest}, ts = u ++ rest → Stuck L F u rest → Stuck L' F' u rest) :
    Outcome L' F' ts es r := by
  cases h with
  | done hts hes h => exact .done hts hes (hd hts h)
  | stuck hts hfound hes h => exact .stuck hts hfound hes (hs hts h)

lemma Outcome.cons {L L' : Language Token} {F : Follow} {t : Token} {ts : List Token}
    {es : List SyntaxError} {r : EStateM.Result SyntaxError Cursor α} (h : Outcome L' F ts es r)
    (hin : ∀ v ∈ L', t :: v ∈ L) (hout : ∀ K, F K → ∀ v, t :: v ∈ L * K → v ∈ L' * K) :
    Outcome L F (t :: ts) es r := by
  cases h with
  | done hts hes hd =>
    exact .done (congrArg (t :: ·) hts) hes
      ⟨hin _ hd.mem, fun hK w hh hw => hd.exact hK hh (hout _ hK _ hw)⟩
  | @stuck u _ _ _ _ hts hfound hes hs =>
    obtain ⟨w, hw⟩ := hs.viable
    exact .stuck (u := t :: u) (congrArg (t :: ·) hts) hfound hes
      ⟨⟨w, hin _ hw⟩, fun hK w hh hw => hs.exact hK hh (hout _ hK _ hw)⟩

lemma Outcome.since {L : Language Token} {F : Follow} {ts : List Token} {es es' : List SyntaxError}
    {r : EStateM.Result SyntaxError Cursor α} (h : Outcome L F ts es' r)
    (he : hard es' = hard es) : Outcome L F ts es r := by
  cases h with
  | done hts hes hd => exact .done hts (hes.trans he) hd
  | stuck hts hfound hes hs => exact .stuck hts hfound (he ▸ hes) hs

lemma hard_suffix {es es' : List SyntaxError} (h : es <:+ es') : hard es <:+ hard es' := by
  obtain ⟨new, rfl⟩ := h
  exact ⟨hard new, (List.filter_append ..).symm⟩

lemma raised_suffix {c : Cursor} {r : EStateM.Result SyntaxError Cursor α}
    (h : c.Grows (resultCursor r)) : c.errors <:+ raised r := by
  cases r with
  | ok a c' => exact h.errors
  | error e c' => exact h.errors.trans (List.suffix_cons e c'.errors)

lemma ahead_of_head? {w ts : List Token} (h : w.head? = ts.head?) :
    ahead w none = ahead ts none := by
  rw [ahead, ahead, h]

lemma head?_append_of {v w rest : List Token} (h : w.head? = rest.head?) :
    (v ++ w).head? = (v ++ rest).head? := by
  cases v with
  | nil => exact h
  | cons => rfl

namespace Recognizes

variable {n m : ℕ} {q : Ahead → Prop} {rule : Parse α} {L L₁ L₂ : Language Token} {F F₁ F₂ : Follow}

lemma mono (h : Recognizes n q rule L F) (hm : m ≤ n) : Recognizes m q rule L F :=
  ⟨h.keeps, h.nonempty, fun hl => h.outcome (Nat.lt_of_lt_of_le hl hm)⟩

lemma zero (hk : ∀ c : Cursor, c.Grows (resultCursor (rule c))) (hne : ∃ u, u ∈ L) :
    Recognizes 0 q rule L F :=
  ⟨hk, hne, fun hl => absurd hl (Nat.not_lt_zero _)⟩

lemma when {q' : Ahead → Prop} (h : Recognizes n q rule L F) (hq : ∀ a, q' a → q a) :
    Recognizes n q' rule L F :=
  ⟨h.keeps, h.nonempty, fun hl ha => h.outcome hl (hq _ ha)⟩

lemma ofEq (h : Recognizes n q rule L₁ F) (hL : L₁ = L₂) : Recognizes n q rule L₂ F := hL ▸ h

lemma narrow (h : Recognizes n q rule L₁ F₁) (hsub : ∀ u ∈ L₁, u ∈ L) (hF : ∀ K, F K → F₁ K)
    (hw : ∀ K, F K → ∀ w, q (ahead w none) → w ∈ L * K → w ∈ L₁ * K) :
    Recognizes n q rule L F := by
  refine ⟨h.keeps, h.nonempty.imp hsub, fun {ts i es} hl ha => ?_⟩
  have hword : ∀ {K} (_ : F K) {u rest w : List Token}, ts = u ++ rest → w.head? = rest.head? →
      u ++ w ∈ L * K → u ++ w ∈ L₁ * K := by
    rintro K hK u rest w rfl hh hu
    refine hw K hK _ ?_ hu
    rwa [ahead_of_head? (head?_append_of hh)]
  refine (h.outcome hl ha).imp (fun hts hd => ⟨hsub _ hd.mem, fun hK w hh hu => ?_⟩)
    fun hts hs => ⟨hs.viable.imp fun _ => hsub _, fun hK w hh hu => ?_⟩
  · exact hd.exact (hF _ hK) hh (hword hK hts hh hu)
  · exact hs.exact (hF _ hK) hh (hword hK hts hh hu)

lemma follow (h : Recognizes n q rule L F₁) (hF : ∀ K, F K → F₁ K) : Recognizes n q rule L F :=
  h.narrow (fun _ hu => hu) hF fun _ _ _ _ hw => hw

lemma still {x : Parse α} (hx : ∀ c, ∃ a j es, x c = .ok a ⟨c.rest, j, es⟩ ∧ c.nextSite ≤ j ∧
    c.errors <:+ es ∧ hard es = hard c.errors) : Recognizes n q x 1 F := by
  refine ⟨fun c => ?_, ⟨[], Language.nil_mem_one⟩, fun {ts i es} _ _ => ?_⟩
  · obtain ⟨a, j, es, h, hj, hes, -⟩ := hx c
    rw [h]
    exact ⟨hes, hj⟩
  · obtain ⟨a, j, es', h, -, -, hhard⟩ := hx ⟨ts, i, es⟩
    rw [h]
    refine .done (List.nil_append ts).symm hhard ⟨Language.nil_mem_one, fun _ w _ hw => ?_⟩
    rwa [List.nil_append, one_mul] at hw

lemma pure (a : α) : Recognizes n q (pure a) 1 F :=
  still fun _ => ⟨a, _, _, rfl, Nat.le_refl _, List.suffix_rfl, rfl⟩

lemma freshSite : Recognizes n q freshSite 1 F :=
  still fun _ => ⟨_, _, _, rfl, Nat.le_succ _, List.suffix_rfl, rfl⟩

lemma report {e : SyntaxError} (he : e.isHard = false) : Recognizes n q (report e) 1 F := by
  refine still fun c => ⟨_, _, _, rfl, Nat.le_refl _, List.suffix_cons _ _, ?_⟩
  rw [hard, List.filter_cons_of_neg (by rw [he]; nofun)]
  rfl

lemma fail (what : Expected) (hne : ∃ u, u ∈ L)
    (hq : ∀ K, F K → ∀ w ∈ L * K, ¬ q (ahead w none)) :
    Recognizes n q (fail (.missing what) : Parse α) L F := by
  refine ⟨fun c => .rfl, hne, fun {ts i es} _ ha => ?_⟩
  refine .stuck (List.nil_append ts).symm rfl (List.nil_append _).symm ⟨hne, fun hK w hh hw => ?_⟩
  refine hq _ hK _ hw ?_
  rwa [List.nil_append, ahead_of_head? hh]

lemma bind_keeps {x : Parse α} {f : α → Parse β} (hx : ∀ c : Cursor, c.Grows (resultCursor (x c)))
    (hf : ∀ b, ∀ c : Cursor, c.Grows (resultCursor (f b c))) (c : Cursor) :
    c.Grows (resultCursor ((x >>= f) c)) := by
  have hc := hx c
  cases h : x c with
  | ok b c' =>
    rw [bind_ok h]
    rw [h] at hc
    exact hc.trans (hf b c')
  | error e c' =>
    rw [bind_error h]
    rwa [h] at hc

lemma bind [Nonempty α] {x : Parse α} {f : α → Parse β} (hx : Recognizes n q x L₁ F₁)
    (hm : ∀ u ∈ L₁, n ≤ m + u.length) (hf : ∀ a, Recognizes m anywhere (f a) L₂ F₂)
    (hF : ∀ K, F K → F₁ (L₂ * K) ∧ F₂ K) : Recognizes n q (x >>= f) (L₁ * L₂) F := by
  obtain ⟨a₀⟩ := ‹Nonempty α›
  obtain ⟨u₁, hu₁⟩ := hx.nonempty
  obtain ⟨u₂, hu₂⟩ := (hf a₀).nonempty
  have hproduct : ∀ {K}, F K → ∀ {u w}, u ++ w ∈ L₁ * L₂ * K → u ++ w ∈ L₁ * (L₂ * K) :=
    fun _ _ _ h => by rwa [mul_assoc] at h
  refine ⟨bind_keeps hx.keeps fun b => (hf b).keeps, ⟨u₁ ++ u₂, Language.append_mem_mul hu₁ hu₂⟩,
    fun {ts i es} hl ha => ?_⟩
  have hfirst : Outcome L₁ F₁ ts es (x ⟨ts, i, es⟩) := hx.outcome hl ha
  generalize hr : x ⟨ts, i, es⟩ = r at hfirst
  cases hfirst with
  | @stuck u rest e later _ hts hfound hes hs =>
    -- A hard error of the first rule stays the first, whatever comes after it.
    have hlater : ∃ more, hard (raised ((x >>= f) ⟨ts, i, es⟩)) = more ++ hard (raised r) := by
      cases r with
      | error e' c' => exact ⟨[], by rw [bind_error hr]; rfl⟩
      | ok a c' =>
        obtain ⟨more, hmore⟩ := hard_suffix (raised_suffix ((hf a).keeps c'))
        exact ⟨more, by rw [bind_ok hr, ← hmore]; rfl⟩
    obtain ⟨more, hmore⟩ := hlater
    obtain ⟨w, hw⟩ := hs.viable
    have hraised : hard (raised ((x >>= f) ⟨ts, i, es⟩)) = (more ++ later) ++ e :: hard es := by
      rw [hmore, hes, List.append_assoc]
    refine .stuck hts hfound hraised ⟨⟨w ++ u₂, ?_⟩, fun hK w hh hw =>
      hs.exact (hF _ hK).1 hh (hproduct hK hw)⟩
    rw [← List.append_assoc]
    exact Language.append_mem_mul hw hu₂
  | @done u a rest j es' hts hes hd =>
    have hlen : rest.length < m := by
      have hn := hm u hd.mem
      rw [hts, List.length_append] at hl
      omega
    have hsecond : Outcome L₂ F₂ rest es' (f a ⟨rest, j, es'⟩) := (hf a).outcome hlen trivial
    rw [bind_ok hr]
    generalize f a ⟨rest, j, es'⟩ = r' at hsecond
    subst hts
    cases hsecond with
    | @done v b rest' j' es'' hts' hes' hd' =>
      subst hts'
      refine .done (List.append_assoc u v rest').symm (hes'.trans hes)
        ⟨Language.append_mem_mul hd.mem hd'.mem, fun {K} hK {w} hh hw => ?_⟩
      obtain ⟨hK₁, hK₂⟩ := hF K hK
      rw [List.append_assoc] at hw
      exact hd'.exact hK₂ hh (hd.exact hK₁ (head?_append_of hh) (hproduct hK hw))
    | @stuck v rest' e later _ hts' hfound hes' hs =>
      subst hts'
      obtain ⟨w, hw⟩ := hs.viable
      refine .stuck (List.append_assoc u v rest').symm hfound (hes ▸ hes') ⟨⟨w, ?_⟩, ?_⟩
      · rw [List.append_assoc]
        exact Language.append_mem_mul hd.mem hw
      · intro K hK w hh hw
        obtain ⟨hK₁, hK₂⟩ := hF K hK
        rw [List.append_assoc] at hw
        exact hs.exact hK₂ hh (hd.exact hK₁ (head?_append_of hh) (hproduct hK hw))

lemma andThen [Nonempty α] {x : Parse α} {f : α → Parse β} (hx : Recognizes n q x L₁ F₁)
    (hf : ∀ a, Recognizes n anywhere (f a) L₂ F₂) (hF : ∀ K, F K → F₁ (L₂ * K) ∧ F₂ K) :
    Recognizes n q (x >>= f) (L₁ * L₂) F :=
  hx.bind (fun _ _ => Nat.le_add_right _ _) hf hF

lemma thenPure [Nonempty α] (h : Recognizes n q rule L F) (g : α → β) :
    Recognizes n q (rule >>= fun a => Pure.pure (g a)) L F := by
  refine (h.andThen (fun a => pure (g a)) fun K hK => ⟨?_, hK⟩).ofEq (mul_one L)
  rwa [one_mul]

lemma map [Nonempty α] (g : α → β) (h : Recognizes n q rule L F) :
    Recognizes n q (g <$> rule) L F := h.thenPure g

lemma take {ok : TokenType → Bool} {f : Option Token → Parse β} {rest : Token → Language Token}
    (hm : n ≤ m + 1) (hs : ∀ t, ok t.type = true →
      Recognizes m anywhere (f (some t)) (rest t) F)
    (hin : ∀ t v, ok t.type = true → v ∈ rest t → t :: v ∈ L)
    (hout : ∀ K, F K → ∀ t v, ok t.type = true → t :: v ∈ L * K → v ∈ rest t * K)
    (hn : Recognizes n (fun a => q a ∧ a.any ok = false) (f none) L F) :
    Recognizes n q (take? ok >>= f) L F := by
  refine ⟨fun c => ?_, hn.nonempty, fun {ts i es} hl ha => ?_⟩
  · have htake := (Specifies.take (n := 0) ok).keeps c
    cases h : take? ok c with
    | error e c' =>
      rw [bind_error h]
      rwa [h] at htake
    | ok o c' =>
      rw [bind_ok h]
      rw [h] at htake
      refine htake.trans ?_
      cases o with
      | none => exact hn.keeps c'
      | some t => exact (hs t (Specifies.take_ok h)).keeps c'
  cases ts with
  | nil =>
    have hc : take? ok ⟨[], i, es⟩ = .ok none ⟨[], i, es⟩ := rfl
    rw [bind_ok hc]
    exact hn.outcome hl ⟨ha, rfl⟩
  | cons t ts =>
    cases hok : ok t.type with
    | false =>
      have hc : take? ok ⟨t :: ts, i, es⟩ = .ok none ⟨t :: ts, i, es⟩ := by
        rw [take?, hok]
        rfl
      rw [bind_ok hc]
      exact hn.outcome hl ⟨ha, hok⟩
    | true =>
      have hc : take? ok ⟨t :: ts, i, es⟩ = .ok (some t) ⟨ts, i, es⟩ := by
        rw [take?, hok]
        rfl
      rw [bind_ok hc]
      have hlen : ts.length < m := by
        rw [List.length_cons] at hl
        omega
      have ho : Outcome (rest t) F ts es (f (some t) ⟨ts, i, es⟩) :=
        (hs t hok).outcome hlen trivial
      exact ho.cons (fun v hv => hin t v hok hv) fun K hK v hv => hout K hK t v hok hv

lemma accept {type : TokenType} {f : Option Token → Parse β} (ht : type.isFixed = true)
    (hm : n ≤ m + 1) (hs : ∀ t, Recognizes m anywhere (f (some t)) L₁ F)
    (hin : ∀ t v, t.type = type → v ∈ L₁ → t :: v ∈ L)
    (hout : ∀ K, F K → ∀ t v, t.type = type → t :: v ∈ L * K → v ∈ L₁ * K)
    (hn : Recognizes n (fun a => q a ∧ a ≠ some type) (f none) L F) :
    Recognizes n q (accept? type >>= f) L F := by
  have hk : ∀ t : Token, t.type.sameKind type = true → t.type = type :=
    fun t h => (TokenType.sameKind_iff ht).1 h
  refine take hm (fun t _ => hs t) (fun t v h hv => hin t v (hk t h) hv)
    (fun K hK t v h hv => hout K hK t v (hk t h) hv) (hn.when fun a ha => ⟨ha.1, ?_⟩)
  rintro rfl
  have hany := (any_sameKind_iff (a := some type) ht).2 rfl
  rw [ha.2] at hany
  cases hany

lemma either {type : TokenType} {f : Option Token → Parse β} (ht : type.isFixed = true)
    (hm : n ≤ m + 1) (hs : ∀ t, Recognizes m anywhere (f (some t)) L₁ F)
    (hn : Recognizes n anywhere (f none) L₂ F) (hL : Leads (· ≠ type) L₂) :
    Recognizes n q (accept? type >>= f) (tokenOf (· = type) * L₁ + L₂) F := by
  refine accept ht hm hs (fun t v ht hv => .inl (cons_mem_mul.2 ⟨ht, hv⟩)) (fun K _ t v ht hv => ?_)
    ((hn.when fun _ _ => trivial).narrow (fun u hu => .inr hu) (fun _ hK => hK)
      fun K _ w hw hv => ?_)
  · rw [add_mul, mul_assoc] at hv
    refine hv.elim (fun hv => (cons_mem_mul.1 hv).2) fun hv => ?_
    exact absurd hv ((hL.mul K).not_mem (not_not_intro ht))
  · rw [add_mul, mul_assoc] at hv
    refine hv.resolve_left fun hv => ?_
    obtain ⟨t, v, rfl, ht, -⟩ := mem_tokenOf_mul.1 hv
    exact hw.2 (congrArg some ht)

lemma optionally {type : TokenType} {f : Option Token → Parse β} {b : β} (ht : type.isFixed = true)
    (hm : n ≤ m + 1) (hs : ∀ t, Recognizes m anywhere (f (some t)) L F) (hn : f none = Pure.pure b)
    (hF : ∀ K, F K → ∀ t v, t.type = type → t :: v ∈ K → v ∈ L * K) :
    Recognizes n q (accept? type >>= f) (1 + tokenOf (· = type) * L) F := by
  refine accept ht hm hs (fun t v ht hv => .inr (cons_mem_mul.2 ⟨ht, hv⟩))
    (fun K hK t v ht hv => ?_) ?_
  · rw [add_mul, one_mul, mul_assoc] at hv
    exact hv.elim (hF K hK t v ht) fun hv => (cons_mem_mul.1 hv).2
  · rw [hn]
    refine (pure b).narrow (fun u hu => .inl hu) (fun _ hK => hK) fun K _ w hw hv => ?_
    rw [add_mul, mul_assoc] at hv
    refine hv.resolve_right fun hv => ?_
    obtain ⟨t, v, rfl, ht, -⟩ := mem_tokenOf_mul.1 hv
    exact hw.2 (congrArg some ht)

lemma repeatedly {ok : TokenType → Bool} {f : Option Token → Parse β} {b : β} (hm : n ≤ m + 1)
    (hs : ∀ t, Recognizes m anywhere (f (some t)) (L * (tokenOf (ok · = true) * L)∗) F)
    (hn : f none = Pure.pure b) (hF : ∀ K, F K → Begins (·.any ok = false) K) :
    Recognizes n q (take? ok >>= f) (tokenOf (ok · = true) * L)∗ F := by
  refine take hm (fun t _ => hs t) (fun t v ht hv => ?_) (fun K hK t v ht hv => ?_) ?_
  · rw [← Language.one_add_self_mul_kstar_eq_kstar, mul_assoc]
    exact .inr (cons_mem_mul.2 ⟨ht, hv⟩)
  · rw [kstar_mul, mul_assoc] at hv
    rw [mul_assoc]
    refine hv.elim (fun hv => ?_) fun hv => (cons_mem_mul.1 hv).2
    have hend := hF K hK _ hv
    rw [ahead_cons, Option.any_some, ht] at hend
    cases hend
  · rw [hn]
    refine (pure b).narrow (fun _ => mem_kstar_of_mem_one) (fun _ hK => hK) fun K _ w hw hv => ?_
    rw [one_mul]
    rw [kstar_mul, mul_assoc] at hv
    refine hv.resolve_right fun hv => ?_
    obtain ⟨t, v, rfl, ht, -⟩ := mem_tokenOf_mul.1 hv
    have hnot := hw.2
    rw [ahead_cons, Option.any_some, ht] at hnot
    cases hnot

lemma expect {type : TokenType} (what : Expected) (ht : type.isFixed = true) :
    Recognizes n q (expect type what) (tokenOf (· = type)) F := by
  refine accept ht (Nat.le_succ n) (fun t => pure t) ?_ ?_ (fail what ?_ ?_)
  · intro t v ht hv
    obtain rfl := (Language.mem_one v).1 hv
    exact ⟨t, rfl, ht⟩
  · intro K _ t v _ h
    rw [one_mul]
    exact (cons_mem_mul.1 h).2
  · exact ⟨[⟨type, "", 0, 0⟩], _, rfl, rfl⟩
  · rintro K - w hw ⟨-, hne⟩
    obtain ⟨t, v, rfl, htype, -⟩ := mem_tokenOf_mul.1 hw
    exact hne (congrArg some htype)

lemma expectThen {type : TokenType} {what : Expected} {f : Token → Parse β}
    (ht : type.isFixed = true) (hf : ∀ t, Recognizes n anywhere (f t) L F) :
    Recognizes n q (Grammar.expect type what >>= f) (tokenOf (· = type) * L) F :=
  have hx : Recognizes n q (Grammar.expect type what) (tokenOf (· = type)) fun _ => True :=
    expect what ht
  hx.andThen hf fun _ hK => ⟨trivial, hK⟩

lemma thenExpect [Nonempty α] {type : TokenType} {f : α → Token → Parse β}
    (h : Recognizes n q rule L₁ (Begins (· = some type))) (what : Expected)
    (ht : type.isFixed = true)
    (hf : ∀ a t, Recognizes n anywhere (f a t) L₂ F) :
    Recognizes n q (rule >>= fun a => Grammar.expect type what >>= f a)
      (L₁ * (tokenOf (· = type) * L₂)) F :=
  h.andThen (fun a => expectThen ht (hf a)) fun K hK =>
    ⟨(((leads_tokenOf _).mul L₂).mul K).begins fun _ => congrArg some, hK⟩

lemma endExpect [Nonempty α] {type : TokenType}
    (h : Recognizes n q rule L (Begins (· = some type))) (what : Expected)
    (ht : type.isFixed = true) (g : α → Token → β) :
    Recognizes n q (rule >>= fun a => Grammar.expect type what >>= fun t => Pure.pure (g a t))
      (L * tokenOf (· = type)) F := by
  have hend := h.thenExpect (F := F) what ht fun a t => pure (g a t)
  rwa [mul_one] at hend

lemma assoc {γ : Type} {f : α → Parse β} {g : β → Parse γ} {f' : α → Parse γ}
    (h : Recognizes n q (rule >>= f >>= g) L F) (hf : ∀ a, f a >>= g = f' a) :
    Recognizes n q (rule >>= f') L F := by
  rwa [bind_assoc, funext hf] at h

lemma test {x : Parse Bool} {p : Ahead → Bool} {f : Bool → Parse β}
    (hx : ∀ c : Cursor, x c = .ok (p (ahead c.rest none)) c)
    (hs : Recognizes n (fun a => q a ∧ p a = true) (f true) L F)
    (hn : Recognizes n (fun a => q a ∧ p a = false) (f false) L F) :
    Recognizes n q (x >>= f) L F := by
  refine ⟨fun c => ?_, hs.nonempty, fun {ts i es} hl ha => ?_⟩
  · rw [bind_ok (hx c)]
    cases p (ahead c.rest none) with
    | true => exact hs.keeps c
    | false => exact hn.keeps c
  · rw [bind_ok (hx _)]
    cases hp : p (ahead ts none) with
    | true => exact hs.outcome hl ⟨ha, hp⟩
    | false => exact hn.outcome hl ⟨ha, hp⟩

lemma whenFacing {type : TokenType} {f : Bool → Parse β} (ht : type.isFixed = true)
    (hs : Recognizes n (fun a => q a ∧ a = some type) (f true) L F)
    (hn : Recognizes n (fun a => q a ∧ a ≠ some type) (f false) L F) :
    Recognizes n q (facing type >>= f) L F := by
  refine test (p := fun a => a.any (·.sameKind type)) (fun c => ?_)
    (hs.when fun a ha => ⟨ha.1, (any_sameKind_iff ht).1 ha.2⟩) (hn.when fun a ha => ⟨ha.1, ?_⟩)
  · obtain ⟨_ | ⟨t, ts⟩, i, es⟩ := c <;> rfl
  · rw [Ne, ← any_sameKind_iff ht, ha.2]
    nofun

lemma unlessFacing {type : TokenType} {x : Parse α} (a : α) (ht : type.isFixed = true)
    (hx : Recognizes n anywhere x L (Begins (· = some type))) (hL : Leads (· ≠ type) L) :
    Recognizes n q (facing type >>= fun b => if b then Pure.pure a else x) (1 + L)
      (Begins (· = some type)) := by
  refine whenFacing ht ((pure a).narrow (fun u hu => .inl hu) (fun _ hK => hK)
    fun K _ w hw hv => ?_) ((hx.when fun _ _ => trivial).narrow (fun u hu => .inr hu)
      (fun _ hK => hK) fun K hK w hw hv => ?_)
  · rw [add_mul] at hv
    refine hv.resolve_right fun hv => ?_
    obtain ⟨t, v, rfl, htype⟩ := hL.mul K w hv
    exact htype (Option.some.inj hw.2)
  · rw [add_mul, one_mul] at hv
    exact hv.resolve_left fun hv => hw.2 (hK w hv)

lemma whenAtEnd {f : Bool → Parse β} (hs : Recognizes n (fun a => q a ∧ a = none) (f true) L F)
    (hn : Recognizes n (fun a => q a ∧ a ≠ none) (f false) L F) :
    Recognizes n q (atEnd >>= f) L F := by
  refine test (p := Option.isNone) (fun c => ?_)
    (hs.when fun a ha => ⟨ha.1, Option.isNone_iff_eq_none.1 ha.2⟩) (hn.when fun a ha => ⟨ha.1, ?_⟩)
  · obtain ⟨_ | ⟨t, ts⟩, i, es⟩ := c <;> rfl
  · rintro rfl
    cases ha.2

lemma limited {x : Parse α} (hx : Recognizes n q x L F) {fault : SyntaxFault}
    (hf : ∀ found, (SyntaxError.mk fault found).isHard = false) (k : ℕ) :
    Recognizes n q (if k ≥ maxArity then Grammar.reportHere fault >>= fun _ => x else x) L F := by
  split
  · refine ⟨bind_keeps (Specifies.reportHere (n := 0) fault).keeps fun _ => hx.keeps, hx.nonempty,
      fun {ts i es} hl ha => ?_⟩
    have ho : Outcome L F ts (⟨fault, ts.head?⟩ :: es) (x ⟨ts, i, ⟨fault, ts.head?⟩ :: es⟩) :=
      hx.outcome hl ha
    refine ho.since ?_
    rw [hard, List.filter_cons_of_neg (by rw [hf]; nofun)]
    rfl
  · exact hx

lemma recovering {rule : Parse Stmt} (h : Recognizes n q rule L F) :
    Recognizes n q (recovering rule) L F := by
  refine ⟨fun c => ?_, h.nonempty, fun {ts i es} hl ha => ?_⟩
  · have hc := h.keeps c
    unfold Grammar.recovering
    cases hr : rule c with
    | ok s c' => rwa [hr] at hc
    | error e c' =>
      rw [hr] at hc
      exact ⟨hc.errors.trans (List.suffix_cons e c'.errors), hc.site⟩
  · have ho : Outcome L F ts es (rule ⟨ts, i, es⟩) := h.outcome hl ha
    unfold Grammar.recovering
    cases hr : rule ⟨ts, i, es⟩ with
    | ok s c' =>
      rw [hr] at ho
      cases ho with
      | done hts hes hd => exact .done hts hes hd
      | stuck hts hfound hes hs => exact .stuck hts hfound hes hs
    | error e c' =>
      rw [hr] at ho
      cases ho with
      | stuck hts hfound hes hs => exact .stuck hts hfound hes hs

end Recognizes

end Grammar

end Lox
