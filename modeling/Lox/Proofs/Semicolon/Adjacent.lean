import Lox.Proofs.Grammar.Completeness
import Lox.Proofs.Semicolon.Tokens
import Mathlib.Data.List.Induction

/-! An expression that begins with `-` or `(` goes on any expression before it. -/

namespace Lox.Grammar.Ebnf

open Form

def Absorbs (f : Form) (q : List Token) : Prop := ∀ u, Derives f u → Derives f (u ++ q)

section

variable {f operators : Form} {o q u v : List Token}

lemma many_concat (hu : Derives (many f) u) (hv : Derives f v) : Derives (many f) (u ++ v) := by
  refine many_induction (P := fun u => Derives (many f) (u ++ v)) ?_ (fun x y hx _ ih => ?_) hu
  · have h := Derives.manyCons hv .manyNil
    rwa [List.append_nil] at h
  · rw [List.append_assoc]
    exact .manyCons hx ih

lemma absorbs_rule {r : Rule} (h : Absorbs (grammar r) q) : Absorbs (rule r) q :=
  fun u hu => .rule (h u (derives_rule.1 hu))

lemma absorbs_seq_many {a : Form} (hq : Derives f q) : Absorbs (seq a (many f)) q := by
  intro u hu
  obtain ⟨x, y, rfl, hx, hy⟩ := derives_seq.1 hu
  rw [List.append_assoc]
  exact .seq hx (many_concat hy hq)

lemma Absorbs.infixList (h : Absorbs f q) : Absorbs (infixList operators f) q := by
  intro u hu
  obtain ⟨x, y, rfl, hx, hy⟩ := derives_seq.1 hu
  rw [List.append_assoc]
  have hlast : y = [] ∨ Derives (many (seq operators f)) (y ++ q) := by
    refine many_induction
      (P := fun y => y = [] ∨ Derives (many (seq operators f)) (y ++ q)) (.inl rfl) ?_ hy
    intro v w hv hw ih
    right
    obtain rfl | ih := ih
    · obtain ⟨o, z, rfl, ho, hz⟩ := derives_seq.1 hv
      rw [List.append_nil, List.append_assoc, ← List.append_nil (o ++ (z ++ q))]
      exact .manyCons (.seq ho (h z hz)) .manyNil
    · rw [List.append_assoc]
      exact .manyCons hv ih
  obtain rfl | hlast := hlast
  · exact derives_seq_nil (h x hx) .manyNil
  · exact .seq hx hlast

end

section

variable {q : List Token}

lemma absorbs_prefixed {r : Rule} {p f : Form} (hr : ∀ u, Derives (rule r) u ↔
      Derives (seq p (rule r)) u ∨ Derives f u) (hp : p.Solid) (hf : Absorbs f q) :
    Absorbs (rule r) q := by
  intro u hu
  induction hm : u.length using Nat.strongRecOn generalizing u with
  | ind m ih =>
    rw [hr] at hu ⊢
    refine hu.imp (fun hu => ?_) (hf u)
    obtain ⟨x, y, rfl, hx, hy⟩ := derives_seq.1 hu
    have hpos := List.length_pos_iff.2 (ne_nil_of_derives hx hp)
    rw [List.append_assoc]
    exact .seq hx (ih y.length (by rw [← hm, List.length_append]; omega) y hy rfl)

lemma derives_unary {u : List Token} : Derives (rule .unary) u ↔
    Derives (seq (any (punct .bang) [punct .minus]) (rule .unary)) u ∨ Derives (rule .call) u := by
  rw [derives_rule]
  exact derives_alt

lemma derives_assignment {u : List Token} : Derives (rule .assignment) u ↔
    Derives (seq (seq identifier (punct .equal)) (rule .assignment)) u ∨
      Derives (rule .logicOr) u := by
  rw [derives_rule]
  simp [grammar, Form.any, Form.all, and_assoc]

lemma absorbs_level {pre ls : List Level} (h : pre ++ ls = levels)
    (hq : Absorbs (rule (levelRule ls.length)) q) : Absorbs (rule .logicOr) q := by
  induction pre using List.reverseRecOn generalizing ls with
  | nil =>
    obtain rfl : ls = levels := h
    exact hq
  | append_singleton pre l ih =>
    rw [List.append_assoc, List.singleton_append] at h
    obtain ⟨operators, hg, -⟩ := grammar_level ⟨pre, h⟩
    refine ih h (absorbs_rule ?_)
    rw [List.length_cons, hg]
    exact hq.infixList

def Continues (q : List Token) : Prop := Absorbs (rule .expression) q

lemma Continues.of_level {ls : List Level} (h : ls <:+ levels)
    (hq : Absorbs (rule (levelRule ls.length)) q) : Continues q := by
  obtain ⟨pre, h⟩ := h
  exact absorbs_rule (absorbs_prefixed (fun _ => derives_assignment) (.inl trivial)
    (absorbs_level h hq))

lemma continues_nil : Continues [] := fun u hu => by rwa [List.append_nil]

lemma Continues.append {q' : List Token} (h : Continues q) (h' : Continues q') :
    Continues (q ++ q') := fun u hu => by
  rw [← List.append_assoc]
  exact h' _ (h u hu)

lemma Continues.many {f : Form} (h : ∀ u, Derives f u → Continues u) (hq : Derives (many f) q) :
    Continues q :=
  many_induction (P := Continues) continues_nil (fun u _ hu _ ih => (h u hu).append ih) hq

lemma continues_call (hq : Derives callForm q) : Continues q := by
  refine .of_level List.nil_suffix
    (absorbs_prefixed (fun _ => derives_unary) ⟨trivial, trivial⟩ ?_)
  exact absorbs_rule (absorbs_seq_many hq)

lemma continues_operation {l : Level} {tighter : List Level} (h : l :: tighter <:+ levels)
    {t : Token} (ht : l.allows t.type = true) {u : List Token}
    (hu : Derives (rule (levelRule tighter.length)) u) : Continues (t :: u) := by
  obtain ⟨operators, hg, ho⟩ := grammar_level h
  refine .of_level h (absorbs_rule ?_)
  rw [List.length_cons, hg]
  exact absorbs_seq_many (.seq ((ho _).2 ⟨t, rfl, ht⟩) hu)

end

def BeginsJoining (u : List Token) : Prop :=
  ∃ t v, u = t :: v ∧ (t.type = .punct .leftParen ∨ t.type = .punct .minus)

lemma BeginsJoining.left {u v : List Token} (h : BeginsJoining (u ++ v)) (hu : u ≠ []) :
    BeginsJoining u := by
  obtain ⟨t, w, he, ht⟩ := h
  cases u with
  | nil => exact absurd rfl hu
  | cons t' u' =>
    obtain ⟨rfl, -⟩ := List.cons.inj he
    exact ⟨_, u', rfl, ht⟩

lemma continues_primary {u : List Token} (h : Derives (rule .primary) u) (hb : BeginsJoining u) :
    Continues u := by
  obtain ⟨t, v, rfl, ht⟩ := hb
  rw [derives_rule] at h
  simp only [grammar, Form.any, Form.all, derives_alt, derives_number, derives_string,
    derives_keyword, derives_identifier, List.cons.injEq] at h
  rcases h with ⟨_, _, ⟨rfl, -⟩, h⟩ | ⟨_, _, ⟨rfl, -⟩, h⟩ | ⟨_, ⟨rfl, -⟩, h⟩ | ⟨_, ⟨rfl, -⟩, h⟩ |
    ⟨_, ⟨rfl, -⟩, h⟩ | ⟨_, ⟨rfl, -⟩, h⟩ | h
  case inr.inr.inr.inr.inr.inr =>
    obtain ⟨o, _, hu, ho, hrest⟩ := derives_seq.1 h
    obtain ⟨x, c, rfl, hx, hc⟩ := derives_seq.1 hrest
    rw [hu]
    exact continues_call (.seq ho (.seq (.present (.rule (derives_seq_nil hx .upToNil))) hc))
  all_goals simp [h] at ht

lemma continues_call_rule {u : List Token} (h : Derives (rule .call) u) (hb : BeginsJoining u) :
    Continues u := by
  obtain ⟨x, y, rfl, hx, hy⟩ := derives_seq.1 (derives_rule.1 h)
  have hne := ne_nil_of_derives hx (f := rule .primary) (by nofun)
  exact (continues_primary hx (hb.left hne)).append (.many (fun _ => continues_call) hy)

lemma continues_unary {u : List Token} (h : Derives (rule .unary) u) (hb : BeginsJoining u) :
    Continues u := by
  obtain h | h := derives_unary.1 h
  · obtain ⟨o, x, rfl, ho, hx⟩ := derives_seq.1 h
    simp only [Form.any, derives_alt, derives_punct] at ho
    obtain ⟨o, rfl, ho⟩ | ⟨o, rfl, ho⟩ := ho
    · obtain ⟨_, _, he, ht⟩ := hb
      cases he
      simp [ho] at ht
    · -- The sign is read as the operator between the two.
      have hf : Derives (rule .factor) x := .rule (derives_seq_nil hx .manyNil)
      refine continues_operation (List.drop_suffix 4 levels) ?_ hf
      rw [ho]
      rfl
  · exact continues_call_rule h hb

lemma levelRule_ne_program (k : ℕ) : levelRule k ≠ .program := by
  unfold levelRule
  split <;> nofun

lemma continues_level {ls : List Level} (h : ls <:+ levels) {u : List Token}
    (hu : Derives (rule (levelRule ls.length)) u) (hb : BeginsJoining u) : Continues u := by
  induction ls generalizing u with
  | nil => exact continues_unary hu hb
  | cons l tighter ih =>
    have hs := (List.suffix_cons l tighter).trans h
    obtain ⟨operators, hg, ho⟩ := grammar_level h
    rw [derives_rule, List.length_cons, hg] at hu
    obtain ⟨x, y, rfl, hx, hy⟩ := derives_seq.1 hu
    have hne := ne_nil_of_derives hx (levelRule_ne_program _)
    refine (ih hs hx (hb.left hne)).append (.many (fun w hw => ?_) hy)
    obtain ⟨o, z, rfl, ho', hz⟩ := derives_seq.1 hw
    obtain ⟨t, rfl, ht⟩ := (ho o).1 ho'
    exact continues_operation h ht hz

theorem continues_expression {u : List Token} (h : Derives (rule .expression) u)
    (hb : BeginsJoining u) : Continues u := by
  obtain h | h := derives_assignment.1 (derives_rule.1 h)
  · obtain ⟨_, _, rfl, h, -⟩ := derives_seq.1 h
    obtain ⟨_, _, rfl, h, -⟩ := derives_seq.1 h
    obtain ⟨t, rfl, ht⟩ := derives_identifier.1 h
    obtain ⟨_, _, he, hj⟩ := hb
    cases he
    simp [ht] at hj
  · exact continues_level (List.suffix_rfl : levels <:+ levels) h hb

end Lox.Grammar.Ebnf
