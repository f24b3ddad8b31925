import Lox.Proofs.Grammar.Soundness
import Mathlib.Computability.Language

/-! The grammar with all that is reported without being given up: targets that cannot be assigned
to and lists that are too long. Its forms as languages. -/

namespace Lox.Grammar.Ebnf

open Form
open scoped Computability

def anyList (element : Form) : Form := all element [many (all (punct .comma) [element])]

/-- The rules of the grammar but for three: any operand may stand left of `=`, and lists of
arguments and of parameters have no limit. -/
def lenient : Rule → Form
  | .assignment => any (all (rule .logicOr) [punct .equal, rule .assignment]) [rule .logicOr]
  | .parameters => anyList identifier
  | .arguments => anyList (rule .expression)
  | r => grammar r

inductive Yields (rules : Rule → Form) : Form → List Token → Prop
  | punct {t p} : t.type = .punct p → Yields rules (punct p) [t]
  | keyword {t k} : t.type = .keyword k → Yields rules (keyword k) [t]
  | identifier {t} : t.type = .identifier → Yields rules identifier [t]
  | number {t x} : t.type = .number x → Yields rules number [t]
  | string {t s} : t.type = .string s → Yields rules string [t]
  | rule {r u} : Yields rules (rules r) u → Yields rules (rule r) u
  | seq {a b u v} : Yields rules a u → Yields rules b v → Yields rules (seq a b) (u ++ v)
  | left {a b u} : Yields rules a u → Yields rules (alt a b) u
  | right {a b u} : Yields rules b u → Yields rules (alt a b) u
  | absent {a} : Yields rules (opt a) []
  | present {a u} : Yields rules a u → Yields rules (opt a) u
  | manyNil {a} : Yields rules (many a) []
  | manyCons {a u v} : Yields rules a u → Yields rules (many a) v → Yields rules (many a) (u ++ v)
  | upToNil {n a} : Yields rules (upTo n a) []
  | upToCons {n a u v} : Yields rules a u → Yields rules (upTo n a) v →
      Yields rules (upTo (n + 1) a) (u ++ v)

def words (f : Form) : Language Token := {u | Yields lenient f u}

def tokenOf (ok : TokenType → Prop) : Language Token := {u | ∃ t, u = [t] ∧ ok t.type}

section

variable {ok : TokenType → Prop} {L : Language Token} {t : Token} {u v : List Token}

lemma cons_mem_mul : t :: v ∈ tokenOf ok * L ↔ ok t.type ∧ v ∈ L := by
  rw [Language.mem_mul]
  constructor
  · rintro ⟨_, ⟨t', rfl, ht⟩, w, hw, h⟩
    cases h
    exact ⟨ht, hw⟩
  · rintro ⟨ht, hv⟩
    exact ⟨[t], ⟨t, rfl, ht⟩, v, hv, rfl⟩

lemma mem_tokenOf_mul : u ∈ tokenOf ok * L ↔ ∃ t v, u = t :: v ∧ ok t.type ∧ v ∈ L := by
  cases u with
  | nil =>
    rw [Language.mem_mul]
    constructor
    · rintro ⟨_, ⟨t, rfl, -⟩, w, -, h⟩
      cases h
    · rintro ⟨t, v, h, -⟩
      cases h
  | cons t v =>
    rw [cons_mem_mul]
    constructor
    · exact fun h => ⟨t, v, rfl, h⟩
    · rintro ⟨_, _, h, h'⟩
      cases h
      exact h'

end

section

variable (a b : Form)

lemma words_rule (r : Rule) : words (rule r) = words (lenient r) := by
  ext u
  constructor
  · rintro ⟨⟩
    assumption
  · exact .rule

@[simp] lemma words_punct (p : Punct) : words (punct p) = tokenOf (· = .punct p) := by
  ext u
  constructor
  · rintro ⟨⟩
    exact ⟨_, rfl, ‹_›⟩
  · rintro ⟨t, rfl, ht⟩
    exact .punct ht

@[simp] lemma words_keyword (k : Keyword) : words (keyword k) = tokenOf (· = .keyword k) := by
  ext u
  constructor
  · rintro ⟨⟩
    exact ⟨_, rfl, ‹_›⟩
  · rintro ⟨t, rfl, ht⟩
    exact .keyword ht

@[simp] lemma words_identifier : words identifier = tokenOf (· = .identifier) := by
  ext u
  constructor
  · rintro ⟨⟩
    exact ⟨_, rfl, ‹_›⟩
  · rintro ⟨t, rfl, ht⟩
    exact .identifier ht

@[simp] lemma words_number : words number = tokenOf fun t => ∃ x, t = .number x := by
  ext u
  constructor
  · rintro ⟨⟩
    exact ⟨_, rfl, _, ‹_›⟩
  · rintro ⟨t, rfl, x, ht⟩
    exact .number ht

@[simp] lemma words_string : words string = tokenOf fun t => ∃ s, t = .string s := by
  ext u
  constructor
  · rintro ⟨⟩
    exact ⟨_, rfl, _, ‹_›⟩
  · rintro ⟨t, rfl, s, ht⟩
    exact .string ht

@[simp] lemma words_seq : words (seq a b) = words a * words b := by
  ext u
  rw [Language.mem_mul]
  constructor
  · rintro ⟨⟩
    exact ⟨_, ‹_›, _, ‹_›, rfl⟩
  · rintro ⟨v, hv, w, hw, rfl⟩
    exact .seq hv hw

@[simp] lemma words_alt : words (alt a b) = words a + words b := by
  ext u
  rw [Language.mem_add]
  constructor
  · rintro ⟨⟩
    · exact .inl ‹_›
    · exact .inr ‹_›
  · rintro (h | h)
    · exact .left h
    · exact .right h

@[simp] lemma words_opt : words (opt a) = 1 + words a := by
  ext u
  rw [Language.mem_add, Language.mem_one]
  constructor
  · rintro ⟨⟩
    · exact .inl rfl
    · exact .inr ‹_›
  · rintro (rfl | h)
    · exact .absent
    · exact .present h

@[simp] lemma words_many : words (many a) = (words a)∗ := by
  ext u
  constructor
  · intro h
    generalize hm : many a = m at h
    induction h with
    | manyNil => exact Language.nil_mem_kstar _
    | manyCons hu _ _ ih =>
      cases hm
      rw [← Language.one_add_self_mul_kstar_eq_kstar]
      exact .inr (Language.append_mem_mul hu (ih rfl))
    | _ => cases hm
  · intro h
    obtain ⟨us, rfl, hus⟩ := Language.mem_kstar.1 h
    induction us with
    | nil => exact .manyNil
    | cons v us ih =>
      have hus' : ∀ y ∈ us, y ∈ words a := fun y hy => hus y (List.mem_cons_of_mem v hy)
      exact .manyCons (hus v List.mem_cons_self) (ih hus' (Language.join_mem_kstar hus'))

end

def Begins (p : Ahead → Prop) (L : Language Token) : Prop := ∀ u ∈ L, p (ahead u none)

def Leads (p : TokenType → Prop) (L : Language Token) : Prop :=
  ∀ u ∈ L, ∃ t v, u = t :: v ∧ p t.type

section

variable {p q : TokenType → Prop} {r : Ahead → Prop} {L M K : Language Token}

lemma leads_tokenOf (p : TokenType → Prop) : Leads p (tokenOf p) := by
  rintro u ⟨t, rfl, ht⟩
  exact ⟨t, [], rfl, ht⟩

lemma Leads.imp (h : Leads p L) (hpq : ∀ t, p t → q t) : Leads q L := by
  intro u hu
  obtain ⟨t, v, rfl, ht⟩ := h u hu
  exact ⟨t, v, rfl, hpq _ ht⟩

lemma Leads.mul (h : Leads p L) (M : Language Token) : Leads p (L * M) := by
  intro u hu
  obtain ⟨_, hv, w, -, rfl⟩ := Language.mem_mul.1 hu
  obtain ⟨t, v, rfl, ht⟩ := h _ hv
  exact ⟨t, v ++ w, rfl, ht⟩

lemma Leads.add (hL : Leads p L) (hM : Leads p M) : Leads p (L + M) :=
  fun u hu => hu.elim (hL u) (hM u)

lemma Leads.begins (h : Leads p L) (hp : ∀ t, p t → r (some t)) : Begins r L := by
  intro u hu
  obtain ⟨t, v, rfl, ht⟩ := h u hu
  exact hp _ ht

lemma Leads.length_pos (h : Leads p L) {u : List Token} (hu : u ∈ L) : 0 < u.length := by
  obtain ⟨t, v, rfl, -⟩ := h u hu
  exact Nat.succ_pos _

lemma Leads.not_mem (h : Leads p L) {t : Token} {v : List Token} (ht : ¬ p t.type) :
    t :: v ∉ L := by
  intro hu
  obtain ⟨_, _, he, hp⟩ := h _ hu
  cases he
  exact ht hp

lemma Begins.add (hL : Begins r L) (hM : Begins r M) : Begins r (L + M) :=
  fun u hu => hu.elim (hL u) (hM u)

lemma Begins.imp {r' : Ahead → Prop} (h : Begins r L) (hr : ∀ a, r a → r' a) : Begins r' L :=
  fun u hu => hr _ (h u hu)

lemma mem_kstar_of_mem_one {u : List Token} (hu : u ∈ (1 : Language Token)) : u ∈ L∗ := by
  rw [(Language.mem_one u).1 hu]
  exact Language.nil_mem_kstar L

lemma kstar_mul (L K : Language Token) : L∗ * K = K + L * (L∗ * K) := by
  rw [← mul_assoc, ← one_mul K, ← mul_assoc (L * L∗), mul_one, ← add_mul,
    Language.one_add_self_mul_kstar_eq_kstar, one_mul]

lemma Leads.kstar_mul (hL : Leads p L) (hK : Leads p K) : Leads p (L∗ * K) := by
  rw [Ebnf.kstar_mul]
  exact hK.add (hL.mul _)

end

end Lox.Grammar.Ebnf
