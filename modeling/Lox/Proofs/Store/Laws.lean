import Lox.Proofs.Store

/-! The laws of a store. Whatever was done through its frames, a walk outward ends and meets no
frame twice, so a name has at most one nearest binding. That binding is what is read, by walking or
at its distance, and what an assignment changes. -/

namespace Lox.Store

inductive Operation where
  | new
  | pushScope (f : FrameId)
  | define (f : FrameId) (name : String) (v : Value)
  | assign (f : FrameId) (name : String) (v : Value)
  | assignAt (f : FrameId) (distance : ℕ) (name : String) (v : Value)

namespace Operation

def frame? : Operation → Option FrameId
  | new => none
  | pushScope f | define f _ _ | assign f _ _ | assignAt f _ _ _ => some f

def result? (s : Store) : Operation → Option Store
  | new => some (s.push none).1
  | pushScope f => some (s.push (some f)).1
  | define f name v => some (s.define f name v)
  | assign f name v => s.assign? f name v
  | assignAt f distance name v => s.assignAt? f distance name v

def perform (s : Store) (op : Operation) : Bool × Store :=
  match op.result? s with
  | some s' => (true, s')
  | none => (false, s)

end Operation

/-- The stores that are made from nothing by operations on the frames there are. -/
inductive Reached : Store → Prop
  | empty : Reached .empty
  | step {s : Store} (op : Operation) : Reached s → (∀ f ∈ op.frame?, f < s.frames.size) →
      Reached (op.perform s).2

variable {s s' : Store} {f g a : FrameId} {name : String} {d : ℕ}

def link? (s : Store) (f : FrameId) : Option FrameId := s.frames[f]?.bind (·.parent)

def Linked (s : Store) : Prop := ∀ f p, s.link? f = some p → p < f

lemma link?_push (p? : Option FrameId) (f : FrameId) :
    (s.push p?).1.link? f = if f = s.frames.size then p? else s.link? f := by
  simp only [push, link?, Array.getElem?_push]
  split <;> simp

lemma link?_define (f g : FrameId) (name : String) (v : Value) :
    (s.define f name v).link? g = s.link? g := by
  simp only [define, link?, Array.getElem?_modify]
  split
  · cases s.frames[g]? <;> simp [Frame.define]
  · rfl

lemma Linked.push (h : s.Linked) {p? : Option FrameId} (hp : ∀ p ∈ p?, p < s.frames.size) :
    (s.push p?).1.Linked := by
  intro f p hf
  rw [link?_push] at hf
  split at hf
  · next he => exact he ▸ hp p hf
  · exact h f p hf

lemma Linked.define (h : s.Linked) (f : FrameId) (name : String) (v : Value) :
    (s.define f name v).Linked := by
  intro g p hg
  rw [link?_define] at hg
  exact h g p hg

lemma eq_define_of_assign {v : Value} (h : s.assign? f name v = some s') :
    ∃ a, s.owner? f name = some a ∧ s.define a name v = s' := by
  simpa [assign?] using h

lemma eq_define_of_assignAt {v : Value} (h : s.assignAt? f d name v = some s') :
    ∃ a, s.ancestor? f d = some a ∧ (s.local? a name).isSome ∧ s.define a name v = s' := by
  simpa [assignAt?, holder?, Option.filter_eq_some_iff, and_assoc] using h

lemma Linked.perform (h : s.Linked) {op : Operation} (hop : ∀ f ∈ op.frame?, f < s.frames.size) :
    (op.perform s).2.Linked := by
  rw [Operation.perform]
  cases hr : op.result? s with
  | none => exact h
  | some s' =>
    cases op with
    | new =>
      cases hr
      exact h.push (by simp)
    | pushScope f =>
      cases hr
      exact h.push hop
    | define f name v =>
      cases hr
      exact h.define f name v
    | assign f name v =>
      obtain ⟨a, -, rfl⟩ := eq_define_of_assign hr
      exact h.define a name v
    | assignAt f distance name v =>
      obtain ⟨a, -, -, rfl⟩ := eq_define_of_assignAt hr
      exact h.define a name v

lemma Reached.linked (h : Reached s) : s.Linked := by
  induction h with
  | empty => simp [Linked, link?, Store.empty]
  | step op _ hop ih => exact ih.perform hop

lemma Linked.parent?_eq (h : s.Linked) (f : FrameId) : s.parent? f = s.link? f := by
  change (s.link? f).filter (· < f) = s.link? f
  cases hf : s.link? f with
  | none => rfl
  | some p => simp [h f p hf]

lemma add_le_of_ancestor {f g : ℕ} (h : s.ancestor? f d = some g) : g + d ≤ f := by
  induction d generalizing f with
  | zero =>
    obtain rfl := Option.some.inj h
    exact Nat.le_refl _
  | succ d ih =>
    obtain ⟨p, hp, hg⟩ := Option.bind_eq_some_iff.1 h
    exact Nat.lt_of_le_of_lt (ih hg) (parent?_lt hp)

lemma ancestor?_eq_none {f : ℕ} (h : f < d) : s.ancestor? f d = none := by
  cases ha : s.ancestor? f d with
  | none => rfl
  | some g =>
    have hle := add_le_of_ancestor ha
    omega

lemma ancestor_inj {g a b : ℕ} (ha : s.ancestor? f a = some g) (hb : s.ancestor? f b = some g) :
    a = b := by
  wlog hab : a ≤ b generalizing a b
  · exact (this hb ha (Nat.le_of_not_le hab)).symm
  · obtain ⟨k, rfl⟩ := Nat.exists_eq_add_of_le hab
    rw [ancestor?_add, ha, Option.bind_some] at hb
    have hle := add_le_of_ancestor hb
    omega

lemma ancestor_lt (hf : f < s.frames.size) (h : s.ancestor? f d = some g) :
    g < s.frames.size :=
  Nat.lt_of_le_of_lt (Nat.le_of_add_right_le (add_le_of_ancestor h)) hf

/-- The frame `d` steps outward binds the name, and none before it does. -/
structure Nearest (s : Store) (f : FrameId) (name : String) (d : ℕ) (a : FrameId) : Prop where
  ancestor : s.ancestor? f d = some a
  binds : (s.local? a name).isSome
  first : ∀ {e b}, e < d → s.ancestor? f e = some b → s.local? b name = none

lemma nearest_self (h : (s.local? f name).isSome) : s.Nearest f name 0 f :=
  ⟨rfl, h, fun he => absurd he (Nat.not_lt_zero _)⟩

lemma Nearest.outward {p : FrameId} (h : s.Nearest p name d a) (hp : s.parent? f = some p)
    (hf : s.local? f name = none) : s.Nearest f name (d + 1) a := by
  refine ⟨by simp [ancestor?, hp, h.ancestor], h.binds, fun {e b} he hb => ?_⟩
  cases e with
  | zero =>
    obtain rfl := Option.some.inj hb
    exact hf
  | succ e =>
    rw [ancestor?, hp, Option.bind_some] at hb
    exact h.first (Nat.lt_of_succ_lt_succ he) hb

lemma owner?_of_root (h : s.local? f name = none) (hp : s.parent? f = none) :
    s.owner? f name = none := by
  rw [owner?]
  split
  · next hs => simp [h] at hs
  · split
    · next hq =>
      rw [hq] at hp
      cases hp
    · rfl

theorem owner?_cases (s : Store) (f : FrameId) (name : String) :
    (∃ d a, s.owner? f name = some a ∧ s.Nearest f name d a) ∨
      s.owner? f name = none ∧ ∀ d a, s.ancestor? f d = some a → s.local? a name = none := by
  -- Parents are older, so what is said of the parent is known.
  induction f using Nat.strongRecOn with
  | ind f ih =>
  cases hf : s.local? f name with
  | some v =>
    have hs : (s.local? f name).isSome := by simp [hf]
    exact .inl ⟨0, f, owner?_of_local hs, nearest_self hs⟩
  | none =>
    have hnone : ¬ (s.local? f name).isSome := by simp [hf]
    cases hp : s.parent? f with
    | none =>
      refine .inr ⟨owner?_of_root hf hp, fun d a ha => ?_⟩
      cases d with
      | zero => exact Option.some.inj ha ▸ hf
      | succ d => simp [ancestor?, hp] at ha
    | some p =>
      rw [owner?_of_parent hnone hp]
      obtain ⟨d, a, ho, hn⟩ | ⟨ho, hall⟩ := ih p (parent?_lt hp)
      · exact .inl ⟨d + 1, a, ho, hn.outward hp hf⟩
      · refine .inr ⟨ho, fun d a ha => ?_⟩
        cases d with
        | zero => exact Option.some.inj ha ▸ hf
        | succ d =>
          rw [ancestor?, hp, Option.bind_some] at ha
          exact hall d a ha

lemma Nearest.unique {e : ℕ} {b : FrameId} (h : s.Nearest f name d a) (h' : s.Nearest f name e b) :
    d = e ∧ a = b := by
  have hle : ∀ {d e a b}, s.Nearest f name d a → s.Nearest f name e b → ¬ d < e := by
    intro d e a b h h' hlt
    have hb := h.binds
    rw [h'.first hlt h.ancestor] at hb
    cases hb
  obtain rfl : d = e := Nat.le_antisymm (Nat.not_lt.1 (hle h' h)) (Nat.not_lt.1 (hle h h'))
  exact ⟨rfl, Option.some.inj (h.ancestor.symm.trans h'.ancestor)⟩

lemma owner?_eq_some_iff : s.owner? f name = some a ↔ ∃ d, s.Nearest f name d a := by
  obtain ⟨e, b, ho, hn⟩ | ⟨ho, hall⟩ := owner?_cases s f name
  · rw [ho, Option.some.injEq]
    constructor
    · rintro rfl
      exact ⟨e, hn⟩
    · rintro ⟨d, hd⟩
      exact (hn.unique hd).2
  · rw [ho]
    refine ⟨nofun, ?_⟩
    rintro ⟨d, hd⟩
    have hb := hd.binds
    rw [hall d a hd.ancestor] at hb
    cases hb

lemma isSome_owner?_iff : (s.owner? f name).isSome ↔
    ∃ d a, s.ancestor? f d = some a ∧ (s.local? a name).isSome := by
  obtain ⟨d, a, ho, hn⟩ | ⟨ho, hall⟩ := owner?_cases s f name
  · rw [ho]
    exact ⟨fun _ => ⟨d, a, hn.ancestor, hn.binds⟩, fun _ => rfl⟩
  · rw [ho]
    refine ⟨nofun, ?_⟩
    rintro ⟨d, a, ha, hb⟩
    rw [hall d a ha] at hb
    cases hb

lemma isSome_local_of_owner (h : s.owner? f name = some a) : (s.local? a name).isSome := by
  obtain ⟨d, hd⟩ := owner?_eq_some_iff.1 h
  exact hd.binds

lemma isSome_get?_iff : (s.get? f name).isSome ↔ (s.owner? f name).isSome := by
  rw [get?]
  cases h : s.owner? f name with
  | none => simp
  | some a => simpa using isSome_local_of_owner h

/-- The second store is the first but for one slot, which was there and now has the value. -/
structure Rebinds (s : Store) (a : FrameId) (name : String) (v : Value) (s' : Store) : Prop where
  held : (s.local? a name).isSome
  size : s'.frames.size = s.frames.size
  links : ∀ f, s'.link? f = s.link? f
  slots : ∀ f key, s'.local? f key = if f = a ∧ key = name then some v else s.local? f key

lemma rebinds_define (h : (s.local? a name).isSome) (v : Value) :
    s.Rebinds a name v (s.define a name v) where
  held := h
  size := size_define ..
  links _ := link?_define ..
  slots f key := local?_define s a f name key v (lt_of_local h)

section

variable {v : Value} (h : s.Rebinds a name v s')
include h

lemma Rebinds.parent? (f : FrameId) : s'.parent? f = s.parent? f :=
  congrArg (Option.filter _) (h.links f)

lemma Rebinds.ancestor? (f : FrameId) (d : ℕ) : s'.ancestor? f d = s.ancestor? f d := by
  induction d generalizing f with
  | zero => rfl
  | succ d ih => simp [Store.ancestor?, h.parent?, ih]

lemma Rebinds.isSome_local (f : FrameId) (key : String) :
    (s'.local? f key).isSome = (s.local? f key).isSome := by
  rw [h.slots]
  split
  · next hk =>
    obtain ⟨rfl, rfl⟩ := hk
    exact h.held.symm
  · rfl

lemma Rebinds.nearest_iff {key : String} {e : ℕ} {b : FrameId} :
    s'.Nearest f key e b ↔ s.Nearest f key e b := by
  have hnone : ∀ c, s'.local? c key = none ↔ s.local? c key = none := fun c => by
    simpa using congrArg (· = false) (h.isSome_local c key)
  constructor
  · rintro ⟨ha, hb, hfirst⟩
    refine ⟨by rwa [← h.ancestor?], by rwa [← h.isSome_local], fun he hc => ?_⟩
    exact (hnone _).1 (hfirst he (by rwa [h.ancestor?]))
  · rintro ⟨ha, hb, hfirst⟩
    refine ⟨by rwa [h.ancestor?], by rwa [h.isSome_local], fun he hc => ?_⟩
    exact (hnone _).2 (hfirst he (by rwa [← h.ancestor?]))

lemma Rebinds.owner? (f : FrameId) (key : String) : s'.owner? f key = s.owner? f key := by
  apply Option.ext
  intro b
  rw [owner?_eq_some_iff, owner?_eq_some_iff]
  simp only [h.nearest_iff]

theorem Rebinds.get? (f : FrameId) (key : String) : s'.get? f key =
    if s.owner? f key = some a ∧ key = name then some v else s.get? f key := by
  rw [Store.get?, Store.get?, h.owner?]
  cases ho : s.owner? f key with
  | none => simp
  | some b => simp [h.slots]

end

structure Lawful (s : Store) : Prop where
  linked : ∀ f, s.parent? f = s.link? f
  finite : ∀ f, ∃ d, s.ancestor? f d = none
  distinct : ∀ f g d e, s.ancestor? f d = some g → s.ancestor? f e = some g → d = e
  inside : ∀ f d g, f < s.frames.size → s.ancestor? f d = some g → g < s.frames.size
  ancestor_add : ∀ f d e, s.ancestor? f (d + e) = (s.ancestor? f d).bind (s.ancestor? · e)
  get_succeeds : ∀ f name,
    (s.get? f name).isSome ↔ ∃ d a, s.ancestor? f d = some a ∧ (s.local? a name).isSome
  get_nearest : ∀ f name, (s.get? f name).isSome →
    ∃ d a, s.Nearest f name d a ∧ s.get? f name = s.getAt? f d name
  assign_succeeds : ∀ f name v, (s.assign? f name v).isSome ↔ (s.get? f name).isSome
  assign_rebinds : ∀ f name v s', s.assign? f name v = some s' →
    ∃ d a, s.Nearest f name d a ∧ s.Rebinds a name v s'
  assignAt_fails : ∀ f d name v, s.assignAt? f d name v = none ↔
    ∀ a, s.ancestor? f d = some a → s.local? a name = none
  assignAt_rebinds : ∀ f d name v s', s.assignAt? f d name v = some s' →
    ∃ a, s.ancestor? f d = some a ∧ s.Rebinds a name v s'
  get_rebound : ∀ a name v s' g d, s.Rebinds a name v s' → s.Nearest g name d a →
    s'.get? g name = some v
  get_unchanged : ∀ a name v s' g key, s.Rebinds a name v s' →
    ¬ (key = name ∧ ∃ d, s.Nearest g key d a) → s'.get? g key = s.get? g key
  failing : ∀ op : Operation, (op.perform s).1 = false → (op.perform s).2 = s

lemma get?_of_nearest (h : s.Nearest f name d a) : s.get? f name = s.getAt? f d name := by
  rw [get?, getAt?, owner?_eq_some_iff.2 ⟨d, h⟩, h.ancestor]

lemma exists_nearest (h : (s.get? f name).isSome) : ∃ d a, s.Nearest f name d a := by
  obtain ⟨a, ha⟩ := Option.isSome_iff_exists.1 (isSome_get?_iff.1 h)
  obtain ⟨d, hd⟩ := owner?_eq_some_iff.1 ha
  exact ⟨d, a, hd⟩

lemma assignAt?_eq_none_iff {v : Value} : s.assignAt? f d name v = none ↔
    ∀ a, s.ancestor? f d = some a → s.local? a name = none := by
  simp [assignAt?, holder?, Option.filter_eq_none_iff]

lemma Operation.perform_failed {op : Operation} (h : (op.perform s).1 = false) :
    (op.perform s).2 = s := by
  rw [perform] at h ⊢
  split at h
  · cases h
  · rfl

/-- Whatever was done to a store through its frames, the laws hold of it. -/
theorem reached_lawful (h : Reached s) : s.Lawful where
  linked := h.linked.parent?_eq
  finite f := ⟨f + 1, ancestor?_eq_none (Nat.lt_succ_self f)⟩
  distinct _ _ _ _ := ancestor_inj
  inside _ _ _ := ancestor_lt
  ancestor_add := s.ancestor?_add
  get_succeeds _ _ := isSome_get?_iff.trans isSome_owner?_iff
  get_nearest _ _ hs := by
    obtain ⟨d, a, hd⟩ := exists_nearest hs
    exact ⟨d, a, hd, get?_of_nearest hd⟩
  assign_succeeds _ _ _ := by rw [isSome_get?_iff, assign?, Option.isSome_map]
  assign_rebinds _ _ v _ hs := by
    obtain ⟨a, ha, rfl⟩ := eq_define_of_assign hs
    obtain ⟨d, hd⟩ := owner?_eq_some_iff.1 ha
    exact ⟨d, a, hd, rebinds_define hd.binds v⟩
  assignAt_fails _ _ _ _ := assignAt?_eq_none_iff
  assignAt_rebinds _ _ _ v _ hs := by
    obtain ⟨a, ha, hb, rfl⟩ := eq_define_of_assignAt hs
    exact ⟨a, ha, rebinds_define hb v⟩
  get_rebound _ _ _ _ g d hr hd := by
    rw [hr.get?, if_pos ⟨owner?_eq_some_iff.2 ⟨d, hd⟩, rfl⟩]
  get_unchanged _ _ _ _ g key hr hkey := by
    rw [hr.get?, if_neg]
    rintro ⟨ho, hk⟩
    exact hkey ⟨hk, owner?_eq_some_iff.1 ho⟩
  failing _ := Operation.perform_failed

def shadowed : Store := ⟨#[⟨[("x", .string "outer")], none⟩, ⟨[("x", .string "inner")], some 0⟩]⟩

lemma shadowed_reached : Reached shadowed :=
  .step (.define 1 "x" (.string "inner"))
    (.step (.pushScope 0) (.step (.define 0 "x" (.string "outer")) (.step .new .empty nofun)
      (by decide)) (by decide)) (by decide)

theorem shadowed_lawful : Reached shadowed ∧ shadowed.Nearest 1 "x" 0 1 ∧
    ∃ s', shadowed.assign? 1 "x" .nil = some s' ∧ s'.get? 1 "x" = some .nil ∧
      s'.get? 0 "x" = some (.string "outer") := by
  have hlaws := reached_lawful shadowed_reached
  have hinner : shadowed.Nearest 1 "x" 0 1 := nearest_self rfl
  have houter : shadowed.Nearest 0 "x" 0 0 := nearest_self rfl
  have hread : shadowed.get? 1 "x" = some (.string "inner") := get?_of_nearest hinner
  obtain ⟨s', hs⟩ := Option.isSome_iff_exists.1
    ((hlaws.assign_succeeds 1 "x" .nil).2 (by rw [hread]; rfl))
  obtain ⟨d, a, hd, hr⟩ := hlaws.assign_rebinds 1 "x" .nil s' hs
  obtain ⟨rfl, rfl⟩ := hd.unique hinner
  refine ⟨shadowed_reached, hinner, s', hs, hlaws.get_rebound _ _ _ _ _ _ hr hinner, ?_⟩
  rw [hlaws.get_unchanged _ _ _ _ 0 "x" hr, get?_of_nearest houter]
  · rfl
  · rintro ⟨-, e, he⟩
    exact absurd (he.unique houter).2 (by decide)

end Lox.Store
