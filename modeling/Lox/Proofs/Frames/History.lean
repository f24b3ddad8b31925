import Lox.Proofs.Frames.Step
import Lox.Proofs.Session

/-! Sessions in which chunks have run one after another. All of them keep functions and variable
sites as the walks left them. -/

namespace Lox.Frames

open Binding

/-- A session with the programs that were run in it and the scopes in which the bodies of its
functions begin. -/
inductive Reached : List (List Stmt) → List (List Scope) → Session → Prop
  | start (depth clock out diagnostics) : Reached [] [] (.start depth clock out diagnostics)
  | rejected {programs bodies s s' source} : Reached programs bodies s →
      s.prepare source = (none, s') → Reached programs bodies s'
  | run {programs bodies s s₁ s' source program fuel outcome} : Reached programs bodies s →
      s.prepare source = (some program, s₁) → s.run fuel source = (some outcome, s') →
      Reached (program :: programs)
        ((Trace.load bodies).run s₁.setting fuel (.load program s₁.world)).bodies s'
  | resetError {programs bodies s} :
      Reached programs bodies s → Reached programs bodies s.resetError
  | defineGlobal {programs bodies s} (name) {v} : Reached programs bodies s → v.IsData →
      Reached programs bodies (s.defineGlobal name v)
  | defineNative {programs bodies s} {native : Native} : Reached programs bodies s →
      native.Uniform → Reached programs bodies (s.defineNative native)

structure Known (s : Session) (p : List Stmt) : Prop where
  bound : (Binding.ofProgram p).errors = []
  nodup : ((Stmt.listUses p).map Prod.fst).Nodup
  numbered : ∀ site ∈ (Stmt.listUses p).map Prod.fst, site < s.nextSite
  table : ∀ site ∈ (Stmt.listUses p).map Prod.fst, s.distances[site]? = recorded p site

structure SessionFits (programs : List (List Stmt)) (bodies : List (List Scope)) (s : Session) :
    Prop where
  world : WorldFits programs bodies s.world
  env : s.world.env = Store.globals
  natives : ∀ native ∈ s.natives, native.Uniform
  fresh : ∀ site, s.nextSite ≤ site → s.distances[site]? = none
  known : ∀ p ∈ programs, Known s p

variable {programs : List (List Stmt)} {bodies : List (List Scope)} {s s' : Session}

lemma Known.mono {p : List Stmt} (h : Known s p) (hn : s.nextSite ≤ s'.nextSite)
    (hd : ∀ site < s.nextSite, s'.distances[site]? = s.distances[site]?) : Known s' p where
  bound := h.bound
  nodup := h.nodup
  numbered site hs := Nat.lt_of_lt_of_le (h.numbered site hs) hn
  table site hs := (hd site (h.numbered site hs)).trans (h.table site hs)

lemma SessionFits.rejected (h : SessionFits programs bodies s) {source : String}
    (hp : s.prepare source = (none, s')) : SessionFits programs bodies s' := by
  obtain ⟨_, _, distances, j, rfl, hle, hd⟩ := Session.prepare_eq_none hp
  refine ⟨h.world, h.env, h.natives, fun site hs => ?_, fun p hm => ?_⟩
  · exact (hd site (.inr hs)).trans (h.fresh site (Nat.le_trans hle hs))
  · exact (h.known p hm).mono hle fun site hs => hd site (.inl hs)

lemma SessionFits.prepare (h : SessionFits programs bodies s) {source : String}
    {program : List Stmt} (hp : s.prepare source = (some program, s')) :
    SessionFits (program :: programs) bodies s' ∧ Stmt.ListPlaced program := by
  obtain ⟨-, hb, j, hr, rfl⟩ := Session.prepare_eq_some.1 hp
  obtain ⟨hn, hplaced⟩ := Grammar.decls_sound hr
  have hd : ∀ site, site < s.nextSite ∨ j ≤ site →
      ({ s with nextSite := j }.record (Binding.ofProgram program).distances).distances[site]? =
        s.distances[site]? := fun _ hs => Session.getElem?_record_of_outside hr _ hs
  refine ⟨⟨h.world.mono (List.subset_cons_self _ _), h.env, h.natives, fun site hs => ?_, ?_⟩,
    hplaced⟩
  · exact (hd site (.inr hs)).trans (h.fresh site (Nat.le_trans hn.le hs))
  · intro p hm
    rcases List.mem_cons.1 hm with rfl | hm
    · refine ⟨hb, hn.nodup, fun site hs => (hn.range site hs).2, fun site hs => ?_⟩
      have hfresh := h.fresh site (hn.range site hs).1
      rw [Session.getElem?_record hn.nodup, hfresh, Option.or_none]
    · exact (h.known p hm).mono hn.le fun site hs => hd site (.inl hs)

lemma SessionFits.load {program : List Stmt} (h : SessionFits (program :: programs) bodies s)
    (hp : Stmt.ListPlaced program) :
    MachineFits (program :: programs) (Trace.load bodies) (.load program s.world) := by
  have hin : StmtsIn (program :: programs) [] program :=
    ⟨hp, program, List.mem_cons_self, false, List.Subset.refl _⟩
  have hnil := scopesAfterAll_nil program
  have hc : Chain s.world.store s.world.env [] := by
    rw [h.env]
    exact .global
  refine .mk h.world (.yield hc (.data trivial)) (.item (.sequence hin) ?_)
  rw [hnil]
  exact .nil

lemma SessionFits.finish {t : Trace} {m : Machine} {outcome : Outcome}
    (h : SessionFits programs bodies s) (hm : MachineFits programs t m)
    (hf : s.finish m = (some outcome, s')) : SessionFits programs t.bodies s' := by
  obtain ⟨hover, _, _, _, rfl⟩ := Session.finish_eq hf
  exact ⟨hm.world, hm.env_of_isOver hover, h.natives, h.fresh, fun p hp =>
    (h.known p hp).mono (Nat.le_refl _) fun _ _ => rfl⟩

lemma SessionFits.defineGlobal (h : SessionFits programs bodies s) (name : String) {v : Value}
    (hv : v.IsData) : SessionFits programs bodies (s.defineGlobal name v) :=
  ⟨h.world.define h.world.globals (.data hv) name, h.env, h.natives, h.fresh, fun p hp =>
    (h.known p hp).mono (Nat.le_refl _) fun _ _ => rfl⟩

lemma SessionFits.defineNative (h : SessionFits programs bodies s) {native : Native}
    (hn : native.Uniform) : SessionFits programs bodies (s.defineNative native) := by
  have hmade : SessionFits programs bodies (s.makeNative native).2 := by
    refine ⟨h.world, h.env, fun n hm => ?_, h.fresh, fun p hp =>
      (h.known p hp).mono (Nat.le_refl _) fun _ _ => rfl⟩
    rcases Array.mem_push.1 hm with hm | rfl
    · exact h.natives n hm
    · exact hn
  exact hmade.defineGlobal native.name trivial

theorem reached_fits (h : Reached programs bodies s) : SessionFits programs bodies s := by
  induction h with
  | start depth clock out diagnostics =>
    refine ⟨⟨?_, rfl, fun hv => .data (Session.isData_start _ _ _ _ hv)⟩, rfl,
      Session.uniform_start depth clock out diagnostics, fun _ _ => Std.HashMap.getElem?_empty,
      fun p hp => ?_⟩
    · rw [Session.size_start]
      exact Nat.zero_lt_one
    · cases hp
  | rejected _ hp ih => exact ih.rejected hp
  | run _ hp hr ih =>
    obtain ⟨hs, hplaced⟩ := ih.prepare hp
    rw [Session.run_eq_of_prepare hp] at hr
    exact hs.finish (run_fits hs.natives _ (hs.load hplaced)) hr
  | resetError _ ih =>
    exact ⟨ih.world, ih.env, ih.natives, ih.fresh, fun p hp =>
      (ih.known p hp).mono (Nat.le_refl _) fun _ _ => rfl⟩
  | defineGlobal name _ hv ih => exact ih.defineGlobal name hv
  | defineNative _ hn ih => exact ih.defineNative hn

end Lox.Frames
