import Lox.Proofs.History
import Lox.Proofs.Likeness.Session
import Lox.Proofs.Sites.Likeness

/-! The numbers that a session has not given out yet mean nothing to what runs in it. -/

namespace Lox

open Likeness Machine

/-- A value of which a session has all the parts: the frame around a function, and the numbers of
the sites in it. -/
def Session.Knows (s : Session) : Value → Prop
  | .function _ f closure =>
    closure < s.world.store.frames.size ∧ ∀ u ∈ Stmt.listUses f.body, u.1 < s.nextSite
  | _ => True

def Host.discreet : Host := ⟨Session.Knows, Native.Uniform⟩

namespace Session

variable {s s' : Session}

def Numbered (s : Session) (a b : SiteId) (d : Option ℕ) : Prop :=
  b = a ∧ a < s.nextSite ∧ s.distances[a]? = d

abbrev likeness (s : Session) : Likeness Unit := ofSites s.Numbered

structure Steady (s : Session) : Prop where
  fresh : ∀ site, s.nextSite ≤ site → s.distances[site]? = none
  uniform : ∀ native ∈ s.natives, native.Uniform
  world : ∃ ctxs, s.likeness.WorldLike ctxs s.likeness.outside s.world s.world

structure Extends (s s' : Session) : Prop where
  le : s.nextSite ≤ s'.nextSite
  distances : ∀ site, site < s.nextSite ∨ s'.nextSite ≤ site →
    s'.distances[site]? = s.distances[site]?

lemma Extends.weaker (h : Extends s s') : Weaker s.likeness s'.likeness := by
  refine weaker_ofSites ?_
  rintro a b d ⟨hb, ha, hd⟩
  exact ⟨hb, Nat.lt_of_lt_of_le ha h.le, (h.distances a (.inl ha)).trans hd⟩

lemma Steady.extend (h : s.Steady) (he : Extends s s') (hn : s'.natives = s.natives)
    (hw : s'.world = s.world) : s'.Steady := by
  refine ⟨fun site hs => ?_, fun native hm => h.uniform native (hn ▸ hm), ?_⟩
  · rw [he.distances site (.inr hs)]
    exact h.fresh site (Nat.le_trans he.le hs)
  · obtain ⟨ctxs, hworld⟩ := h.world
    rw [hw]
    exact ⟨ctxs, hworld.weaken he.weaker⟩

lemma settingLike_self (hn : ∀ native ∈ s.natives, native.Uniform) :
    s.likeness.SettingLike s.setting s.setting := by
  refine ⟨rfl, rfl, hn, ?_⟩
  rintro a b d ⟨rfl, -, hd⟩
  exact ⟨hd, hd⟩

lemma suits_ofSites {r : SiteId → SiteId → Option ℕ → Prop} {program : List Stmt}
    (hr : ∀ u ∈ Stmt.listUses program, ∃ d, r u.1 u.1 d)
    (hb : (Binding.ofProgram program).errors = []) : StmtsSuit (ofSites r) false program :=
  ⟨fun u hu => ⟨trivial, hr u hu⟩, fun _ _ => trivial, .inr (Binding.strays_of_accepted hb)⟩

lemma Steady.run {source : String} {program : List Stmt} {s₁ : Session} {fuel : ℕ}
    {outcome : Outcome} (h : s.Steady) (hp : s.prepare source = (some program, s₁))
    (hr : s.run fuel source = (some outcome, s')) : s'.Steady := by
  obtain ⟨-, hb, j, hreads, hs⟩ := prepare_eq_some.1 hp
  have hn := (Grammar.decls_sound hreads).1
  have he : Extends s s₁ := by
    rw [hs]
    exact ⟨hn.le, fun _ hsite => getElem?_record_of_outside hreads _ hsite⟩
  have hsteady : s₁.Steady := h.extend he (by rw [hs]; rfl) (by rw [hs]; rfl)
  have hself : s₁.likeness.StmtsLike false s₁.likeness.outside program program := by
    refine stmtsLike_self (keeps_ofSites _) (suits_ofSites (fun u hu => ⟨_, rfl, ?_, rfl⟩) hb)
    have hj : s₁.nextSite = j := by rw [hs]; rfl
    rw [hj]
    exact (hn.range u.1 (List.mem_map_of_mem hu)).2
  -- The program is loaded as one that is like itself and stays so, whatever it defines.
  obtain ⟨ctxs, hworld⟩ := hsteady.world
  have hrun := run_like (settingLike_self hsteady.uniform) fuel (load_like hworld hself)
  rw [run_eq_of_prepare hp] at hr
  obtain ⟨-, _, _, _, rfl⟩ := finish_eq hr
  obtain ⟨ctxs', ctx, hworld'⟩ := hrun.world
  obtain rfl : ctx = s₁.likeness.outside := Subsingleton.elim _ _
  exact ⟨hsteady.fresh, hsteady.uniform, ctxs', hworld'⟩

lemma Steady.defineGlobal (h : s.Steady) (name : String) {v : Value} (hv : s.Knows v) :
    (s.defineGlobal name v).Steady := by
  obtain ⟨ctxs, hw⟩ := h.world
  have hlike : s.likeness.ValueLike ctxs v v := by
    cases v with
    | function i f closure =>
      obtain ⟨hc, hu⟩ := hv
      have hlt : closure < ctxs.length := hw.store.size ▸ hc
      have hctx : ctxs[closure] = s.likeness.outside := Subsingleton.elim _ _
      refine .function i (List.getElem?_eq_getElem hlt) (hctx ▸ ?_)
      exact functionLike_self (keeps_ofSites _) (fun u hm => ⟨trivial, _, rfl, hu u hm, rfl⟩)
        fun _ => trivial
    | _ => exact .ofData trivial
  have hstore := hw.store.define (a := name) hw.store.globals trivial hlike
  exact ⟨h.fresh, h.uniform, ctxs, hstore, hw.env, hw.context, hw.depth, hw.line, hw.functions,
    hw.out, hw.clock⟩

lemma Steady.defineNative (h : s.Steady) {native : Native} (hn : native.Uniform) :
    (s.defineNative native).Steady := by
  have hmade : (s.makeNative native).2.Steady := by
    refine ⟨h.fresh, fun n hm => ?_, h.world⟩
    rcases Array.mem_push.1 hm with hm | rfl
    · exact h.uniform n hm
    · exact hn
  exact hmade.defineGlobal native.name trivial

theorem History.steady (h : History .discreet s) : s.Steady := by
  induction h with
  | start depth clock out diagnostics =>
    exact ⟨fun _ _ => Std.HashMap.getElem?_empty, uniform_start depth clock out diagnostics, _,
      worldLike_start depth clock out diagnostics (keeps_ofSites _)⟩
  | @run s s' source fuel outcome _ hr ih =>
    rcases hp : s.prepare source with ⟨program?, s₁⟩
    cases program? with
    | none =>
      obtain ⟨_, _, _, _, rfl, hle, hd⟩ := prepare_eq_none hp
      rw [Session.run, hp] at hr
      cases hr
      exact ih.extend ⟨hle, hd⟩ rfl rfl
    | some program => exact ih.run hp hr
  | resetError _ ih => exact ⟨ih.fresh, ih.uniform, ih.world⟩
  | defineGlobal name _ hv ih => exact ih.defineGlobal name hv
  | makeFunction declaration _ ih =>
    obtain ⟨ctxs, hw⟩ := ih.world
    exact ⟨ih.fresh, ih.uniform, ctxs, hw.store, hw.env, hw.context, hw.depth, hw.line, rfl, hw.out,
      hw.clock⟩
  | defineNative _ hn ih => exact ih.defineNative hn

end Session

end Lox
