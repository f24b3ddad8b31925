import Lox.Proofs.Frames.History
import Lox.Proofs.Likeness.Session

/-! What runs in a session is like itself in every later session: the table of a session is that of
the sessions before it, with more sites. -/

namespace Lox.Chunks

open Binding Frames Likeness

def likeness (s : Session) : Likeness Unit where
  global := ()
  known _ := True
  rename _ a := a
  rename_inj _ _ h := h
  line _ _ := True
  line_zero := trivial
  site a b d := b = a ∧ a < s.nextSite ∧ s.distances[a]? = d

variable {programs : List (List Stmt)} {bodies : List (List Scope)} {s s' : Session}

lemma keeps (s : Session) : Keeps (likeness s) := ⟨fun _ => rfl, fun _ => trivial⟩

lemma covers {site : SiteId} (h : site < s.nextSite) (name : Token) :
    Covers (likeness s) (site, name) :=
  ⟨trivial, _, rfl, h, rfl⟩

lemma weaker (hn : s.nextSite ≤ s'.nextSite)
    (hd : ∀ site < s.nextSite, s'.distances[site]? = s.distances[site]?) :
    Weaker (likeness s) (likeness s') where
  global := rfl
  known := Iff.rfl
  rename _ _ := rfl
  line h := h
  site := by
    rintro a b d ⟨hb, ha, hsite⟩
    exact ⟨hb, Nat.lt_of_lt_of_le ha hn, (hd a ha).trans hsite⟩

lemma settingLike (hn : s'.natives = s.natives) (hc : s'.maxCallDepth = s.maxCallDepth)
    (hu : ∀ native ∈ s.natives, native.Uniform)
    (hd : ∀ site < s.nextSite, s'.distances[site]? = s.distances[site]?) :
    (likeness s).SettingLike s.setting s'.setting where
  depth := hc
  natives := hn
  uniform := hu
  distance := by
    rintro a b d ⟨rfl, ha, hsite⟩
    exact ⟨hsite, (hd _ ha).trans hsite⟩

lemma StmtsIn.uses {scopes : List Scope} {b : List Stmt} (h : StmtsIn programs scopes b) :
    ∃ p ∈ programs, Stmt.listUses b ⊆ Stmt.listUses p := by
  obtain ⟨-, p, hp, fn, hsub⟩ := h
  refine ⟨p, hp, fun u hu => ?_⟩
  rw [← uses_stmtsVisits fn b scopes] at hu
  obtain ⟨v, hv, huse⟩ := List.mem_filterMap.1 hu
  rw [← uses_visits]
  exact List.mem_filterMap.2 ⟨v, hsub hv, huse⟩

lemma coversAll (h : SessionFits programs bodies s) {scopes : List Scope} {b : List Stmt}
    (hb : StmtsIn programs scopes b) : ∀ u ∈ Stmt.listUses b, Covers (likeness s) u := by
  obtain ⟨p, hp, hsub⟩ := StmtsIn.uses hb
  intro u hu
  exact covers ((h.known p hp).numbered u.1 (List.mem_map_of_mem (hsub hu))) u.2

abbrev contexts (s : Session) : List (Context Unit) :=
  List.replicate s.world.store.frames.size (likeness s).outside

lemma getElem?_contexts {f : FrameId} (h : f < s.world.store.frames.size) :
    (contexts s)[f]? = some (likeness s).outside := by
  rw [List.getElem?_replicate, if_pos h]

variable (h : SessionFits programs bodies s)

include h

lemma valueLike_self {v : Value} (hv : ValueFits programs bodies s.world.store v) :
    (likeness s).ValueLike (contexts s) v v := by
  cases hv with
  | data hd => exact .ofData hd
  | @function i f closure scopes _ hc hb =>
    exact .function i (getElem?_contexts (hc.lt h.world.globals))
      (functionLike_self (keeps s) (coversAll h hb) fun _ => trivial)

lemma storeLike_self :
    (likeness s).StoreLike (contexts s) s.world.store s.world.store where
  size := List.length_replicate.symm
  size' := List.length_replicate.symm
  globals := getElem?_contexts h.world.globals
  parent _ := rfl
  outer {f p ctx} hf hp := by
    obtain ⟨hlt, -⟩ := List.getElem?_eq_some_iff.1 hf
    rw [List.length_replicate] at hlt
    rw [getElem?_contexts (Nat.lt_trans (Store.parent?_lt hp) hlt)]
  values {f ctx name} _ _ := by
    change Option.Rel _ (s.world.store.local? f name) (s.world.store.local? f name)
    cases hv : s.world.store.local? f name with
    | none => exact .none
    | some v => exact .some (valueLike_self h (h.world.values hv))

theorem worldLike_self :
    (likeness s).WorldLike (contexts s) (likeness s).outside s.world s.world where
  store := storeLike_self h
  env := rfl
  context := by
    rw [h.env]
    exact getElem?_contexts h.world.globals
  depth := rfl
  line := trivial
  functions := rfl
  out := rfl
  clock := rfl

end Lox.Chunks
