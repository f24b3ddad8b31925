import Lox.Proofs.Likeness.Self
import Lox.Proofs.Likeness.Step
import Lox.Proofs.Session

/-! Programs that are alike are run alike in a session in which nothing has run. -/

namespace Lox.Likeness

variable {Role : Type} {κ : Likeness Role}

lemma load_like {ctxs : List (Context Role)} {w w' : World} {p p' : List Stmt}
    (hw : κ.WorldLike ctxs κ.outside w w') (hp : StmtsLike κ false κ.outside p p') :
    κ.MachineLike (.load p w) (.load p' w') :=
  .mk hw (.yield .nil) (.item (.sequence hp) .nil)

lemma functionLike_self (hκ : Keeps κ) {f : Function} (hu : ∀ u ∈ Stmt.listUses f.body, Covers κ u)
    (hn : ∀ a, κ.known a) : κ.FunctionLike κ.outside f f := by
  have hbody := stmtsLike_self hκ ⟨hu, fun _ _ => hn _, .inl rfl⟩
  rw [← inner_outside] at hbody
  exact ⟨κ.global, rfl, namesLike_self hκ fun _ _ => hn _, hbody⟩

lemma storeLike_globals (hκ : Keeps κ) {s : Store} (hs : s.frames.size = 1)
    (hd : ∀ name v, s.local? Store.globals name = some v → v.IsData) :
    κ.StoreLike [κ.outside] s s := by
  have hf : ∀ {f : FrameId} {ctx : Context Role}, [κ.outside][f]? = some ctx →
      f = Store.globals ∧ ctx = κ.outside := by
    intro f ctx h
    rw [List.getElem?_singleton] at h
    split at h
    · next h0 => exact ⟨h0, (Option.some.inj h).symm⟩
    · cases h
  refine ⟨hs, hs, rfl, fun _ => rfl, fun h hp => ?_, fun {f ctx name} h hk => ?_⟩
  · obtain ⟨rfl, -⟩ := hf h
    rw [Store.parent?_globals] at hp
    cases hp
  · obtain ⟨rfl, rfl⟩ := hf h
    rw [outside, hκ.rename]
    cases hv : s.local? Store.globals name with
    | none => exact .none
    | some v => exact .some (.ofData (hd name v hv))

section

variable (depth : ℕ) (clock : Clock) (out diagnostics : Sink)

lemma worldLike_start (hκ : Keeps κ) :
    κ.WorldLike [κ.outside] κ.outside (Session.start depth clock out diagnostics).world
      (Session.start depth clock out diagnostics).world := by
  exact ⟨storeLike_globals hκ (Session.size_start ..) fun _ _ => Session.isData_start _ _ _ _, rfl,
    rfl, rfl, hκ.line 0, rfl, rfl, rfl⟩

lemma settingLike_start {p : List Stmt} (hn : ((Stmt.listUses p).map Prod.fst).Nodup)
    (hs : ∀ {a b d}, κ.site a b d → Binding.recorded p a = d ∧ Binding.recorded p b = d) :
    κ.SettingLike
      ((Session.start depth clock out diagnostics).record (Binding.ofProgram p).distances).setting
      ((Session.start depth clock out diagnostics).record
        (Binding.ofProgram p).distances).setting := by
  have htable : ∀ a : SiteId, ((Session.start depth clock out diagnostics).record
      (Binding.ofProgram p).distances).distances[a]? = Binding.recorded p a := by
    intro a
    have hempty : (Session.start depth clock out diagnostics).distances[a]? = none :=
      Std.HashMap.getElem?_empty
    rw [Session.getElem?_record hn, hempty, Option.or_none]
  refine ⟨rfl, rfl, Session.uniform_start depth clock out diagnostics, fun {a b d} h => ?_⟩
  obtain ⟨ha, hb⟩ := hs h
  exact ⟨(htable a).trans ha, (htable b).trans hb⟩

end

end Lox.Likeness
