import Lox.Proofs.Frames.History

/-! Where a node is done there are as many frames as there were scopes where it was visited, and a
variable that was found in a scope is read in its frame. -/

namespace Lox

open Binding

def Machine.node? (m : Machine) : Option Node :=
  match m.control with
  | .eval e => some (.expr e)
  | .exec s => some (.stmt s)
  | _ => none

namespace Binding

lemma mem_exprVisits_self (fn : Bool) (scopes : List Scope) (e : Expr) :
    ⟨.expr e, fn, scopes⟩ ∈ exprVisits fn scopes e := by
  cases e <;> simp [exprVisits]

lemma mem_stmtVisits_self (fn : Bool) (scopes : List Scope) (s : Stmt) :
    ⟨.stmt s, fn, scopes⟩ ∈ stmtVisits fn scopes s := by
  cases s <;> simp [stmtVisits]

end Binding

namespace Frames

variable {programs : List (List Stmt)} {bodies : List (List Scope)} {s : Session}

lemma Known.read {p : List Stmt} (h : Known s p) {fn : Bool} {scopes : List Scope} {site : SiteId}
    {name : Token} (hv : ⟨.expr (.ref site name), fn, scopes⟩ ∈ visits p) {w : World}
    (hc : Chain w.store w.env scopes) {d : ℕ} (hd : s.distances[site]? = some d) :
    ∃ g v, w.store.ancestor? w.env d = some g ∧ w.store.local? g name.lexeme = some v ∧
      w.lookUp? s.setting site name.lexeme = some v := by
  have hpending : pendingIn scopes name.lexeme = false := by
    have hb := h.bound
    rw [ofProgram_eq] at hb
    have he := List.filterMap_eq_nil_iff.1 hb _ hv
    by_contra hp
    rw [Bool.not_eq_false] at hp
    simp [Visit.error?, hp] at he
  have hdistance : distanceIn? scopes name.lexeme = some d := by
    rw [← hd, h.table site (mem_uses_of_visit hv rfl)]
    exact (recorded_of_visit h.nodup hv rfl).symm
  obtain ⟨g, hg, hl⟩ := hc.read hv hpending hdistance
  obtain ⟨v, hl⟩ := Option.isSome_iff_exists.1 hl
  refine ⟨g, v, hg, hl, ?_⟩
  have hs : s.setting.distances[site]? = some d := hd
  rw [World.lookUp?, hs]
  simp only [Store.getAt?, hg, Option.bind_some, hl]

/-- In whatever session a chunk runs and however far it has come, the node that is done now was
visited, in this program or in one that ran before, with some scopes open, and these are as many as
there are frames inside the global one. If it is a variable that has a distance, the frame at that
distance binds the name, and the next step has its value. -/
theorem resolution_agrees {s' : Session} {source : String} {program : List Stmt}
    (h : Reached programs bodies s) (hp : s.prepare source = (some program, s')) (n : ℕ) :
    let m := (Machine.load program s'.world).run s'.setting n
    let t := (Trace.load bodies).run s'.setting n (.load program s'.world)
    ∀ node, m.node? = some node →
      (∃ p ∈ program :: programs, ∃ fn, ⟨node, fn, t.scopes⟩ ∈ visits p) ∧
        m.world.store.ancestor? m.world.env t.scopes.length = some Store.globals ∧
        ∀ site name d, node = .expr (.ref site name) → s'.distances[site]? = some d →
          ∃ g v, m.world.store.ancestor? m.world.env d = some g ∧
            m.world.store.local? g name.lexeme = some v ∧
            m.step s'.setting = ⟨.yield v, m.pending, m.world⟩ := by
  intro m t node hnode
  obtain ⟨hs, hplaced⟩ := (reached_fits h).prepare hp
  have hm : MachineFits (program :: programs) t m := run_fits hs.natives n (hs.load hplaced)
  clear_value m t
  obtain ⟨hw, hc, hpending⟩ := hm
  cases hc with
  | eval hc he =>
    obtain ⟨p, hmem, fn, hsub⟩ := he
    obtain rfl := Option.some.inj hnode
    have hv := hsub (mem_exprVisits_self fn t.scopes _)
    refine ⟨⟨p, hmem, fn, hv⟩, hc.ancestor, ?_⟩
    rintro site name d href hd
    obtain rfl := Node.expr.inj href
    obtain ⟨g, v, hg, hl, hlook⟩ := (hs.known p hmem).read hv hc hd
    refine ⟨g, v, hg, hl, ?_⟩
    simp only [Machine.step, Machine.stepExpr, hlook]
  | exec hc hst =>
    obtain ⟨-, p, hmem, fn, hsub⟩ := hst
    obtain rfl := Option.some.inj hnode
    have hv := hsub (mem_stmtVisits_self fn t.scopes _)
    refine ⟨⟨p, hmem, fn, hv⟩, hc.ancestor, fun site name d href => ?_⟩
    cases href
  | yield | returning | failing => cases hnode

def localRead : List Stmt :=
  [.block [.var ⟨.identifier, "a", 5, 1⟩ none, .expression (.ref 0 ⟨.identifier, "a", 7, 1⟩)]]

def localReadStart : Session := .start 1 .stopped .unlimited .unlimited

lemma scan_localRead : scan "\x7bvar a;a;\x7d" =
    [.token ⟨.punct .leftBrace, "\x7b", 0, 1⟩, .token ⟨.keyword .kwVar, "var", 1, 1⟩,
      .token ⟨.identifier, "a", 5, 1⟩, .token ⟨.punct .semicolon, ";", 6, 1⟩,
      .token ⟨.identifier, "a", 7, 1⟩, .token ⟨.punct .semicolon, ";", 8, 1⟩,
      .token ⟨.punct .rightBrace, "\x7d", 9, 1⟩, .token ⟨.eof, "", 10, 1⟩] := by
  simp [scan, Scan.itemsFrom, Scan.munch, Scan.isBlank, Scan.isDigit, Scan.isWordStart,
    Scan.isWordPart, Scan.munchPunct, Scan.munchWord, Scan.punct?, Position.advance,
    Position.start, Scan.item?]
  and_intros <;> rfl

lemma prepare_localRead : localReadStart.prepare "\x7bvar a;a;\x7d" =
    (some localRead, { localReadStart with nextSite := 1 }.record
      (Binding.ofProgram localRead).distances) := by
  refine Session.prepare_eq_some.2 ⟨?_, rfl, 1, ?_, rfl⟩
  · rw [Session.lexicalErrors, scan_localRead]
    rfl
  · rw [← Grammar.ofTokens_exact, Session.tokens, scan_localRead]
    rfl

theorem localRead_agrees :
    let s' := { localReadStart with nextSite := 1 }.record (Binding.ofProgram localRead).distances
    let m := (Machine.load localRead s'.world).run s'.setting 6
    m.node? = some (.expr (.ref 0 ⟨.identifier, "a", 7, 1⟩)) ∧
      m.world.store.ancestor? m.world.env 1 = some Store.globals ∧
      ∃ g v, m.world.store.ancestor? m.world.env 0 = some g ∧
        m.world.store.local? g "a" = some v ∧
        m.step s'.setting = ⟨.yield v, m.pending, m.world⟩ := by
  intro s' m
  have hnode : m.node? = some (.expr (.ref 0 ⟨.identifier, "a", 7, 1⟩)) := rfl
  have hdistance : s'.distances[0]? = some 0 := by
    rw [Session.getElem?_record (by decide)]
    rfl
  obtain ⟨-, hdepth, hread⟩ := resolution_agrees (.start 1 .stopped .unlimited .unlimited)
    prepare_localRead 6 _ hnode
  exact ⟨hnode, hdepth, hread 0 _ 0 rfl hdistance⟩

end Frames

end Lox
