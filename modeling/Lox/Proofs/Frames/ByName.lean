import Lox.Proofs.Binding.Declarative
import Lox.Proofs.Frames.Assigned
import Lox.Proofs.Frames.Snug
import Lox.Proofs.Runs

/-! Where no function is inside a block or another function, a variable means what the walk outward
from the current frame finds first under its name. -/

namespace Lox

open Binding

def Binding.FunctionsOutermost (program : List Stmt) : Prop :=
  ∀ p around name params body,
    placeAt? program p = some ⟨around, .stmt (.function name params body)⟩ → around = []

namespace Frames

open Machine

lemma outermost_of_places {program : List Stmt} (hp : Stmt.ListPlaced program)
    (h : FunctionsOutermost program) : Outermost program := by
  intro name params body fn scopes hv
  obtain ⟨p, ⟨around, node⟩, hplace, hagrees⟩ := place_of hp hv
  obtain rfl : Node.stmt (.function name params body) = node := hagrees.node
  obtain rfl := h p around name params body hplace
  exact List.length_eq_zero_iff.1 hagrees.depth

lemma Reached.no_bodies {bodies : List (List Scope)} {s : Session} (h : Reached [] bodies s) :
    bodies = [] := by
  generalize hps : [] = programs at h
  induction h with
  | start => rfl
  | run => cases hps
  | rejected _ _ ih | resetError _ ih | defineGlobal _ _ _ ih | defineNative _ _ ih => exact ih hps

variable {program : List Stmt} {session : Session} {w : World} {scopes : List Scope} {fn : Bool}
  {site : SiteId} {name : Token}

lemma Known.reads_by_name (h : Known session program) (hc : Chain w.store w.env scopes)
    (ht : Tight w.store w.env scopes)
    (hv : ⟨.expr (.ref site name), fn, scopes⟩ ∈ visits program) :
    w.lookUp? session.setting site name.lexeme = w.store.get? w.env name.lexeme := by
  have hdistance := h.distance hv rfl
  cases hd : session.distances[site]? with
  | some d =>
    obtain ⟨g, v, hg, hl, hlook⟩ := h.read hv hc hd
    have howner : w.store.owner? w.env name.lexeme = some g :=
      ht.owner_at (hdistance.trans hd) hg (by rw [hl]; rfl)
    rw [hlook, Store.get?, howner, Option.bind_some, hl]
  | none =>
    have hs : session.setting.distances[site]? = none := hd
    rw [World.lookUp?, hs]
    simp only [Store.get?]
    rw [ht.owner_global (hdistance.trans hd)]

lemma Known.writes_by_name {e : Expr} {f : FrameId} (h : Known session program)
    (ht : Tight w.store w.env scopes)
    (hv : ⟨.expr (.assign site name e), fn, scopes⟩ ∈ visits program)
    (hf : w.target? session.setting site name.lexeme = some f) :
    w.store.owner? w.env name.lexeme = some f := by
  have hdistance := h.distance hv rfl
  have hbound := World.isSome_of_target hf
  cases hd : session.distances[site]? with
  | some d =>
    have hs : session.setting.distances[site]? = some d := hd
    simp only [World.target?, hs, Store.holder?, Option.filter_eq_some_iff] at hf
    exact ht.owner_at (hdistance.trans hd) hf.1 hbound
  | none =>
    have hs : session.setting.distances[site]? = none := hd
    simp only [World.target?, hs] at hf
    rw [ht.owner_global (hdistance.trans hd), hf]

/-- However far a program has come in a session in which none ran before: if its functions are all
outermost, then a variable has the value that its name has outward from the current frame, and it
is undefined if the name has none. An assignment that succeeds is one outward from there. -/
theorem resolution_by_name {bodies : List (List Scope)} {s s' : Session} {source : String}
    {program : List Stmt} (h : Reached [] bodies s)
    (hp : s.prepare source = (some program, s')) (hout : FunctionsOutermost program) (n : ℕ) :
    let m := (Machine.load program s'.world).run s'.setting n
    (∀ site name, m.control = .eval (.ref site name) →
      m.step s'.setting = match m.world.store.get? m.world.env name.lexeme with
        | some v => ⟨.yield v, m.pending, m.world⟩
        | none => ⟨.failing (.undefined name), m.pending, m.world⟩) ∧
    ∀ v site name ps u, m.control = .yield v → m.pending = .assign site name :: ps →
      (m.step s'.setting).control = .yield u →
      ∃ f, m.world.store.owner? m.world.env name.lexeme = some f ∧
        m.step s'.setting = ⟨.yield v, ps, m.world.define f name.lexeme v⟩ := by
  intro m
  obtain ⟨hs, hplaced⟩ := (reached_fits h).prepare hp
  obtain rfl := h.no_bodies
  have hknown : Known s' program := hs.known program List.mem_cons_self
  have hload := hs.load hplaced
  have hsnug : MachineSnug program (Trace.load []) (Machine.load program s'.world) := by
    have htight : Tight s'.world.store s'.world.env [] := by
      rw [hs.env]
      exact .global
    exact .mk (List.forall_mem_nil _) (.yield htight) (.sequence .nil)
  have hfits : MachineFits [program] _ m := run_fits hs.natives n hload
  have hrun : MachineSnug program _ m :=
    run_snug hs.natives (outermost_of_places hplaced hout) n hload hsnug
  generalize (Trace.load []).run s'.setting n (Machine.load program s'.world) = t at hfits hrun
  obtain ⟨here, traces, bodies⟩ := t
  clear_value m
  obtain ⟨control, pending, w⟩ := m
  refine ⟨?_, ?_⟩
  · rintro site name rfl
    obtain ⟨-, hc, -⟩ := hfits
    obtain ⟨-, ht, -⟩ := hrun
    cases hc with
    | eval hc he =>
      cases ht with
      | eval ht =>
        obtain ⟨p, hmem, fn, hsub⟩ := he
        obtain rfl := List.mem_singleton.1 hmem
        have hv := hsub (mem_exprVisits_self fn here _)
        have hlook := hknown.reads_by_name hc ht hv
        cases hget : w.store.get? w.env name.lexeme with
        | some v => simp only [Machine.step, Machine.stepExpr, hlook.trans hget]
        | none => simp only [Machine.step, Machine.stepExpr, hlook.trans hget]
  · rintro v site name ps u rfl rfl hu
    obtain ⟨-, ht, hrest⟩ := hrun
    simp only [Machine.step, Machine.stepValue] at hu ⊢
    cases htarget : w.target? s'.setting site name.lexeme with
    | none =>
      rw [htarget] at hu
      cases hu
    | some f =>
      cases ht with
      | yield ht =>
        cases hrest with
        | assign hv =>
          obtain ⟨fn, e, hv⟩ := hv
          exact ⟨f, hknown.writes_by_name ht hv htarget, rfl⟩
        | leave hframe => cases hframe
        | item hplain => cases hplain

def copiedLocal : List Stmt :=
  [.function ⟨.identifier, "f", 4, 1⟩ [] [],
    .block [.var ⟨.identifier, "a", 14, 1⟩ none,
      .expression (.assign 2 ⟨.identifier, "a", 16, 1⟩ (.ref 1 ⟨.identifier, "a", 18, 1⟩))]]

def copiedLocalSession : Session :=
  { localReadStart with nextSite := 3 }.record (Binding.ofProgram copiedLocal).distances

lemma scan_copiedLocal : scan "fun f()\x7b\x7d\x7bvar a;a=a;\x7d" =
    [.token ⟨.keyword .kwFun, "fun", 0, 1⟩, .token ⟨.identifier, "f", 4, 1⟩,
      .token ⟨.punct .leftParen, "(", 5, 1⟩, .token ⟨.punct .rightParen, ")", 6, 1⟩,
      .token ⟨.punct .leftBrace, "\x7b", 7, 1⟩, .token ⟨.punct .rightBrace, "\x7d", 8, 1⟩,
      .token ⟨.punct .leftBrace, "\x7b", 9, 1⟩, .token ⟨.keyword .kwVar, "var", 10, 1⟩,
      .token ⟨.identifier, "a", 14, 1⟩, .token ⟨.punct .semicolon, ";", 15, 1⟩,
      .token ⟨.identifier, "a", 16, 1⟩, .token ⟨.punct .equal, "=", 17, 1⟩,
      .token ⟨.identifier, "a", 18, 1⟩, .token ⟨.punct .semicolon, ";", 19, 1⟩,
      .token ⟨.punct .rightBrace, "\x7d", 20, 1⟩, .token ⟨.eof, "", 21, 1⟩] := by
  simp [scan, Scan.itemsFrom, Scan.munch, Scan.isBlank, Scan.isDigit, Scan.isWordStart,
    Scan.isWordPart, Scan.munchPunct, Scan.munchWord, Scan.punct?, Position.advance,
    Position.start, Scan.item?]
  and_intros <;> rfl

lemma prepare_copiedLocal : localReadStart.prepare "fun f()\x7b\x7d\x7bvar a;a=a;\x7d" =
    (some copiedLocal, copiedLocalSession) := by
  refine Session.prepare_eq_some.2 ⟨?_, rfl, 3, ?_, rfl⟩
  · rw [Session.lexicalErrors, scan_copiedLocal]
    rfl
  · rw [← Grammar.ofTokens_exact, Session.tokens, scan_copiedLocal]
    rfl

lemma copiedLocal_outermost : FunctionsOutermost copiedLocal := by
  have hplaced : Stmt.ListPlaced copiedLocal := by simp [copiedLocal, Stmt.ListPlaced, Stmt.Placed]
  intro p around name params body hplace
  obtain ⟨us, hus, hu⟩ := visited_at hplaced hplace
  obtain ⟨v, hv, hagrees⟩ := hu.own
  have hmem := hus hv
  have hnode := hagrees.node
  refine List.length_eq_zero_iff.1 (hagrees.depth.symm.trans ?_)
  simp [copiedLocal, visits, stmtsVisits, stmtVisits, exprVisits, optionVisits] at hmem
  rcases hmem with rfl | rfl | rfl | rfl | rfl | rfl <;> first | rfl | cases hnode

lemma target_copiedLocal {w : World} (h : (w.store.local? w.env "a").isSome) :
    w.target? copiedLocalSession.setting 2 "a" = some w.env := by
  have hrecord : copiedLocalSession.distances[2]? = some 0 := by
    rw [copiedLocalSession, Session.getElem?_record (by decide)]
    rfl
  have hdistance : copiedLocalSession.setting.distances[2]? = some 0 := hrecord
  rw [World.target?, hdistance]
  simp only [Store.holder?, Store.ancestor?, Option.filter_some, h, if_true]

theorem copiedLocal_by_name :
    let m := (Machine.load copiedLocal copiedLocalSession.world).run copiedLocalSession.setting 9
    let m' := m.step copiedLocalSession.setting
    m.control = .eval (.ref 1 ⟨.identifier, "a", 18, 1⟩) ∧
      m' = ⟨.yield .nil, m.pending, m.world⟩ ∧
      m'.step copiedLocalSession.setting =
        ⟨.yield .nil, m.pending.tail, m.world.define m.world.env "a" .nil⟩ := by
  intro m m'
  have hby := resolution_by_name (.start 1 .stopped .unlimited .unlimited) prepare_copiedLocal
    copiedLocal_outermost
  have hlocal : (m.world.store.local? m.world.env "a").isSome := rfl
  have howner := Store.owner?_of_local hlocal
  have hget : m.world.store.get? m.world.env "a" = some .nil := by
    rw [Store.get?, howner]
    rfl
  have hread : m' = match m.world.store.get? m.world.env "a" with
      | some v => ⟨.yield v, m.pending, m.world⟩
      | none => ⟨.failing (.undefined ⟨.identifier, "a", 18, 1⟩), m.pending, m.world⟩ :=
    (hby 9).1 1 _ rfl
  rw [hget] at hread
  have hnext : (Machine.load copiedLocal copiedLocalSession.world).run
      copiedLocalSession.setting 10 = ⟨.yield .nil, m.pending, m.world⟩ :=
    (run_add _ 9 1).trans hread
  have hwrite := (hby 10).2 .nil 2 ⟨.identifier, "a", 16, 1⟩ m.pending.tail .nil
  rw [hnext] at hwrite
  have hpending : m.pending = .assign 2 ⟨.identifier, "a", 16, 1⟩ :: m.pending.tail := rfl
  have hsucceeds : (Machine.step copiedLocalSession.setting
      ⟨.yield .nil, m.pending, m.world⟩).control = .yield .nil := by
    rw [hpending]
    simp only [Machine.step, Machine.stepValue, target_copiedLocal hlocal]
  obtain ⟨f, hf, hstep⟩ := hwrite rfl hpending hsucceeds
  obtain rfl := Option.some.inj (hf.symm.trans howner)
  exact ⟨rfl, hread, by rw [hread]; exact hstep⟩

end Frames

end Lox
