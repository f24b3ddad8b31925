import Lox.Proofs.Likeness.Values
import Lox.Proofs.Native

/-! Two machines that start alike stay alike, step by step, and come to results alike. -/

namespace Lox.Likeness

open Machine

variable {Role : Type} (κ : Likeness Role)

structure SettingLike (t t' : Setting) : Prop where
  depth : t'.maxCallDepth = t.maxCallDepth
  natives : t'.natives = t.natives
  uniform : ∀ native ∈ t.natives, native.Uniform
  distance : ∀ {a b d}, κ.site a b d → t.distances[a]? = d ∧ t'.distances[b]? = d

structure WorldLike (ctxs : List (Context Role)) (ctx : Context Role) (w w' : World) : Prop where
  store : κ.StoreLike ctxs w.store w'.store
  env : w'.env = w.env
  context : ctxs[w.env]? = some ctx
  depth : w'.callDepth = w.callDepth
  line : κ.line w.callLine w'.callLine
  functions : w'.functions = w.functions
  out : w'.out = w.out
  clock : w'.clock = w.clock

inductive FaultLike : RuntimeFault → RuntimeFault → Prop
  | same (fault) : FaultLike fault fault
  | undefined (r name) :
      FaultLike (.undefinedVariable name) (.undefinedVariable (κ.rename r name))

structure ErrorLike (e e' : RuntimeError) : Prop where
  fault : κ.FaultLike e.fault e'.fault
  line : κ.line e.line e'.line

inductive ControlLike (ctxs : List (Context Role)) (fn : Bool) (ctx : Context Role) :
    Control → Control → Prop
  | eval {e e'} : κ.ExprLike ctx e e' → ControlLike ctxs fn ctx (.eval e) (.eval e')
  | exec {s s'} : κ.StmtLike fn ctx s s' → ControlLike ctxs fn ctx (.exec s) (.exec s')
  | yield {v v'} : κ.ValueLike ctxs v v' → ControlLike ctxs fn ctx (.yield v) (.yield v')
  | returning {v v'} : fn = true → κ.ValueLike ctxs v v' →
      ControlLike ctxs fn ctx (.returning v) (.returning v')
  | failing {e e'} : κ.ErrorLike e e' → ControlLike ctxs fn ctx (.failing e) (.failing e')

inductive ItemLike (ctxs : List (Context Role)) (fn : Bool) (ctx : Context Role) :
    Pending → Pending → Prop
  | unary {op op'} : κ.OperatorLike op op' → ItemLike ctxs fn ctx (.unary op) (.unary op')
  | binaryLeft {op op' e e'} : κ.OperatorLike op op' → κ.ExprLike ctx e e' →
      ItemLike ctxs fn ctx (.binaryLeft op e) (.binaryLeft op' e')
  | binaryRight {v v' op op'} : κ.ValueLike ctxs v v' → κ.OperatorLike op op' →
      ItemLike ctxs fn ctx (.binaryRight v op) (.binaryRight v' op')
  | logicalLeft {op op' e e'} : κ.OperatorLike op op' → κ.ExprLike ctx e e' →
      ItemLike ctxs fn ctx (.logicalLeft op e) (.logicalLeft op' e')
  | assign {a x b y} : κ.SiteLike ctx a x b y → ItemLike ctxs fn ctx (.assign a x) (.assign b y)
  | callee {p p' es es'} : κ.line p.line p'.line → List.Forall₂ (κ.ExprLike ctx) es es' →
      ItemLike ctxs fn ctx (.callee p es) (.callee p' es')
  | argument {f f' p p' vs vs' es es'} : κ.ValueLike ctxs f f' → κ.line p.line p'.line →
      List.Forall₂ (κ.ValueLike ctxs) vs vs' → List.Forall₂ (κ.ExprLike ctx) es es' →
      ItemLike ctxs fn ctx (.argument f p vs es) (.argument f' p' vs' es')
  | print {l l'} : Option.Rel κ.line l l' → ItemLike ctxs fn ctx (.print l) (.print l')
  | bind {x x'} : κ.NameLike (ctx 0) x x' → ItemLike ctxs fn ctx (.bind x) (.bind x')
  | branch {s s' t t'} : κ.StmtLike fn ctx s s' → Option.Rel (κ.StmtLike fn ctx) t t' →
      ItemLike ctxs fn ctx (.branch s t) (.branch s' t')
  | loopTest {c c' s s'} : κ.ExprLike ctx c c' → κ.StmtLike fn ctx s s' →
      ItemLike ctxs fn ctx (.loopTest c s) (.loopTest c' s')
  | loopBody {c c' s s'} : κ.ExprLike ctx c c' → κ.StmtLike fn ctx s s' →
      ItemLike ctxs fn ctx (.loopBody c s) (.loopBody c' s')
  | giveBack : fn = true → ItemLike ctxs fn ctx .giveBack .giveBack
  | sequence {b b'} : κ.StmtsLike fn ctx b b' → ItemLike ctxs fn ctx (.sequence b) (.sequence b')

/-- What remains, latest first. Below the last call nothing is in a function. -/
inductive PendingLike (ctxs : List (Context Role)) :
    Bool → Context Role → List Pending → List Pending → Prop
  | nil {ctx} : PendingLike ctxs false ctx [] []
  | item {fn ctx p p' ps ps'} : κ.ItemLike ctxs fn ctx p p' → PendingLike ctxs fn ctx ps ps' →
      PendingLike ctxs fn ctx (p :: ps) (p' :: ps')
  | leaveBlock {fn ctx outer ctx' ps ps'} : ctxs[outer]? = some ctx' →
      PendingLike ctxs fn ctx' ps ps' →
      PendingLike ctxs fn ctx (.leaveBlock outer :: ps) (.leaveBlock outer :: ps')
  | leaveCall {fn ctx caller ctx' line line' ps ps'} : ctxs[caller]? = some ctx' →
      κ.line line line' → PendingLike ctxs fn ctx' ps ps' →
      PendingLike ctxs true ctx (.leaveCall caller line :: ps) (.leaveCall caller line' :: ps')

inductive MachineLike : Machine → Machine → Prop
  | mk {ctxs fn ctx c c' ps ps' w w'} : κ.WorldLike ctxs ctx w w' →
      κ.ControlLike ctxs fn ctx c c' → κ.PendingLike ctxs fn ctx ps ps' →
      MachineLike ⟨c, ps, w⟩ ⟨c', ps', w'⟩

variable {κ} {ctxs more : List (Context Role)} {fn : Bool} {ctx ctx' : Context Role}
  {t t' : Setting} {w w' : World} {ps ps' : List Pending}

lemma getElem?_extend {f : FrameId} (h : ctxs[f]? = some ctx) :
    (ctxs ++ more)[f]? = some ctx := by
  obtain ⟨hlt, _⟩ := List.getElem?_eq_some_iff.1 h
  rw [List.getElem?_append_left hlt, h]

lemma WorldLike.weaken {κ' : Likeness Role} (weaker : Weaker κ κ')
    (h : κ.WorldLike ctxs ctx w w') : κ'.WorldLike ctxs ctx w w' :=
  ⟨h.store.weaken weaker, h.env, h.context, h.depth, weaker.line h.line, h.functions, h.out,
    h.clock⟩

lemma ItemLike.extend {p p' : Pending} (h : κ.ItemLike ctxs fn ctx p p') :
    κ.ItemLike (ctxs ++ more) fn ctx p p' := by
  cases h with
  | binaryRight hv ho => exact .binaryRight hv.extend ho
  | argument hf hp hv he => exact .argument hf.extend hp (valuesLike_extend hv) he
  | unary ho => exact .unary ho
  | binaryLeft ho he => exact .binaryLeft ho he
  | logicalLeft ho he => exact .logicalLeft ho he
  | assign hs => exact .assign hs
  | callee hp he => exact .callee hp he
  | print hl => exact .print hl
  | bind hx => exact .bind hx
  | branch hs ht => exact .branch hs ht
  | loopTest hc hs => exact .loopTest hc hs
  | loopBody hc hs => exact .loopBody hc hs
  | giveBack hf => exact .giveBack hf
  | sequence hb => exact .sequence hb

lemma PendingLike.extend (h : κ.PendingLike ctxs fn ctx ps ps') :
    κ.PendingLike (ctxs ++ more) fn ctx ps ps' := by
  induction h with
  | nil => exact .nil
  | item hi _ ih => exact .item hi.extend ih
  | leaveBlock ho _ ih => exact .leaveBlock (getElem?_extend ho) ih
  | leaveCall hc hl _ ih => exact .leaveCall (getElem?_extend hc) hl ih

section

variable (ht : κ.SettingLike t t') (hw : κ.WorldLike ctxs ctx w w')

include ht hw

lemma SiteLike.lookUp {a b : SiteId} {x y : Token} (h : κ.SiteLike ctx a x b y) :
    Option.Rel (κ.ValueLike ctxs) (w.lookUp? t a x.lexeme) (w'.lookUp? t' b y.lexeme) := by
  obtain ⟨d, hs, hn⟩ := h
  obtain ⟨ha, hb⟩ := ht.distance hs
  rw [World.lookUp?, World.lookUp?, ha, hb, hn.lexeme]
  cases d with
  | none =>
    simp only [Store.get?_globals]
    exact hw.store.values hw.store.globals hn.known
  | some d =>
    simp only [Store.getAt?, hw.env, hw.store.ancestor]
    cases hg : w.store.ancestor? w.env d with
    | none => exact .none
    | some g => exact hw.store.values (hw.store.context_ancestor hw.context hg) hn.known

lemma SiteLike.target {a b : SiteId} {x y : Token} (h : κ.SiteLike ctx a x b y) :
    w'.target? t' b y.lexeme = w.target? t a x.lexeme ∧
      ∀ g, w.target? t a x.lexeme = some g →
        ∃ ctx', ctxs[g]? = some ctx' ∧ κ.NameLike (ctx' 0) x y := by
  obtain ⟨d, hs, hn⟩ := h
  obtain ⟨ha, hb⟩ := ht.distance hs
  rw [World.target?, World.target?, ha, hb, hn.lexeme]
  cases d with
  | none =>
    have hv := hw.store.values hw.store.globals hn.known
    have hs' := optionRel_isSome hv
    simp only [outside] at hs'
    simp only [Store.owner?_globals, roleAt]
    refine ⟨?_, fun g hg => ?_⟩
    · simp only [hs']
    · split at hg
      · obtain rfl := Option.some.inj hg
        exact ⟨_, hw.store.globals, hn⟩
      · exact absurd hg (by simp)
  | some d =>
    simp only [Store.holder?, hw.env, hw.store.ancestor]
    cases hg : w.store.ancestor? w.env d with
    | none => simp
    | some g =>
      have hc := hw.store.context_ancestor hw.context hg
      have hs' := optionRel_isSome (hw.store.values hc hn.known)
      simp only [Nat.add_zero] at hs'
      simp only [Option.filter_some, roleAt]
      refine ⟨?_, fun g' hg' => ?_⟩
      · simp only [hs']
      · split at hg'
        · obtain rfl := Option.some.inj hg'
          exact ⟨_, hc, hn⟩
        · exact absurd hg' (by simp)

end

end Lox.Likeness
