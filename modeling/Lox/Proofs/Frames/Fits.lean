import Lox.Proofs.Frames.Chain
import Lox.Proofs.Frames.Trace
import Lox.Proofs.Grammar.Sites
import Lox.Proofs.Native

/-! Machines that stand where the walk stood: every node that is done, that remains or that is the
body of a function is visited in one of some programs, and the frames are those of its scopes. -/

namespace Lox.Frames

open Binding Machine

variable (programs : List (List Stmt))

def ExprIn (scopes : List Scope) (e : Expr) : Prop :=
  ∃ p ∈ programs, ∃ fn, exprVisits fn scopes e ⊆ visits p

def ExprsIn (scopes : List Scope) (es : List Expr) : Prop :=
  ∃ p ∈ programs, ∃ fn, listVisits fn scopes es ⊆ visits p

def StmtIn (scopes : List Scope) (s : Stmt) : Prop :=
  s.Placed ∧ ∃ p ∈ programs, ∃ fn, stmtVisits fn scopes s ⊆ visits p

def StmtsIn (scopes : List Scope) (b : List Stmt) : Prop :=
  Stmt.ListPlaced b ∧ ∃ p ∈ programs, ∃ fn, stmtsVisits fn scopes b ⊆ visits p

def BranchIn (scopes : List Scope) (s : Stmt) : Prop :=
  StmtIn programs scopes s ∧ s.isDeclaration = false

/-- A function whose body begins in the frame of its parameters inside its closure. -/
inductive ValueFits (bodies : List (List Scope)) (s : Store) : Value → Prop
  | data {v} : v.IsData → ValueFits bodies s v
  | function {i f closure scopes} : bodies[i]? = some (paramScopes f.params scopes) →
      Chain s closure scopes → StmtsIn programs (paramScopes f.params scopes) f.body →
      ValueFits bodies s (.function i f closure)

structure WorldFits (bodies : List (List Scope)) (w : World) : Prop where
  globals : 0 < w.store.frames.size
  functions : bodies.length = w.functions
  values : ∀ {f name v}, w.store.local? f name = some v → ValueFits programs bodies w.store v

inductive ControlFits (bodies : List (List Scope)) (s : Store) (env : FrameId) :
    List Scope → List Scope → Control → Prop
  | eval {scopes e} : Chain s env scopes → ExprIn programs scopes e →
      ControlFits bodies s env scopes scopes (.eval e)
  | exec {scopes st} : Chain s env scopes → StmtIn programs scopes st →
      ControlFits bodies s env scopes (scopesAfter st scopes) (.exec st)
  | yield {scopes after v} : Chain s env after → ValueFits programs bodies s v →
      ControlFits bodies s env scopes after (.yield v)
  | returning {scopes after v} : s.ancestor? env after.length = some Store.globals →
      ValueFits programs bodies s v → ControlFits bodies s env scopes after (.returning v)
  | failing {scopes after e} : s.ancestor? env after.length = some Store.globals →
      ControlFits bodies s env scopes after (.failing e)

inductive ItemFits (bodies : List (List Scope)) (s : Store) :
    List Scope → List Scope → List Scope → Pending → Prop
  | unary {scopes here} (op) : ItemFits bodies s scopes here scopes (.unary op)
  | binaryLeft {scopes} (op) {e} : ExprIn programs scopes e →
      ItemFits bodies s scopes scopes scopes (.binaryLeft op e)
  | binaryRight {scopes here} (v op) : ItemFits bodies s scopes here scopes (.binaryRight v op)
  | logicalLeft {scopes} (op) {e} : ExprIn programs scopes e →
      ItemFits bodies s scopes scopes scopes (.logicalLeft op e)
  | assign {scopes here} (site name) : ItemFits bodies s scopes here scopes (.assign site name)
  | callee {scopes} (paren) {es} : ExprsIn programs scopes es →
      ItemFits bodies s scopes scopes scopes (.callee paren es)
  | argument {scopes f} (paren) {vs es} : ValueFits programs bodies s f →
      (∀ v ∈ vs, ValueFits programs bodies s v) → ExprsIn programs scopes es →
      ItemFits bodies s scopes scopes scopes (.argument f paren vs es)
  | print {scopes here} (line?) : ItemFits bodies s scopes here scopes (.print line?)
  | bind {scopes here} (x) : ItemFits bodies s scopes here (enter x true scopes) (.bind x)
  | branch {scopes st t} : BranchIn programs scopes st → (∀ u ∈ t, BranchIn programs scopes u) →
      ItemFits bodies s scopes scopes scopes (.branch st t)
  | loopTest {scopes c st} : ExprIn programs scopes c → BranchIn programs scopes st →
      ItemFits bodies s scopes scopes scopes (.loopTest c st)
  | loopBody {scopes c st} : ExprIn programs scopes c → BranchIn programs scopes st →
      ItemFits bodies s scopes scopes scopes (.loopBody c st)
  | giveBack {scopes here} : ItemFits bodies s scopes here scopes .giveBack
  | sequence {scopes b} : StmtsIn programs scopes b →
      ItemFits bodies s scopes scopes (scopesAfterAll b scopes) (.sequence b)

inductive PendingFits (bodies : List (List Scope)) (s : Store) :
    List Scope → List (List Scope) → List Pending → Prop
  | nil : PendingFits bodies s [] [] []
  | item {scopes here after traces p ps} : ItemFits programs bodies s scopes here after p →
      PendingFits bodies s after traces ps → PendingFits bodies s scopes (here :: traces) (p :: ps)
  | leaveBlock {scopes here outside outer traces ps} : Chain s outer outside →
      PendingFits bodies s outside traces ps →
      PendingFits bodies s scopes (here :: traces) (.leaveBlock outer :: ps)
  | leaveCall {scopes here outside caller line traces ps} : Chain s caller outside →
      PendingFits bodies s outside traces ps →
      PendingFits bodies s scopes (here :: traces) (.leaveCall caller line :: ps)

inductive MachineFits (t : Trace) : Machine → Prop
  | mk {after c ps w} : WorldFits programs t.bodies w →
      ControlFits programs t.bodies w.store w.env t.scopes after c →
      PendingFits programs t.bodies w.store after t.pending ps → MachineFits t ⟨c, ps, w⟩

variable {programs} {bodies : List (List Scope)} {s s' : Store} {scopes : List Scope}

section

variable {e a b f : Expr} {op paren : Token} {es : List Expr}

lemma ExprIn.grouping (h : ExprIn programs scopes (.grouping e)) : ExprIn programs scopes e := by
  obtain ⟨p, hp, fn, hv⟩ := h
  exact ⟨p, hp, fn, List.subset_of_cons_subset hv⟩

lemma ExprIn.unary (h : ExprIn programs scopes (.unary op e)) : ExprIn programs scopes e := by
  obtain ⟨p, hp, fn, hv⟩ := h
  exact ⟨p, hp, fn, List.subset_of_cons_subset hv⟩

lemma ExprIn.binary (h : ExprIn programs scopes (.binary a op b)) :
    ExprIn programs scopes a ∧ ExprIn programs scopes b := by
  obtain ⟨p, hp, fn, hv⟩ := h
  obtain ⟨ha, hb⟩ := List.append_subset.1 (List.subset_of_cons_subset hv)
  exact ⟨⟨p, hp, fn, ha⟩, p, hp, fn, hb⟩

lemma ExprIn.logical (h : ExprIn programs scopes (.logical a op b)) :
    ExprIn programs scopes a ∧ ExprIn programs scopes b := by
  obtain ⟨p, hp, fn, hv⟩ := h
  obtain ⟨ha, hb⟩ := List.append_subset.1 (List.subset_of_cons_subset hv)
  exact ⟨⟨p, hp, fn, ha⟩, p, hp, fn, hb⟩

lemma ExprIn.assign {site : SiteId} {name : Token}
    (h : ExprIn programs scopes (.assign site name e)) :
    ExprIn programs scopes e := by
  obtain ⟨p, hp, fn, hv⟩ := h
  exact ⟨p, hp, fn, (List.append_subset.1 hv).1⟩

lemma ExprIn.call (h : ExprIn programs scopes (.call f paren es)) :
    ExprIn programs scopes f ∧ ExprsIn programs scopes es := by
  obtain ⟨p, hp, fn, hv⟩ := h
  obtain ⟨hf, ha⟩ := List.append_subset.1 (List.subset_of_cons_subset hv)
  exact ⟨⟨p, hp, fn, hf⟩, p, hp, fn, ha⟩

lemma ExprsIn.cons (h : ExprsIn programs scopes (e :: es)) :
    ExprIn programs scopes e ∧ ExprsIn programs scopes es := by
  obtain ⟨p, hp, fn, hv⟩ := h
  obtain ⟨he, hes⟩ := List.append_subset.1 hv
  exact ⟨⟨p, hp, fn, he⟩, p, hp, fn, hes⟩

end

lemma BranchIn.after {st : Stmt} (h : BranchIn programs scopes st) :
    scopesAfter st scopes = scopes :=
  scopesAfter_eq h.1.1 h.2

lemma BranchIn.exec {env : FrameId} {st : Stmt} (hc : Chain s env scopes)
    (h : BranchIn programs scopes st) :
    ControlFits programs bodies s env scopes scopes (.exec st) := by
  have he : ControlFits programs bodies s env scopes (scopesAfter st scopes) (.exec st) :=
    .exec hc h.1
  rwa [h.after] at he

section

variable {e c : Expr} {st t : Stmt} {b : List Stmt} {x keyword : Token}

lemma StmtIn.expression (h : StmtIn programs scopes (.expression e)) :
    ExprIn programs scopes e := by
  obtain ⟨-, p, hp, fn, hv⟩ := h
  exact ⟨p, hp, fn, List.subset_of_cons_subset hv⟩

lemma StmtIn.print (h : StmtIn programs scopes (.print e)) : ExprIn programs scopes e := by
  obtain ⟨-, p, hp, fn, hv⟩ := h
  exact ⟨p, hp, fn, List.subset_of_cons_subset hv⟩

lemma StmtIn.var (h : StmtIn programs scopes (.var x (some e))) :
    ExprIn programs (enter x false scopes) e := by
  obtain ⟨-, p, hp, fn, hv⟩ := h
  exact ⟨p, hp, fn, List.subset_of_cons_subset hv⟩

lemma StmtIn.ret (h : StmtIn programs scopes (.ret keyword (some e))) :
    ExprIn programs scopes e := by
  obtain ⟨-, p, hp, fn, hv⟩ := h
  exact ⟨p, hp, fn, List.subset_of_cons_subset hv⟩

lemma StmtIn.block (h : StmtIn programs scopes (.block b)) : StmtsIn programs ([] :: scopes) b := by
  obtain ⟨hpl, p, hp, fn, hv⟩ := h
  exact ⟨hpl, p, hp, fn, List.subset_of_cons_subset hv⟩

lemma StmtIn.function {params : List Token} (h : StmtIn programs scopes (.function x params b)) :
    StmtsIn programs (paramScopes params (declared x scopes)) b := by
  obtain ⟨hpl, p, hp, _, hv⟩ := h
  exact ⟨hpl, p, hp, true, List.subset_of_cons_subset hv⟩

lemma StmtIn.ifThen (h : StmtIn programs scopes (.ifThen c st)) :
    ExprIn programs scopes c ∧ BranchIn programs scopes st := by
  obtain ⟨⟨hpl, hd⟩, p, hp, fn, hv⟩ := h
  obtain ⟨hc, hs⟩ := List.append_subset.1 (List.subset_of_cons_subset hv)
  exact ⟨⟨p, hp, fn, hc⟩, ⟨hpl, p, hp, fn, hs⟩, hd⟩

lemma StmtIn.loop (h : StmtIn programs scopes (.loop c st)) :
    ExprIn programs scopes c ∧ BranchIn programs scopes st := by
  obtain ⟨⟨hpl, hd⟩, p, hp, fn, hv⟩ := h
  obtain ⟨hc, hs⟩ := List.append_subset.1 (List.subset_of_cons_subset hv)
  exact ⟨⟨p, hp, fn, hc⟩, ⟨hpl, p, hp, fn, hs⟩, hd⟩

lemma StmtIn.ifElse (h : StmtIn programs scopes (.ifElse c st t)) :
    ExprIn programs scopes c ∧ BranchIn programs scopes st ∧ BranchIn programs scopes t := by
  obtain ⟨⟨⟨hpl, hd⟩, hpl', hd'⟩, p, hp, fn, hv⟩ := h
  obtain ⟨hcs, ht⟩ := List.append_subset.1 (List.subset_of_cons_subset hv)
  obtain ⟨hc, hs⟩ := List.append_subset.1 hcs
  rw [scopesAfter_eq hpl hd] at ht
  exact ⟨⟨p, hp, fn, hc⟩, ⟨⟨hpl, p, hp, fn, hs⟩, hd⟩, ⟨hpl', p, hp, fn, ht⟩, hd'⟩

lemma StmtsIn.cons (h : StmtsIn programs scopes (st :: b)) :
    StmtIn programs scopes st ∧ StmtsIn programs (scopesAfter st scopes) b := by
  obtain ⟨⟨hpl, hpl'⟩, p, hp, fn, hv⟩ := h
  obtain ⟨hs, hb⟩ := List.append_subset.1 hv
  exact ⟨⟨hpl, p, hp, fn, hs⟩, hpl', p, hp, fn, hb⟩

end

lemma StmtsIn.mono {more : List (List Stmt)} (hm : programs ⊆ more) {b : List Stmt}
    (h : StmtsIn programs scopes b) : StmtsIn more scopes b := by
  obtain ⟨hpl, p, hp, hv⟩ := h
  exact ⟨hpl, p, hm hp, hv⟩

lemma ValueFits.mono {more : List (List Stmt)} (hm : programs ⊆ more) {v : Value}
    (h : ValueFits programs bodies s v) : ValueFits more bodies s v := by
  cases h with
  | data hd => exact .data hd
  | function hi hc hb => exact .function hi hc (hb.mono hm)

lemma WorldFits.mono {more : List (List Stmt)} (hm : programs ⊆ more) {w : World}
    (h : WorldFits programs bodies w) : WorldFits more bodies w :=
  ⟨h.globals, h.functions, fun hv => (h.values hv).mono hm⟩

section

variable (extra : List (List Scope)) (hs : s.Extends s')

include hs

lemma ValueFits.extend {v : Value} (h : ValueFits programs bodies s v) :
    ValueFits programs (bodies ++ extra) s' v := by
  cases h with
  | data hd => exact .data hd
  | function hi hc hb =>
    obtain ⟨hlt, _⟩ := List.getElem?_eq_some_iff.1 hi
    refine .function ?_ (hc.extend hs) hb
    rw [List.getElem?_append_left hlt, hi]

lemma ItemFits.extend {here after : List Scope} {p : Pending}
    (h : ItemFits programs bodies s scopes here after p) :
    ItemFits programs (bodies ++ extra) s' scopes here after p := by
  cases h with
  | argument paren hf hvs he =>
    exact .argument paren (hf.extend extra hs) (fun v hv => (hvs v hv).extend extra hs) he
  | unary op => exact .unary op
  | binaryLeft op he => exact .binaryLeft op he
  | binaryRight v op => exact .binaryRight v op
  | logicalLeft op he => exact .logicalLeft op he
  | assign site name => exact .assign site name
  | callee paren he => exact .callee paren he
  | print l => exact .print l
  | bind x => exact .bind x
  | branch hs ht => exact .branch hs ht
  | loopTest hc hs => exact .loopTest hc hs
  | loopBody hc hs => exact .loopBody hc hs
  | giveBack => exact .giveBack
  | sequence hb => exact .sequence hb

lemma PendingFits.extend {traces : List (List Scope)} {ps : List Pending}
    (h : PendingFits programs bodies s scopes traces ps) :
    PendingFits programs (bodies ++ extra) s' scopes traces ps := by
  induction h with
  | nil => exact .nil
  | item hi _ ih => exact .item (hi.extend extra hs) ih
  | leaveBlock hc _ ih => exact .leaveBlock (hc.extend hs) ih
  | leaveCall hc _ ih => exact .leaveCall (hc.extend hs) ih

omit extra in
lemma ValueFits.grow {v : Value} (h : ValueFits programs bodies s v) :
    ValueFits programs bodies s' v := by
  have he := h.extend [] hs
  rwa [List.append_nil] at he

omit extra in
lemma PendingFits.grow {traces : List (List Scope)} {ps : List Pending}
    (h : PendingFits programs bodies s scopes traces ps) :
    PendingFits programs bodies s' scopes traces ps := by
  have he := h.extend [] hs
  rwa [List.append_nil] at he

end

end Lox.Frames
