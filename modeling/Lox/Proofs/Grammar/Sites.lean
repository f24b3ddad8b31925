import Lox.Proofs.Binding.Uses
import Lox.Proofs.Grammar.Acceptance

/-! What holds of every program that is read: each variable site has a number of its own, from
those that were free, and declarations stand only where a program, a block or a body lists them. -/

namespace Lox

def Stmt.isDeclaration : Stmt → Bool
  | .var _ _ | .function _ _ _ => true
  | _ => false

mutual

def Stmt.Placed : Stmt → Prop
  | .ifThen _ s | .loop _ s => s.Placed ∧ s.isDeclaration = false
  | .ifElse _ s t =>
    (s.Placed ∧ s.isDeclaration = false) ∧ t.Placed ∧ t.isDeclaration = false
  | .block body | .function _ _ body => Stmt.ListPlaced body
  | .expression _ | .print _ | .var _ _ | .ret _ _ => True

def Stmt.ListPlaced : List Stmt → Prop
  | [] => True
  | s :: rest => s.Placed ∧ Stmt.ListPlaced rest

end

lemma Stmt.listPlaced_append {a b : List Stmt} :
    Stmt.ListPlaced (a ++ b) ↔ Stmt.ListPlaced a ∧ Stmt.ListPlaced b := by
  induction a with
  | nil => simp [ListPlaced]
  | cons s a ih => rw [List.cons_append, ListPlaced, ListPlaced, ih, and_assoc]

lemma Binding.scopesAfter_eq {scopes : List Scope} : ∀ {s : Stmt}, s.Placed →
    s.isDeclaration = false →
    scopesAfter s scopes = scopes
  | .ifThen _ _, h, _ | .loop _ _, h, _ => by
    rw [scopesAfter]
    exact scopesAfter_eq h.1 h.2
  | .ifElse _ _ _, h, _ => by
    rw [scopesAfter, scopesAfter_eq h.1.1 h.1.2, scopesAfter_eq h.2.1 h.2.2]
  | .expression _, _, _ | .print _, _, _ | .block _, _, _ | .ret _ _, _, _ => rfl

lemma Expr.listUses_append (a b : List Expr) :
    Expr.listUses (a ++ b) = Expr.listUses a ++ Expr.listUses b := by
  induction a with
  | nil => rfl
  | cons e a ih => rw [List.cons_append, Expr.listUses, ih, Expr.listUses, List.append_assoc]

namespace Grammar

structure Numbered (us : List (SiteId × Token)) (i j : SiteId) : Prop where
  le : i ≤ j
  nodup : (us.map Prod.fst).Nodup
  range : ∀ s ∈ us.map Prod.fst, i ≤ s ∧ s < j

namespace Numbered

variable {us vs : List (SiteId × Token)} {i k j : SiteId}

lemma nil (i : SiteId) : Numbered [] i i :=
  ⟨Nat.le_refl i, List.nodup_nil, by simp⟩

lemma single (i : SiteId) (name : Token) : Numbered [(i, name)] i (i + 1) := by
  refine ⟨Nat.le_succ i, ?_, ?_⟩ <;> simp

lemma append (h : Numbered us i k) (h' : Numbered vs k j) : Numbered (us ++ vs) i j := by
  refine ⟨Nat.le_trans h.le h'.le, ?_, ?_⟩
  · rw [List.map_append, List.nodup_append]
    refine ⟨h.nodup, h'.nodup, fun s hs t ht => Nat.ne_of_lt ?_⟩
    exact Nat.lt_of_lt_of_le (h.range s hs).2 (h'.range t ht).1
  · intro s hs
    rw [List.map_append, List.mem_append] at hs
    rcases hs with hs | hs
    · exact ⟨(h.range s hs).1, Nat.lt_of_lt_of_le (h.range s hs).2 h'.le⟩
    · exact ⟨Nat.le_trans h.le (h'.range s hs).1, (h'.range s hs).2⟩

lemma widen (h : Numbered us k j) (hi : i ≤ k) : Numbered us i j :=
  ⟨Nat.le_trans hi h.le, h.nodup, fun s hs => ⟨Nat.le_trans hi (h.range s hs).1, (h.range s hs).2⟩⟩

lemma perm (h : Numbered us i j) (hp : us.Perm vs) : Numbered vs i j := by
  have hm := hp.map Prod.fst
  exact ⟨h.le, hm.nodup_iff.1 h.nodup, fun s hs => h.range s (hm.mem_iff.2 hs)⟩

end Numbered

def Numbers : ExprRule → Expr → SiteId → SiteId → Prop
  | .joined ls, e, i, j => ls <:+ levels → Numbered e.uses i j
  | .operations l tighter left, e, i, j => l :: tighter <:+ levels →
      ∃ us, e.uses = left.uses ++ us ∧ Numbered us i j
  | .calls callee, e, i, j => ∃ us, e.uses = callee.uses ++ us ∧ Numbered us i j
  | .arguments callee args, e, i, j =>
      ∃ us, e.uses = callee.uses ++ Expr.listUses args ++ us ∧ Numbered us i j
  | .expression, e, i, j | .unary, e, i, j | .primary, e, i, j => Numbered e.uses i j

lemma uses_node {l : Level} {tighter : List Level} (h : l :: tighter <:+ levels)
    (left right : Expr) (op : Token) : (l.node left op right).uses = left.uses ++ right.uses := by
  rcases node_of_mem (h.subset List.mem_cons_self) with hl | hl <;> rw [hl] <;> rfl

theorem numbers_of_reads {r : ExprRule} {e : Expr} {u : List Token} {i j : SiteId} {a : Ahead}
    (h : ReadsExpr r e u i j a) : Numbers r e i j := by
  induction h with
  | operand _ _ ih => exact ih List.suffix_rfl
  | assign _ _ _ iht ihv => exact (Numbered.append ihv (.single _ _)).widen (iht List.suffix_rfl).le
  | tightest _ ih => exact fun _ => ih
  | level _ _ ihf ihe =>
    intro hs
    obtain ⟨us, he, hu⟩ := ihe hs
    rw [he]
    exact (ihf ((List.suffix_cons _ _).trans hs)).append hu
  | noOperator => exact fun _ => ⟨[], (List.append_nil _).symm, .nil _⟩
  | operator _ _ _ ihr ihe =>
    intro hs
    obtain ⟨us, he, hu⟩ := ihe hs
    refine ⟨_, ?_, (ihr ((List.suffix_cons _ _).trans hs)).append hu⟩
    rw [he, uses_node hs, List.append_assoc]
  | sign _ _ ih => exact ih
  | call _ _ ihf ihe =>
    obtain ⟨us, he, hu⟩ := ihe
    rw [Numbers, he]
    exact Numbered.append ihf hu
  | literal => exact .nil _
  | name => exact .single _ _
  | grouping _ _ _ ih => exact ih
  | noCall => exact ⟨[], (List.append_nil _).symm, .nil _⟩
  | callWithout _ _ _ ih =>
    obtain ⟨us, he, hu⟩ := ih
    exact ⟨us, by simpa [Expr.uses, Expr.listUses] using he, hu⟩
  | callWith _ _ ih =>
    obtain ⟨us, he, hu⟩ := ih
    exact ⟨us, by simpa [Expr.listUses] using he, hu⟩
  | argument _ _ _ _ ihe ih =>
    obtain ⟨us, he, hu⟩ := ih
    refine ⟨_, ?_, Numbered.append ihe hu⟩
    rw [he, Expr.listUses_append]
    simp [Expr.listUses]
  | lastArgument _ _ _ _ ihe ih =>
    obtain ⟨us, he, hu⟩ := ih
    refine ⟨_, ?_, Numbered.append ihe hu⟩
    rw [he, Expr.uses, Expr.listUses_append]
    simp [Expr.listUses]

lemma optional_numbered {p : Punct} {e : Option Expr} {u : List Token} {i j : SiteId} {a : Ahead}
    (h : ReadsOptional p e u i j a) : Numbered (Expr.optionUses e) i j := by
  cases h with
  | none => exact .nil _
  | some he => exact numbers_of_reads he

lemma var_numbered {s : Stmt} {u : List Token} {i j : SiteId} {a : Ahead}
    (h : ReadsVar s u i j a) : Numbered s.uses i j ∧ s.Placed := by
  cases h with
  | plain => exact ⟨.nil _, trivial⟩
  | initialized _ _ he _ => exact ⟨numbers_of_reads he, trivial⟩

structure Sound (s : Stmt) (i j : SiteId) : Prop where
  numbered : Numbered s.uses i j
  placed : s.Placed

lemma params_le {n : ℕ} {xs u : List Token} {i j : SiteId} {a : Ahead}
    (h : ReadsParams n xs u i j a) : i ≤ j := by
  induction h with
  | last => exact Nat.le_refl _
  | more _ _ _ _ ih => exact ih

lemma paramList_le {xs u : List Token} {i j : SiteId} {a : Ahead}
    (h : ReadsParamList xs u i j a) : i ≤ j := by
  cases h with
  | none => exact Nat.le_refl _
  | some h => exact params_le h

lemma initializer_sound {s : Option Stmt} {u : List Token} {i j : SiteId} {a : Ahead}
    (h : ReadsInitializer s u i j a) :
    Numbered (Stmt.listUses s.toList) i j ∧ Stmt.ListPlaced s.toList := by
  cases h with
  | none => exact ⟨.nil _, trivial⟩
  | var _ hs =>
    obtain ⟨hn, hp⟩ := var_numbered hs
    exact ⟨by simpa [Stmt.listUses] using hn, hp, trivial⟩
  | expression he _ =>
    have hn : Numbered _ i j := numbers_of_reads he
    exact ⟨by simpa [Stmt.listUses, Stmt.uses] using hn, trivial, trivial⟩

lemma uses_forLoop (initializer : Option Stmt) (condition increment : Option Expr) (body : Stmt) :
    (forLoop initializer condition increment body).uses =
      Stmt.listUses initializer.toList ++ (Expr.optionUses condition ++ (body.uses ++
        Expr.optionUses increment)) := by
  cases initializer <;> cases condition <;> cases increment <;>
    simp [forLoop, Stmt.uses, Stmt.listUses, Expr.optionUses, Expr.uses]

lemma placed_forLoop {initializer : Option Stmt} {condition increment : Option Expr} {body : Stmt}
    (hi : Stmt.ListPlaced initializer.toList) (hb : body.Placed)
    (hd : body.isDeclaration = false) :
    (forLoop initializer condition increment body).Placed ∧
      (forLoop initializer condition increment body).isDeclaration = false := by
  cases initializer <;> cases condition <;> cases increment <;>
    simp_all [forLoop, Stmt.Placed, Stmt.ListPlaced, Stmt.isDeclaration]

mutual

lemma stmt_sound : ∀ {s u i j a}, ReadsStmt s u i j a → Sound s i j ∧ s.isDeclaration = false
  | _, _, _, _, _, .expression he _ => ⟨⟨numbers_of_reads he, trivial⟩, rfl⟩
  | _, _, _, _, _, .rule h => rule_sound h

lemma rule_sound : ∀ {t s u i j a}, ReadsRule t s u i j a → Sound s i j ∧ s.isDeclaration = false
  | _, _, _, _, _, _, .print _ he _ => ⟨⟨numbers_of_reads he, trivial⟩, rfl⟩
  | _, _, _, _, _, _, .ret _ he _ => ⟨⟨optional_numbered he, trivial⟩, rfl⟩
  | _, _, _, _, _, _, .loop _ _ he _ hs =>
    have ⟨⟨hn, hp⟩, hd⟩ := stmt_sound hs
    ⟨⟨Numbered.append (numbers_of_reads he) hn, hp, hd⟩, rfl⟩
  | _, _, _, _, _, _, .ifThen _ _ he _ hs _ =>
    have ⟨⟨hn, hp⟩, hd⟩ := stmt_sound hs
    ⟨⟨Numbered.append (numbers_of_reads he) hn, hp, hd⟩, rfl⟩
  | _, _, _, _, _, _, .ifElse _ _ he _ hs _ ht =>
    have ⟨⟨hn, hp⟩, hd⟩ := stmt_sound hs
    have ⟨⟨hn', hp'⟩, hd'⟩ := stmt_sound ht
    ⟨⟨Numbered.append (Numbered.append (numbers_of_reads he) hn) hn', ⟨hp, hd⟩, hp', hd'⟩, rfl⟩
  | _, _, _, _, _, _, .forLoop _ _ hi hv _ hw _ hb =>
    have ⟨⟨hn, hp⟩, hd⟩ := stmt_sound hb
    have ⟨hin, hip⟩ := initializer_sound hi
    have hparts := hin.append ((optional_numbered hv).append ((optional_numbered hw).append hn))
    have ⟨hp', hd'⟩ := placed_forLoop hip hp hd
    ⟨⟨by
      rw [uses_forLoop]
      exact hparts.perm ((List.perm_append_comm.append_left _).append_left _), hp'⟩, hd'⟩
  | _, _, _, _, _, _, .block _ hb _ =>
    have ⟨hn, hp⟩ := decls_sound hb
    ⟨⟨hn, hp⟩, rfl⟩

lemma function_sound : ∀ {s u i j a}, ReadsFunction s u i j a → Sound s i j
  | _, _, _, _, _, .mk _ _ hp _ _ hb _ =>
    have ⟨hn, hpl⟩ := decls_sound hb
    ⟨hn.widen (paramList_le hp), hpl⟩

lemma decl_sound : ∀ {s u i j a}, ReadsDecl s u i j a → Sound s i j
  | _, _, _, _, _, .function _ hf => function_sound hf
  | _, _, _, _, _, .var _ hv =>
    have ⟨hn, hp⟩ := var_numbered hv
    ⟨hn, hp⟩
  | _, _, _, _, _, .statement hs => (stmt_sound hs).1

lemma decls_sound : ∀ {b u i j a}, ReadsDecls b u i j a →
    Numbered (Stmt.listUses b) i j ∧ Stmt.ListPlaced b
  | _, _, _, _, _, .nil => ⟨.nil _, trivial⟩
  | _, _, _, _, _, .cons hs hb =>
    have hd := decl_sound hs
    have ⟨hn, hp⟩ := decls_sound hb
    ⟨hd.numbered.append hn, hd.placed, hp⟩

end

end Grammar

end Lox
