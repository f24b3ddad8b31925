import Lox.Eval.Value

/-!
The frames that hold a program's variables. Each has at most one parent, which is older than it, so
a walk outward ends. Frames are told by their numbers and are never thrown away: a function may
need the frame it was declared in long after its block has ended.
-/

namespace Lox

structure Frame where
  bindings : List (String × Value)
  parent : Option FrameId

namespace Frame

def find? (f : Frame) (name : String) : Option Value := f.bindings.lookup name

def put (name : String) (v : Value) : List (String × Value) → List (String × Value)
  | [] => [(name, v)]
  | (key, old) :: rest => if name == key then (key, v) :: rest else (key, old) :: put name v rest

def define (name : String) (v : Value) (f : Frame) : Frame :=
  { f with bindings := put name v f.bindings }

theorem lookup_of_ne {key bound : String} (h : key ≠ bound) (v : Value)
    (rest : List (String × Value)) : ((bound, v) :: rest).lookup key = rest.lookup key := by
  rw [List.lookup_cons, beq_false_of_ne h]

theorem lookup_put (name key : String) (v : Value) (bindings : List (String × Value)) :
    (put name v bindings).lookup key = if key = name then some v else bindings.lookup key := by
  induction bindings with
  | nil =>
    by_cases h : key = name
    · simp [put, h]
    · simp [put, lookup_of_ne h, h]
  | cons binding rest ih =>
    obtain ⟨bound, old⟩ := binding
    by_cases hb : name = bound
    · subst hb
      by_cases h : key = name
      · simp [put, h]
      · simp [put, lookup_of_ne h, h]
    · by_cases h : key = bound
      · subst h
        simp [put, hb, Ne.symm hb]
      · simp [put, lookup_of_ne h, hb, ih]

theorem find?_define (name key : String) (v : Value) (f : Frame) :
    (f.define name v).find? key = if key = name then some v else f.find? key :=
  lookup_put name key v f.bindings

end Frame

structure Store where
  frames : Array Frame

namespace Store

def empty : Store := ⟨#[]⟩

def globals : FrameId := 0

def initial : Store := ⟨#[⟨[], none⟩]⟩

def push (s : Store) (parent : Option FrameId) : Store × FrameId :=
  let f := s.frames.size
  (⟨s.frames.push ⟨[], parent⟩⟩, f)

/-- The parent of a frame. A link to a frame that is not older counts as none. -/
def parent? (s : Store) (f : FrameId) : Option FrameId :=
  (s.frames[f]?.bind (·.parent)).filter (· < f)

theorem parent?_lt {s : Store} {f p : FrameId} (h : s.parent? f = some p) : p < f := by
  simp only [parent?, Option.filter_eq_some_iff, decide_eq_true_eq] at h
  exact h.2

def ancestor? (s : Store) (f : FrameId) : Nat → Option FrameId
  | 0 => some f
  | distance + 1 => (s.parent? f).bind (s.ancestor? · distance)

def local? (s : Store) (f : FrameId) (name : String) : Option Value :=
  s.frames[f]?.bind (·.find? name)

def owner? (s : Store) (f : FrameId) (name : String) : Option FrameId :=
  if (s.local? f name).isSome then some f
  else match h : s.parent? f with
    | some p =>
      have := parent?_lt h
      s.owner? p name
    | none => none
termination_by f

def define (s : Store) (f : FrameId) (name : String) (v : Value) : Store :=
  ⟨s.frames.modify f (·.define name v)⟩

theorem local?_define (s : Store) (f g : FrameId) (name key : String) (v : Value)
    (hf : f < s.frames.size) :
    (s.define f name v).local? g key =
      if g = f ∧ key = name then some v else s.local? g key := by
  by_cases hg : g = f
  · subst hg
    simp [define, local?, Array.getElem?_modify, Array.getElem?_eq_getElem hf, Frame.find?_define]
  · simp [define, local?, Array.getElem?_modify, Ne.symm hg, hg]

theorem parent?_define (s : Store) (f g : FrameId) (name : String) (v : Value) :
    (s.define f name v).parent? g = s.parent? g := by
  by_cases hg : f = g
  · subst hg
    cases h : s.frames[f]? <;> simp [define, parent?, Array.getElem?_modify, h, Frame.define]
  · simp [define, parent?, Array.getElem?_modify, hg]

theorem ancestor?_add (s : Store) (f : FrameId) (a b : Nat) :
    s.ancestor? f (a + b) = (s.ancestor? f a).bind (s.ancestor? · b) := by
  induction a generalizing f with
  | zero => simp [ancestor?]
  | succ a ih =>
    rw [Nat.succ_add_eq_add_succ, Nat.add_succ]
    simp only [ancestor?, Option.bind_assoc]
    exact congrArg _ (funext ih)

def get? (s : Store) (f : FrameId) (name : String) : Option Value :=
  (s.owner? f name).bind (s.local? · name)

def assign? (s : Store) (f : FrameId) (name : String) (v : Value) : Option Store :=
  (s.owner? f name).map (s.define · name v)

def holder? (s : Store) (f : FrameId) (distance : Nat) (name : String) : Option FrameId :=
  (s.ancestor? f distance).filter fun a => (s.local? a name).isSome

def getAt? (s : Store) (f : FrameId) (distance : Nat) (name : String) : Option Value :=
  (s.ancestor? f distance).bind (s.local? · name)

def assignAt? (s : Store) (f : FrameId) (distance : Nat) (name : String) (v : Value) :
    Option Store :=
  (s.holder? f distance name).map (s.define · name v)

end Store

end Lox
