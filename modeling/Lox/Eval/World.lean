import Std.Data.HashMap
import Lox.Eval.Clock
import Lox.Eval.Operation
import Lox.Eval.Store
import Lox.Eval.Sink

/-!
What a running program acts on: the store with the current frame, the calls in progress, the
output. A variable site with a distance reaches the frame at that distance and no other; a site
without one reaches the global frame.
-/

namespace Lox

structure Setting where
  natives : Array Native
  distances : Std.HashMap SiteId Nat
  maxCallDepth : Nat

structure World where
  store : Store
  env : FrameId
  callDepth : Nat
  callLine : Nat
  functions : Nat
  out : Sink
  clock : Clock

namespace World

def initial (clock : Clock) (out : Sink) : World :=
  ⟨.initial, Store.globals, 0, 0, 0, out, clock⟩

def tick (w : World) : World := { w with clock := w.clock.tick }

def lookUp? (setting : Setting) (w : World) (site : SiteId) (name : String) : Option Value :=
  match setting.distances[site]? with
  | some distance => w.store.getAt? w.env distance name
  | none => w.store.get? Store.globals name

def target? (setting : Setting) (w : World) (site : SiteId) (name : String) : Option FrameId :=
  match setting.distances[site]? with
  | some distance => w.store.holder? w.env distance name
  | none => w.store.owner? Store.globals name

def define (f : FrameId) (name : String) (v : Value) : World → World
  | ⟨store, env, callDepth, callLine, functions, out, clock⟩ =>
    ⟨store.define f name v, env, callDepth, callLine, functions, out, clock⟩

def bind (name : String) (v : Value) (w : World) : World := w.define w.env name v

def makeFunction (declaration : Function) : World → Value × World
  | ⟨store, env, callDepth, callLine, functions, out, clock⟩ =>
    (.function functions declaration Store.globals,
      ⟨store, env, callDepth, callLine, functions + 1, out, clock⟩)

def declare (declaration : Function) : World → World
  | ⟨store, env, callDepth, callLine, functions, out, clock⟩ =>
    ⟨store.define env declaration.name.lexeme (.function functions declaration env), env,
      callDepth, callLine, functions + 1, out, clock⟩

def enterBlock : World → World
  | ⟨store, env, callDepth, callLine, functions, out, clock⟩ =>
    let (store, f) := store.push (some env)
    ⟨store, f, callDepth, callLine, functions, out, clock⟩

def leaveBlock (outer : FrameId) (w : World) : World := { w with env := outer }

def enterCall (closure : FrameId) (params : List Token) (args : List Value) (line : Nat) :
    World → World
  | ⟨store, _, callDepth, _, functions, out, clock⟩ =>
    let (store, f) := store.push (some closure)
    let store := (params.zip args).foldl (fun s (p, v) => s.define f p.lexeme v) store
    ⟨store, f, callDepth + 1, line, functions, out, clock⟩

def enterNative (line : Nat) (w : World) : World :=
  { w with callDepth := w.callDepth + 1, callLine := line }

def leaveCall (caller : FrameId) (callerLine : Nat) (w : World) : World :=
  { w with env := caller, callDepth := w.callDepth - 1, callLine := callerLine }

def print (v : Value) : World → Bool × World
  | ⟨store, env, callDepth, callLine, functions, out, clock⟩ =>
    let (accepted, out) := out.writeLine v.pieces
    (accepted, ⟨store, env, callDepth, callLine, functions, out, clock⟩)

/-- Why a call is refused, if it is: first for its arguments, then for the calls in progress. -/
def refusal? (setting : Setting) (w : World) (arity : Nat) (args : List Value) :
    Option RuntimeFault :=
  if args.length ≠ arity then some (.wrongArity arity args.length)
  else if setting.maxCallDepth ≤ w.callDepth then some .stackOverflow
  else none

end World

end Lox
