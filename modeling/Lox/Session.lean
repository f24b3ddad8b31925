import Lox.Grammar.Program
import Lox.Binding
import Lox.Eval.Machine

/-!
A session runs one chunk of source after another in one world. A chunk with static errors is
reported and not run. The flags say what has gone wrong so far, and so does the exit code.
-/

namespace Lox

inductive Outcome where
  | completed
  | staticError
  | runtimeError
deriving DecidableEq, Repr

structure Session where
  natives : Array Native
  distances : Std.HashMap SiteId Nat
  maxCallDepth : Nat
  world : World
  diagnostics : Sink
  nextSite : SiteId
  hadError : Bool
  hadRuntimeError : Bool

namespace Session

def defaultCallDepth : Nat := 2048

def defineGlobal (name : String) (v : Value) (s : Session) : Session :=
  { s with world := s.world.define Store.globals name v }

def makeNative (native : Native) (s : Session) : Value × Session :=
  (.native s.natives.size, { s with natives := s.natives.push native })

def defineNative (native : Native) (s : Session) : Session :=
  let (v, s) := s.makeNative native
  s.defineGlobal native.name v

def start (maxCallDepth : Nat) (clock : Clock) (out diagnostics : Sink) : Session :=
  defineNative .clock ⟨#[], ∅, maxCallDepth, .initial clock out, diagnostics, 0, false, false⟩

def setting (s : Session) : Setting := ⟨s.natives, s.distances, s.maxCallDepth⟩

def report (d : Diagnostic) (s : Session) : Session :=
  { s with
    hadError := s.hadError || d.isStatic
    diagnostics := (s.diagnostics.writeLine d.pieces).2 }

def reportAll (ds : List Diagnostic) (s : Session) : Session := ds.foldl (fun s d => s.report d) s

def record (distances : List (SiteId × Nat)) (s : Session) : Session :=
  { s with distances := distances.foldl (fun table (site, d) => table.insert site d) s.distances }

/-- The program that a chunk of source says, if it may be run. Syntax errors are reported after
lexical ones in the same chunk; misuses of variables only in a chunk without either. -/
def prepare (source : String) (s : Session) : Option (List Stmt) × Session :=
  let items := scan source
  let tokens := items.filterMap Item.token?
  let lexical := items.filterMap Item.error?
  let reading := Reading.ofTokens s.nextSite tokens
  let s := s.reportAll (lexical.map (·.diagnostic))
  let s := s.reportAll (reading.errors.map (·.diagnostic (Grammar.endLine tokens)))
  let s := { s with nextSite := reading.nextSite }
  if lexical.isEmpty && reading.errors.isEmpty then
    let binding := Binding.ofProgram reading.statements
    let s := (s.record binding.distances).reportAll (binding.errors.map (·.diagnostic))
    (if binding.errors.isEmpty then some reading.statements else none, s)
  else (none, s)

def finish (m : Machine) (s : Session) : Option Outcome × Session :=
  let s := { s with world := m.world }
  match m.result? with
  | none => (none, s)
  | some (.ok _) => (some .completed, s)
  | some (.error e) =>
    (some .runtimeError, { s with hadRuntimeError := true }.report e.diagnostic)

def run (fuel : Nat) (source : String) (s : Session) : Option Outcome × Session :=
  match s.prepare source with
  | (none, s) => (some .staticError, s)
  | (some program, s) => s.finish ((Machine.load program s.world).run s.setting fuel)

def resetError (s : Session) : Session := { s with hadError := false }

def exitCode (s : Session) : Nat :=
  if s.hadError then 65 else if s.hadRuntimeError then 70 else 0

end Session

end Lox
