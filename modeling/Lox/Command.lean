import Lox.Session
import Lox.Syntax.Text
import Lox.Syntax.Json
import Lox.Text.Quoted
import Lox.Text.Utf8

/-!
The command line. What a command does is told by the operations of the host that it uses, whatever
the host is: a real one, or a model of one.
-/

namespace Lox.Command

inductive Action where
  | run (path : String)
  | repl
  | tokenize (path : String)
  | parse (path : String) (json : Bool)
deriving DecidableEq, Repr

structure Options where
  log : Bool
  maxCallDepth : Nat
deriving DecidableEq, Repr

inductive Request where
  | help
  | perform (action : Action) (options : Options)
deriving DecidableEq, Repr

def number? (s : String) : Option Nat :=
  let digits := match s.toList with
    | '+' :: rest => rest
    | cs => cs
  let n := Binary64.ofDigits digits
  if digits ≠ [] ∧ digits.all Scan.isDigit ∧ n < 0x10000000000000000 then some n else none

structure Partial where
  options : Options
  json : Bool
  words : List String

def Partial.request? (p : Partial) : Option Request :=
  let perform (action : Action) : Option Request := some (.perform action p.options)
  match p.words, p.json with
  | [], false | ["repl"], false => perform .repl
  | ["run", path], false => if path.isEmpty then none else perform (.run path)
  | ["tokenize", path], false => if path.isEmpty then none else perform (.tokenize path)
  | ["parse", path], json => if path.isEmpty then none else perform (.parse path json)
  | _, _ => none

def Partial.withDepth (n : Nat) (p : Partial) : Partial :=
  { p with options := { p.options with maxCallDepth := n } }

def valueOf? (option arg : String) : Option String :=
  if option.toList.isPrefixOf arg.toList then some (.ofList (arg.toList.drop option.length))
  else none

def looksLikeOption (arg : String) : Bool := arg.startsWith "-" && arg != "-"

def requestFrom (p : Partial) : List String → Option Request
  | [] => p.request?
  | arg :: rest =>
    if arg = "--" then ({ p with words := p.words ++ rest } : Partial).request?
    else if arg ∈ ["--help", "-h", "--version", "-V"] then some .help
    else if arg = "--log" then
      requestFrom { p with options := { p.options with log := true } } rest
    else if arg = "--json" then
      if p.words.head? = some "parse" then requestFrom { p with json := true } rest else none
    else if arg = "--max-call-depth" then
      match rest with
      | value :: rest => (number? value).bind fun n => requestFrom (p.withDepth n) rest
      | [] => none
    else
      match valueOf? "--max-call-depth=" arg with
      | some value => (number? value).bind fun n => requestFrom (p.withDepth n) rest
      | none =>
        if looksLikeOption arg then none
        else requestFrom { p with words := p.words ++ [arg] } rest

def request? (args : List String) : Option Request :=
  requestFrom ⟨⟨false, Session.defaultCallDepth⟩, false, []⟩ args

inductive FileError where
  | opening (why : String)
  | reading (why : String)

structure Host (m : Type → Type) where
  fileBytes : String → m (Except FileError (List UInt8))
  readLine : m (List UInt8)
  out : String → m Unit
  err : String → m Unit
  makeLog : m (Option String)
  clock : m Float

section

variable {m : Type → Type} [Monad m] (host : Host m)

def giveUp (what why : String) : m Nat := do
  host.err ("Error: " ++ what ++ "\n\nCaused by:\n    " ++ why ++ "\n")
  pure 1

def withSource (path : String) (use : String → m Nat) : m Nat := do
  match ← host.fileBytes path with
  | .error (.opening why) => giveUp host ("Failed to open file " ++ Text.quoted path) why
  | .error (.reading why) => giveUp host ("Failed to read file " ++ Text.quoted path) why
  | .ok bytes =>
    match Text.Utf8.decode bytes with
    | .error fault => giveUp host (Text.quoted path ++ " is not valid UTF-8") fault.message
    | .ok source => use source

def turn : Nat := 4096

/-- A time, in seconds, in which no function of the host can be called twice. The readings of one
turn lie so far apart, so none of them is ahead of the next turn. -/
def instant : Float := 1e-9

def drive (setting : Setting) : Nat → Machine → m Machine
  | 0, machine => pure machine
  | n + 1, ⟨control, pending, world⟩ => do
    let now ← host.clock
    let ⟨control, pending, world⟩ :=
      (Machine.mk control pending { world with clock := .steady now instant }).run setting turn
    host.out world.out.text
    let machine : Machine := ⟨control, pending, { world with out := world.out.clear }⟩
    if machine.isOver then pure machine else drive setting n machine

def showReports (s : Session) : m Session := do
  host.err s.diagnostics.text
  pure { s with diagnostics := s.diagnostics.clear }

def runChunk (turns : Nat) (source : String) (s : Session) : m Session := do
  let (program, s) := s.prepare source
  let s ← showReports host s
  match program with
  | none => pure s
  | some program => do
    let machine ← drive host s.setting turns (Machine.load program s.world)
    showReports host (s.finish machine).2

def newSession (options : Options) : Session :=
  .start options.maxCallDepth .stopped .unlimited .unlimited

def converse (turns : Nat) : Nat → Session → m Nat
  | 0, _ => pure 0
  | n + 1, s => do
    host.out "> "
    let line ← host.readLine
    if line.isEmpty then do
      host.out "\n"
      pure 0
    else
      match Text.Utf8.decode line with
      | .error _ => giveUp host "Failed to read input" "stream did not contain valid UTF-8"
      | .ok source => do
        let s ← runChunk host turns source s
        converse turns n s.resetError

def tokenize (source : String) : m Nat := do
  let items := scan source
  for item in items do
    match item with
    | .token t => host.out (t.display ++ "\n")
    | .error e => host.err (e.diagnostic.text ++ "\n")
  pure (if (items.filterMap Item.error?).isEmpty then 0 else 65)

def showAll (ds : List Diagnostic) : m Unit := host.err (String.join (ds.map (·.text ++ "\n")))

def showTree (json : Bool) (source : String) : m Nat := do
  let items := scan source
  let lexical := items.filterMap Item.error?
  let tokens := items.filterMap Item.token?
  showAll host (lexical.map (·.diagnostic))
  match (Reading.ofTokens 0 tokens).program? with
  | .error errors => do
    showAll host (errors.map (·.diagnostic (Grammar.endLine tokens)))
    pure 65
  | .ok program => do
    host.out (if json then Stmt.json program ++ "\n"
      else String.join (program.map (·.text ++ "\n")))
    pure (if lexical.isEmpty then 0 else 65)

def perform (turns : Nat) (options : Options) : Action → m Nat
  | .run path => withSource host path fun source => do
    let s ← runChunk host turns source (newSession options)
    pure s.exitCode
  | .repl => converse host turns turns (newSession options)
  | .tokenize path => withSource host path (tokenize host)
  | .parse path json => withSource host path (showTree host json)

def usage : String :=
  "Usage: [--log] [--max-call-depth N] [run FILE | repl | tokenize FILE | parse [--json] FILE]\n"

def command (turns : Nat) (args : List String) : m Nat := do
  match request? args with
  | none => do
    host.err usage
    pure 2
  | some .help => do
    host.out usage
    pure 0
  | some (.perform action options) =>
    if options.log then
      match ← host.makeLog with
      | some why => giveUp host "Failed to create rox.log" why
      | none => perform host turns options action
    else perform host turns options action

end

end Lox.Command
