import Lox.Command

/-!
The program: the commands with the files, streams and clock of the machine it runs on.
-/

namespace Lox.Main

def reason (e : IO.Error) : String :=
  match e with
  | .noFileOrDirectory .. => "No such file or directory (os error 2)"
  | .permissionDenied .. => "Permission denied (os error 13)"
  | .inappropriateType _ code _ =>
    if code = 21 then "Is a directory (os error 21)" else toString e
  | .illegalOperation code _ =>
    if code = 21 then "Is a directory (os error 21)" else toString e
  | e => toString e

def fileBytes (path : String) : IO (Except Command.FileError (List UInt8)) := do
  match ← (IO.FS.Handle.mk path .read).toBaseIO with
  | .error e => pure (.error (.opening (reason e)))
  | .ok handle =>
    match ← handle.readBinToEnd.toBaseIO with
    | .error e => pure (.error (.reading (reason e)))
    | .ok bytes => pure (.ok bytes.toList)

partial def readLine (input : IO.FS.Stream) (line : ByteArray) : IO ByteArray := do
  let next ← input.read 1
  if next.isEmpty then pure line
  else if next.data == #[10] then pure (line.append next)
  else readLine input (line.append next)

def makeLog : IO (Option String) := do
  match ← (IO.FS.writeFile "rox.log" "").toBaseIO with
  | .ok () => pure none
  | .error e => pure (some (reason e))

def host : IO (Command.Host IO) := do
  let input ← IO.getStdin
  let output ← IO.getStdout
  let errors ← IO.getStderr
  let started ← IO.monoNanosNow
  pure {
    fileBytes := fileBytes
    readLine := do return (← readLine input .empty).toList
    out := fun text => do
      output.putStr text
      output.flush
    err := fun text => errors.putStr text
    makeLog := makeLog
    clock := do return Float.ofNat ((← IO.monoNanosNow) - started) / 1e9 }

def turns : Nat := 1000000000000000000

end Lox.Main

def main (args : List String) : IO UInt32 := do
  let code ← Lox.Command.command (← Lox.Main.host) Lox.Main.turns args
  pure code.toUInt32
