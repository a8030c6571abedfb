import ClassScript.Command.Basic
import Std.Time.DateTime.Timestamp

/-!
The program: commands on the files of the machine, with the standard streams.
-/

namespace ClassScript.Main

/-- The fault that an error of the machine stands for. -/
def faultOf : IO.Error → FileFault
  | .noFileOrDirectory .. => .missing
  | .inappropriateType .. => .isDirectory
  | e => .refused (toString e)

/-- Runs an action; an error becomes a fault. -/
def attempted {α : Type} (x : IO α) : IO (Except FileFault α) :=
  try return .ok (← x) catch e => return .error (faultOf e)

/-- The files of the machine. The store lasts as long as the program. -/
def machineFiles : IO (Files IO) := do
  let store ← IO.mkRef ([] : TextTable)
  let read (path : Text) : IO (Except FileFault Text) :=
    attempted do return Text.ofBytes (← IO.FS.readBinFile path.shown).toList
  return {
    workingDir := (← IO.currentDir).toString
    read
    write := fun path text => attempted do
      IO.FS.writeBinFile path.shown ⟨text.bytes.toArray⟩
    isThere := fun path => do
      match ← read path with
      | .error .missing | .error .notDirectory => return false
      | _ => return true
    canStore := fun path => do
      match ← attempted (IO.FS.Handle.mk path.shown .append) with
      | .ok _ => return true
      | .error _ => return false
    store := store.get
    setStore := store.set }

/-- The time at which a run begins. Arrays are numbered and lie nowhere, so their addresses are made
of the numbers. -/
def machineSurroundings : IO Surroundings := do
  let now := (← Std.Time.Timestamp.now).toMillisecondsSinceUnixEpoch.val
  return ⟨Float.ofInt now, fun id => 0xC000000000 + 32 * id⟩

/-- Writes what a command has to say. -/
def present (s : Screen) : IO Unit := do
  let out ← IO.getStdout
  out.write ⟨s.out.toArray⟩
  out.flush
  (← IO.getStderr).write ⟨s.errors.toArray⟩

/-- Takes lines from the standard input until the session ends. -/
partial def converse (shell : Shell IO) : IO Exit := do
  let line ← (← IO.getStdin).getLine
  if line.isEmpty then
    let (screen, shell) ← shell.feedAll []
    present screen
    return shell.ended.getD .success
  else
    let line := if line.endsWith "\n" then (line.dropEnd 1).toString else line
    let (screen, shell) ← shell.feed line
    present screen
    match shell.ended with
    | some exit => return exit
    | none => converse shell

end ClassScript.Main

open ClassScript in
/-- Does what the command line asks for. -/
def main (args : List String) : IO UInt32 := do
  match ← Command.start (← Main.machineFiles) Main.machineSurroundings args with
  | .finished o =>
    Main.present o.screen
    return o.exit.code.toUInt32
  | .interactive banner shell =>
    Main.present ⟨banner, ""⟩
    return (← Main.converse shell).code.toUInt32
