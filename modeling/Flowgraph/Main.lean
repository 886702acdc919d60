import Flowgraph.Command
import Std.Time.DateTime.Timestamp

/-!
# The program

Reads the arguments and the file, runs the command, and writes what it says. A
run takes its time here: the course of the run is followed step by step, with a
pause for the work of each node.
-/

namespace Flowgraph.Main

/-- The settings of a run given by arguments. -/
structure Settings where
  file : Option String := none
  simulation : Simulation := {}

/-- The settings of a run, or the argument that is not understood. -/
def settings (s : Settings) : List String → Except String Settings
  | [] => .ok s
  | "--work-ms" :: n :: rest =>
    match n.toNat? with
    | some ms => settings { s with simulation.delayMs := ms } rest
    | none => .error n
  | "--fail-node" :: id :: rest =>
    let failNodes := s.simulation.failNodes ++ [id]
    settings { s with simulation.failNodes := failNodes } rest
  | "--log-level" :: _ :: rest => settings s rest
  | argument :: rest =>
    if argument.startsWith "-" ∨ s.file.isSome then .error argument
    else settings { s with file := some argument } rest

/-- The present moment. -/
def now : IO Moment := do
  let time ← Std.Time.Timestamp.now
  let nanos := time.toNanosecondsSinceUnixEpoch.val.toNat
  return (Moment.ofUnix? (nanos / 1000000000) (nanos % 1000000000)).getD .start

/-- A new id of 122 random bits, in the usual grouping. -/
def newId : IO String := do
  let bytes ← IO.getRandomBytes 16
  let versioned := bytes.toList.zipIdx.map fun (b, i) =>
    if i = 6 then b.toNat % 16 + 64
    else if i = 8 then b.toNat % 64 + 128
    else b.toNat
  let groups := versioned.zipIdx.flatMap fun (b, i) =>
    (if i = 4 ∨ i = 6 ∨ i = 8 ∨ i = 10 then ['-'] else []) ++
      [Nat.digitChar (b / 16), Nat.digitChar (b % 16)]
  return String.ofList groups

/-- The content of a file, or why it cannot be read. -/
def content (file : String) : IO (Except String String) := do
  try
    return .ok (← IO.FS.readFile file)
  catch
    | .noFileOrDirectory .. => return .error Command.noSuchFile
    | e => return .error (toString e)

/-- Writes what is printed at the end of a command. -/
def printEnd (output : Output) : IO UInt32 := do
  match output.printed with
  | .nothing => pure ()
  | .text text => IO.print text
  | .value value => IO.println value.pretty
  return output.exit.toUInt32

/-- Writes all that a command says. -/
def print (output : Output) : IO UInt32 := do
  output.messages.forM (IO.eprintln ·)
  printEnd output

/-- Follows the steps of a run as they happen. -/
def follow (delayMs : Nat) (steps : List RunStep) : IO Unit :=
  steps.forM fun
    | .work _ => IO.sleep delayMs.toUInt32
    | .event event => (Command.progressLine? event).forM (IO.eprintln ·)
    | .look _ => pure ()

/-- Runs the graph of a file. -/
def run (file : String) (simulation : Simulation) : IO UInt32 := do
  match Command.prepare file (← content file) with
  | .error output => print output
  | .ok (graph, report) =>
    let id ← newId
    let startedAt ← now
    let begun ← IO.monoMsNow
    let result (stamp : Stamp) :=
      runReport stamp graph report simulation.work .never
    match result ⟨id, startedAt, startedAt, 0⟩ with
    | .error _ => pure ()
    | .ok outcome => follow simulation.delayMs outcome.steps
    let taken := (← IO.monoMsNow) - begun
    let stamp := ⟨id, startedAt, ← now, .ofNat taken⟩
    printEnd (Command.finish report (result stamp))

/-- What is said about arguments that are not understood. -/
def usage (argument : String) : IO UInt32 := do
  IO.eprintln s!"error: unexpected argument '{argument}' found"
  return 2

/-- The time of a node's work that the environment sets. -/
def environmentDelay (simulation : Simulation) : IO Simulation := do
  match (← IO.getEnv "TRELLIS_WORK_MS").bind (·.toNat?) with
  | some ms => return { simulation with delayMs := ms }
  | none => return simulation

end Flowgraph.Main

open Flowgraph in
/-- Runs the command that the arguments name. -/
def main (arguments : List String) : IO UInt32 := do
  match arguments with
  | [] => Main.print { exit := 0, printed := .text Command.greeting }
  | command :: rest =>
    match Main.settings { simulation := ← Main.environmentDelay {} } rest with
    | .error argument => Main.usage argument
    | .ok { file := none, .. } => Main.usage command
    | .ok { file := some file, simulation } =>
      match command with
      | "validate" => Main.print (Command.validate file (← Main.content file))
      | "run" => Main.run file simulation
      | _ => Main.usage command
