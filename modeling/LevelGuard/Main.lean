import LevelGuard.Command.Run

/-!
# The program

The outer layer of the command: it gathers what a run may see, prints what the run
says and writes its report. The names of the files below the working directory are
read from standard input, one on a line, as a listing tool prints them.
-/
namespace LevelGuard.Program

def usage : String :=
  "Usage: apicheck [OPTIONS] [PATH] < NAMES\n\n"
    ++ "Detect unguarded uses of newer Android APIs and missing permissions.\n"
    ++ "NAMES lists the files below the working directory, one on a line.\n"

partial def readLines (input : IO.FS.Stream) (lines : Array String) : IO (Array String) := do
  let line ← input.getLine
  if line.isEmpty then return lines
  else readLines input (lines.push (String.ofList (Text.trimEnd line.toList)))

def readEntry (name : String) : IO (List String × FileContent) := do
  let names := (Text.splitAll '/' name).filter fun s => s ≠ "" && s ≠ "."
  return (names, .ofBytes (← IO.FS.readBinFile name))

def world : IO Command.World := do
  let names ← readLines (← IO.getStdin) #[]
  let entries ← (names.toList.filter fun n => !n.isEmpty).mapM readEntry
  let kits := [← IO.getEnv "ANDROID_HOME", ← IO.getEnv "ANDROID_SDK_ROOT"]
  let plain := (← IO.getEnv "NO_COLOR").isSome
  return {
    files := ⟨entries⟩
    kits := kits.filterMap fun k => k.map Path.mk
    coloured := !plain && (← (← IO.getStdout).isTty) }

def secondsText (ms : Nat) : String :=
  let hundredths := ms / 10 % 100
  let lead := if hundredths < 10 then "0" else ""
  s!"{ms / 1000}." ++ lead ++ toString hundredths

def run (o : Command.Options) : IO UInt32 := do
  let start ← IO.monoMsNow
  match Command.run (← world) o with
  | .error e =>
    IO.eprintln ("Error: " ++ e.message)
    return 1
  | .ok r =>
    if let some (path, text) := r.written then IO.FS.writeFile path.text text
    IO.print (r.text (secondsText ((← IO.monoMsNow) - start)))
    return r.exitCode.toUInt32

end LevelGuard.Program

open LevelGuard in
def main (args : List String) : IO UInt32 := do
  match Command.Options.ofArguments args with
  | .ok o => Program.run o
  | .error .help =>
    IO.print Program.usage
    return 0
  | .error .version =>
    IO.println "apicheck 0.1.0"
    return 0
  | .error .misuse =>
    IO.eprint Program.usage
    return 2
