import TradeGraph.CommandLine.Run

/-!
# The program

Runs the command line with access to the disk. Files and standard output get the results, standard
error the log.
-/

namespace TradeGraph.CommandLine

/-- How the program is called. -/
def usage : String :=
  "usage: tradegraph [document] [" ++
    "] [".intercalate
      ["-h", "--preset ID", "--list-presets", "--name NAME", "--out FILE", "--set FILE",
        "--strict-stop-loss", "--warmup-bars N", "--max-retries N", "--retry-delay-ms N",
        "--copyright TEXT", "-v"] ++ "]"

/-- Why an access to the disk failed. -/
def pathError : IO.Error → PathError
  | .alreadyExists .. => .taken
  | .inappropriateType .. => .isFolder
  | .illegalOperation .. => .isFolder
  | .invalidArgument .. => .badCharacter
  | _ => .missing

/-- Do something with the disk. -/
def attempt {α : Type} (act : IO α) : IO (Except PathError α) := do
  try
    let a ← act
    return .ok a
  catch e => return .error (pathError e)

/-- Access to the disk. Folders are made as they are needed. -/
def disk : Files IO where
  read path := attempt (IO.FS.readFile path)
  write path text := attempt do
    let folder := Folder.parent path
    unless folder.isEmpty do
      IO.FS.createDirAll folder
    IO.FS.writeFile path text

def logLine (r : LogRecord) : String :=
  "[" ++ r.level.name ++ "] [" ++ r.channel.name ++ "] " ++ r.message

/-- Print what a run gives; the result is the code that the program ends with. -/
def report (o : Outcome) : IO UInt32 := do
  for r in o.log.visible o.verbose do
    IO.eprintln (logLine r)
  IO.print o.stdout
  match o.ending with
  | .code n => return n.toUInt32
  | .help =>
    IO.println usage
    return 0
  | .usage e =>
    IO.eprintln (usage ++ "\ntradegraph: error: " ++ e.message)
    return 2
  | .fault f =>
    IO.eprintln ("tradegraph: " ++ f.words)
    return 1
  | .path e =>
    IO.eprintln ("tradegraph: " ++ e.words)
    return 1

end TradeGraph.CommandLine

open TradeGraph CommandLine in
/-- Run the command line. -/
def main (argv : List String) : IO UInt32 := do
  let o ← run disk argv
  report o
