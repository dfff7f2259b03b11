import TradeGraph.CommandLine.Arguments
import TradeGraph.CommandLine.Folder
import TradeGraph.Compile
import TradeGraph.Preset
import TradeGraph.SetFile

/-!
# Running a command line

What a command line does: what is printed and logged, how the run ends, and which files are read and
written on the way. The access to files is a parameter.
-/

namespace TradeGraph.CommandLine

/-! ## Jobs -/

/-- What is to be done. -/
inductive Job where
  | listPresets
  | preset (p : Preset)
  | document (path : String)

/-- A value that is given and not empty. -/
def given (value : Option String) : Option String :=
  value.filter fun s => !s.isEmpty

def Arguments.job (a : Arguments) : Except UsageError Job :=
  if a.listPresets then .ok .listPresets
  else
    match given a.preset, given a.document with
    | some id, _ =>
      match Preset.find id with
      | .ok p => .ok (.preset p)
      | .error _ => .error (.unknownPreset id (presets.map Preset.id))
    | none, some path => .ok (.document path)
    | none, none => .error .nothingToCompile

/-! ## Paths -/

def lastPart (path : String) : String :=
  String.ofList (path.toList.reverse.takeWhile (· != '/')).reverse

/-- A file name without its extension. Dots at the start belong to the name. -/
def withoutExtension (name : String) : String :=
  let backwards := name.toList.reverse
  match backwards.dropWhile (· != '.') with
  | _ :: stem => if stem.all (· == '.') then name else String.ofList stem.reverse
  | [] => name

/-- The project that a path names. -/
def projectOf (path : String) : String :=
  withoutExtension (lastPart path)

/-! ## Outcomes -/

/-- How a run ends. -/
inductive Ending where
  | code (n : Nat)
  | help
  | usage (e : UsageError)
  | fault (f : Fault)
  | path (e : PathError)

/-- The effect of a run, files apart. -/
structure Outcome where
  stdout : String := ""
  log : Log := []
  verbose : Bool := false
  ending : Ending := .code 0

/-- What is logged when a file is written. -/
def writeLog (path text : String) : Log :=
  Log.info .commandLine ("Wrote " ++ path ++ " (" ++ toString text.utf8ByteSize ++ " bytes)")

section Effects

variable {m : Type → Type} [Monad m]

/-- Write a file and go on, unless it cannot be written. -/
def Outcome.write (o : Outcome) (files : Files m) (path text : String)
    (next : Outcome → m Outcome) :
    m Outcome := do
  match ← files.write path text with
  | .ok () => next { o with log := o.log ++ writeLog path text }
  | .error e => pure { o with ending := .path e }

/-- Write the set file if a path for it is given. -/
def Outcome.writeSet (o : Outcome) (files : Files m) (path : Option String) (inputs : List Input) :
    m Outcome :=
  match path with
  | none => pure o
  | some path =>
    match setText inputs with
    | .error f => pure { o with ending := .fault f }
    | .ok text => { o with log := o.log ++ setFileLog inputs }.write files path text pure

/-- Compile a document and write what was asked for. A fault of the document is logged. -/
def compileDocument (files : Files m) (a : Arguments) (document : Json) (project : String) :
    m Outcome :=
  let c := compile document project a.options
  match c.result with
  | .error (.document node fault) =>
    pure
      { log := c.log ++ Log.error .commandLine
          ("Compile failed: " ++ Fault.documentMessage node fault)
        verbose := a.verbose
        ending := .code 1 }
  | .error f => pure { log := c.log, verbose := a.verbose, ending := .fault f }
  | .ok compiled =>
    let start : Outcome := { log := c.log, verbose := a.verbose }
    let finish (o : Outcome) : m Outcome :=
      o.writeSet files (given a.set) compiled.program.inputs
    match given a.out with
    | some path => start.write files path compiled.source finish
    | none => finish { start with stdout := compiled.source }

/-- Do a job. -/
def perform (files : Files m) (a : Arguments) : Job → m Outcome
  | .listPresets =>
    pure { stdout := String.join (presets.map fun p => p.listing ++ "\n"), verbose := a.verbose }
  | .preset p => compileDocument files a (.obj p.document) ((given a.name).getD p.name)
  | .document path => do
    match ← files.read path with
    | .error e => pure { verbose := a.verbose, ending := .path e }
    | .ok text =>
      match Json.parse text with
      | .error e => pure { verbose := a.verbose, ending := .fault (.unreadable e) }
      | .ok document => compileDocument files a document ((given a.name).getD (projectOf path))

/-- Run a command line. -/
def run (files : Files m) (argv : List String) : m Outcome :=
  match Arguments.parse argv with
  | .error .help => pure { ending := .help }
  | .error (.usage e) => pure { ending := .usage e }
  | .ok a =>
    match a.job with
    | .error e => pure { verbose := a.verbose, ending := .usage e }
    | .ok job => perform files a job

end Effects

end TradeGraph.CommandLine
