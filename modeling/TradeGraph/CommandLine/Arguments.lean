import TradeGraph.CommandLine.Switch
import TradeGraph.Program.Context

/-!
# Arguments of the command line

An argument is a switch, the value of the switch before it, or the path of the document. A long
switch may be cut short as long as it stays unique, and may have its value after an equals sign.
After `--` there are no switches.
-/

namespace TradeGraph.CommandLine

/-! ## Errors -/

/-- What is wrong with a command line. -/
inductive UsageError where
  | ambiguous (argument : String) (candidates : List String)
  | valueMissing (s : Switch)
  | notInteger (s : Switch) (value : String)
  | valueIgnored (s : Switch) (value : String)
  | unrecognized (arguments : List String)
  | unknownPreset (id : String) (known : List String)
  | nothingToCompile
deriving DecidableEq, Repr

namespace UsageError

/-- A complaint about a switch. -/
def about (s : Switch) (complaint : String) : String :=
  "argument " ++ s.title ++ ": " ++ complaint

/-- The error in words. -/
def message : UsageError → String
  | .ambiguous a candidates =>
    "ambiguous option: " ++ a ++ " could match " ++ ", ".intercalate candidates
  | .valueMissing s => about s "expected one argument"
  | .notInteger s v => about s ("invalid int value: " ++ quoted v)
  | .valueIgnored s v => about s ("ignored explicit argument " ++ quoted v)
  | .unrecognized as => "unrecognized arguments: " ++ " ".intercalate as
  | .unknownPreset id known => quoted (Fault.unknownPresetMessage id known)
  | .nothingToCompile => "either a document path or --preset is required"

end UsageError

/-- Why reading a command line ended early. -/
inductive Stop where
  | help
  | usage (e : UsageError)
deriving DecidableEq, Repr

/-! ## Words -/

/-- What one argument is. A cluster is a switch of one letter with more letters behind it. -/
inductive Word where
  | plain
  | separator
  | switch (s : Switch) (value : Option String)
  | cluster (s : Switch) (rest : List Char)
  | unknown
deriving DecidableEq, Repr

/-- Is this a negative number, after its sign? A line feed at the end does not count. -/
def isNumeral (cs : List Char) : Bool :=
  let isDigit (c : Char) : Bool := (Text.digit? c).isSome
  let cs := if cs.getLast? == some '\n' then cs.dropLast else cs
  match cs.dropWhile isDigit with
  | [] => !cs.isEmpty
  | '.' :: rest => !rest.isEmpty && rest.all isDigit
  | _ => false

/-- An argument with a dash that no switch matches. Negative numbers and text with a blank are meant
as they stand. -/
def unmatched (cs : List Char) : Word :=
  if isNumeral (cs.drop 1) || cs.contains ' ' then .plain else .unknown

/-- A text up to the first equals sign, and what follows it. -/
def cutAtEquals (cs : List Char) : String × Option String :=
  let head := String.ofList (cs.takeWhile (· != '='))
  match cs.dropWhile (· != '=') with
  | [] => (head, none)
  | _ :: value => (head, some (String.ofList value))

/-- A switch that may be cut short. -/
def abbreviated (argument head : String) (value : Option String) : Except UsageError Word :=
  match Switch.candidates head with
  | [] => .ok (unmatched argument.toList)
  | [(_, s)] => .ok (.switch s value)
  | several => .error (.ambiguous argument (several.map Prod.fst))

/-- A switch of one letter, perhaps with more letters behind it. An equals sign before them changes
nothing. -/
def lettered (argument : String) (c : Char) (cs : List Char) : Word :=
  match Switch.short? c, cs with
  | none, _ => unmatched argument.toList
  | some s, ['='] => .switch s (some "")
  | some s, '=' :: letters => .cluster s letters
  | some s, letters => .cluster s letters

/-- What an argument before `--` is. -/
def classify (argument : String) : Except UsageError Word :=
  match argument.toList with
  | '-' :: '-' :: cs =>
    let (head, value) := cutAtEquals ('-' :: '-' :: cs)
    match Switch.find? head with
    | some s => .ok (.switch s value)
    | none => abbreviated argument head value
  | '-' :: c :: cs => .ok (lettered argument c cs)
  | _ => .ok .plain

/-- What each argument is. All of them are looked at before any takes effect, so an ambiguous one is
reported first. -/
def words : List String → Except UsageError (List (String × Word))
  | [] => .ok []
  | a :: as =>
    if a == "--" then .ok ((a, .separator) :: as.map fun b => (b, .plain))
    else do
      let w ← classify a
      let ws ← words as
      .ok ((a, w) :: ws)

/-- The switches of a cluster. Letters that name no switch would be a value of the one before. -/
def clusterSwitches : Switch → List Char → Except UsageError (List Switch)
  | s, [] => .ok [s]
  | s, c :: cs =>
    match Switch.short? c with
    | none => .error (.valueIgnored s (String.ofList (c :: cs)))
    | some t => (clusterSwitches t cs).map (s :: ·)

/-! ## Arguments -/

/-- What a command line asks for. -/
structure Arguments where
  document : Option String := none
  preset : Option String := none
  listPresets : Bool := false
  name : Option String := none
  out : Option String := none
  set : Option String := none
  options : Options := {}
  verbose : Bool := false

namespace Arguments

def integer (s : Switch) (value : String) : Except Stop Int :=
  match Cast.integer (.str value) with
  | .ok n => .ok n
  | .error _ => .error (.usage (.notInteger s value))

/-- Take the value of a switch. -/
def take (a : Arguments) (s : Switch) (value : String) : Except Stop Arguments :=
  match s with
  | .preset => .ok { a with preset := some value }
  | .name => .ok { a with name := some value }
  | .out => .ok { a with out := some value }
  | .set => .ok { a with set := some value }
  | .copyright => .ok { a with options := { a.options with copyright := value } }
  | .warmupBars => do
    let n ← integer s value
    .ok { a with options := { a.options with warmupBars := n } }
  | .maxRetries => do
    let n ← integer s value
    .ok { a with options := { a.options with maxOrderRetries := n } }
  | .retryDelay => do
    let n ← integer s value
    .ok { a with options := { a.options with retryDelayMs := n } }
  | .help | .listPresets | .strictStopLoss | .verbose =>
    .error (.usage (.valueIgnored s value))

/-- Turn on a switch without a value. -/
def turnOn (a : Arguments) : Switch → Except Stop Arguments
  | .help => .error .help
  | .listPresets => .ok { a with listPresets := true }
  | .strictStopLoss => .ok { a with options := { a.options with strictStopLoss := true } }
  | .verbose => .ok { a with verbose := true }
  | _ => .ok a

end Arguments

/-! ## Reading -/

/-- The place of the document: free, filled by the argument just before, or filled earlier. -/
inductive Place where
  | free
  | fresh
  | filled
deriving DecidableEq, Repr

/-- A command line read up to some argument. `waiting` is a switch that still needs its value. -/
structure Reading where
  arguments : Arguments := {}
  place : Place := .free
  waiting : Option Switch := none
  extras : List String := []

namespace Reading

/-- The argument before is no longer the document. -/
def settled (r : Reading) : Reading :=
  { r with place := if r.place = .free then .free else .filled }

/-- An argument that has no use. -/
def extra (r : Reading) (argument : String) : Reading :=
  { r with extras := r.extras ++ [argument] }

/-- An argument that is no switch: the document, if there is none yet. -/
def plain (r : Reading) (argument : String) : Reading :=
  match r.place with
  | .free => { r with arguments := { r.arguments with document := some argument }, place := .fresh }
  | _ => r.settled.extra argument

/-- A separator belongs to the document that stands next to it. -/
def separator (r : Reading) : Reading :=
  match r.place with
  | .free => r
  | .fresh => r.settled
  | .filled => r.extra "--"

/-- Turn on switches in order. -/
def turnOn (r : Reading) (switches : List Switch) : Except Stop Reading := do
  let a ← switches.foldlM Arguments.turnOn r.arguments
  .ok { r with arguments := a }

/-- Read an argument when no switch needs a value. -/
def next (r : Reading) (argument : String) : Word → Except Stop Reading
  | .plain => .ok (r.plain argument)
  | .separator => .ok r.separator
  | .unknown => .ok (r.settled.extra argument)
  | .switch s (some value) => do
    let a ← r.arguments.take s value
    .ok { r.settled with arguments := a }
  | .switch s none =>
    if s.takesValue then .ok { r.settled with waiting := some s } else r.settled.turnOn [s]
  | .cluster s rest =>
    match clusterSwitches s rest with
    | .error e => .error (.usage e)
    | .ok switches => r.settled.turnOn switches

/-- Read an argument. A switch that needs a value takes it, if it is no switch. -/
def step (r : Reading) (item : String × Word) : Except Stop Reading :=
  match r.waiting with
  | none => r.next item.1 item.2
  | some s =>
    match item.2 with
    | .plain => do
      let a ← r.arguments.take s item.1
      .ok { r with arguments := a, waiting := none }
    | _ => .error (.usage (.valueMissing s))

/-- The arguments, if nothing is missing and nothing left over. -/
def finish (r : Reading) : Except Stop Arguments :=
  match r.waiting with
  | some s => .error (.usage (.valueMissing s))
  | none =>
    if r.extras.isEmpty then .ok r.arguments else .error (.usage (.unrecognized r.extras))

end Reading

/-- Read a command line. -/
def Arguments.parse (argv : List String) : Except Stop Arguments := do
  let ws ← (words argv).mapError Stop.usage
  let r ← ws.foldlM Reading.step {}
  r.finish

end TradeGraph.CommandLine
