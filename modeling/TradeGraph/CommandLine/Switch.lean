/-!
# Switches of the command line

- `Switch`: the switches, some with a value
- `Switch.spellings`: how they are written
- `Switch.find?`, `Switch.candidates`, `Switch.short?`: a switch by its spelling, by the start of
  it, by its letter
-/

namespace TradeGraph.CommandLine

inductive Switch where
  | help
  | preset
  | listPresets
  | name
  | out
  | set
  | strictStopLoss
  | warmupBars
  | maxRetries
  | retryDelay
  | copyright
  | verbose
deriving DecidableEq, Repr

namespace Switch

/-- All spellings, in the order in which they are offered. -/
def spellings : List (String × Switch) :=
  [("-h", .help), ("--help", .help), ("--preset", .preset), ("--list-presets", .listPresets),
    ("--name", .name), ("--out", .out), ("--set", .set), ("--strict-stop-loss", .strictStopLoss),
    ("--warmup-bars", .warmupBars), ("--max-retries", .maxRetries),
    ("--retry-delay-ms", .retryDelay), ("--copyright", .copyright), ("--verbose", .verbose),
    ("-v", .verbose)]

/-- The switch of a spelling. -/
def find? (spelling : String) : Option Switch :=
  (spellings.find? fun (t, _) => t == spelling).map Prod.snd

/-- The spellings that start like this. -/
def candidates (start : String) : List (String × Switch) :=
  spellings.filter fun (t, _) => start.toList.isPrefixOf t.toList

/-- The switch of a letter. -/
def short? (c : Char) : Option Switch :=
  find? (String.ofList ['-', c])

/-- All spellings of a switch, as messages name it. -/
def title (s : Switch) : String :=
  "/".intercalate ((spellings.filter fun (_, t) => t == s).map Prod.fst)

def takesValue : Switch → Bool
  | .help | .listPresets | .strictStopLoss | .verbose => false
  | _ => true

end Switch

end TradeGraph.CommandLine
