/-!
# Log records

- `Level`, `Channel`, `Record`: what is logged, by which part, how urgently
- `Log`: records in order
- `Setup`: the levels and handlers in force, and how they are changed
-/

namespace TradeGraph

/-- How urgent a record is. -/
inductive Level where
  | debug
  | info
  | warning
  | error
deriving DecidableEq, Repr

namespace Level

/-- The number of a level; more urgent levels have larger ones. -/
def number : Level → Int
  | .debug => 10
  | .info => 20
  | .warning => 30
  | .error => 40

def name : Level → String
  | .debug => "DEBUG"
  | .info => "INFO"
  | .warning => "WARNING"
  | .error => "ERROR"

end Level

/-- The part that logs a record. -/
inductive Channel where
  | expansion
  | liveness
  | timing
  | indicators
  | priceAction
  | trading
  | entries
  | exits
  | management
  | compiler
  | setFile
  | commandLine
deriving DecidableEq, Repr

/-- The channel under which the records of the whole program are filed. -/
def programChannel : String := "quantdsl_mql5"

def Channel.name : Channel → String
  | .expansion => programChannel ++ ".engine.decomposition"
  | .liveness => programChannel ++ ".engine.reachability"
  | .timing => programChannel ++ ".engine.timing"
  | .indicators => programChannel ++ ".engine.indicators"
  | .priceAction => programChannel ++ ".engine.price_action"
  | .trading => programChannel ++ ".engine.trading"
  | .entries => programChannel ++ ".engine.entry_logic"
  | .exits => programChannel ++ ".engine.exits"
  | .management => programChannel ++ ".engine.trade_management"
  | .compiler => programChannel ++ ".engine.compiler"
  | .setFile => programChannel ++ ".engine.set_file"
  | .commandLine => programChannel ++ ".cli"

structure LogRecord where
  level : Level
  channel : Channel
  message : String
deriving DecidableEq, Repr

/-- Records in the order in which they were logged. -/
abbrev Log := List LogRecord

namespace Log

/-- A record for finding faults. -/
def debug (channel : Channel) (message : String) : Log :=
  [⟨.debug, channel, message⟩]

/-- A record of what was done. -/
def info (channel : Channel) (message : String) : Log :=
  [⟨.info, channel, message⟩]

/-- A record of something that is probably unwanted. -/
def warning (channel : Channel) (message : String) : Log :=
  [⟨.warning, channel, message⟩]

/-- A record of a failure. -/
def error (channel : Channel) (message : String) : Log :=
  [⟨.error, channel, message⟩]

/-- The records that are shown: debugging ones only when asked for. -/
def visible (verbose : Bool) (log : Log) : Log :=
  log.filter fun r => verbose || r.level != .debug

end Log

/-! ## Setup -/

/-- What receives records: nothing, or standard error in the format of the program. -/
inductive Handler where
  | silent
  | standardError
deriving DecidableEq, Repr

/-- The format of a line and of its date. -/
def Handler.format? : Handler → Option (String × String)
  | .silent => none
  | .standardError =>
    some ("[%(asctime)s] [%(levelname)s] [%(name)s] %(message)s", "%Y-%m-%d %H:%M:%S")

/-- Handlers and levels: those of everything, and the level of the program's own channel, zero for
none. -/
structure Setup where
  handlers : List Handler := []
  rootLevel : Int := Level.warning.number
  programLevel : Int := 0
deriving DecidableEq, Repr

namespace Setup

/-- Install the handler of the program unless there is one already. -/
def install (s : Setup) (level : Int) : Setup :=
  if s.handlers.isEmpty then { s with handlers := [.standardError], rootLevel := level } else s

/-- Ask for debugging records, or no longer. -/
def setVerbosity (s : Setup) (verbose : Bool) : Setup :=
  let level := if verbose then Level.debug.number else Level.info.number
  { s with
    programLevel := level
    rootLevel := if verbose ∧ level < s.rootLevel then level else s.rootLevel }

def addHandler (s : Setup) : Setup :=
  { s with handlers := s.handlers ++ [.silent] }

/-- The level in force for the program. -/
def effective (s : Setup) : Int :=
  if s.programLevel != 0 then s.programLevel else s.rootLevel

end Setup

end TradeGraph
