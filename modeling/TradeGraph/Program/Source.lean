import TradeGraph.Program.Library

/-!
# Source text

The sections of the emitted file, always in the same order: header, includes, inputs, globals, the
three event handlers, helper functions.
-/

namespace TradeGraph.Source

open Mql Mql.Platform
open Mql.Expr (var)

/-! ## Sections -/

/-- A section with a banner, ending in an empty line. -/
def titled (title : String) (ls : List String) : String :=
  Text.lines (banner title ++ ls ++ [""])

/-- An event handler: a banner, a signature and an indented body. -/
def handler (title signature : String) (body : List String) : String :=
  titled title (signature :: braces body)

/-- The name of the file, who made it, and its properties. -/
def header (ctx : Context) : String :=
  Text.lines
    [bar, titleLine (ctx.projectName ++ ".mq5"),
      titleLine "Generated by QuantDSL strategy compiler", bar,
      "#property copyright " ++ literal ctx.options.copyright,
      "#property version   \"1.00\"",
      "#property description " ++ literal ctx.settings.comment, ""]

/-- The trade library and its object. -/
def includes : String :=
  Text.lines ["#include <Trade\\Trade.mqh>", "", "CTrade trade;", ""]

def timeframeType : String := "ENUM_AS_TIMEFRAMES"

def timeframeMember (last : Bool) (name : String) : String :=
  Text.padRight 21 ("TF_" ++ name ++ " = PERIOD_" ++ name ++ (if last then "" else ",")) ++
    "// " ++ name

/-- The declaration of the timeframe type. -/
def timeframeEnum : List String :=
  let count := sweptTimeframes.length
  ("enum " ++ timeframeType) :: "\x7b" ::
    indent 1 (sweptTimeframes.zipIdx.map fun (name, i) => timeframeMember (i + 1 == count) name) ++
    ["\x7d;", ""]

/-- Declarations in order, with a line for each change of group. -/
def groupedInputs : Option String → List Input → List String
  | _, [] => []
  | current, i :: is =>
    let group := i.groupName
    let change :=
      if current == some group then []
      else (if current.isNone then [] else [""]) ++ ["input group \"" ++ group ++ "\""]
    change ++ i.declaration :: groupedInputs (some group) is

/-- The inputs, after the timeframe type if one of them has it. -/
def inputs (is : List Input) : String :=
  Text.lines ((if is.any fun i => i.type == timeframeType then timeframeEnum else []) ++
    banner "Input Parameters" ++ groupedInputs none is ++ [""])

def globals (ls : List String) : String :=
  titled "Global Variables" ("int _pipFactor = 1; // 10 on 3/5-digit symbols" :: ls)

/-- What every program does at the start. -/
def startup : List Stmt :=
  [.run (.send "trade" "SetExpertMagicNumber" [Library.magic]),
    .run (.send "trade" "SetDeviationInPoints" ["InpMaxSlippage"]),
    .assign "_pipFactor"
      (.choice (.group (.any [digits.eq 3, digits.eq 5])) 10 1)]

/-- The handler that runs at the start. -/
def onInit (ls : List String) : String :=
  handler "Expert initialization function" "int OnInit()"
    (Stmt.block startup ++ ls ++ Stmt.block [.blank, .act (.retWith "INIT_SUCCEEDED")])

/-- The handler that runs at the end. -/
def onDeinit (ls : List String) : String :=
  handler "Expert deinitialization function" "void OnDeinit(const int reason)" ls

/-- Nothing is done on a chart with fewer bars than this. -/
def warmupGuard (bars : Int) : Stmt :=
  .guard ((Expr.call "Bars" [symbol, chart]).lt bars) .ret

/-- What every program does on a tick before its own lines. -/
def tickStart (bars : Int) : List Stmt :=
  [.declare "datetime" "currentBarTime" (timeOf chart 0),
    .act (.declareStatic "datetime" "lastBarTime" 0),
    .declare "bool" "isNewBar" (.group ((var "currentBarTime").ne "lastBarTime")),
    .assign "lastBarTime" "currentBarTime",
    .blank,
    .heading "Not enough history yet",
    warmupGuard bars,
    .blank,
    .declare "int" "positionsCount" (.call "CountPositions" []),
    .blank]

/-- The handler that runs on every tick. -/
def onTick (ls : List String) (bars : Int) : String :=
  handler "Expert tick function" "void OnTick()" (Stmt.block (tickStart bars) ++ ls)

/-- The helper functions, those of every program first. -/
def helpers (blocks : List String) : String :=
  titled "Helper functions" ["\n\n".intercalate (Library.standard ++ blocks)]

end TradeGraph.Source

namespace TradeGraph.Program

/-- How many bars the program waits for. -/
def warmup (p : Program) (ctx : Context) : Int :=
  max ctx.options.warmupBars p.bars

/-- The file of a program. -/
def source (p : Program) (ctx : Context) : String :=
  Text.lines
    [Source.header ctx, Source.includes, Source.inputs p.inputs,
      Source.globals (p.globals.map Mql.Global.text), Source.onInit p.initLines,
      Source.onDeinit p.deinitLines, Source.onTick p.tickLines (p.warmup ctx),
      Source.helpers (p.helpers.map fun h => h.body.written)]

end TradeGraph.Program
