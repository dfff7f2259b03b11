import TradeGraph.Program.Indicators

/-!
# Volatility handles

Stops, targets and management rules that measure distances by the average true range keep a handle
and a buffer of their own.
-/

namespace TradeGraph

open Mql Mql.Platform
open Mql.Expr (var)

/-- The names of a handle and its buffer. -/
structure AtrNames where
  handle : Ident
  buffer : Ident

/-- Create a handle and a buffer. `what` names their user in the message of a failure. -/
def AtrNames.setup (names : AtrNames) (timeframe period : Expr) (what : String) : Program where
  globals :=
    [.scalar "int" names.handle (some invalidHandle) none, .array "double" names.buffer none]
  init :=
    [.assign names.handle (.call "iATR" [symbol, timeframe, period]),
      .guardAll ((var names.handle).eq invalidHandle)
        [.run (.call "Print" [.quote ("Failed to create ATR handle for " ++ what)]),
          .retWith "INIT_FAILED"],
      .run (.call "ArraySetAsSeries" [names.buffer, true])]
  deinit :=
    [.guard ((var names.handle).ne invalidHandle)
      (.run (.call "IndicatorRelease" [names.handle]))]

/-- Set a flag when the newest value could be read. -/
def AtrNames.refresh (names : AtrNames) (flag : Ident) : Stmt :=
  .declare "bool" flag (.group ((copyBuffer names.handle 0 1 names.buffer).ge 1))

/-- The newest value in points, times a factor. -/
def AtrNames.points (names : AtrNames) (factor : Expr) : Expr :=
  .group (.index names.buffer 0 / point) * factor

/-- The handle that the stop loss keeps, and that the take profit shares. -/
def stopAtr : AtrNames := ⟨"atrHandle", "atrBuffer"⟩

/-- The handle that the take profit keeps when the stop loss has none. -/
def targetAtr : AtrNames := ⟨"tpAtrHandle", "tpAtrBuffer"⟩

end TradeGraph
