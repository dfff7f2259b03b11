import TradeGraph.Graph
import TradeGraph.Mql.Ident

/-!
# What generators know

- `Options`: choices of the caller that are no part of the strategy
- `Context`: facts that all generators of one compile share
-/

namespace TradeGraph

/-- Choices of the caller. Retries and delay are those of the emitted order functions. -/
structure Options where
  strictStopLoss : Bool := false
  warmupBars : Int := 100
  maxOrderRetries : Int := 3
  retryDelayMs : Int := 500
  copyright : String := "QuantDSL"

/-- Facts that all generators share. -/
structure Context where
  projectName : String
  settings : Settings := {}
  options : Options := {}
  usesServerTime : Bool := false
  hasTiming : Bool := false

/-- Does the node keep the time of the server? For a node without such a field an extra entry
counts. -/
def Node.usesServerTime (n : Node) : Bool :=
  match n.data.payload with
  | .timing useServerTime _ => useServerTime
  | .priceAction _ (.rangeBreakout p) => p.useServerTime
  | _ => n.data.hasExtra "use_server_time"

/-- The context of a project, given its timing nodes. -/
def Context.build (project : String) (settings : Settings) (options : Options)
    (timing : List Node) : Context where
  projectName := Mql.identifier project
  settings
  options
  usesServerTime := timing.any Node.usesServerTime
  hasTiming := !timing.isEmpty

end TradeGraph
