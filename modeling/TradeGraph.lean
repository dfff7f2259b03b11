import TradeGraph.Json.Writer
import TradeGraph.Main
import TradeGraph.Proofs.Fetches
import TradeGraph.Proofs.SetReading
import TradeGraph.Proofs.OptimizerFlags
import TradeGraph.Proofs.Literals
import TradeGraph.Proofs.EdgeLists
import TradeGraph.Proofs.Neighbours
import TradeGraph.Proofs.Reversals
import TradeGraph.Proofs.Normalized
import TradeGraph.Proofs.DocumentFaults
import TradeGraph.Proofs.Sides
import TradeGraph.Proofs.StopMoves
import TradeGraph.Proofs.TradingHours
import TradeGraph.Proofs.EntryGate
import TradeGraph.Proofs.ExpandedIds
import TradeGraph.Proofs.HelperBlocks
import TradeGraph.Proofs.ConfirmedBars
import TradeGraph.Proofs.WarmUp
