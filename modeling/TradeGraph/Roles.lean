import TradeGraph.Graph

/-!
# Roles

Live nodes sorted by what they do in the program. Inside a role the order of the document is kept:
it fixes the numbers in the names of the emitted variables.
-/

namespace TradeGraph

/-- What a node does in the program. -/
inductive Role where
  | timing
  | spread
  | indicator
  | priceAction
  | buy
  | sell
  | stopLoss
  | takeProfit
  | closeCondition
  | timeExit
  | management
deriving DecidableEq, Repr

def Payload.role? : Payload → Option Role
  | .timing _ _ => some .timing
  | .filter _ => some .spread
  | .indicator _ _ => some .indicator
  | .priceAction _ _ => some .priceAction
  | .trading (.order .buy _) => some .buy
  | .trading (.order .sell _) => some .sell
  | .trading (.stopLoss _) => some .stopLoss
  | .trading (.takeProfit _) => some .takeProfit
  | .trading (.closeCondition _) => some .closeCondition
  | .trading (.timeExit _) => some .timeExit
  | .management _ => some .management
  | .entry _ _ => none

/-- The nodes of a role, in order. -/
def withRole (r : Role) (nodes : List Node) : List Node :=
  nodes.filter fun n => n.data.payload.role? == some r

structure Roles where
  timing : List Node
  spread : List Node
  indicators : List Node
  priceAction : List Node
  buy : List Node
  sell : List Node
  stopLoss : List Node
  takeProfit : List Node
  closeCondition : List Node
  timeExit : List Node
  management : List Node

namespace Roles

/-- Sort nodes by role. -/
def ofNodes (nodes : List Node) : Roles where
  timing := withRole .timing nodes
  spread := withRole .spread nodes
  indicators := withRole .indicator nodes
  priceAction := withRole .priceAction nodes
  buy := withRole .buy nodes
  sell := withRole .sell nodes
  stopLoss := withRole .stopLoss nodes
  takeProfit := withRole .takeProfit nodes
  closeCondition := withRole .closeCondition nodes
  timeExit := withRole .timeExit nodes
  management := withRole .management nodes

/-- Sort nodes by role; an entry strategy that was not expanded is a fault. -/
def sort (nodes : List Node) : Except Fault Roles :=
  match nodes.find? fun n => n.data.payload.role?.isNone with
  | some n => .error (.unexpanded n.id)
  | none => .ok (ofNodes nodes)

/-- Is there an order? -/
def hasEntry (r : Roles) : Bool :=
  !r.buy.isEmpty || !r.sell.isEmpty

end Roles

end TradeGraph
