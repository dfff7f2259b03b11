import TradeGraph.Field.Schema
import TradeGraph.Node.Vocabulary

/-!
# Timing and filter nodes

Timing nodes say when new positions may be opened, filter nodes under which market conditions.
-/

namespace TradeGraph

/-- The names of the weekdays, numbered from Sunday. -/
def weekdays : List String :=
  ["sunday", "monday", "tuesday", "wednesday", "thursday", "friday", "saturday"]

/-- The numbers of the selected weekdays, in order. Names that are no weekdays count for nothing. -/
def activeDays (days : List (String × Bool)) : List Nat :=
  (List.range 7).filter fun d => days.any fun (name, on) => on && weekdays[d]? == some name

/-- The clock that all timing nodes choose. -/
def clockCodec : Codec Bool where
  schema := [.flag "useServerTime" "use_server_time" false]
  ofRecord := fun (useServerTime, _) => useServerTime
  toRecord useServerTime := (useServerTime, ())

/-- A named session, on chosen days or on weekdays only. -/
structure SessionRule where
  session : Session
  tradeMondayToFriday : Bool
  tradingDays : Option (List (String × Bool))

def SessionRule.codec : Codec SessionRule where
  schema :=
    [.choice "session" "session" Session.london,
      .flag "tradeMondayToFriday" "trade_monday_to_friday" true,
      ⟨"tradingDays", "trading_days", .optional .flags, none⟩]
  ofRecord := fun (session, tradeMondayToFriday, tradingDays, _) =>
    { session, tradeMondayToFriday, tradingDays }
  toRecord x := (x.session, x.tradeMondayToFriday, x.tradingDays, ())

/-- Chosen days and slots of the day. -/
structure CustomRule where
  days : List (String × Bool)
  timeSlots : List TimeSlot

/-- Monday to Friday. -/
def workingDays : List (String × Bool) :=
  weekdays.map fun day => (day, day != "saturday" && day != "sunday")

/-- The fields of a rule with chosen times. -/
def CustomRule.codec : Codec CustomRule where
  schema :=
    [⟨"days", "days", .flags, workingDays⟩, ⟨"timeSlots", "time_slots", .list .slot, []⟩]
  ofRecord := fun (days, timeSlots, _) => { days, timeSlots }
  toRecord x := (x.days, x.timeSlots, ())

/-- When new positions may be opened. -/
inductive TimingRule where
  | always
  | session (rule : SessionRule)
  | custom (rule : CustomRule)

/-- The largest spread at which new positions may be opened, in pips. -/
def spreadCodec : Codec Float where
  schema := [.number "maxSpreadPips" "max_spread_pips" [.atLeast 0.0] 30.0]
  ofRecord := fun (maxSpreadPips, _) => maxSpreadPips
  toRecord maxSpreadPips := (maxSpreadPips, ())

end TradeGraph
