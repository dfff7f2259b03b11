import TradeGraph.Fault

/-!
# Presets

Ready-made strategy documents: one entry strategy each, traded in the London session.
-/

namespace TradeGraph

/-- A ready-made strategy. The id is also the type of its entry. -/
structure Preset where
  id : String
  name : String
  description : String
  magicNumber : Int
  params : Entries

namespace Preset

def place (x y : Int) : Json :=
  .obj [("x", .int x), ("y", .int y)]

def londonSession : Json :=
  .obj
    [("id", .str "timing1"), ("type", .str "trading-session"), ("position", place 300 0),
      ("data",
        .obj
          [("label", .str "Trading Sessions"), ("category", .str "timing"),
            ("timingType", .str "trading-session"), ("session", .str "LONDON"),
            ("tradingDays",
              .obj
                [("monday", .bool true), ("tuesday", .bool true), ("wednesday", .bool true),
                  ("thursday", .bool true), ("friday", .bool true), ("saturday", .bool false),
                  ("sunday", .bool false)])])]

/-- The data of the entry: what all presets share, and the parameters of its own. -/
def data (p : Preset) : Entries :=
  [("label", .str p.name), ("category", .str "entrystrategy"), ("entryType", .str p.id),
    ("direction", .str "BOTH"), ("timeframe", .str "H1"), ("riskPercent", .int 1),
    ("slMethod", .str "ATR"), ("slAtrMultiplier", .float 1.5), ("slAtrPeriod", .int 14),
    ("tpRMultiple", .int 2)] ++ p.params

/-- The document of a preset with the given data of the entry. -/
def documentWith (p : Preset) (data : Entries) : Entries :=
  [("version", .str "1.3"),
    ("nodes",
      .arr
        [londonSession,
          .obj
            [("id", .str "entry1"), ("type", .str (p.id ++ "-entry")),
              ("position", place 300 180), ("data", .obj data)]]),
    ("edges",
      .arr [.obj [("id", .str "e1"), ("source", .str "timing1"), ("target", .str "entry1")]]),
    ("settings",
      .obj
        [("magicNumber", .int p.magicNumber), ("comment", .str p.name), ("maxOpenTrades", .int 1),
          ("allowHedging", .bool false)])]

def document (p : Preset) : Entries :=
  p.documentWith p.data

/-- The document of a preset, with entries of its data changed or added. -/
def tuned (p : Preset) (changes : Entries) : Entries :=
  p.documentWith (changes.foldl (fun es (k, v) => Entries.insert k v es) p.data)

end Preset

def presets : List Preset :=
  [⟨"range-breakout", "Range Breakout",
      "Asian session range breakout traded during the London session. " ++
        "ATR x1.5 stop, 2:1 reward-to-risk.",
      300001,
      [("rangeMethod", .str "ASIAN_SESSION"), ("rangeTimeframe", .str "H1"),
        ("entryMode", .str "ON_CLOSE"), ("bufferPips", .int 2)]⟩,
    ⟨"ema-crossover", "EMA Crossover",
      "Classic trend following. EMA(50)/EMA(200) crossover with 1% risk, ATR x1.5 stop, " ++
        "2R take profit.",
      300002,
      [("fastEma", .int 50), ("slowEma", .int 200), ("appliedPrice", .str "CLOSE")]⟩,
    ⟨"trend-pullback", "Trend Pullback",
      "EMA(200) trend with an RSI pullback entry: buys when RSI dips below 40 in an " ++
        "uptrend, sells above 60 in a downtrend. 1% risk, ATR x1.5 stop.",
      300003,
      [("trendEma", .int 200), ("pullbackRsiPeriod", .int 14), ("rsiPullbackLevel", .int 40),
        ("pullbackMaxDistance", .float 2.0)]⟩,
    ⟨"rsi-reversal", "RSI Reversal",
      "Mean reversion at RSI extremes. Buys when RSI crosses up from 30, sells when " ++
        "RSI crosses down from 70. 1% risk, ATR stop, 2:1 R:R.",
      300004,
      [("rsiPeriod", .int 14), ("oversoldLevel", .int 30), ("overboughtLevel", .int 70)]⟩,
    ⟨"macd-crossover", "MACD Crossover",
      "MACD(12,26,9) signal line crossover. Momentum / trend shift strategy. 1% risk, ATR " ++
        "stop, 2:1 R:R.",
      300005,
      [("macdFast", .int 12), ("macdSlow", .int 26), ("macdSignal", .int 9)]⟩]

namespace Preset

/-- The preset of an id. -/
def find (id : String) : Except Fault Preset :=
  match presets.find? fun p => p.id == id with
  | some p => .ok p
  | none => .error (.unknownPreset id (presets.map Preset.id))

/-- The line of a preset in the list of all. -/
def listing (p : Preset) : String :=
  Text.padRight 16 p.id ++ " " ++ p.name ++ ": " ++ p.description

end Preset

end TradeGraph
