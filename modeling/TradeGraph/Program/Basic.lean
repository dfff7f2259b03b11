import TradeGraph.Mql.Function
import TradeGraph.Node.Vocabulary

/-!
# Programs

The program under construction, as the parts of the file to be written. Programs form a monoid:
every generator gives the part that it adds, and parts are joined in order. A helper block is taken
only once.

- `Scalar`, `Input`: the inputs of the emitted program
- `Helper`: helper functions under a key
- `Program`: all parts; `Program.append`, `Program.joinHelper`
- `Program.hasInput`, `Program.countInputs`, `Program.mentions`: what later parts look for
-/

namespace TradeGraph

open Mql

/-! ## Inputs -/

/-- The value of an input. -/
inductive Scalar where
  | int (n : Int)
  | float (x : Float)
  | bool (b : Bool)
  | text (s : String)

namespace Scalar

/-- The value as a literal; text stands for itself, as the name of a constant. -/
def written : Scalar → String
  | .int n => toString n
  | .float x => Double.plainText x
  | .bool b => if b then "true" else "false"
  | .text s => s

/-- The value as text. -/
def shown : Scalar → String
  | .int n => toString n
  | .float x => Double.text x
  | .bool b => if b then "True" else "False"
  | .text s => s

end Scalar

/-- The group of inputs that name none. -/
def defaultGroup : String := "Strategy Parameters"

/-- An input of the emitted program. The tester hides one that is not optimizable. -/
structure Input where
  name : Ident
  type : String
  value : Scalar
  comment : String := ""
  optimizable : Bool := true
  group : Option String := none

namespace Input

/-- The group that the input is listed in. -/
def groupName (i : Input) : String :=
  match i.group with
  | none => defaultGroup
  | some g => if g.isEmpty then defaultGroup else g

/-- The value as the declaration gives it: text of type `string` stands between quotes. -/
def initialText (i : Input) : String :=
  if i.type == "string" then Mql.literal i.value.shown else i.value.written

def declaration (i : Input) : String :=
  (if i.optimizable then "input " else "sinput ") ++ i.type ++ " " ++ i.name.text ++ " = " ++
    i.initialText ++ "; // " ++ i.comment

end Input

/-! ## Helpers -/

/-- The code of a helper block: functions, or text as it is. -/
inductive HelperBody where
  | functions (fs : List Function)
  | text (s : String)

/-- The code as written, functions apart by an empty line. -/
def HelperBody.written : HelperBody → String
  | .functions fs => "\n\n".intercalate (fs.map Function.text)
  | .text s => s

/-- A helper block, known by its key. -/
structure Helper where
  key : String
  body : HelperBody

/-- A helper block of one function, known by its name. -/
def Helper.ofFunction (f : Function) : Helper where
  key := f.name.text
  body := .functions [f]

/-! ## Programs -/

/-- The parts of a program.

`beforeLoop` and `rules` belong to the loop over the open positions; `gates` are conditions for
opening a position. `sidedStop` says that the two sides have stops of their own, and `bars` how many
bars must exist before the program acts. -/
structure Program where
  inputs : List Input := []
  globals : List Global := []
  init : List Stmt := []
  deinit : List Stmt := []
  tick : List Stmt := []
  helpers : List Helper := []
  beforeLoop : List Stmt := []
  rules : List Stmt := []
  gates : List Expr := []
  sidedStop : Bool := false
  stopMethod : Option StopMethod := none
  targetMethod : Option TargetMethod := none
  bars : Nat := 0

namespace Program

/-- Is there a block with the key? -/
def hasKey (hs : List Helper) (key : String) : Bool :=
  hs.any fun h => h.key == key

/-- Helper blocks with one more, unless its key is known. -/
def joinHelper (hs : List Helper) (h : Helper) : List Helper :=
  if hasKey hs h.key then hs else hs ++ [h]

def hasHelper (p : Program) (key : String) : Bool :=
  hasKey p.helpers key

/-- Two programs one after the other. Of two methods the later counts, of two numbers of bars the
larger. -/
def append (p q : Program) : Program where
  inputs := p.inputs ++ q.inputs
  globals := p.globals ++ q.globals
  init := p.init ++ q.init
  deinit := p.deinit ++ q.deinit
  tick := p.tick ++ q.tick
  helpers := q.helpers.foldl joinHelper p.helpers
  beforeLoop := p.beforeLoop ++ q.beforeLoop
  rules := p.rules ++ q.rules
  gates := p.gates ++ q.gates
  sidedStop := p.sidedStop || q.sidedStop
  stopMethod := q.stopMethod <|> p.stopMethod
  targetMethod := q.targetMethod <|> p.targetMethod
  bars := max p.bars q.bars

instance : Append Program := ⟨append⟩

def hasInput (p : Program) (name : String) : Bool :=
  p.inputs.any fun i => i.name.text == name

/-- How many inputs have a name that starts with the text? -/
def countInputs (p : Program) (start : String) : Nat :=
  p.inputs.countP fun i => start.toList.isPrefixOf i.name.text.toList

/-- Does a declaration at file level contain the text? -/
def mentions (p : Program) (fragment : String) : Bool :=
  p.globals.any fun g => Text.contains fragment.toList g.text.toList

/-- The lines that run at the start. -/
def initLines (p : Program) : List String := Stmt.block p.init

/-- The lines that run at the end. -/
def deinitLines (p : Program) : List String := Stmt.block p.deinit

def tickLines (p : Program) : List String := Stmt.block p.tick

end Program

end TradeGraph
