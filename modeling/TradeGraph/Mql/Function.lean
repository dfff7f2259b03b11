import TradeGraph.Mql.Stmt

/-!
# Functions and globals of the emitted language

- `bar`, `banner`: the comment lines that set off the parts of a file
- `Param`, `Function`: function definitions
- `Global`: declarations at file level
-/

namespace TradeGraph.Mql

/-! ## Banners -/

def bar : String :=
  "//+" ++ String.ofList (List.replicate 66 '-') ++ "+"

/-- A title line between two bars. -/
def titleLine (title : String) : String :=
  "//| " ++ Text.padRight 65 title ++ "|"

/-- A bar, with a title line and a second bar unless the title is empty. -/
def banner (title : String) : List String :=
  if title.isEmpty then [bar] else [bar, titleLine title, bar]

/-! ## Functions -/

structure Param where
  type : String
  name : Ident
  byReference : Bool := false
  value : Option Expr := none

def Param.text (p : Param) : String :=
  p.type ++ " " ++ (if p.byReference then "&" else "") ++ p.name.text ++
    (match p.value with
      | none => ""
      | some v => " = " ++ v.text)

/-- A function definition. `title` sets a banner above it, `spaced` an empty line above that. -/
structure Function where
  title : Option String := none
  spaced : Bool := false
  result : String
  name : Ident
  params : List Param := []
  body : List Stmt

namespace Function

/-- Result type, name and parameters. -/
def signature (f : Function) : String :=
  f.result ++ " " ++ f.name.text ++ "(" ++ ", ".intercalate (f.params.map Param.text) ++ ")"

def lines (f : Function) : List String :=
  (if f.spaced then [""] else []) ++
    (match f.title with
      | none => []
      | some t => banner t) ++
    f.signature :: braces (Stmt.block f.body)

/-- The definition as written. -/
def text (f : Function) : String :=
  Text.lines f.lines

def oneLine (f : Function) : String :=
  f.signature ++ " \x7b " ++ " ".intercalate (Stmt.block f.body) ++ " \x7d"

end Function

/-! ## Globals -/

/-- A declaration at file level. -/
inductive Global where
  | scalar (type : String) (x : Ident) (value : Option Expr) (remark : Option String)
  | array (type : String) (x : Ident) (remark : Option String)
  | record (name : Ident) (fields : List (String × Ident))

namespace Global

/-- A comment at the end of a line. -/
def remarkText : Option String → String
  | none => ""
  | some t => " // " ++ t

/-- The declaration as written. -/
def text : Global → String
  | .scalar type x value remark =>
    (Action.declare type x value 0).text ++ ";" ++ remarkText remark
  | .array type x remark => (Action.declareArray type x).text ++ ";" ++ remarkText remark
  | .record name fields =>
    "struct " ++ name.text ++ " \x7b " ++
      String.join (fields.map fun (type, x) => type ++ " " ++ x.text ++ "; ") ++ "\x7d;"

/-- The name that the declaration introduces. -/
def name : Global → Ident
  | .scalar _ x _ _ => x
  | .array _ x _ => x
  | .record x _ => x

end Global

end TradeGraph.Mql
