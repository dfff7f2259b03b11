import TradeGraph.Double.Shortest
import TradeGraph.Mql.Ident

/-!
# Expressions of the emitted language

Emitted code is a tree with one printer. Parentheses that are written stand in the tree as `group`,
so the printer adds none and leaves none out.
-/

namespace TradeGraph.Mql

/-! ## Literals -/

/-- A literal. `decimal 1000 1` is `100.0` and `power 1 (-10)` is `1e-10`. -/
inductive Literal where
  | int (n : Int)
  | real (x : Float)
  | decimal (digits places : Nat)
  | power (mantissa : Nat) (exponent : Int)
  | flag (b : Bool)
  | text (s : String)

def Literal.written : Literal → String
  | .int n => toString n
  | .real x => Double.plainText x
  | .decimal digits places =>
    let cs := (toString (digits % Nat.pow 10 places)).toList
    toString (digits / Nat.pow 10 places) ++ "." ++
      String.ofList (List.replicate (places - cs.length) '0' ++ cs)
  | .power m e => toString m ++ "e" ++ toString e
  | .flag b => if b then "true" else "false"
  | .text s => literal s

/-! ## Trees -/

/-- The operators with two operands other than `&&` and `||`. -/
inductive BinaryOp where
  | mul | div | add | sub | lt | le | gt | ge | eq | ne
deriving DecidableEq, Repr

def BinaryOp.sign : BinaryOp → String
  | .mul => "*"
  | .div => "/"
  | .add => "+"
  | .sub => "-"
  | .lt => "<"
  | .le => "<="
  | .gt => ">"
  | .ge => ">="
  | .eq => "=="
  | .ne => "!="

/-- An expression. `all` and `any` join any number of parts by `&&` and by `||`. -/
inductive Expr where
  | lit (l : Literal)
  | name (x : Ident)
  | call (f : Ident) (args : List Expr)
  | send (receiver method : Ident) (args : List Expr)
  | member (e : Expr) (field : Ident)
  | index (e k : Expr)
  | not (e : Expr)
  | neg (e : Expr)
  | increased (e : Expr)
  | increasing (e : Expr)
  | cast (type : String) (e : Expr)
  | binary (op : BinaryOp) (a b : Expr)
  | all (parts : List Expr)
  | any (parts : List Expr)
  | choice (c yes no : Expr)
  | group (e : Expr)

namespace Expr

mutual

/-- The expression as written. -/
def text : Expr → String
  | .lit l => l.written
  | .name x => x.text
  | .call f args => f.text ++ "(" ++ ", ".intercalate (texts args) ++ ")"
  | .send r m args => r.text ++ "." ++ m.text ++ "(" ++ ", ".intercalate (texts args) ++ ")"
  | .member e field => e.text ++ "." ++ field.text
  | .index e k => e.text ++ "[" ++ k.text ++ "]"
  | .not e => "!" ++ e.text
  | .neg e => "-" ++ e.text
  | .increased e => "++" ++ e.text
  | .increasing e => e.text ++ "++"
  | .cast type e => "(" ++ type ++ ")" ++ e.text
  | .binary op a b => a.text ++ " " ++ op.sign ++ " " ++ b.text
  | .all parts => " && ".intercalate (texts parts)
  | .any parts => " || ".intercalate (texts parts)
  | .choice c yes no => c.text ++ " ? " ++ yes.text ++ " : " ++ no.text
  | .group e => "(" ++ e.text ++ ")"

/-- The expressions of a list, each as written. -/
def texts : List Expr → List String
  | [] => []
  | e :: es => e.text :: texts es

end

/-! ## Short names -/

/-- The variable of a name. -/
abbrev var (x : Ident) : Expr := .name x

instance : Coe Ident Expr := ⟨.name⟩

instance : Coe String Expr := ⟨fun s => .name s⟩

instance (n : Nat) : OfNat Expr n := ⟨.lit (.int n)⟩

instance : Coe Int Expr := ⟨fun n => .lit (.int n)⟩

instance : Coe Bool Expr := ⟨fun b => .lit (.flag b)⟩

instance : Add Expr := ⟨.binary .add⟩

instance : Sub Expr := ⟨.binary .sub⟩

instance : Mul Expr := ⟨.binary .mul⟩

instance : Div Expr := ⟨.binary .div⟩

instance : Neg Expr := ⟨.neg⟩

/-- `a < b` -/
def lt (a b : Expr) : Expr := .binary .lt a b

/-- `a <= b` -/
def le (a b : Expr) : Expr := .binary .le a b

/-- `a > b` -/
def gt (a b : Expr) : Expr := .binary .gt a b

/-- `a >= b` -/
def ge (a b : Expr) : Expr := .binary .ge a b

/-- `a == b` -/
def eq (a b : Expr) : Expr := .binary .eq a b

/-- `a != b` -/
def ne (a b : Expr) : Expr := .binary .ne a b

/-- A string literal. -/
def quote (s : String) : Expr := .lit (.text s)

/-- A decimal with one place, given in tenths: `tenths 1000` is `100.0`. -/
def tenths (n : Nat) : Expr := .lit (.decimal n 1)

end Expr

end TradeGraph.Mql
