import TradeGraph.Mql.Expr

/-!
# Statements of the emitted language

The printer gives lines. Blocks are indented by three blanks, and an empty line stays empty.
-/

namespace TradeGraph.Mql

/-! ## Actions -/

/-- A simple statement without its semicolon. `pad` is the number of blanks added after the name of
a declared variable. -/
inductive Action where
  | declare (type : String) (x : Ident) (value : Option Expr) (pad : Nat)
  | declareStatic (type : String) (x : Ident) (value : Expr)
  | declareArray (type : String) (x : Ident)
  | assign (target value : Expr)
  | add (target value : Expr)
  | subtract (target value : Expr)
  | increment (target : Expr)
  | decrement (target : Expr)
  | run (e : Expr)
  | ret
  | retWith (e : Expr)
  | skip
  | stop

def Action.text : Action → String
  | .declare type x none _ => type ++ " " ++ x.text
  | .declare type x (some v) pad =>
    type ++ " " ++ x.text ++ String.ofList (List.replicate pad ' ') ++ " = " ++ v.text
  | .declareStatic type x v => "static " ++ type ++ " " ++ x.text ++ " = " ++ v.text
  | .declareArray type x => type ++ " " ++ x.text ++ "[]"
  | .assign t v => t.text ++ " = " ++ v.text
  | .add t v => t.text ++ " += " ++ v.text
  | .subtract t v => t.text ++ " -= " ++ v.text
  | .increment t => t.text ++ "++"
  | .decrement t => t.text ++ "--"
  | .run e => e.text
  | .ret => "return"
  | .retWith e => "return(" ++ e.text ++ ")"
  | .skip => "continue"
  | .stop => "break"

/-! ## Statements -/

/-- The head of a loop. `count i a t up` runs `i` from `a` while `t`, one up or one down. -/
inductive Loop where
  | count (i : Ident) (first test : Expr) (up : Bool)
  | during (c : Expr)

/-- The head as written. -/
def Loop.text : Loop → String
  | .count i first test up =>
    "for(int " ++ i.text ++ " = " ++ first.text ++ "; " ++ test.text ++ "; " ++ i.text ++
      (if up then "++" else "--") ++ ")"
  | .during c => "while(" ++ c.text ++ ")"

/-- A statement.

`note` and `heading` are comments, and `remarked` adds one at the end of a statement. `guard` has
its action on the line of the condition, `guardAll` several between braces; `guardBelow`,
`eitherBelow` and `elseIfBelow` have them on lines of their own; `guardTall` spreads a conjunction
over lines and `declareTall` a choice. `deeper` indents one statement more than its place asks for.
-/
inductive Stmt where
  | blank
  | note (t : String)
  | heading (t : String)
  | act (a : Action)
  | remarked (s : Stmt) (t : String)
  | guard (c : Expr) (a : Action)
  | guardAll (c : Expr) (as : List Action)
  | guardBelow (c : Expr) (a : Action)
  | eitherBelow (c : Expr) (a b : Action)
  | elseIfBelow (c : Expr) (a : Action) (d : Expr) (b : Action)
  | guardTall (c : Expr) (more : List Expr) (a : Action)
  | declareTall (type : String) (x : Ident) (c yes no : Expr)
  | branch (c : Expr) (body : List Stmt)
  | branchElse (c : Expr) (yes no : List Stmt)
  | scope (body : List Stmt)
  | loop (head : Loop) (body : List Stmt)
  | loopBelow (head : Loop) (s : Stmt)
  | deeper (s : Stmt)

/-- Indent lines by three blanks per level. Empty lines stay empty. -/
def indent (level : Nat) (ls : List String) : List String :=
  let pad := String.ofList (List.replicate (3 * level) ' ')
  ls.map fun l => if l.isEmpty then "" else pad ++ l

/-- Lines between braces. -/
def braces (ls : List String) : List String :=
  "\x7b" :: indent 1 ls ++ ["\x7d"]

/-- Add text at the end of the last line. -/
def addToLast (t : String) : List String → List String
  | [] => []
  | [l] => [l ++ t]
  | l :: ls => l :: addToLast t ls

def ifHead (c : Expr) : String :=
  "if(" ++ c.text ++ ")"

/-- An action on an indented line of its own. -/
def actionBelow (a : Action) : String :=
  "   " ++ a.text ++ ";"

/-- A conjunction spread over lines, the closing parenthesis after the last part. -/
def tallHead (c : Expr) (more : List Expr) : List String :=
  addToLast ")" (("if(" ++ c.text) :: more.map fun d => "   && " ++ d.text)

namespace Stmt

mutual

def lines : Stmt → List String
  | .blank => [""]
  | .note t => ["// " ++ t]
  | .heading t => ["//--- " ++ t]
  | .act a => [a.text ++ ";"]
  | .remarked s t => addToLast (" // " ++ t) s.lines
  | .guard c a => [ifHead c ++ " " ++ a.text ++ ";"]
  | .guardAll c as =>
    [ifHead c ++ " \x7b " ++ " ".intercalate (as.map fun a => a.text ++ ";") ++ " \x7d"]
  | .guardBelow c a => [ifHead c, actionBelow a]
  | .eitherBelow c a b => [ifHead c, actionBelow a, "else", actionBelow b]
  | .elseIfBelow c a d b => [ifHead c, actionBelow a, "else " ++ ifHead d, actionBelow b]
  | .guardTall c more a => tallHead c more ++ [actionBelow a]
  | .declareTall type x c yes no =>
    [type ++ " " ++ x.text ++ " = " ++ c.text, "   ? " ++ yes.text, "   : " ++ no.text ++ ";"]
  | .branch c body => ifHead c :: braces (block body)
  | .branchElse c yes no => ifHead c :: braces (block yes) ++ "else" :: braces (block no)
  | .scope body => braces (block body)
  | .loop head body => head.text :: braces (block body)
  | .loopBelow head s => head.text :: indent 1 s.lines
  | .deeper s => indent 1 s.lines

/-- The lines of statements, one after the other. -/
def block : List Stmt → List String
  | [] => []
  | s :: ss => s.lines ++ block ss

end

/-! ## Short names -/

instance : Coe Action Stmt := ⟨.act⟩

/-- `type x = value;` -/
def declare (type : String) (x : Ident) (value : Expr) : Stmt :=
  .act (.declare type x (some value) 0)

/-- `type x;` -/
def declareOnly (type : String) (x : Ident) : Stmt :=
  .act (.declare type x none 0)

/-- `target = value;` -/
def assign (target value : Expr) : Stmt :=
  .act (.assign target value)

/-- `e;` -/
def run (e : Expr) : Stmt :=
  .act (.run e)

end Stmt

end TradeGraph.Mql
