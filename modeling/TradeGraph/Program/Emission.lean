import TradeGraph.Log
import TradeGraph.Program.Basic
import TradeGraph.Program.Context

/-!
# Emissions

What a generator gives: the part of the program that it adds, what it logs, and the fault that
stopped it, if one did. What was added before a fault stays added.
-/

namespace TradeGraph

/-- What a generator gives. -/
structure Emission where
  code : Program := {}
  log : Log := []
  fault : Option Fault := none

/-- A generator that looks at the program so far. -/
abbrev Step := Program → Emission

namespace Emission

/-- Nothing but a fault. -/
def fail (f : Fault) : Emission where
  fault := some f

/-- Steps one after the other. Each sees what those before it added; a fault ends the sequence. -/
def inOrder : List Step → Step
  | [], _ => {}
  | s :: ss, p =>
    let e := s p
    match e.fault with
    | some _ => e
    | none =>
      let rest := inOrder ss (p ++ e.code)
      { code := e.code ++ rest.code, log := e.log ++ rest.log, fault := rest.fault }

end Emission

/-- An input for a field of a node; the node says whether it may be optimized. -/
def Node.input (n : Node) (field : String) (name : Mql.Ident) (type : String) (value : Scalar)
    (comment : String) (group : Option String := none) : Input where
  name
  type
  value
  comment
  optimizable := n.isOptimizable field
  group

def Node.intInput (n : Node) (field : String) (name : Mql.Ident) (value : Int) (comment : String)
    (group : Option String := none) : Input :=
  n.input field name "int" (.int value) comment group

def Node.doubleInput (n : Node) (field : String) (name : Mql.Ident) (value : Float)
    (comment : String) (group : Option String := none) : Input :=
  n.input field name "double" (.float value) comment group

end TradeGraph
