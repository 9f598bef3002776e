import PhaseTree.Layout.Sink

set_option autoImplicit false

namespace PhaseTree

inductive Script where
  | emit (text : String)
  | space
  | newlineAt (column : Nat)
  /-- A line break, indented `offset` beyond the current column. -/
  | newlineBy (offset : Nat)
  | parens (wanted : Bool) (body : List Script)
  | separated (separator : String) (groups : List (List Script))

namespace Script

/-- The canvas, and what it was after each operation so far, latest first. -/
structure Trace where
  canvas : Canvas
  past : List Canvas

namespace Trace

def empty : Trace := ⟨.empty, []⟩

def draw (step : Canvas → Canvas) (trace : Trace) : Trace :=
  { trace with canvas := step trace.canvas }

def emit (text : String) (trace : Trace) : Trace := trace.draw (Canvas.emit text)

def record (trace : Trace) : Trace :=
  { trace with past := trace.canvas :: trace.past }

def text (trace : Trace) : String := trace.canvas.text

def columns (trace : Trace) : List Nat := (trace.past.map Canvas.column).reverse

end Trace

mutual
def run : Script → Trace → Trace
  | emit text, trace => (trace.emit text).record
  | space, trace => (trace.emit " ").record
  | newlineAt column, trace => (trace.draw (Canvas.newlineAt column)).record
  | newlineBy offset, trace =>
    (trace.draw fun canvas => canvas.newlineAt (canvas.column + offset)).record
  | parens wanted body, trace =>
    if wanted then ((runAll body (trace.emit "(")).emit ")").record else (runAll body trace).record
  | separated separator groups, trace => (runGroups separator true groups trace).record
termination_by structural step => step
def runAll : List Script → Trace → Trace
  | [], trace => trace
  | step :: rest, trace => runAll rest (step.run trace)
termination_by structural steps => steps
def runGroups (separator : String) : (first : Bool) → List (List Script) → Trace → Trace
  | _, [], trace => trace
  | first, group :: rest, trace =>
    runGroups separator false rest (runAll group (if first then trace else trace.emit separator))
termination_by structural _ groups => groups
end

def perform (script : List Script) : Trace := runAll script .empty

end Script

end PhaseTree
