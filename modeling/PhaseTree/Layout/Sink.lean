set_option autoImplicit false

namespace PhaseTree

structure Sink where
  text : String
  deriving DecidableEq

namespace Sink

def empty : Sink := ⟨""⟩

def emit (s : String) (sink : Sink) : Sink := ⟨sink.text ++ s⟩

def newline (sink : Sink) : Sink := ⟨sink.text.push '\n'⟩

def indent (width : Nat) (sink : Sink) : Sink := ⟨sink.text.pushn ' ' width⟩

end Sink

structure Canvas where
  sink : Sink
  column : Nat
  deriving DecidableEq

namespace Canvas

def empty : Canvas := ⟨Sink.empty, 0⟩

def text (canvas : Canvas) : String := canvas.sink.text

/-- Emitted fragments are meant to be free of newlines. -/
def emit (s : String) (canvas : Canvas) : Canvas :=
  ⟨canvas.sink.emit s, canvas.column + s.length⟩

def newlineAt (column : Nat) (canvas : Canvas) : Canvas :=
  ⟨canvas.sink.newline.indent column, column⟩

theorem text_emit (s : String) (canvas : Canvas) : (canvas.emit s).text = canvas.text ++ s := rfl

theorem column_emit (s : String) (canvas : Canvas) :
    (canvas.emit s).column = canvas.column + s.length := rfl

theorem column_newlineAt (column : Nat) (canvas : Canvas) :
    (canvas.newlineAt column).column = column := rfl

end Canvas

end PhaseTree
