import PhaseTree.Layout.Sink

set_option autoImplicit false

/-!
Documents: text whose line breaks are indented relative to an anchor, which is the column where the
innermost aligned document around them began. What a document looks like therefore depends on its
surroundings only through that column.
-/

namespace PhaseTree

inductive Doc where
  | empty
  | text (s : String)
  /-- A line break, indented `indent` beyond the anchor. -/
  | newline (indent : Nat)
  | append (first second : Doc)
  /-- Moves the anchor to the current column. -/
  | align (body : Doc)
  deriving DecidableEq

namespace Doc

instance : Append Doc := ⟨append⟩

def render : Doc → (anchor : Nat) → Canvas → Canvas
  | empty, _, canvas => canvas
  | text s, _, canvas => canvas.emit s
  | newline indent, anchor, canvas => canvas.newlineAt (anchor + indent)
  | append first second, anchor, canvas => second.render anchor (first.render anchor canvas)
  | align body, _, canvas => body.render canvas.column canvas

def draw (doc : Doc) (canvas : Canvas) : Canvas := doc.render canvas.column canvas

def toText (doc : Doc) : String := (doc.draw .empty).text

def concat : List Doc → Doc
  | [] => empty
  | doc :: rest => doc ++ concat rest

def separated (separator : String) : List Doc → Doc
  | [] => empty
  | [doc] => doc
  | doc :: rest => doc ++ (text separator ++ separated separator rest)

def between (opening closing : String) (body : Doc) : Doc := text opening ++ (body ++ text closing)

def parens (body : Doc) : Doc := between "(" ")" body

def brackets (body : Doc) : Doc := between "[" "]" body

def braces (body : Doc) : Doc := between "\x7b" "\x7d" body

def parensIf (wanted : Bool) (body : Doc) : Doc := if wanted then parens body else body

def applied (head : Doc) (args : List Doc) : Doc :=
  head ++ concat (args.map fun arg => text " " ++ arg)

theorem separated_closed {P : Doc → Prop} {separator : String} {docs : List Doc} (nothing : P empty)
    (appended : ∀ first second, P first → P second → P (first ++ second)) (space : P (text separator))
    (h : ∀ doc ∈ docs, P doc) : P (separated separator docs) := by
  induction docs with
  | nil => exact nothing
  | cons doc docs ih =>
    have hd := h doc List.mem_cons_self
    have hs := ih fun d hm => h d (List.mem_cons_of_mem doc hm)
    cases docs with
    | nil => exact hd
    | cons next docs => exact appended _ _ hd (appended _ _ space hs)

end Doc

end PhaseTree
