import PhaseTree.Proofs.Layout.Anchoring

set_option autoImplicit false

namespace PhaseTree

namespace Canvas

/-- One drawing after the other, with `separator` between them. -/
def joined (separator : String) : List (Canvas → Canvas) → Canvas → Canvas
  | [], canvas => canvas
  | [draw], canvas => draw canvas
  | draw :: rest, canvas => joined separator rest ((draw canvas).emit separator)

def parensIf (wanted : Bool) (draw : Canvas → Canvas) (canvas : Canvas) : Canvas :=
  if wanted then (draw (canvas.emit "(")).emit ")" else draw canvas

theorem joined_cons_cons (separator : String) (draw draw' : Canvas → Canvas)
    (rest : List (Canvas → Canvas)) (canvas : Canvas) :
    joined separator (draw :: draw' :: rest) canvas =
      joined separator (draw' :: rest) ((draw canvas).emit separator) := rfl

theorem joined_cons {rest : List (Canvas → Canvas)} (h : rest ≠ []) (separator : String)
    (draw : Canvas → Canvas) (canvas : Canvas) :
    joined separator (draw :: rest) canvas =
      joined separator rest ((draw canvas).emit separator) := by
  cases rest with
  | nil => contradiction
  | cons draw' rest => rfl

end Canvas

namespace Doc

theorem draw_text (s : String) (canvas : Canvas) : (text s).draw canvas = canvas.emit s := rfl

theorem Anchored.draw_append {second : Doc} (h : second.Anchored) (first : Doc) (canvas : Canvas) :
    (first ++ second).draw canvas = second.draw (first.draw canvas) :=
  h.render_eq _ _ _

theorem Anchored.draw_separator {first second : Doc} (h : second.Anchored) (separator : String)
    (canvas : Canvas) : (first ++ (text separator ++ second)).draw canvas =
      second.draw ((first.draw canvas).emit separator) := by
  have hs : (text separator ++ second).Anchored := (anchored_append _ _).2 ⟨anchored_text _, h⟩
  rw [hs.draw_append, h.draw_append, draw_text]

theorem draw_separated {separator : String} {docs : List Doc} (h : ∀ doc ∈ docs, doc.Anchored)
    (canvas : Canvas) :
    (separated separator docs).draw canvas = Canvas.joined separator (docs.map draw) canvas := by
  induction docs generalizing canvas with
  | nil => rfl
  | cons doc docs ih =>
    cases docs with
    | nil => rfl
    | cons next docs =>
      have others := (List.forall_mem_cons.1 h).2
      exact ((anchored_separated others).draw_separator separator canvas).trans (ih others _)

end Doc

end PhaseTree
