import PhaseTree.Proofs.Layout.Flat
import PhaseTree.Proofs.Layout.Pieces

set_option autoImplicit false

namespace PhaseTree

/-- Leaves out the spaces that directly follow a line break. Only such spaces have been met since the last
one if `fresh` is set. -/
def outdentFrom : (fresh : Bool) → List Char → List Char
  | _, [] => []
  | fresh, c :: cs =>
    if c = '\n' then c :: outdentFrom true cs
    else if fresh && c == ' ' then outdentFrom true cs
    else c :: outdentFrom false cs

def outdent (s : String) : String := String.ofList (outdentFrom false s.toList)

theorem outdentFrom_spaces (width : Nat) (cs : List Char) :
    outdentFrom true (List.replicate width ' ' ++ cs) = outdentFrom true cs := by
  induction width with
  | zero => rfl
  | succ width ih => simpa [List.replicate_succ, outdentFrom] using ih

theorem outdentFrom_append {rest rest' : List Char}
    (h : ∀ fresh, outdentFrom fresh rest = outdentFrom fresh rest') (fresh : Bool) (cs : List Char) :
    outdentFrom fresh (cs ++ rest) = outdentFrom fresh (cs ++ rest') := by
  induction cs generalizing fresh with
  | nil => exact h fresh
  | cons c cs ih => simp only [List.cons_append, outdentFrom, ih]

namespace Doc

theorem outdentFrom_piece (doc : Doc) (anchor column : Nat) (fresh : Bool) (rest : List Char) :
    outdentFrom fresh (doc.piece anchor column ++ rest) = outdentFrom fresh (doc.flat ++ rest) := by
  induction doc generalizing anchor column fresh rest with
  | empty => rfl
  | text s => rw [piece_text, flat]
  | newline indent =>
    rw [piece_newline, flat, List.cons_append, List.singleton_append, outdentFrom, outdentFrom,
      if_pos rfl, if_pos rfl, outdentFrom_spaces]
  | append first second ih ih' =>
    obtain ⟨middle, hp⟩ := piece_append first second anchor column
    calc outdentFrom fresh ((first ++ second).piece anchor column ++ rest)
        = outdentFrom fresh (first.piece anchor column ++ (second.piece anchor middle ++ rest)) := by
          rw [hp, List.append_assoc]
      _ = outdentFrom fresh (first.flat ++ (second.piece anchor middle ++ rest)) := ih _ _ _ _
      _ = outdentFrom fresh (first.flat ++ (second.flat ++ rest)) :=
          outdentFrom_append (fun state => ih' anchor middle state rest) fresh first.flat
      _ = outdentFrom fresh ((first ++ second).flat ++ rest) := by rw [flat_append, List.append_assoc]
  | align body ih => exact ih column column fresh rest

theorem outdent_draw {doc doc' : Doc} (h : doc.flat = doc'.flat) (canvas canvas' : Canvas) :
    ∃ added added', (doc.draw canvas).text = canvas.text ++ added ∧
      (doc'.draw canvas').text = canvas'.text ++ added' ∧ outdent added = outdent added' := by
  refine ⟨_, _, doc.text_draw canvas, doc'.text_draw canvas', ?_⟩
  have hd := doc.outdentFrom_piece canvas.column canvas.column false []
  have hd' := doc'.outdentFrom_piece canvas'.column canvas'.column false []
  rw [List.append_nil, List.append_nil] at hd hd'
  rw [outdent, outdent, String.toList_ofList, String.toList_ofList, hd, hd', h]

end Doc

end PhaseTree
