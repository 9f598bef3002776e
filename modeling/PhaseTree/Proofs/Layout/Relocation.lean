import Mathlib.Data.List.Basic
import PhaseTree.Print.Basic

set_option autoImplicit false

namespace PhaseTree

/-- The text moved to the right: every line but the first starts with `width` more spaces. -/
def hang (width : Nat) (s : String) : String :=
  String.ofList (s.toList.flatMap fun c => if c = '\n' then c :: List.replicate width ' ' else [c])

def Unbroken (s : String) : Prop := '\n' ∉ s.toList

instance (s : String) : Decidable (Unbroken s) := inferInstanceAs (Decidable ('\n' ∉ s.toList))

def lineStart (column : Nat) : String := String.ofList ('\n' :: List.replicate column ' ')

theorem hang_append (width : Nat) (s t : String) :
    hang width (s ++ t) = hang width s ++ hang width t := by
  simp [hang, String.ofList_append]

theorem hang_unbroken (width : Nat) (s : String) (h : Unbroken s) : hang width s = s := by
  have hc : ∀ c ∈ s.toList, (if c = '\n' then c :: List.replicate width ' ' else [c]) = [c] := by
    intro c hc
    have hn : c ≠ '\n' := fun e => h (e ▸ hc)
    simp [hn]
  rw [hang, List.flatMap_congr hc]
  simp

theorem hang_lineStart (width column : Nat) :
    hang width (lineStart column) = lineStart (width + column) := by
  have hc : ∀ c ∈ List.replicate column ' ',
      (if c = '\n' then c :: List.replicate width ' ' else [c]) = [c] := by
    intro c hc
    simp [List.eq_of_mem_replicate hc]
  simp [hang, lineStart, List.flatMap_congr hc]

theorem pushn_eq (s : String) (c : Char) (n : Nat) :
    s.pushn c n = s ++ String.ofList (List.replicate n c) := by
  rw [String.pushn_eq_repeat_push]
  induction n with
  | zero => simp [Nat.repeat]
  | succ n ih =>
    rw [Nat.repeat, ih, List.replicate_succ']
    apply String.toList_injective
    simp

theorem newlineAt_eq (text : String) (from' column : Nat) :
    Canvas.newlineAt column ⟨⟨text⟩, from'⟩ = ⟨⟨text ++ lineStart column⟩, column⟩ := by
  have h : (text.push '\n').pushn ' ' column = text ++ lineStart column := by
    rw [pushn_eq]
    apply String.toList_injective
    simp [lineStart]
  simp [Canvas.newlineAt, Sink.newline, Sink.indent, h]

namespace Doc

/-- Only `newline` breaks a line. -/
def Unbroken : Doc → Prop
  | empty => True
  | text s => PhaseTree.Unbroken s
  | newline _ => True
  | append first second => first.Unbroken ∧ second.Unbroken
  | align body => body.Unbroken

instance decidableUnbroken : (doc : Doc) → Decidable doc.Unbroken
  | empty => isTrue trivial
  | text s => inferInstanceAs (Decidable (PhaseTree.Unbroken s))
  | newline _ => isTrue trivial
  | append first second =>
    have := first.decidableUnbroken
    have := second.decidableUnbroken
    inferInstanceAs (Decidable (first.Unbroken ∧ second.Unbroken))
  | align body => body.decidableUnbroken

theorem render_move (doc : Doc) (h : doc.Unbroken) (width anchor column : Nat)
    (text text' : String) : ∃ piece column',
      doc.render anchor ⟨⟨text⟩, column⟩ = ⟨⟨text ++ piece⟩, column'⟩ ∧
      doc.render (width + anchor) ⟨⟨text'⟩, width + column⟩ =
        ⟨⟨text' ++ hang width piece⟩, width + column'⟩ := by
  induction doc generalizing anchor column text text' with
  | empty => exact ⟨"", column, by simp [render], by simp [render, hang]⟩
  | text s =>
    refine ⟨s, column + s.length, rfl, ?_⟩
    rw [hang_unbroken width s h]
    simp [render, Canvas.emit, Sink.emit, Nat.add_assoc]
  | newline indent =>
    refine ⟨lineStart (anchor + indent), anchor + indent, newlineAt_eq _ _ _, ?_⟩
    rw [hang_lineStart, ← Nat.add_assoc]
    exact newlineAt_eq _ _ _
  | append first second ih ih' =>
    obtain ⟨piece, middle, hf, hf'⟩ := ih h.1 anchor column text text'
    obtain ⟨piece', last, hs, hs'⟩ := ih' h.2 anchor middle (text ++ piece) (text' ++ hang width piece)
    refine ⟨piece ++ piece', last, ?_, ?_⟩
    · rw [render, hf, hs, String.append_assoc]
    · rw [render, hf', hs', hang_append, String.append_assoc]
  | align body ih => exact ih h column column text text'

theorem draw_move (doc : Doc) (h : doc.Unbroken) (canvas : Canvas) :
    (doc.draw canvas).text = canvas.text ++ hang canvas.column (doc.draw .empty).text ∧
      (doc.draw canvas).column = canvas.column + (doc.draw .empty).column := by
  obtain ⟨piece, column, he, hc⟩ := doc.render_move h canvas.column 0 0 "" canvas.text
  have hd : doc.draw .empty = ⟨⟨piece⟩, column⟩ := by simpa [draw, Canvas.empty, Sink.empty] using he
  rw [hd]
  exact ⟨congrArg Canvas.text hc, congrArg Canvas.column hc⟩

end Doc

end PhaseTree
