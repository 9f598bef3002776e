import Mathlib.Data.List.DropRight
import PhaseTree.Layout.Script
import PhaseTree.Proofs.Layout.Relocation

set_option autoImplicit false

namespace PhaseTree

namespace Canvas

/-- What stands behind the last line break, or all of the text if there is none. -/
def lastLine (canvas : Canvas) : List Char := canvas.text.toList.rtakeWhile (· ≠ '\n')

def InStep (canvas : Canvas) : Prop := canvas.column = canvas.lastLine.length

instance (canvas : Canvas) : Decidable canvas.InStep := inferInstanceAs (Decidable (_ = _))

theorem inStep_empty : empty.InStep := rfl

theorem lastLine_emit {s : String} (h : Unbroken s) (canvas : Canvas) :
    (canvas.emit s).lastLine = canvas.lastLine ++ s.toList := by
  have hs : ∀ c ∈ s.toList.reverse, decide (c ≠ '\n') = true := by
    intro c hc
    have hne : c ≠ '\n' := fun e => h (e ▸ List.mem_reverse.1 hc)
    simpa using hne
  rw [lastLine, text_emit, String.toList_append, List.rtakeWhile, List.reverse_append,
    List.takeWhile_append_of_pos hs, List.reverse_append, List.reverse_reverse]
  rfl

theorem lastLine_newlineAt (column : Nat) (canvas : Canvas) :
    (canvas.newlineAt column).lastLine = List.replicate column ' ' := by
  have hc : ∀ c ∈ List.replicate column ' ', decide (c ≠ '\n') = true := by
    intro c hc
    simp [List.eq_of_mem_replicate hc]
  have ht : (canvas.newlineAt column).text = canvas.text ++ lineStart column :=
    congrArg text (newlineAt_eq canvas.text canvas.column column)
  rw [lastLine, ht, lineStart, String.toList_append, String.toList_ofList, List.rtakeWhile,
    List.reverse_append, List.reverse_cons, List.reverse_replicate, List.append_assoc,
    List.takeWhile_append_of_pos hc]
  simp

theorem InStep.emit {canvas : Canvas} (h : canvas.InStep) {s : String} (hs : Unbroken s) :
    (canvas.emit s).InStep := by
  rw [InStep, column_emit, lastLine_emit hs, List.length_append, String.length_toList]
  exact congrArg (· + s.length) h

theorem inStep_newlineAt (column : Nat) (canvas : Canvas) : (canvas.newlineAt column).InStep := by
  rw [InStep, column_newlineAt, lastLine_newlineAt, List.length_replicate]

end Canvas

namespace Script

mutual
def fragments : Script → List String
  | emit text => [text]
  | space => [" "]
  | newlineAt _ => []
  | newlineBy _ => []
  | parens _ body => fragmentsAll body
  | separated separator groups => groupFragments separator true groups
def fragmentsAll : List Script → List String
  | [] => []
  | step :: rest => step.fragments ++ fragmentsAll rest
/-- A separator that stands before no group is not emitted. -/
def groupFragments (separator : String) : (first : Bool) → List (List Script) → List String
  | _, [] => []
  | first, group :: rest =>
    (if first then [] else [separator]) ++ (fragmentsAll group ++ groupFragments separator false rest)
end

structure Trace.InStep (trace : Trace) : Prop where
  now : trace.canvas.InStep
  before : ∀ canvas ∈ trace.past, canvas.InStep

namespace Trace

variable {trace : Trace}

theorem inStep_empty : empty.InStep := ⟨Canvas.inStep_empty, nofun⟩

theorem InStep.emit (h : trace.InStep) {s : String} (hs : Unbroken s) : (trace.emit s).InStep :=
  ⟨h.now.emit hs, h.before⟩

theorem InStep.break (h : trace.InStep) (column : Canvas → Nat) :
    (trace.draw fun canvas => canvas.newlineAt (column canvas)).InStep :=
  ⟨Canvas.inStep_newlineAt _ _, h.before⟩

theorem InStep.record (h : trace.InStep) : trace.record.InStep where
  now := h.now
  before := List.forall_mem_cons.2 ⟨h.now, h.before⟩

end Trace

mutual
theorem run_inStep (step : Script) (hs : ∀ fragment ∈ step.fragments, Unbroken fragment)
    {trace : Trace} (h : trace.InStep) : (step.run trace).InStep := by
  cases step with
  | emit text => exact (h.emit (hs text List.mem_cons_self)).record
  | space => exact (h.emit (by decide)).record
  | newlineAt column => exact (h.break fun _ => column).record
  | newlineBy offset => exact (h.break fun canvas => canvas.column + offset).record
  | parens wanted body =>
    cases wanted with
    | true =>
      have opened : (trace.emit "(").InStep := h.emit (by decide)
      exact ((runAll_inStep body hs opened).emit (by decide)).record
    | false => exact (runAll_inStep body hs h).record
  | separated separator groups => exact (runGroups_inStep separator true groups hs h).record
termination_by structural step
theorem runAll_inStep (script : List Script) (hs : ∀ fragment ∈ fragmentsAll script, Unbroken fragment)
    {trace : Trace} (h : trace.InStep) : (runAll script trace).InStep := by
  cases script with
  | nil => exact h
  | cons step rest =>
    rw [fragmentsAll, List.forall_mem_append] at hs
    exact runAll_inStep rest hs.2 (run_inStep step hs.1 h)
termination_by structural script
theorem runGroups_inStep (separator : String) (first : Bool) (groups : List (List Script))
    (hs : ∀ fragment ∈ groupFragments separator first groups, Unbroken fragment)
    {trace : Trace} (h : trace.InStep) : (runGroups separator first groups trace).InStep := by
  cases groups with
  | nil => exact h
  | cons group rest =>
    rw [groupFragments, List.forall_mem_append, List.forall_mem_append] at hs
    have separated : (if first then trace else trace.emit separator).InStep := by
      cases first with
      | true => exact h
      | false => exact h.emit (hs.1 separator List.mem_cons_self)
    exact runGroups_inStep separator false rest hs.2.2 (runAll_inStep group hs.2.1 separated)
termination_by structural groups
end

theorem perform_inStep {script : List Script}
    (h : ∀ fragment ∈ fragmentsAll script, Unbroken fragment) : (perform script).InStep :=
  runAll_inStep script h Trace.inStep_empty

end Script

theorem Doc.render_inStep {doc : Doc} (h : doc.Unbroken) (anchor : Nat) {canvas : Canvas}
    (hc : canvas.InStep) : (doc.render anchor canvas).InStep := by
  induction doc generalizing anchor canvas with
  | empty => exact hc
  | text s => exact hc.emit h
  | newline indent => exact Canvas.inStep_newlineAt _ canvas
  | append first second ih ih' => exact ih' h.2 anchor (ih h.1 anchor hc)
  | align body ih => exact ih h canvas.column hc

end PhaseTree
