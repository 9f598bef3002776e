import PhaseTree.Tree.Expr

set_option autoImplicit false

namespace PhaseTree.Expr

variable {A D V T : Type}

/-- Arguments found so far stand behind the ones still to be found. -/
def unwind : Expr A D V T → List (Expr A D V T) → Expr A D V T × List (Expr A D V T)
  | app _ func arg, args => func.unwind (arg :: args)
  | head, args => (head, args)

def spine (e : Expr A D V T) : Expr A D V T × List (Expr A D V T) := e.unwind []

def telescope : Expr A D V T → List (Pattern V) × Expr A D V T
  | lambda _ param body =>
    let inner := body.telescope
    (param :: inner.1, inner.2)
  | body => ([], body)

theorem unwind_append (e : Expr A D V T) (args more : List (Expr A D V T)) :
    e.unwind (args ++ more) = ((e.unwind args).1, (e.unwind args).2 ++ more) := by
  fun_induction unwind e args with
  | case1 _ _ _ _ ih => simpa [unwind] using ih
  | case2 e => cases e <;> simp_all [unwind]

theorem spine_app (a : A) (func arg : Expr A D V T) :
    (app a func arg).spine = (func.spine.1, func.spine.2 ++ [arg]) := by
  simpa [spine, unwind] using unwind_append func [] [arg]

theorem telescope_lambda (a : A) (param : Pattern V) (body : Expr A D V T) :
    (lambda a param body).telescope = (param :: body.telescope.1, body.telescope.2) := by
  rw [telescope]

end PhaseTree.Expr
