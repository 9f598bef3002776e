import PhaseTree.Tree.Chain

set_option autoImplicit false

namespace PhaseTree

variable {A D V T : Type}

namespace Expr

/-- An application to one argument after the other, each application under its own note. -/
def applyAll (head : Expr A D V T) (args : List (A × Expr A D V T)) : Expr A D V T :=
  args.foldl (fun func arg => app arg.1 func arg.2) head

def lambdas (params : List (A × Pattern V)) (body : Expr A D V T) : Expr A D V T :=
  params.foldr (fun param body => lambda param.1 param.2 body) body

def consAll (heads : List (A × Expr A D V T)) (tail : Expr A D V T) : Expr A D V T :=
  heads.foldr (fun head tail => data head.1 Reserved.cons [head.2, tail]) tail

end Expr

def Pattern.consAll (heads : List (V × Pattern V)) (tail : Pattern V) : Pattern V :=
  heads.foldr (fun head tail => data head.1 [head.2, tail]) tail

def TypeExpr.functions (args : List (TypeExpr V)) (result : TypeExpr V) : TypeExpr V :=
  args.foldr function result

namespace Expr

theorem applyAll_append (head : Expr A D V T) (args more : List (A × Expr A D V T)) :
    head.applyAll (args ++ more) = (head.applyAll args).applyAll more :=
  List.foldl_append

theorem spine_of_not_app {e : Expr A D V T} (h : e.isApp = false) : e.spine = (e, []) := by
  cases e with
  | app _ _ _ => contradiction
  | _ => rfl

theorem telescope_of_not_lambda {e : Expr A D V T} (h : e.isLambda = false) : e.telescope = ([], e) := by
  cases e with
  | lambda _ _ _ => contradiction
  | _ => rfl

theorem spine_applyAll (func : Expr A D V T) (args : List (A × Expr A D V T)) :
    (func.applyAll args).spine = (func.spine.1, func.spine.2 ++ args.map Prod.snd) := by
  induction args generalizing func with
  | nil =>
    rw [List.map_nil, List.append_nil]
    rfl
  | cons arg args ih =>
    change ((app arg.1 func arg.2).applyAll args).spine = _
    rw [ih, spine_app, List.append_assoc, List.map_cons]
    rfl

theorem telescope_lambdas (params : List (A × Pattern V)) (body : Expr A D V T) :
    (lambdas params body).telescope = (params.map Prod.snd ++ body.telescope.1, body.telescope.2) := by
  induction params with
  | nil => rfl
  | cons param params ih =>
    change (lambda param.1 param.2 (lambdas params body)).telescope = _
    rw [telescope_lambda, ih]
    rfl

theorem exists_applyAll (e : Expr A D V T) : ∃ (head : Expr A D V T) (args : List (A × Expr A D V T)),
    head.isApp = false ∧ head.applyAll args = e := by
  cases e with
  | app a func arg =>
    obtain ⟨head, args, hh, hf⟩ := exists_applyAll func
    refine ⟨head, args ++ [(a, arg)], hh, ?_⟩
    rw [applyAll_append, hf]
    rfl
  | _ => exact ⟨_, [], rfl, rfl⟩
termination_by structural e

theorem exists_lambdas (e : Expr A D V T) : ∃ (params : List (A × Pattern V)) (body : Expr A D V T),
    body.isLambda = false ∧ lambdas params body = e := by
  cases e with
  | lambda a param body =>
    obtain ⟨params, inner, hi, hb⟩ := exists_lambdas body
    exact ⟨(a, param) :: params, inner, hi, congrArg (lambda a param) hb⟩
  | _ => exact ⟨[], _, rfl, rfl⟩
termination_by structural e

theorem spine_eq_iff (e head : Expr A D V T) (args : List (Expr A D V T)) :
    e.spine = (head, args) ↔ head.isApp = false ∧
      ∃ links : List (A × Expr A D V T), links.map Prod.snd = args ∧ head.applyAll links = e := by
  constructor
  · intro h
    obtain ⟨own, links, hn, rfl⟩ := exists_applyAll e
    rw [spine_applyAll, spine_of_not_app hn, Prod.mk.injEq] at h
    obtain ⟨rfl, rfl⟩ := h
    exact ⟨hn, links, rfl, rfl⟩
  · rintro ⟨hn, links, rfl, rfl⟩
    rw [spine_applyAll, spine_of_not_app hn]
    rfl

theorem telescope_eq_iff (e body : Expr A D V T) (params : List (Pattern V)) :
    e.telescope = (params, body) ↔ body.isLambda = false ∧
      ∃ links : List (A × Pattern V), links.map Prod.snd = params ∧ lambdas links body = e := by
  constructor
  · intro h
    obtain ⟨links, own, hn, rfl⟩ := exists_lambdas e
    rw [telescope_lambdas, telescope_of_not_lambda hn, List.append_nil, Prod.mk.injEq] at h
    obtain ⟨rfl, rfl⟩ := h
    exact ⟨hn, links, rfl, rfl⟩
  · rintro ⟨hn, links, rfl, rfl⟩
    rw [telescope_lambdas, telescope_of_not_lambda hn, List.append_nil]

/-- What a chain is taken apart into does not go on with the chain, and is what the chain is built from
under some notes. Conversely, whatever is built in this way under any notes is taken apart into the same. -/
theorem chains_decompose :
    (∀ (e head : Expr A D V T) (args : List (Expr A D V T)), e.spine = (head, args) ↔
      head.isApp = false ∧
        ∃ links : List (A × Expr A D V T), links.map Prod.snd = args ∧ head.applyAll links = e) ∧
    ∀ (e body : Expr A D V T) (params : List (Pattern V)), e.telescope = (params, body) ↔
      body.isLambda = false ∧
        ∃ links : List (A × Pattern V), links.map Prod.snd = params ∧ lambdas links body = e :=
  ⟨spine_eq_iff, telescope_eq_iff⟩

end Expr

end PhaseTree
