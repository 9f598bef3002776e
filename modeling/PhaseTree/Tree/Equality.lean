import PhaseTree.Tree.Expr

set_option autoImplicit false

namespace PhaseTree

variable {A D V T : Type} [BEq A] [BEq D] [BEq V] [BEq T]

mutual
def Expr.same : Expr A D V T → Expr A D V T → Bool
  | .lit a x, .lit b y => a == b && x.same y
  | .var a x, .var b y => a == b && x == y
  | .range a l h, .range b l' h' => a == b && l.same l' && h.same h'
  | .list a es, .list b es' => a == b && sameExprs es es'
  | .binop a op l r, .binop b op' l' r' => a == b && op == op' && l.same l' && r.same r'
  | .lambda a p e, .lambda b p' e' => a == b && p.same p' && e.same e'
  | .app a f e, .app b f' e' => a == b && f.same f' && e.same e'
  | .guards a bs, .guards b bs' => a == b && sameGuards bs bs'
  | .letIn a ds e, .letIn b ds' e' => a == b && sameDefs ds ds' && e.same e'
  | .case a e bs, .case b e' bs' => a == b && e.same e' && sameBranches bs bs'
  | .data a c es, .data b c' es' => a == b && c == c' && sameExprs es es'
  | .access a e f, .access b e' f' => a == b && f == f' && e.same e'
  | .remove a e f, .remove b e' f' => a == b && f == f' && e.same e'
  | .insert a e f v, .insert b e' f' v' => a == b && f == f' && e.same e' && v.same v'
  | .modify a e fs, .modify b e' fs' => a == b && e.same e' && sameFields fs fs'
  | .record a fs, .record b fs' => a == b && sameFields fs fs'
  | .channel a c, .channel b c' => a == b && sameChannels c c'
  | .shader a u s, .shader b u' s' => a == b && u == u' && s == s'
  | _, _ => false
termination_by structural e => e
def Def.same : Def A D V T → Def A D V T → Bool
  | .bind p e t, .bind p' e' t' => p.same p' && t == t' && e.same e'
  | .foreign d, .foreign d' => d == d'
  | _, _ => false
termination_by structural e => e
def sameExprs : List (Expr A D V T) → List (Expr A D V T) → Bool
  | [], [] => true
  | e :: es, e' :: es' => e.same e' && sameExprs es es'
  | _, _ => false
termination_by structural e => e
def sameGuards : List (Expr A D V T × Expr A D V T) → List (Expr A D V T × Expr A D V T) → Bool
  | [], [] => true
  | (c, e) :: bs, (c', e') :: bs' => c.same c' && e.same e' && sameGuards bs bs'
  | _, _ => false
termination_by structural e => e
def sameDefs : List (Def A D V T) → List (Def A D V T) → Bool
  | [], [] => true
  | d :: ds, d' :: ds' => d.same d' && sameDefs ds ds'
  | _, _ => false
termination_by structural e => e
def sameBranches : List (Pattern V × Expr A D V T) → List (Pattern V × Expr A D V T) → Bool
  | [], [] => true
  | (p, e) :: bs, (p', e') :: bs' => p.same p' && e.same e' && sameBranches bs bs'
  | _, _ => false
termination_by structural e => e
def sameFields : List (String × Expr A D V T) → List (String × Expr A D V T) → Bool
  | [], [] => true
  | (f, e) :: fs, (f', e') :: fs' => f == f' && e.same e' && sameFields fs fs'
  | _, _ => false
termination_by structural e => e
def sameChannels : Channel (Expr A D V T) T → Channel (Expr A D V T) T → Bool
  | .inbound n t, .inbound n' t' => n == n' && t == t'
  | .outbound n e t, .outbound n' e' t' => n == n' && t == t' && e.same e'
  | .task n e t, .task n' e' t' => n == n' && t == t' && e.same e'
  | _, _ => false
termination_by structural e => e
end

instance : BEq (Expr A D V T) := ⟨Expr.same⟩

instance : BEq (Def A D V T) := ⟨Def.same⟩

instance : BEq (Channel (Expr A D V T) T) := ⟨sameChannels⟩

end PhaseTree
