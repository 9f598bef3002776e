import PhaseTree.Proofs.Conversion.Recovery

set_option autoImplicit false

namespace PhaseTree

section

variable {σ S R X Y K : Type} {visit : S → StateM σ R}

/-- Running does to the state what the calls do to it, one after the other, and what is returned stands
in the relation `post` to their answers. -/
def Visits (visit : S → StateM σ R) (run : StateM σ X) (calls : List S) (post : X → List R → Prop) :
    Prop :=
  ∀ s, post (run.run s).1 ((calls.mapM visit).run s).1 ∧ (run.run s).2 = ((calls.mapM visit).run s).2

namespace Visits

theorem pure {x : X} {post : X → List R → Prop} (h : post x []) :
    Visits visit (Pure.pure x) [] post := fun _ => ⟨h, rfl⟩

theorem bind {run : StateM σ X} {next : X → StateM σ Y} {calls calls' : List S}
    {mid : X → List R → Prop} {post : Y → List R → Prop} (h : Visits visit run calls mid)
    (h' : ∀ x r, mid x r → Visits visit (next x) calls' fun y r' => post y (r ++ r')) :
    Visits visit (run >>= next) (calls ++ calls') post := by
  intro s
  obtain ⟨hr, hs⟩ := h s
  obtain ⟨hr', hs'⟩ := h' _ _ hr (run.run s).2
  rw [hs] at hr' hs'
  rw [List.mapM_append]
  constructor
  · change post ((next _).run (run.run s).2).1 _
    rw [hs]
    exact hr'
  · change ((next _).run (run.run s).2).2 = _
    rw [hs]
    exact hs'

theorem map {run : StateM σ X} {f : X → Y} {calls : List S} {mid : X → List R → Prop}
    {post : Y → List R → Prop} (h : Visits visit run calls mid) (h' : ∀ x r, mid x r → post (f x) r) :
    Visits visit (run >>= fun x => Pure.pure (f x)) calls post :=
  fun s => ⟨h' _ _ (h s).1, (h s).2⟩

theorem imp {run : StateM σ X} {calls : List S} {post post' : X → List R → Prop}
    (h : Visits visit run calls post) (h' : ∀ x r, post x r → post' x r) :
    Visits visit run calls post' :=
  fun s => ⟨h' _ _ (h s).1, (h s).2⟩

theorem single {slot : S} {hook : StateM σ X} {answer : X → R} (h : visit slot = answer <$> hook) :
    Visits visit hook [slot] fun x r => r = [answer x] := by
  intro s
  rw [List.mapM_cons, h]
  exact ⟨rfl, rfl⟩

theorem call {slot : S} {hook : StateM σ X} {answer : X → R} {next : X → StateM σ Y}
    {calls : List S} {post : Y → List R → Prop} (h : visit slot = answer <$> hook)
    (h' : ∀ x, Visits visit (next x) calls fun y r => post y (answer x :: r)) :
    Visits visit (hook >>= next) (slot :: calls) post := by
  refine (single h).bind fun x r hr => ?_
  subst hr
  exact h' x

end Visits

/-- Running makes the calls, each once and in order, and returns the one value of shape `k` whose slots
hold their answers. -/
def Fills (visit : S → StateM σ R) (calls : List S) (run : StateM σ X) (slots : X → List R)
    (shape : X → K) (k : K) : Prop :=
  ∀ s, ∃ x answers s', run.run s = (x, s') ∧ (calls.mapM visit).run s = (answers, s') ∧
    ∀ y, y = x ↔ slots y = answers ∧ shape y = k

theorem Visits.fills {run : StateM σ X} {calls : List S} {slots : X → List R} {shape : X → K} {k : K}
    (h : Visits visit run calls fun x r => r = slots x ∧ shape x = k)
    (recover : ∀ x y, shape x = shape y → slots x = slots y → x = y) :
    Fills visit calls run slots shape k := by
  intro s
  obtain ⟨⟨hr, hk⟩, hs⟩ := h s
  refine ⟨(run.run s).1, slots (run.run s).1, (run.run s).2, rfl, ?_, fun y => ?_⟩
  · exact Prod.ext hr hs.symm
  · constructor
    · rintro rfl
      exact ⟨rfl, hk⟩
    · rintro ⟨hy, hyk⟩
      exact recover y _ (hyk.trans hk.symm) hy

variable {V W : Type} {f : V → StateM σ W} {slot : V → S} {answer : W → R}

mutual
theorem Pattern.convert_visits (h : ∀ v, visit (slot v) = answer <$> f v) (p : Pattern V) :
    Visits visit (p.convert f) (p.names.map slot) fun p' r =>
      r = p'.names.map answer ∧ p'.shape = p.shape := by
  cases p with
  | data name args =>
    rw [convert, names]
    refine .call (h name) fun name' => (Pattern.convertAll_visits h args).map ?_
    rintro args' r ⟨rfl, hs⟩
    simp [names, shape, hs]
  | named name inner =>
    rw [convert, names]
    refine (Pattern.convert_visits h inner).map ?_
    rintro inner' r ⟨rfl, hs⟩
    simp [names, shape, hs]
  | record _ | var _ | any | lit _ => exact .pure ⟨rfl, rfl⟩
theorem Pattern.convertAll_visits (h : ∀ v, visit (slot v) = answer <$> f v)
    (ps : List (Pattern V)) :
    Visits visit (Pattern.convertAll f ps) ((Pattern.namesAll ps).map slot) fun ps' r =>
      r = (Pattern.namesAll ps').map answer ∧ Pattern.shapeAll ps' = Pattern.shapeAll ps := by
  cases ps with
  | nil => exact .pure ⟨rfl, rfl⟩
  | cons p ps =>
    rw [Pattern.convertAll, Pattern.namesAll, List.map_append]
    refine (Pattern.convert_visits h p).bind ?_
    rintro p' r ⟨rfl, hp⟩
    refine (Pattern.convertAll_visits h ps).map ?_
    rintro ps' r ⟨rfl, hs⟩
    simp [Pattern.namesAll, Pattern.shapeAll, hp, hs]
end

mutual
theorem TypeExpr.convert_visits (h : ∀ v, visit (slot v) = answer <$> f v) (t : TypeExpr V) :
    Visits visit (t.convert f) (t.names.map slot) fun t' r =>
      r = t'.names.map answer ∧ t'.shape = t.shape := by
  cases t with
  | function argument result =>
    rw [convert, names, List.map_append]
    refine (TypeExpr.convert_visits h argument).bind ?_
    rintro argument' r ⟨rfl, ha⟩
    refine (TypeExpr.convert_visits h result).map ?_
    rintro result' r ⟨rfl, hr⟩
    simp [names, shape, ha, hr]
  | var _ => exact .pure ⟨rfl, rfl⟩
  | con name =>
    rw [convert, names]
    refine .call (h name) fun name' => .pure ⟨rfl, rfl⟩
  | app head args =>
    rw [convert, names, List.map_append]
    refine (TypeExpr.convert_visits h head).bind ?_
    rintro head' r ⟨rfl, hh⟩
    refine (TypeExpr.convertAll_visits h args).map ?_
    rintro args' r ⟨rfl, hs⟩
    simp [names, shape, hh, hs]
  | record fields extension =>
    rw [convert, names, List.map_append]
    refine (TypeExpr.convertFields_visits h fields).bind ?_
    rintro fields' r ⟨rfl, hf⟩
    refine (TypeExpr.convertExtension_visits h extension).map ?_
    rintro extension' r ⟨rfl, he⟩
    simp [names, shape, hf, he]
theorem TypeExpr.convertAll_visits (h : ∀ v, visit (slot v) = answer <$> f v)
    (ts : List (TypeExpr V)) :
    Visits visit (TypeExpr.convertAll f ts) ((TypeExpr.namesAll ts).map slot) fun ts' r =>
      r = (TypeExpr.namesAll ts').map answer ∧ TypeExpr.shapeAll ts' = TypeExpr.shapeAll ts := by
  cases ts with
  | nil => exact .pure ⟨rfl, rfl⟩
  | cons t ts =>
    rw [TypeExpr.convertAll, TypeExpr.namesAll, List.map_append]
    refine (TypeExpr.convert_visits h t).bind ?_
    rintro t' r ⟨rfl, ht⟩
    refine (TypeExpr.convertAll_visits h ts).map ?_
    rintro ts' r ⟨rfl, hs⟩
    simp [TypeExpr.namesAll, TypeExpr.shapeAll, ht, hs]
theorem TypeExpr.convertFields_visits (h : ∀ v, visit (slot v) = answer <$> f v)
    (fields : List (String × TypeExpr V)) :
    Visits visit (TypeExpr.convertFields f fields) ((TypeExpr.namesFields fields).map slot)
      fun fields' r => r = (TypeExpr.namesFields fields').map answer ∧
        TypeExpr.shapeFields fields' = TypeExpr.shapeFields fields := by
  rcases fields with _ | ⟨⟨field, t⟩, fields⟩
  · exact .pure ⟨rfl, rfl⟩
  · rw [TypeExpr.convertFields, TypeExpr.namesFields, List.map_append]
    refine (TypeExpr.convert_visits h t).bind ?_
    rintro t' r ⟨rfl, ht⟩
    refine (TypeExpr.convertFields_visits h fields).map ?_
    rintro fields' r ⟨rfl, hf⟩
    simp [TypeExpr.namesFields, TypeExpr.shapeFields, ht, hf]
theorem TypeExpr.convertExtension_visits (h : ∀ v, visit (slot v) = answer <$> f v)
    (extension : Option (TypeExpr V)) :
    Visits visit (TypeExpr.convertExtension f extension)
      ((TypeExpr.namesExtension extension).map slot) fun extension' r =>
        r = (TypeExpr.namesExtension extension').map answer ∧
          TypeExpr.shapeExtension extension' = TypeExpr.shapeExtension extension := by
  cases extension with
  | none => exact .pure ⟨rfl, rfl⟩
  | some t =>
    rw [TypeExpr.convertExtension, TypeExpr.namesExtension]
    refine (TypeExpr.convert_visits h t).map ?_
    rintro t' r ⟨rfl, ht⟩
    simp [TypeExpr.namesExtension, TypeExpr.shapeExtension, ht]
end

end

section

variable {σ A B D V T A' B' D' V' T' : Type}

def Conversion.visit (c : Conversion σ A D V T A' D' V' T') (enter : Def A D V T → StateM σ B') :
    Slot A (Def A D V T) D V T → StateM σ (Slot A' B' D' V' T')
  | .note a => .note <$> c.note a
  | .name v => .name <$> c.name v
  | .type t => .type <$> c.type t
  | .foreign d => .foreign <$> c.foreign d
  | .definition d => .definition <$> enter d

theorem Conversion.visit_name (c : Conversion σ A D V T A' D' V' T') (enter : Def A D V T → StateM σ B')
    (name : V) : c.visit enter (.name name) = .name <$> c.name name := rfl

/-- At each definition the conversion does what the two depths say, provided that the traversal of the
definition itself does. -/
def Conversion.Suits (c : Conversion σ A D V T A' D' V' T') (enter : Def A D V T → StateM σ B')
    (depth : Depth A (Def A D V T) D V T) (depth' : Depth A' B' D' V' T') : Prop :=
  ∀ d : Def A D V T,
    (Visits (c.visit enter) (d.convert c) (d.slots depth) fun d' r =>
      r = d'.slots depth' ∧ d'.shape depth' = d.shape depth) →
    Visits (c.visit enter) (c.definition d (d.convert c)) (depth.slots d (d.slots depth)) fun d' r =>
      r = depth'.slots d' (d'.slots depth') ∧
        depth'.shape d' (d'.shape depth') = depth.shape d (d.shape depth)

variable {c : Conversion σ A D V T A' D' V' T'} {enter : Def A D V T → StateM σ B'}
  {depth : Depth A (Def A D V T) D V T} {depth' : Depth A' B' D' V' T'}

mutual
theorem Expr.convert_visits (suits : c.Suits enter depth depth') (e : Expr A D V T) :
    Visits (c.visit enter) (e.convert c) (e.slots depth) fun e' r =>
      r = e'.slots depth' ∧ e'.shape depth' = e.shape depth := by
  cases e with
  | lit a value | shader a uid source =>
    rw [Expr.convert, Expr.slots]
    exact .call rfl fun a' => .pure ⟨rfl, rfl⟩
  | var a name =>
    rw [Expr.convert, Expr.slots]
    exact .call rfl fun a' => .call rfl fun name' => .pure ⟨rfl, rfl⟩
  | range a low high =>
    rw [Expr.convert, Expr.slots]
    refine .call rfl fun a' => (Expr.convert_visits suits low).bind ?_
    rintro low' r ⟨rfl, hl⟩
    refine (Expr.convert_visits suits high).map ?_
    rintro high' r ⟨rfl, hh⟩
    simp [Expr.slots, Expr.shape, hl, hh]
  | list a items =>
    rw [Expr.convert, Expr.slots]
    refine .call rfl fun a' => (convertExprs_visits suits items).map ?_
    rintro items' r ⟨rfl, hi⟩
    simp [Expr.slots, Expr.shape, hi]
  | binop a op left right =>
    rw [Expr.convert, Expr.slots]
    refine .call rfl fun a' => .call rfl fun op' => (Expr.convert_visits suits left).bind ?_
    rintro left' r ⟨rfl, hl⟩
    refine (Expr.convert_visits suits right).map ?_
    rintro right' r ⟨rfl, hr⟩
    simp [Expr.slots, Expr.shape, hl, hr]
  | lambda a param body =>
    rw [Expr.convert, Expr.slots]
    refine .call rfl fun a' => (param.convert_visits (c.visit_name enter)).bind ?_
    rintro param' r ⟨rfl, hp⟩
    refine (Expr.convert_visits suits body).map ?_
    rintro body' r ⟨rfl, hb⟩
    simp [Expr.slots, Expr.shape, hp, hb]
  | app a func arg =>
    rw [Expr.convert, Expr.slots]
    refine .call rfl fun a' => (Expr.convert_visits suits func).bind ?_
    rintro func' r ⟨rfl, hf⟩
    refine (Expr.convert_visits suits arg).map ?_
    rintro arg' r ⟨rfl, hx⟩
    simp [Expr.slots, Expr.shape, hf, hx]
  | guards a branches =>
    rw [Expr.convert, Expr.slots]
    refine .call rfl fun a' => (convertGuards_visits suits branches).map ?_
    rintro branches' r ⟨rfl, hb⟩
    simp [Expr.slots, Expr.shape, hb]
  | letIn a defs body =>
    rw [Expr.convert, Expr.slots]
    refine .call rfl fun a' => (convertDefs_visits suits defs).bind ?_
    rintro defs' r ⟨rfl, hd⟩
    refine (Expr.convert_visits suits body).map ?_
    rintro body' r ⟨rfl, hb⟩
    simp [Expr.slots, Expr.shape, hd, hb]
  | case a subject branches =>
    rw [Expr.convert, Expr.slots]
    refine .call rfl fun a' => (Expr.convert_visits suits subject).bind ?_
    rintro subject' r ⟨rfl, hs⟩
    refine (convertBranches_visits suits branches).map ?_
    rintro branches' r ⟨rfl, hb⟩
    simp [Expr.slots, Expr.shape, hs, hb]
  | data a ctor args =>
    rw [Expr.convert, Expr.slots]
    refine .call rfl fun a' => (convertExprs_visits suits args).map ?_
    rintro args' r ⟨rfl, hs⟩
    simp [Expr.slots, Expr.shape, hs]
  | access a e field | remove a e field =>
    rw [Expr.convert, Expr.slots]
    refine .call rfl fun a' => (Expr.convert_visits suits e).map ?_
    rintro e' r ⟨rfl, he⟩
    simp [Expr.slots, Expr.shape, he]
  | insert a e field value =>
    rw [Expr.convert, Expr.slots]
    refine .call rfl fun a' => (Expr.convert_visits suits e).bind ?_
    rintro e' r ⟨rfl, he⟩
    refine (Expr.convert_visits suits value).map ?_
    rintro value' r ⟨rfl, hv⟩
    simp [Expr.slots, Expr.shape, he, hv]
  | modify a e fields =>
    rw [Expr.convert, Expr.slots]
    refine .call rfl fun a' => (Expr.convert_visits suits e).bind ?_
    rintro e' r ⟨rfl, he⟩
    refine (convertFields_visits suits fields).map ?_
    rintro fields' r ⟨rfl, hf⟩
    simp [Expr.slots, Expr.shape, he, hf]
  | record a fields =>
    rw [Expr.convert, Expr.slots]
    refine .call rfl fun a' => (convertFields_visits suits fields).map ?_
    rintro fields' r ⟨rfl, hf⟩
    simp [Expr.slots, Expr.shape, hf]
  | channel a channel =>
    rw [Expr.convert, Expr.slots]
    refine .call rfl fun a' => (convertChannel_visits suits channel).map ?_
    rintro channel' r ⟨rfl, hc⟩
    simp [Expr.slots, Expr.shape, hc]
theorem Def.convert_visits (suits : c.Suits enter depth depth') (d : Def A D V T) :
    Visits (c.visit enter) (d.convert c) (d.slots depth) fun d' r =>
      r = d'.slots depth' ∧ d'.shape depth' = d.shape depth := by
  rcases d with ⟨pattern, body, _ | type⟩ | definition <;> rw [Def.convert, Def.slots]
  · refine (pattern.convert_visits (c.visit_name enter)).bind ?_
    rintro pattern' r ⟨rfl, hp⟩
    refine (Expr.convert_visits suits body).bind ?_
    rintro body' r ⟨rfl, hb⟩
    exact .pure (by simp [Def.slots, Def.shape, hp, hb])
  · refine (pattern.convert_visits (c.visit_name enter)).bind ?_
    rintro pattern' r ⟨rfl, hp⟩
    refine (Expr.convert_visits suits body).bind ?_
    rintro body' r ⟨rfl, hb⟩
    exact .call rfl fun type' => .pure (by simp [Def.slots, Def.shape, hp, hb])
  · exact .call rfl fun definition' => .pure ⟨rfl, rfl⟩
theorem convertExprs_visits (suits : c.Suits enter depth depth') (es : List (Expr A D V T)) :
    Visits (c.visit enter) (convertExprs c es) (exprSlots depth es) fun es' r =>
      r = exprSlots depth' es' ∧ exprShapes depth' es' = exprShapes depth es := by
  cases es with
  | nil => exact .pure ⟨rfl, rfl⟩
  | cons e es =>
    rw [convertExprs, exprSlots]
    refine (Expr.convert_visits suits e).bind ?_
    rintro e' r ⟨rfl, he⟩
    refine (convertExprs_visits suits es).map ?_
    rintro es' r ⟨rfl, hs⟩
    simp [exprSlots, exprShapes, he, hs]
theorem convertDefs_visits (suits : c.Suits enter depth depth') (ds : List (Def A D V T)) :
    Visits (c.visit enter) (convertDefs c ds) (defSlots depth ds) fun ds' r =>
      r = defSlots depth' ds' ∧ defShapes depth' ds' = defShapes depth ds := by
  cases ds with
  | nil => exact .pure ⟨rfl, rfl⟩
  | cons d ds =>
    rw [convertDefs, defSlots]
    refine (suits d (Def.convert_visits suits d)).bind ?_
    rintro d' r ⟨rfl, hd⟩
    refine (convertDefs_visits suits ds).map ?_
    rintro ds' r ⟨rfl, hs⟩
    simp [defSlots, defShapes, hd, hs]
theorem convertGuards_visits (suits : c.Suits enter depth depth')
    (branches : List (Expr A D V T × Expr A D V T)) :
    Visits (c.visit enter) (convertGuards c branches) (guardSlots depth branches) fun branches' r =>
      r = guardSlots depth' branches' ∧ guardShapes depth' branches' = guardShapes depth branches := by
  rcases branches with _ | ⟨⟨condition, result⟩, branches⟩
  · exact .pure ⟨rfl, rfl⟩
  · rw [convertGuards, guardSlots]
    refine (Expr.convert_visits suits condition).bind ?_
    rintro condition' r ⟨rfl, hc⟩
    refine (Expr.convert_visits suits result).bind ?_
    rintro result' r ⟨rfl, hr⟩
    refine (convertGuards_visits suits branches).map ?_
    rintro branches' r ⟨rfl, hb⟩
    simp [guardSlots, guardShapes, hc, hr, hb]
theorem convertBranches_visits (suits : c.Suits enter depth depth')
    (branches : List (Pattern V × Expr A D V T)) :
    Visits (c.visit enter) (convertBranches c branches) (branchSlots depth branches)
      fun branches' r => r = branchSlots depth' branches' ∧
        branchShapes depth' branches' = branchShapes depth branches := by
  rcases branches with _ | ⟨⟨pattern, result⟩, branches⟩
  · exact .pure ⟨rfl, rfl⟩
  · rw [convertBranches, branchSlots]
    refine (pattern.convert_visits (c.visit_name enter)).bind ?_
    rintro pattern' r ⟨rfl, hp⟩
    refine (Expr.convert_visits suits result).bind ?_
    rintro result' r ⟨rfl, hr⟩
    refine (convertBranches_visits suits branches).map ?_
    rintro branches' r ⟨rfl, hb⟩
    simp [branchSlots, branchShapes, hp, hr, hb]
theorem convertFields_visits (suits : c.Suits enter depth depth')
    (fields : List (String × Expr A D V T)) :
    Visits (c.visit enter) (convertFields c fields) (fieldSlots depth fields) fun fields' r =>
      r = fieldSlots depth' fields' ∧ fieldShapes depth' fields' = fieldShapes depth fields := by
  rcases fields with _ | ⟨⟨field, value⟩, fields⟩
  · exact .pure ⟨rfl, rfl⟩
  · rw [convertFields, fieldSlots]
    refine (Expr.convert_visits suits value).bind ?_
    rintro value' r ⟨rfl, hv⟩
    refine (convertFields_visits suits fields).map ?_
    rintro fields' r ⟨rfl, hf⟩
    simp [fieldSlots, fieldShapes, hv, hf]
theorem convertChannel_visits (suits : c.Suits enter depth depth')
    (channel : Channel (Expr A D V T) T) :
    Visits (c.visit enter) (convertChannel c channel) (channelSlots depth channel) fun channel' r =>
      r = channelSlots depth' channel' ∧ channelShape depth' channel' = channelShape depth channel := by
  cases channel with
  | inbound name type =>
    rw [convertChannel, channelSlots]
    exact .call rfl fun type' => .pure ⟨rfl, rfl⟩
  | outbound name value type | task name value type =>
    rw [convertChannel, channelSlots]
    refine (Expr.convert_visits suits value).bind ?_
    rintro value' r ⟨rfl, hv⟩
    exact .call rfl fun type' => .pure (by simp [channelSlots, channelShape, hv])
end

theorem Conversion.suits_closed (c : Conversion σ A D V T A' D' V' T') :
    c.Suits (fun d => c.definition d (d.convert c)) .closed .closed := by
  intro d _
  have h : Visits (c.visit fun d => c.definition d (d.convert c)) (c.definition d (d.convert c))
      [.definition d] fun d' r => r = [.definition d'] := .single rfl
  exact h.imp fun d' r hr => ⟨hr, rfl⟩

def Conversion.entering (c : Conversion σ A D V T A' D' V' T') (enter : Def A D V T → StateM σ Unit) :
    Conversion σ A D V T A' D' V' T' :=
  { c with definition := fun d traverse => do enter d; traverse }

theorem Conversion.suits_entering (c : Conversion σ A D V T A' D' V' T')
    (enter : Def A D V T → StateM σ Unit) :
    (c.entering enter).Suits enter (.opened id) (.opened fun _ => ()) := by
  intro d h
  refine Visits.call rfl fun _ => h.imp ?_
  rintro d' r ⟨rfl, hd⟩
  exact ⟨rfl, hd⟩

/-- Where definitions have a hook of any kind, a definition is one slot; where the hook goes on into the
definition, its pattern, body and type follow. -/
theorem Expr.convert_fills_slots (c : Conversion σ A D V T A' D' V' T') :
    (∀ e : Expr A D V T, Fills (c.visit fun d => c.definition d (d.convert c)) (e.slots .closed)
      (e.convert c) (Expr.slots .closed) (Expr.shape .closed) (e.shape .closed)) ∧
    (∀ d : Def A D V T, Fills (c.visit fun d => c.definition d (d.convert c)) (d.slots .closed)
      (d.convert c) (Def.slots .closed) (Def.shape .closed) (d.shape .closed)) ∧
    (∀ (enter : Def A D V T → StateM σ Unit) (e : Expr A D V T),
      Fills (c.visit enter) (e.slots (.opened id)) (e.convert (c.entering enter))
        (Expr.slots (.opened fun _ => ())) (Expr.shape (.opened fun _ => ()))
        (e.shape (.opened id))) ∧
    (∀ (enter : Def A D V T → StateM σ Unit) (d : Def A D V T),
      Fills (c.visit enter) (d.slots (.opened id)) (d.convert (c.entering enter))
        (Def.slots (.opened fun _ => ())) (Def.shape (.opened fun _ => ()))
        (d.shape (.opened id))) ∧
    (∀ p : Pattern V, Fills c.name p.names (p.convert c.name) Pattern.names Pattern.shape p.shape) ∧
    ∀ t : TypeExpr V, Fills c.name t.names (t.convert c.name) TypeExpr.names TypeExpr.shape t.shape := by
  have closed := c.suits_closed
  refine ⟨fun e => ?_, fun d => ?_, fun enter e => ?_, fun enter d => ?_, fun p => ?_, fun t => ?_⟩
  · exact (e.convert_visits closed).fills (Expr.recover Depth.closed_faithful)
  · exact (d.convert_visits closed).fills (Def.recover Depth.closed_faithful)
  · exact (e.convert_visits (c.suits_entering enter)).fills
      (Expr.recover (Depth.opened_faithful _))
  · exact (d.convert_visits (c.suits_entering enter)).fills (Def.recover (Depth.opened_faithful _))
  · have h : Visits c.name (p.convert c.name) (p.names.map id) fun p' r =>
        r = p'.names.map id ∧ p'.shape = p.shape :=
      p.convert_visits fun v => (id_map (c.name v)).symm
    simp only [List.map_id] at h
    exact h.fills Pattern.recover
  · have h : Visits c.name (t.convert c.name) (t.names.map id) fun t' r =>
        r = t'.names.map id ∧ t'.shape = t.shape :=
      t.convert_visits fun v => (id_map (c.name v)).symm
    simp only [List.map_id] at h
    exact h.fills TypeExpr.recover

end

end PhaseTree
