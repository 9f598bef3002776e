import PhaseTree.Proofs.Conversion.Traversal

set_option autoImplicit false

namespace PhaseTree

/-- What becomes of the content of each slot, whatever happened before. -/
structure SlotMap (A D V T A' D' V' T' : Type) where
  note : A → A'
  name : V → V'
  type : T → T'
  foreign : D → D'

variable {σ A B C D V T A' B' D' V' T' A'' B'' D'' V'' T'' : Type}

namespace SlotMap

def identity : SlotMap A D V T A D V T := ⟨id, id, id, id⟩

def andThen (f : SlotMap A D V T A' D' V' T') (g : SlotMap A' D' V' T' A'' D'' V'' T'') :
    SlotMap A D V T A'' D'' V'' T'' :=
  ⟨g.note ∘ f.note, g.name ∘ f.name, g.type ∘ f.type, g.foreign ∘ f.foreign⟩

def conversion (σ : Type) (f : SlotMap A D V T A' D' V' T') : Conversion σ A D V T A' D' V' T' where
  note a := pure (f.note a)
  name v := pure (f.name v)
  type t := pure (f.type t)
  foreign d := pure (f.foreign d)
  definition _ traverse := traverse

def conversionWith (σ : Type) (f : SlotMap A D V T A' D' V' T') (define : Def A D V T → Def A' D' V' T') :
    Conversion σ A D V T A' D' V' T' :=
  { f.conversion σ with definition := fun d _ => pure (define d) }

def slot (f : SlotMap A D V T A' D' V' T') (enter : B → B') : Slot A B D V T → Slot A' B' D' V' T'
  | .note a => .note (f.note a)
  | .name v => .name (f.name v)
  | .type t => .type (f.type t)
  | .foreign d => .foreign (f.foreign d)
  | .definition d => .definition (enter d)

theorem slot_comp (f : SlotMap A D V T A' D' V' T') (g : SlotMap A' D' V' T' A'' D'' V'' T'')
    (enter : B → B') (enter' : B' → B'') :
    g.slot enter' ∘ f.slot enter = (f.andThen g).slot (enter' ∘ enter) := by
  funext slot
  cases slot <;> rfl

theorem visit_eq (f : SlotMap A D V T A' D' V' T') (enter : Def A D V T → B')
    (slot : Slot A (Def A D V T) D V T) :
    (f.conversion σ).visit (fun d => pure (enter d)) slot = pure (f.slot enter slot) := by
  cases slot <;> rfl

end SlotMap

@[simp] def Slot.reenter (entry : B → C) : Slot A B D V T → Slot A C D V T
  | note a => note a
  | name v => name v
  | type t => type t
  | foreign d => foreign d
  | definition d => definition (entry d)

@[simp] theorem Slot.reenter_comp_name (entry : B → C) :
    (reenter entry : Slot A B D V T → Slot A C D V T) ∘ name = name := rfl

@[simp] theorem Slot.reenter_comp_type (entry : B → C) :
    (reenter entry : Slot A B D V T → Slot A C D V T) ∘ type = type := rfl

section

variable (entry : Def A D V T → B)

mutual
theorem Expr.opened_slots (e : Expr A D V T) :
    (e.slots (.opened id)).map (Slot.reenter entry) = e.slots (.opened entry) ∧
      e.shape (.opened id) = e.shape (.opened entry) := by
  cases e with
  | lit a value | shader a uid source | var a name => exact ⟨rfl, rfl⟩
  | range a low high =>
    have hl := Expr.opened_slots low
    have hh := Expr.opened_slots high
    simp [Expr.slots, Expr.shape, hl, hh]
  | list a items =>
    have hi := opened_exprSlots items
    simp [Expr.slots, Expr.shape, hi]
  | binop a op left right =>
    have hl := Expr.opened_slots left
    have hr := Expr.opened_slots right
    simp [Expr.slots, Expr.shape, hl, hr]
  | lambda a param body =>
    have hb := Expr.opened_slots body
    simp [Expr.slots, Expr.shape, hb]
  | app a func arg =>
    have hf := Expr.opened_slots func
    have hx := Expr.opened_slots arg
    simp [Expr.slots, Expr.shape, hf, hx]
  | guards a branches =>
    have hb := opened_guardSlots branches
    simp [Expr.slots, Expr.shape, hb]
  | letIn a defs body =>
    have hd := opened_defSlots defs
    have hb := Expr.opened_slots body
    simp [Expr.slots, Expr.shape, hd, hb]
  | case a subject branches =>
    have hs := Expr.opened_slots subject
    have hb := opened_branchSlots branches
    simp [Expr.slots, Expr.shape, hs, hb]
  | data a ctor args =>
    have hs := opened_exprSlots args
    simp [Expr.slots, Expr.shape, hs]
  | access a e field | remove a e field =>
    have he := Expr.opened_slots e
    simp [Expr.slots, Expr.shape, he]
  | insert a e field value =>
    have he := Expr.opened_slots e
    have hv := Expr.opened_slots value
    simp [Expr.slots, Expr.shape, he, hv]
  | modify a e fields =>
    have he := Expr.opened_slots e
    have hf := opened_fieldSlots fields
    simp [Expr.slots, Expr.shape, he, hf]
  | record a fields =>
    have hf := opened_fieldSlots fields
    simp [Expr.slots, Expr.shape, hf]
  | channel a channel =>
    have hc := opened_channelSlots channel
    simp [Expr.slots, Expr.shape, hc]
termination_by structural e
theorem Def.opened_slots (d : Def A D V T) :
    (d.slots (.opened id)).map (Slot.reenter entry) = d.slots (.opened entry) ∧
      d.shape (.opened id) = d.shape (.opened entry) := by
  rcases d with ⟨pattern, body, type⟩ | definition
  · have hb := Expr.opened_slots body
    simp [Def.slots, Def.shape, hb]
  · exact ⟨rfl, rfl⟩
termination_by structural d
theorem opened_exprSlots (es : List (Expr A D V T)) :
    (exprSlots (.opened id) es).map (Slot.reenter entry) = exprSlots (.opened entry) es ∧
      exprShapes (.opened id) es = exprShapes (.opened entry) es := by
  cases es with
  | nil => exact ⟨rfl, rfl⟩
  | cons e es =>
    have he := Expr.opened_slots e
    have hs := opened_exprSlots es
    simp [exprSlots, exprShapes, he, hs]
termination_by structural es
theorem opened_defSlots (defs : List (Def A D V T)) :
    (defSlots (.opened id) defs).map (Slot.reenter entry) = defSlots (.opened entry) defs ∧
      defShapes (.opened id) defs = defShapes (.opened entry) defs := by
  cases defs with
  | nil => exact ⟨rfl, rfl⟩
  | cons d defs =>
    have hd := Def.opened_slots d
    have hs := opened_defSlots defs
    simp [defSlots, defShapes, Depth.opened] at hd hs ⊢
    simp [hd, hs]
termination_by structural defs
theorem opened_guardSlots (branches : List (Expr A D V T × Expr A D V T)) :
    (guardSlots (.opened id) branches).map (Slot.reenter entry) = guardSlots (.opened entry) branches ∧
      guardShapes (.opened id) branches = guardShapes (.opened entry) branches := by
  rcases branches with _ | ⟨⟨condition, result⟩, branches⟩
  · exact ⟨rfl, rfl⟩
  · have hc := Expr.opened_slots condition
    have hr := Expr.opened_slots result
    have hb := opened_guardSlots branches
    simp [guardSlots, guardShapes, hc, hr, hb]
termination_by structural branches
theorem opened_branchSlots (branches : List (Pattern V × Expr A D V T)) :
    (branchSlots (.opened id) branches).map (Slot.reenter entry) = branchSlots (.opened entry) branches ∧
      branchShapes (.opened id) branches = branchShapes (.opened entry) branches := by
  rcases branches with _ | ⟨⟨pattern, result⟩, branches⟩
  · exact ⟨rfl, rfl⟩
  · have hr := Expr.opened_slots result
    have hb := opened_branchSlots branches
    simp [branchSlots, branchShapes, hr, hb]
termination_by structural branches
theorem opened_fieldSlots (fields : List (String × Expr A D V T)) :
    (fieldSlots (.opened id) fields).map (Slot.reenter entry) = fieldSlots (.opened entry) fields ∧
      fieldShapes (.opened id) fields = fieldShapes (.opened entry) fields := by
  rcases fields with _ | ⟨⟨field, value⟩, fields⟩
  · exact ⟨rfl, rfl⟩
  · have hv := Expr.opened_slots value
    have hf := opened_fieldSlots fields
    simp [fieldSlots, fieldShapes, hv, hf]
termination_by structural fields
theorem opened_channelSlots (channel : Channel (Expr A D V T) T) :
    (channelSlots (.opened id) channel).map (Slot.reenter entry) = channelSlots (.opened entry) channel ∧
      channelShape (.opened id) channel = channelShape (.opened entry) channel := by
  cases channel with
  | inbound name type => exact ⟨rfl, rfl⟩
  | outbound name value type | task name value type =>
    have hv := Expr.opened_slots value
    simp [channelSlots, channelShape, hv]
termination_by structural channel
end

end

section

variable {S R X Y K L : Type} {run : StateM σ X} {slots : X → List S} {shape : X → K} {content : List S}
  {k : K}

/-- The state stays, and what is returned has these slots and this shape. -/
def Yields (run : StateM σ X) (slots : X → List S) (shape : X → K) (content : List S) (k : K) : Prop :=
  ∀ s, (run.run s).2 = s ∧ slots (run.run s).1 = content ∧ shape (run.run s).1 = k

theorem yields_pure (x : X) : Yields (σ := σ) (pure x) slots shape (slots x) (shape x) :=
  fun _ => ⟨rfl, rfl, rfl⟩

theorem Yields.bind {next : X → StateM σ Y} {slots' : Y → List R} {shape' : Y → L} {content' : List R}
    {l : L} (h : Yields run slots shape content k)
    (h' : ∀ x, slots x = content → shape x = k → Yields (next x) slots' shape' content' l) :
    Yields (run >>= next) slots' shape' content' l := by
  intro s
  obtain ⟨hs, hslots, hshape⟩ := h s
  have hb : (run >>= next).run s = (next (run.run s).1).run s := by
    change (next (run.run s).1).run (run.run s).2 = _
    rw [hs]
  rw [hb]
  exact h' _ hslots hshape s

theorem Yields.eq {run' : StateM σ X} (recover : ∀ x y, shape x = shape y → slots x = slots y → x = y)
    (h : Yields run slots shape content k) (h' : Yields run' slots shape content k) : run = run' := by
  funext s
  obtain ⟨hs, hslots, hshape⟩ := h s
  obtain ⟨hs', hslots', hshape'⟩ := h' s
  apply Prod.ext
  · exact recover _ _ (hshape.trans hshape'.symm) (hslots.trans hslots'.symm)
  · exact hs.trans hs'.symm

theorem yields_of_visits {visit : S → StateM σ R} {answer : S → R} {calls : List S} {slots : X → List R}
    (h : Visits visit run calls fun x r => r = slots x ∧ shape x = k)
    (hv : ∀ slot, visit slot = pure (answer slot)) : Yields run slots shape (calls.map answer) k := by
  intro s
  obtain ⟨⟨hr, hk⟩, hs⟩ := h s
  have hm : calls.mapM visit = pure (calls.map answer) := by
    rw [funext hv]
    exact List.mapM_pure
  rw [hm] at hr hs
  exact ⟨hs, hr.symm, hk⟩

end

namespace SlotMap

variable (f : SlotMap A D V T A' D' V' T')

theorem slot_reenter (enter : B → C) (enter' : C → B') (slots : List (Slot A B D V T)) :
    (slots.map (Slot.reenter enter)).map (f.slot enter') = slots.map (f.slot (enter' ∘ enter)) := by
  rw [List.map_map]
  apply List.map_congr_left
  intro slot _
  cases slot <;> rfl

theorem slot_identity (enter : B → C) :
    (identity.slot enter : Slot A B D V T → Slot A C D V T) = Slot.reenter enter := by
  funext slot
  cases slot <;> rfl

theorem convert_expr (e : Expr A D V T) :
    Yields (e.convert (f.conversion σ)) (Expr.slots (.opened fun _ => ())) (Expr.shape (.opened fun _ => ()))
      ((e.slots (.opened id)).map (f.slot fun _ => ())) (e.shape (.opened id)) :=
  yields_of_visits (e.convert_visits ((f.conversion σ).suits_entering fun _ => pure ())) (f.visit_eq _)

theorem convert_def (d : Def A D V T) :
    Yields (d.convert (f.conversion σ)) (Def.slots (.opened fun _ => ())) (Def.shape (.opened fun _ => ()))
      ((d.slots (.opened id)).map (f.slot fun _ => ())) (d.shape (.opened id)) :=
  yields_of_visits (d.convert_visits ((f.conversion σ).suits_entering fun _ => pure ())) (f.visit_eq _)

theorem convertWith_expr (define : Def A D V T → Def A' D' V' T') (e : Expr A D V T) :
    Yields (e.convert (f.conversionWith σ define)) (Expr.slots .closed) (Expr.shape .closed)
      ((e.slots .closed).map (f.slot define)) (e.shape .closed) :=
  yields_of_visits (e.convert_visits (f.conversionWith σ define).suits_closed) (f.visit_eq _)

theorem convertWith_def (define : Def A D V T → Def A' D' V' T') (d : Def A D V T) :
    Yields (d.convert (f.conversionWith σ define)) (Def.slots .closed) (Def.shape .closed)
      ((d.slots .closed).map (f.slot define)) (d.shape .closed) :=
  yields_of_visits (d.convert_visits (f.conversionWith σ define).suits_closed) (f.visit_eq _)

variable {f} {g : SlotMap A' D' V' T' A'' D'' V'' T''}

theorem convert_identity_expr (e : Expr A D V T) : e.convert (identity.conversion σ) = pure e := by
  have h := identity.convert_expr (σ := σ) e
  obtain ⟨hslots, hshape⟩ := e.opened_slots fun _ => ()
  rw [slot_identity, hslots, hshape] at h
  exact h.eq (Expr.recover (Depth.opened_faithful _)) (yields_pure e)

theorem convert_identity_def (d : Def A D V T) : d.convert (identity.conversion σ) = pure d := by
  have h := identity.convert_def (σ := σ) d
  obtain ⟨hslots, hshape⟩ := d.opened_slots fun _ => ()
  rw [slot_identity, hslots, hshape] at h
  exact h.eq (Def.recover (Depth.opened_faithful _)) (yields_pure d)

theorem slots_twice {content : List (Slot A (Def A D V T) D V T)} {inside : List (Slot A' B D' V' T')}
    (h : inside.map (Slot.reenter fun _ => ()) = content.map (f.slot fun _ => ())) :
    inside.map (g.slot fun _ => ()) = content.map ((f.andThen g).slot fun _ => ()) := by
  have hg : inside.map (g.slot fun _ => ()) =
      (inside.map (Slot.reenter fun _ => ())).map (g.slot id) := (g.slot_reenter _ id inside).symm
  rw [hg, h, List.map_map, slot_comp]

theorem convert_andThen_expr (e : Expr A D V T) :
    (e.convert (f.conversion σ) >>= fun e' => e'.convert (g.conversion σ)) =
      e.convert ((f.andThen g).conversion σ) := by
  refine Yields.eq (Expr.recover (Depth.opened_faithful _)) ?_ ((f.andThen g).convert_expr e)
  refine (f.convert_expr e).bind fun e' hslots hshape => ?_
  have h := g.convert_expr (σ := σ) e'
  obtain ⟨hslots', hshape'⟩ := e'.opened_slots fun _ => ()
  rwa [slots_twice (hslots'.trans hslots), hshape'.trans hshape] at h

theorem convert_andThen_def (d : Def A D V T) :
    (d.convert (f.conversion σ) >>= fun d' => d'.convert (g.conversion σ)) =
      d.convert ((f.andThen g).conversion σ) := by
  refine Yields.eq (Def.recover (Depth.opened_faithful _)) ?_ ((f.andThen g).convert_def d)
  refine (f.convert_def d).bind fun d' hslots hshape => ?_
  have h := g.convert_def (σ := σ) d'
  obtain ⟨hslots', hshape'⟩ := d'.opened_slots fun _ => ()
  rwa [slots_twice (hslots'.trans hslots), hshape'.trans hshape] at h

theorem convertWith_andThen_expr (define : Def A D V T → Def A' D' V' T')
    (define' : Def A' D' V' T' → Def A'' D'' V'' T'') (e : Expr A D V T) :
    (e.convert (f.conversionWith σ define) >>= fun e' => e'.convert (g.conversionWith σ define')) =
      e.convert ((f.andThen g).conversionWith σ (define' ∘ define)) := by
  refine Yields.eq (Expr.recover Depth.closed_faithful) ?_ ((f.andThen g).convertWith_expr _ e)
  refine (f.convertWith_expr define e).bind fun e' hslots hshape => ?_
  have h := g.convertWith_expr (σ := σ) define' e'
  rwa [hslots, List.map_map, slot_comp, hshape] at h

theorem convertWith_andThen_def (define : Def A D V T → Def A' D' V' T')
    (define' : Def A' D' V' T' → Def A'' D'' V'' T'') (d : Def A D V T) :
    (d.convert (f.conversionWith σ define) >>= fun d' => d'.convert (g.conversionWith σ define')) =
      d.convert ((f.andThen g).conversionWith σ (define' ∘ define)) := by
  refine Yields.eq (Def.recover Depth.closed_faithful) ?_ ((f.andThen g).convertWith_def _ d)
  refine (f.convertWith_def define d).bind fun d' hslots hshape => ?_
  have h := g.convertWith_def (σ := σ) define' d'
  rwa [hslots, List.map_map, slot_comp, hshape] at h

end SlotMap

variable {W X : Type}

theorem Pattern.convert_yields (f : V → W) (p : Pattern V) :
    Yields (p.convert fun v => (pure (f v) : StateM σ W)) names shape (p.names.map f) p.shape := by
  have h : Visits (pure : W → StateM σ W) (p.convert fun v => pure (f v)) (p.names.map f) fun p' r =>
      r = p'.names.map id ∧ p'.shape = p.shape := p.convert_visits fun v => (id_map (pure (f v))).symm
  simp only [List.map_id] at h
  have hy := yields_of_visits h fun _ => rfl
  rwa [List.map_id'] at hy

theorem TypeExpr.convert_yields (f : V → W) (t : TypeExpr V) :
    Yields (t.convert fun v => (pure (f v) : StateM σ W)) names shape (t.names.map f) t.shape := by
  have h : Visits (pure : W → StateM σ W) (t.convert fun v => pure (f v)) (t.names.map f) fun t' r =>
      r = t'.names.map id ∧ t'.shape = t.shape := t.convert_visits fun v => (id_map (pure (f v))).symm
  simp only [List.map_id] at h
  have hy := yields_of_visits h fun _ => rfl
  rwa [List.map_id'] at hy

theorem Pattern.convert_identity (p : Pattern V) : p.convert (fun v => (pure v : StateM σ V)) = pure p := by
  have h := p.convert_yields (σ := σ) (fun v => v)
  rw [List.map_id'] at h
  exact h.eq Pattern.recover (yields_pure p)

theorem TypeExpr.convert_identity (t : TypeExpr V) : t.convert (fun v => (pure v : StateM σ V)) = pure t := by
  have h := t.convert_yields (σ := σ) (fun v => v)
  rw [List.map_id'] at h
  exact h.eq TypeExpr.recover (yields_pure t)

theorem Pattern.convert_andThen (f : V → W) (g : W → X) (p : Pattern V) :
    (p.convert (fun v => (pure (f v) : StateM σ W)) >>= fun p' => p'.convert fun w => pure (g w)) =
      p.convert fun v => pure (g (f v)) := by
  refine Yields.eq Pattern.recover ?_ (p.convert_yields fun v => g (f v))
  refine (p.convert_yields f).bind fun p' hnames hshape => ?_
  have h := p'.convert_yields (σ := σ) g
  rwa [hnames, List.map_map, hshape] at h

theorem TypeExpr.convert_andThen (f : V → W) (g : W → X) (t : TypeExpr V) :
    (t.convert (fun v => (pure (f v) : StateM σ W)) >>= fun t' => t'.convert fun w => pure (g w)) =
      t.convert fun v => pure (g (f v)) := by
  refine Yields.eq TypeExpr.recover ?_ (t.convert_yields fun v => g (f v))
  refine (t.convert_yields f).bind fun t' hnames hshape => ?_
  have h := t'.convert_yields (σ := σ) g
  rwa [hnames, List.map_map, hshape] at h

/-- The laws hold for every type of states. Those of composition hold if definitions are converted like
all other parts, and also if they have hooks of their own. -/
theorem convert_functorial (σ : Type) :
    (Expr.convert (SlotMap.identity.conversion σ) = (pure : Expr A D V T → StateM σ (Expr A D V T)) ∧
      Def.convert (SlotMap.identity.conversion σ) = (pure : Def A D V T → StateM σ (Def A D V T)) ∧
      Pattern.convert pure = (pure : Pattern V → StateM σ (Pattern V)) ∧
      TypeExpr.convert pure = (pure : TypeExpr V → StateM σ (TypeExpr V))) ∧
    (∀ (f : SlotMap A D V T A' D' V' T') (g : SlotMap A' D' V' T' A'' D'' V'' T''),
      Expr.convert (f.conversion σ) >=> Expr.convert (g.conversion σ) =
          Expr.convert ((f.andThen g).conversion σ) ∧
        Def.convert (f.conversion σ) >=> Def.convert (g.conversion σ) =
          Def.convert ((f.andThen g).conversion σ) ∧
        ∀ (define : Def A D V T → Def A' D' V' T') (define' : Def A' D' V' T' → Def A'' D'' V'' T''),
          Expr.convert (f.conversionWith σ define) >=> Expr.convert (g.conversionWith σ define') =
              Expr.convert ((f.andThen g).conversionWith σ (define' ∘ define)) ∧
            Def.convert (f.conversionWith σ define) >=> Def.convert (g.conversionWith σ define') =
              Def.convert ((f.andThen g).conversionWith σ (define' ∘ define))) ∧
    ∀ (f : V → W) (g : W → X),
      Pattern.convert (pure ∘ f : V → StateM σ W) >=> Pattern.convert (pure ∘ g) =
          Pattern.convert (pure ∘ g ∘ f) ∧
        TypeExpr.convert (pure ∘ f : V → StateM σ W) >=> TypeExpr.convert (pure ∘ g) =
          TypeExpr.convert (pure ∘ g ∘ f) := by
  refine ⟨⟨?_, ?_, ?_, ?_⟩, fun f g => ⟨?_, ?_, fun define define' => ⟨?_, ?_⟩⟩, fun f g => ⟨?_, ?_⟩⟩
  · funext e
    exact SlotMap.convert_identity_expr e
  · funext d
    exact SlotMap.convert_identity_def d
  · funext p
    exact p.convert_identity
  · funext t
    exact t.convert_identity
  · funext e
    exact SlotMap.convert_andThen_expr e
  · funext d
    exact SlotMap.convert_andThen_def d
  · funext e
    exact SlotMap.convertWith_andThen_expr define define' e
  · funext d
    exact SlotMap.convertWith_andThen_def define define' d
  · funext p
    exact p.convert_andThen f g
  · funext t
    exact t.convert_andThen f g

end PhaseTree
