import Mathlib.Logic.Function.Basic
import PhaseTree.Proofs.Conversion.Slots

set_option autoImplicit false

namespace PhaseTree

variable {A B D V T : Type}

section

variable {S : Type} {g : V → S}

mutual
theorem Pattern.eq_of_shape_of_names (hg : g.Injective) {p p' : Pattern V} {r r' : List S}
    (hs : p.shape = p'.shape) (h : p.names.map g ++ r = p'.names.map g ++ r') :
    p = p' ∧ r = r' := by
  cases p <;> cases p' <;> simp [Pattern.shape] at hs
  case data.data name args name' args' =>
    simp only [Pattern.names, List.map_cons, List.cons_append, List.cons.injEq] at h
    obtain ⟨ha, hr⟩ := Pattern.eq_of_shapeAll_of_names hg hs h.2
    simp [hg h.1, ha, hr]
  case named.named name inner name' inner' =>
    obtain ⟨hi, hr⟩ := Pattern.eq_of_shape_of_names hg hs.2 h
    simp [hs.1, hi, hr]
  case record.record => exact ⟨by rw [hs], h⟩
  case var.var => exact ⟨by rw [hs], h⟩
  case any.any => exact ⟨rfl, h⟩
  case lit.lit => exact ⟨by rw [hs], h⟩
theorem Pattern.eq_of_shapeAll_of_names (hg : g.Injective) {ps ps' : List (Pattern V)}
    {r r' : List S} (hs : Pattern.shapeAll ps = Pattern.shapeAll ps')
    (h : (Pattern.namesAll ps).map g ++ r = (Pattern.namesAll ps').map g ++ r') :
    ps = ps' ∧ r = r' := by
  cases ps <;> cases ps' <;> simp [Pattern.shapeAll] at hs
  case nil.nil => exact ⟨rfl, h⟩
  case cons.cons p ps p' ps' =>
    simp only [Pattern.namesAll, List.map_append, List.append_assoc] at h
    obtain ⟨hp, hr⟩ := Pattern.eq_of_shape_of_names hg hs.1 h
    obtain ⟨hps, hr⟩ := Pattern.eq_of_shapeAll_of_names hg hs.2 hr
    simp [hp, hps, hr]
end

mutual
theorem TypeExpr.eq_of_shape_of_names (hg : g.Injective) {t t' : TypeExpr V} {r r' : List S}
    (hs : t.shape = t'.shape) (h : t.names.map g ++ r = t'.names.map g ++ r') :
    t = t' ∧ r = r' := by
  cases t <;> cases t' <;> simp [TypeExpr.shape] at hs <;> simp [TypeExpr.names] at h
  case function.function argument result argument' result' =>
    obtain ⟨ha, hr⟩ := TypeExpr.eq_of_shape_of_names hg hs.1 h
    obtain ⟨hb, hr⟩ := TypeExpr.eq_of_shape_of_names hg hs.2 hr
    simp [ha, hb, hr]
  case var.var name name' => exact ⟨by rw [hs], h⟩
  case con.con name name' => exact ⟨by rw [hg h.1], h.2⟩
  case app.app head args head' args' =>
    obtain ⟨hh, hr⟩ := TypeExpr.eq_of_shape_of_names hg hs.1 h
    obtain ⟨ha, hr⟩ := TypeExpr.eq_of_shapeAll_of_names hg hs.2 hr
    simp [hh, ha, hr]
  case record.record fields extension fields' extension' =>
    obtain ⟨hf, hr⟩ := TypeExpr.eq_of_shapeFields_of_names hg hs.1 h
    obtain ⟨he, hr⟩ := TypeExpr.eq_of_shapeExtension_of_names hg hs.2 hr
    simp [hf, he, hr]
termination_by structural t
theorem TypeExpr.eq_of_shapeAll_of_names (hg : g.Injective) {ts ts' : List (TypeExpr V)}
    {r r' : List S} (hs : TypeExpr.shapeAll ts = TypeExpr.shapeAll ts')
    (h : (TypeExpr.namesAll ts).map g ++ r = (TypeExpr.namesAll ts').map g ++ r') :
    ts = ts' ∧ r = r' := by
  cases ts <;> cases ts' <;> simp [TypeExpr.shapeAll] at hs
  case nil.nil => exact ⟨rfl, h⟩
  case cons.cons t ts t' ts' =>
    simp only [TypeExpr.namesAll, List.map_append, List.append_assoc] at h
    obtain ⟨ht, hr⟩ := TypeExpr.eq_of_shape_of_names hg hs.1 h
    obtain ⟨hts, hr⟩ := TypeExpr.eq_of_shapeAll_of_names hg hs.2 hr
    simp [ht, hts, hr]
termination_by structural ts
theorem TypeExpr.eq_of_shapeFields_of_names (hg : g.Injective)
    {fields fields' : List (String × TypeExpr V)} {r r' : List S}
    (hs : TypeExpr.shapeFields fields = TypeExpr.shapeFields fields')
    (h : (TypeExpr.namesFields fields).map g ++ r = (TypeExpr.namesFields fields').map g ++ r') :
    fields = fields' ∧ r = r' := by
  rcases fields with _ | ⟨⟨field, t⟩, fields⟩ <;> rcases fields' with _ | ⟨⟨field', t'⟩, fields'⟩ <;>
    simp [TypeExpr.shapeFields] at hs
  · exact ⟨rfl, h⟩
  · simp only [TypeExpr.namesFields, List.map_append, List.append_assoc] at h
    obtain ⟨ht, hr⟩ := TypeExpr.eq_of_shape_of_names hg hs.1.2 h
    obtain ⟨hf, hr⟩ := TypeExpr.eq_of_shapeFields_of_names hg hs.2 hr
    simp [hs.1.1, ht, hf, hr]
termination_by structural fields
theorem TypeExpr.eq_of_shapeExtension_of_names (hg : g.Injective)
    {extension extension' : Option (TypeExpr V)} {r r' : List S}
    (hs : TypeExpr.shapeExtension extension = TypeExpr.shapeExtension extension')
    (h : (TypeExpr.namesExtension extension).map g ++ r =
      (TypeExpr.namesExtension extension').map g ++ r') : extension = extension' ∧ r = r' := by
  cases extension <;> cases extension' <;> simp [TypeExpr.shapeExtension] at hs
  case none.none => exact ⟨rfl, h⟩
  case some.some t t' =>
    obtain ⟨ht, hr⟩ := TypeExpr.eq_of_shape_of_names hg hs h
    simp [ht, hr]
termination_by structural extension
end

end

theorem Slot.name_injective : Function.Injective (Slot.name : V → Slot A B D V T) :=
  fun _ _ => Slot.name.inj

/-- What a definition contributes tells which one it is, if its own slots do. -/
def Depth.Faithful (depth : Depth A B D V T) : Prop :=
  ∀ (d d' : Def A D V T) (r r' : List (Slot A B D V T)),
    (∀ r r', d.shape depth = d'.shape depth → d.slots depth ++ r = d'.slots depth ++ r' →
      d = d' ∧ r = r') →
    depth.shape d (d.shape depth) = depth.shape d' (d'.shape depth) →
    depth.slots d (d.slots depth) ++ r = depth.slots d' (d'.slots depth) ++ r' → d = d' ∧ r = r'

theorem Depth.closed_faithful : (closed : Depth A (Def A D V T) D V T).Faithful := by
  intro d d' r r' _ _ h
  obtain ⟨hd, hr⟩ := List.cons.inj h
  exact ⟨Slot.definition.inj hd, hr⟩

theorem Depth.opened_faithful (entry : Def A D V T → B) : (opened entry).Faithful := by
  intro d d' r r' ih hs h
  exact ih r r' hs (List.cons.inj h).2

variable {depth : Depth A B D V T}

mutual
theorem Expr.eq_of_shape_of_slots (faithful : depth.Faithful) {e e' : Expr A D V T}
    {r r' : List (Slot A B D V T)} (hs : e.shape depth = e'.shape depth)
    (h : e.slots depth ++ r = e'.slots depth ++ r') : e = e' ∧ r = r' := by
  -- The shapes leave only the pairs of one and the same constructor.
  cases e <;> cases e' <;> simp [Expr.shape] at hs <;> simp [Expr.slots] at h
  case lit.lit => simp [h, hs]
  case var.var => simp [h]
  case range.range a low high a' low' high' =>
    obtain ⟨hl, hr⟩ := Expr.eq_of_shape_of_slots faithful hs.1 h.2
    obtain ⟨hh, hr⟩ := Expr.eq_of_shape_of_slots faithful hs.2 hr
    simp [h.1, hl, hh, hr]
  case list.list a items a' items' =>
    obtain ⟨hi, hr⟩ := eq_of_exprShapes faithful hs h.2
    simp [h.1, hi, hr]
  case binop.binop a op left right a' op' left' right' =>
    obtain ⟨hl, hr⟩ := Expr.eq_of_shape_of_slots faithful hs.1 h.2.2
    obtain ⟨hx, hr⟩ := Expr.eq_of_shape_of_slots faithful hs.2 hr
    simp [h.1, h.2.1, hl, hx, hr]
  case lambda.lambda a param body a' param' body' =>
    obtain ⟨hp, hr⟩ := Pattern.eq_of_shape_of_names Slot.name_injective hs.1 h.2
    obtain ⟨hb, hr⟩ := Expr.eq_of_shape_of_slots faithful hs.2 hr
    simp [h.1, hp, hb, hr]
  case app.app a func arg a' func' arg' =>
    obtain ⟨hf, hr⟩ := Expr.eq_of_shape_of_slots faithful hs.1 h.2
    obtain ⟨hx, hr⟩ := Expr.eq_of_shape_of_slots faithful hs.2 hr
    simp [h.1, hf, hx, hr]
  case guards.guards a branches a' branches' =>
    obtain ⟨hb, hr⟩ := eq_of_guardShapes faithful hs h.2
    simp [h.1, hb, hr]
  case letIn.letIn a defs body a' defs' body' =>
    obtain ⟨hd, hr⟩ := eq_of_defShapes faithful hs.1 h.2
    obtain ⟨hb, hr⟩ := Expr.eq_of_shape_of_slots faithful hs.2 hr
    simp [h.1, hd, hb, hr]
  case case.case a subject branches a' subject' branches' =>
    obtain ⟨he, hr⟩ := Expr.eq_of_shape_of_slots faithful hs.1 h.2
    obtain ⟨hb, hr⟩ := eq_of_branchShapes faithful hs.2 hr
    simp [h.1, he, hb, hr]
  case data.data a ctor args a' ctor' args' =>
    obtain ⟨hx, hr⟩ := eq_of_exprShapes faithful hs.2 h.2
    simp [h.1, hs.1, hx, hr]
  case access.access a e field a' e' field' =>
    obtain ⟨he, hr⟩ := Expr.eq_of_shape_of_slots faithful hs.1 h.2
    simp [h.1, hs.2, he, hr]
  case remove.remove a e field a' e' field' =>
    obtain ⟨he, hr⟩ := Expr.eq_of_shape_of_slots faithful hs.1 h.2
    simp [h.1, hs.2, he, hr]
  case insert.insert a e field value a' e' field' value' =>
    obtain ⟨he, hr⟩ := Expr.eq_of_shape_of_slots faithful hs.1 h.2
    obtain ⟨hv, hr⟩ := Expr.eq_of_shape_of_slots faithful hs.2.2 hr
    simp [h.1, hs.2.1, he, hv, hr]
  case modify.modify a e fields a' e' fields' =>
    obtain ⟨he, hr⟩ := Expr.eq_of_shape_of_slots faithful hs.1 h.2
    obtain ⟨hf, hr⟩ := eq_of_fieldShapes faithful hs.2 hr
    simp [h.1, he, hf, hr]
  case record.record a fields a' fields' =>
    obtain ⟨hf, hr⟩ := eq_of_fieldShapes faithful hs h.2
    simp [h.1, hf, hr]
  case channel.channel a channel a' channel' =>
    obtain ⟨hc, hr⟩ := eq_of_channelShape faithful hs h.2
    simp [h.1, hc, hr]
  case shader.shader => simp [h, hs]
termination_by structural e
theorem Def.eq_of_shape_of_slots (faithful : depth.Faithful) {d d' : Def A D V T}
    {r r' : List (Slot A B D V T)} (hs : d.shape depth = d'.shape depth)
    (h : d.slots depth ++ r = d'.slots depth ++ r') : d = d' ∧ r = r' := by
  cases d <;> cases d' <;> simp [Def.shape] at hs <;> simp [Def.slots] at h
  case bind.bind pattern body type pattern' body' type' =>
    obtain ⟨hp, hr⟩ := Pattern.eq_of_shape_of_names Slot.name_injective hs.1 h
    obtain ⟨hb, hr⟩ := Expr.eq_of_shape_of_slots faithful hs.2.1 hr
    cases type <;> cases type' <;> simp at hs hr
    · simp [hp, hb, hr]
    · simp [hp, hb, hr]
  case foreign.foreign => simp [h]
termination_by structural d
theorem eq_of_exprShapes (faithful : depth.Faithful) {es es' : List (Expr A D V T)}
    {r r' : List (Slot A B D V T)} (hs : exprShapes depth es = exprShapes depth es')
    (h : exprSlots depth es ++ r = exprSlots depth es' ++ r') : es = es' ∧ r = r' := by
  cases es <;> cases es' <;> simp [exprShapes] at hs
  case nil.nil => exact ⟨rfl, h⟩
  case cons.cons e es e' es' =>
    simp only [exprSlots, List.append_assoc] at h
    obtain ⟨he, hr⟩ := Expr.eq_of_shape_of_slots faithful hs.1 h
    obtain ⟨hes, hr⟩ := eq_of_exprShapes faithful hs.2 hr
    simp [he, hes, hr]
termination_by structural es
theorem eq_of_defShapes (faithful : depth.Faithful) {ds ds' : List (Def A D V T)}
    {r r' : List (Slot A B D V T)} (hs : defShapes depth ds = defShapes depth ds')
    (h : defSlots depth ds ++ r = defSlots depth ds' ++ r') : ds = ds' ∧ r = r' := by
  cases ds <;> cases ds' <;> simp [defShapes] at hs
  case nil.nil => exact ⟨rfl, h⟩
  case cons.cons d ds d' ds' =>
    simp only [defSlots, List.append_assoc] at h
    obtain ⟨hd, hr⟩ := faithful d d' _ _ (fun _ _ => Def.eq_of_shape_of_slots faithful) hs.1 h
    obtain ⟨hds, hr⟩ := eq_of_defShapes faithful hs.2 hr
    simp [hd, hds, hr]
termination_by structural ds
theorem eq_of_guardShapes (faithful : depth.Faithful)
    {branches branches' : List (Expr A D V T × Expr A D V T)} {r r' : List (Slot A B D V T)}
    (hs : guardShapes depth branches = guardShapes depth branches')
    (h : guardSlots depth branches ++ r = guardSlots depth branches' ++ r') :
    branches = branches' ∧ r = r' := by
  rcases branches with _ | ⟨⟨condition, result⟩, branches⟩ <;>
    rcases branches' with _ | ⟨⟨condition', result'⟩, branches'⟩ <;> simp [guardShapes] at hs
  · exact ⟨rfl, h⟩
  · simp only [guardSlots, List.append_assoc] at h
    obtain ⟨hc, hr⟩ := Expr.eq_of_shape_of_slots faithful hs.1.1 h
    obtain ⟨hx, hr⟩ := Expr.eq_of_shape_of_slots faithful hs.1.2 hr
    obtain ⟨hb, hr⟩ := eq_of_guardShapes faithful hs.2 hr
    simp [hc, hx, hb, hr]
termination_by structural branches
theorem eq_of_branchShapes (faithful : depth.Faithful)
    {branches branches' : List (Pattern V × Expr A D V T)} {r r' : List (Slot A B D V T)}
    (hs : branchShapes depth branches = branchShapes depth branches')
    (h : branchSlots depth branches ++ r = branchSlots depth branches' ++ r') :
    branches = branches' ∧ r = r' := by
  rcases branches with _ | ⟨⟨pattern, result⟩, branches⟩ <;>
    rcases branches' with _ | ⟨⟨pattern', result'⟩, branches'⟩ <;> simp [branchShapes] at hs
  · exact ⟨rfl, h⟩
  · simp only [branchSlots, List.append_assoc] at h
    obtain ⟨hp, hr⟩ := Pattern.eq_of_shape_of_names Slot.name_injective hs.1.1 h
    obtain ⟨hx, hr⟩ := Expr.eq_of_shape_of_slots faithful hs.1.2 hr
    obtain ⟨hb, hr⟩ := eq_of_branchShapes faithful hs.2 hr
    simp [hp, hx, hb, hr]
termination_by structural branches
theorem eq_of_fieldShapes (faithful : depth.Faithful)
    {fields fields' : List (String × Expr A D V T)} {r r' : List (Slot A B D V T)}
    (hs : fieldShapes depth fields = fieldShapes depth fields')
    (h : fieldSlots depth fields ++ r = fieldSlots depth fields' ++ r') :
    fields = fields' ∧ r = r' := by
  rcases fields with _ | ⟨⟨field, value⟩, fields⟩ <;>
    rcases fields' with _ | ⟨⟨field', value'⟩, fields'⟩ <;> simp [fieldShapes] at hs
  · exact ⟨rfl, h⟩
  · simp only [fieldSlots, List.append_assoc] at h
    obtain ⟨hv, hr⟩ := Expr.eq_of_shape_of_slots faithful hs.1.2 h
    obtain ⟨hf, hr⟩ := eq_of_fieldShapes faithful hs.2 hr
    simp [hs.1.1, hv, hf, hr]
termination_by structural fields
theorem eq_of_channelShape (faithful : depth.Faithful) {c c' : Channel (Expr A D V T) T}
    {r r' : List (Slot A B D V T)} (hs : channelShape depth c = channelShape depth c')
    (h : channelSlots depth c ++ r = channelSlots depth c' ++ r') : c = c' ∧ r = r' := by
  cases c <;> cases c' <;> simp [channelShape] at hs <;> simp [channelSlots] at h
  case inbound.inbound => simp [hs, h]
  case outbound.outbound name value type name' value' type' =>
    obtain ⟨hv, hr⟩ := Expr.eq_of_shape_of_slots faithful hs.2 h
    simp at hr
    simp [hs.1, hv, hr]
  case task.task name value type name' value' type' =>
    obtain ⟨hv, hr⟩ := Expr.eq_of_shape_of_slots faithful hs.2 h
    simp at hr
    simp [hs.1, hv, hr]
termination_by structural c
end

theorem Pattern.recover (p p' : Pattern V) (hs : p.shape = p'.shape) (h : p.names = p'.names) :
    p = p' := by
  have hn : p.names.map id ++ [] = p'.names.map id ++ [] := by rw [h]
  exact (Pattern.eq_of_shape_of_names Function.injective_id hs hn).1

theorem TypeExpr.recover (t t' : TypeExpr V) (hs : t.shape = t'.shape) (h : t.names = t'.names) :
    t = t' := by
  have hn : t.names.map id ++ [] = t'.names.map id ++ [] := by rw [h]
  exact (TypeExpr.eq_of_shape_of_names Function.injective_id hs hn).1

theorem Expr.recover (faithful : depth.Faithful) (e e' : Expr A D V T)
    (hs : e.shape depth = e'.shape depth) (h : e.slots depth = e'.slots depth) : e = e' := by
  have hn : e.slots depth ++ [] = e'.slots depth ++ [] := by rw [h]
  exact (Expr.eq_of_shape_of_slots faithful hs hn).1

theorem Def.recover (faithful : depth.Faithful) (d d' : Def A D V T)
    (hs : d.shape depth = d'.shape depth) (h : d.slots depth = d'.slots depth) : d = d' := by
  have hn : d.slots depth ++ [] = d'.slots depth ++ [] := by rw [h]
  exact (Def.eq_of_shape_of_slots faithful hs hn).1

end PhaseTree
