import Mathlib.Data.Fintype.EquivFin
import PhaseTree.Listing

set_option autoImplicit false

namespace PhaseTree

namespace Listing

variable {α β γ : Type}

theorem exposes_all_iff [DecidableEq α] [Infinite α] (listing : Listing α) :
    (∀ item, listing.exposes item = true) ↔ listing.isOpen = true := by
  constructor
  · intro all
    obtain ⟨item, unnamed⟩ := Infinite.exists_notMem_finset listing.items.toFinset
    rcases (listing.exposes_iff item).1 (all item) with isOpen | named
    · exact isOpen
    · exact absurd (List.mem_toFinset.2 named) unnamed
  · exact fun isOpen item => (listing.exposes_iff item).2 (.inl isOpen)

theorem exposes_none_iff [DecidableEq α] [Inhabited α] (listing : Listing α) :
    (∀ item, listing.exposes item = false) ↔ listing.isNothing = true := by
  simp only [← Bool.not_eq_true, exposes_iff, not_or]
  constructor
  · intro hidden
    have items : listing.items = [] := List.eq_nil_iff_forall_not_mem.2 fun item => (hidden item).2
    simp [isNothing, items, (hidden default).1]
  · intro empty item
    rw [(listing.isNothing_iff).1 empty]
    simp [nothing]

theorem isEverything_iff_items (listing : Listing α) :
    listing.isEverything = true ↔ listing.isOpen = true ∧ listing.items = [] := by
  rw [isEverything, Bool.and_eq_true, List.isEmpty_iff]

theorem exposes_of_closed [DecidableEq α] {listing : Listing α} (h : listing.isOpen = false) (item : α) :
    listing.exposes item = true ↔ item ∈ listing.items := by
  simp [exposes_iff, h]

theorem exposes_map_iff [DecidableEq β] (f : α → β) (listing : Listing α) (item : β) :
    (listing.map f).exposes item = true ↔
      listing.isOpen = true ∨ ∃ source ∈ listing.items, f source = item := by
  rw [exposes_iff]
  exact or_congr_right List.mem_map

theorem exposes_map [DecidableEq α] [DecidableEq β] (f : α → β) {listing : Listing α} {item : α}
    (h : listing.exposes item = true) : (listing.map f).exposes (f item) = true := by
  rw [exposes_map_iff]
  exact ((listing.exposes_iff item).1 h).imp_right fun named => ⟨item, named, rfl⟩

theorem exposes_of_exposes_map [DecidableEq α] [DecidableEq β] {f : α → β} (hf : Function.Injective f)
    {listing : Listing α} {item : α} (h : (listing.map f).exposes (f item) = true) :
    listing.exposes item = true := by
  rw [exposes_iff]
  refine ((exposes_map_iff f listing _).1 h).imp_right ?_
  rintro ⟨source, named, same⟩
  rwa [← hf same]

theorem isEverything_map (f : α → β) (listing : Listing α) :
    (listing.map f).isEverything = listing.isEverything := by
  simp [isEverything, map]

theorem isNothing_map (f : α → β) (listing : Listing α) :
    (listing.map f).isNothing = listing.isNothing := by
  simp [isNothing, map]

/-- Changes of a listing, one after the other. Maps may lead to items of another type. -/
inductive History : Type → Type → Type 1 where
  | done {α : Type} : History α α
  | map {α β γ : Type} (f : α → β) (rest : History β γ) : History α γ
  | add {α γ : Type} (item : α) (rest : History α γ) : History α γ
  | setOpen {α γ : Type} (isOpen : Bool) (rest : History α γ) : History α γ

namespace History

def run : {α γ : Type} → History α γ → Listing α → Listing γ
  | _, _, done, listing => listing
  | _, _, map f rest, listing => rest.run (listing.map f)
  | _, _, add item rest, listing => rest.run (listing.add item)
  | _, _, setOpen isOpen rest, listing => rest.run (listing.setOpen isOpen)

def carry : {α γ : Type} → History α γ → α → γ
  | _, _, done, item => item
  | _, _, map f rest, item => rest.carry (f item)
  | _, _, add _ rest, item => rest.carry item
  | _, _, setOpen _ rest, item => rest.carry item

def added : {α γ : Type} → History α γ → List γ
  | _, _, done => []
  | _, _, map _ rest => rest.added
  | _, _, add item rest => rest.carry item :: rest.added
  | _, _, setOpen _ rest => rest.added

def opens : {α γ : Type} → History α γ → Bool → Bool
  | _, _, done, isOpen => isOpen
  | _, _, map _ rest, isOpen => rest.opens isOpen
  | _, _, add _ rest, isOpen => rest.opens isOpen
  | _, _, setOpen isOpen rest, _ => rest.opens isOpen

theorem run_eq (history : History α γ) (listing : Listing α) :
    history.run listing =
      ⟨listing.items.map history.carry ++ history.added, history.opens listing.isOpen⟩ := by
  induction history with
  | done => simp [run, carry, added, opens]
  | map f rest ih => simp [run, carry, added, opens, ih, Listing.map, Function.comp_def]
  | add item rest ih => simp [run, carry, added, opens, ih, Listing.add]
  | setOpen isOpen rest ih => simp [run, carry, added, opens, ih, Listing.setOpen]

theorem exposes_run_iff [DecidableEq γ] (history : History α γ) (listing : Listing α) (item : γ) :
    (history.run listing).exposes item = true ↔
      history.opens listing.isOpen = true ∨
        (∃ source ∈ listing.items, history.carry source = item) ∨ item ∈ history.added := by
  rw [run_eq, exposes_iff, List.mem_append, List.mem_map]

theorem exposes_run_add [DecidableEq γ] (history : History α γ) {listing : Listing α}
    {item : γ} (h : (history.run listing).exposes item = true) (other : α) :
    (history.run (listing.add other)).exposes item = true := by
  rw [exposes_run_iff] at h ⊢
  refine h.imp_right (.imp_left ?_)
  rintro ⟨source, named, same⟩
  exact ⟨source, List.mem_append_left _ named, same⟩

end History

/-- The first part says how a listing came to expose an item, the others what the queries about it mean;
adding an item hides nothing, whatever happens `later`. -/
theorem queries_through_history (start : Listing α) (history : History α String) :
    let listing := history.run start
    (∀ item, listing.exposes item = true ↔ history.opens start.isOpen = true ∨
      (∃ source ∈ start.items, history.carry source = item) ∨ item ∈ history.added) ∧
    ((∀ item, listing.exposes item = true) ↔ listing.isOpen = true) ∧
    ((∀ item, listing.exposes item = false) ↔ listing.isNothing = true) ∧
    (listing.isEverything = true ↔ listing.isOpen = true ∧ listing.items = []) ∧
    (listing.isOpen = false → ∀ item, listing.exposes item = true ↔ item ∈ listing.items) ∧
    (∀ {γ : Type} [DecidableEq γ] (later : History String γ) (item : γ) (other : String),
      (later.run listing).exposes item = true → (later.run (listing.add other)).exposes item = true) ∧
    ∀ {β : Type} [DecidableEq β] (f : String → β),
      (∀ item, listing.exposes item = true → (listing.map f).exposes (f item) = true) ∧
      (Function.Injective f →
        ∀ item, (listing.map f).exposes (f item) = true → listing.exposes item = true) ∧
      (listing.map f).isEverything = listing.isEverything ∧
      (listing.map f).isNothing = listing.isNothing ∧
      (listing.map f).items.length = listing.items.length ∧
      ∀ i : Nat, (listing.map f).items[i]? = listing.items[i]?.map f := by
  intro listing
  refine ⟨history.exposes_run_iff start, listing.exposes_all_iff, listing.exposes_none_iff,
    listing.isEverything_iff_items, exposes_of_closed, fun later item other shown => ?_, fun f => ?_⟩
  · exact later.exposes_run_add shown other
  · exact ⟨fun _ => exposes_map f, fun hf _ => exposes_of_exposes_map hf, listing.isEverything_map f,
      listing.isNothing_map f, List.length_map f, fun _ => List.getElem?_map⟩

theorem queries_through_history_closed :
    let history : History Nat String := .add 2 (.map Nat.repr (.setOpen false .done))
    let listing := history.run ⟨[1, 1], true⟩
    listing.isOpen = false ∧ "2" ∈ listing.items ∧ listing.exposes "2" = true ∧
      (listing.add "3").exposes "2" = true ∧ Function.Injective String.toList ∧
      (listing.map String.toList).exposes ['1'] = true ∧ listing.exposes "1" = true := by
  intro history listing
  obtain ⟨-, -, -, -, closed, add, map⟩ := queries_through_history ⟨[1, 1], true⟩ history
  have isClosed : listing.isOpen = false := rfl
  have named : "2" ∈ listing.items := by decide
  have shown := (closed isClosed "2").2 named
  have injective : Function.Injective String.toList := fun _ _ => String.toList_inj.1
  have mapped : (listing.map String.toList).exposes ['1'] = true := by decide
  exact ⟨isClosed, named, shown, add .done "2" "3" shown, injective, mapped,
    (map String.toList).2.1 injective "1" mapped⟩

end Listing

end PhaseTree
