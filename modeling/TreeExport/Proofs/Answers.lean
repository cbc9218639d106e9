import Mathlib.Data.List.Forall2
import TreeExport.Store.Entry

/-!
# Answers one after the other

When two things done in turn answer, and why they fail; the same for all items of a list
(`mapM_eq_ok_iff`, `mapM_eq_error_iff`).
-/

namespace TreeExport

variable {α β ε : Type} {cause : ε}

theorem bind_eq_ok_iff {first : Except ε α} {next : α → Except ε β} {result : β} :
    first >>= next = .ok result ↔ ∃ a, first = .ok a ∧ next a = .ok result := by
  constructor
  · exact StoredEntry.exists_of_bind
  · rintro ⟨a, same, ended⟩
    rw [same]
    exact ended

theorem bind_eq_error_iff {first : Except ε α} {next : α → Except ε β} :
    first >>= next = .error cause ↔
      first = .error cause ∨ ∃ a, first = .ok a ∧ next a = .error cause := by
  cases first with
  | error other =>
    constructor
    · intro ended
      exact .inl (congrArg Except.error (Except.error.inj ended))
    · rintro (same | ⟨a, same, -⟩)
      · exact congrArg Except.error (Except.error.inj same)
      · cases same
  | ok a =>
    constructor
    · intro ended
      exact .inr ⟨a, rfl, ended⟩
    · rintro (same | ⟨other, same, ended⟩)
      · cases same
      · cases same
        exact ended

theorem map_eq_ok_iff {first : Except ε α} {f : α → β} {result : β} :
    first.map f = .ok result ↔ ∃ a, first = .ok a ∧ f a = result := by
  cases first with
  | error other => exact ⟨nofun, fun ⟨_, same, _⟩ => by cases same⟩
  | ok a =>
    constructor
    · intro same
      exact ⟨a, rfl, Except.ok.inj same⟩
    · rintro ⟨other, same, rfl⟩
      cases same
      rfl

theorem map_eq_error_iff {first : Except ε α} {f : α → β} :
    first.map f = .error cause ↔ first = .error cause := by
  cases first with
  | error other =>
    exact ⟨fun same => congrArg Except.error (Except.error.inj same),
      fun same => congrArg Except.error (Except.error.inj same)⟩
  | ok a => exact ⟨nofun, nofun⟩

variable {f : α → Except ε β} {items : List α}

theorem mapM_eq_ok_iff {results : List β} : items.mapM f = .ok results ↔
    List.Forall₂ (fun item result => f item = .ok result) items results := by
  induction items generalizing results with
  | nil =>
    rw [List.mapM_nil, List.forall₂_nil_left_iff]
    exact ⟨fun same => (Except.ok.inj same).symm, fun same => same ▸ rfl⟩
  | cons item rest ih =>
    rw [List.mapM_cons, List.forall₂_cons_left_iff, bind_eq_ok_iff]
    constructor
    · rintro ⟨result, first, others⟩
      rcases bind_eq_ok_iff.mp others with ⟨more, all, same⟩
      exact ⟨result, more, first, ih.mp all, (Except.ok.inj same).symm⟩
    · rintro ⟨result, more, first, all, rfl⟩
      exact ⟨result, first, bind_eq_ok_iff.mpr ⟨more, ih.mpr all, rfl⟩⟩

theorem forall₂_congr_of_mem {holds also : α → β → Prop} {results : List β}
    (same : ∀ item ∈ items, ∀ result, holds item result ↔ also item result) :
    List.Forall₂ holds items results ↔ List.Forall₂ also items results := by
  induction items generalizing results with
  | nil => rw [List.forall₂_nil_left_iff, List.forall₂_nil_left_iff]
  | cons item rest ih =>
    rcases List.forall_mem_cons.mp same with ⟨first, others⟩
    simp only [List.forall₂_cons_left_iff, first, ih others]

/-- Answers one after the other fail as the first one does that fails. -/
theorem mapM_eq_error_iff : items.mapM f = .error cause ↔
    ∃ front item back, items = front ++ item :: back ∧ f item = .error cause ∧
      ∀ earlier ∈ front, ∃ result, f earlier = .ok result := by
  induction items with
  | nil =>
    constructor
    · intro ended
      cases ended
    · rintro ⟨front, item, back, none, -⟩
      exact absurd none.symm (List.append_ne_nil_of_right_ne_nil _ (List.cons_ne_nil _ _))
  | cons item rest ih =>
    rw [List.mapM_cons, bind_eq_error_iff]
    constructor
    · rintro (refused | ⟨result, first, others⟩)
      · exact ⟨[], item, rest, rfl, refused, nofun⟩
      · rcases bind_eq_error_iff.mp others with later | ⟨more, -, ended⟩
        · rcases ih.mp later with ⟨front, last, back, rfl, refused, before⟩
          exact ⟨item :: front, last, back, rfl, refused,
            List.forall_mem_cons.mpr ⟨⟨result, first⟩, before⟩⟩
        · cases ended
    · rintro ⟨front, last, back, split, refused, before⟩
      cases front with
      | nil =>
        cases split
        exact .inl refused
      | cons head front =>
        cases split
        rcases List.forall_mem_cons.mp before with ⟨⟨result, first⟩, before⟩
        have later := ih.mpr ⟨front, last, back, rfl, refused, before⟩
        exact .inr ⟨result, first, bind_eq_error_iff.mpr (.inl later)⟩

end TreeExport
