import PatchReview.Proofs.Pattern.Blanks

set_option autoImplicit false

namespace PatchReview.NamedShape

open Pattern (Reads behind mem_ends_iff firstEnd?_eq)

variable {s : NamedShape} {n : Nat} {prev : Option Char} {t : Text}

/-- The text is a lead, the name and a trail, with anything behind. -/
def Names (s : NamedShape) (prev : Option Char) (t name : Text) : Prop :=
  ∃ u v rest, t = u ++ (name ++ (v ++ rest)) ∧ s.lead.Reads prev u (name ++ (v ++ rest)) ∧
    name ≠ [] ∧ (∀ c ∈ name, isWord c) ∧ s.trail.Reads (behind (behind prev u) name) v rest

theorem reads_word {w rest : Text} : word.Reads prev w rest ↔ w ≠ [] ∧ ∀ c ∈ w, isWord c :=
  Pattern.reads_atLeast_one

theorem names_of_nameAt? {name : Text} (h : s.nameAt? ⟨n, prev, t⟩ = some name) :
    s.Names prev t name := by
  simp only [nameAt?, firstEnd?_eq] at h
  obtain ⟨d, hd, h⟩ := List.exists_of_findSome?_eq_some h
  obtain ⟨e, he, h⟩ := List.exists_of_findSome?_eq_some h
  obtain ⟨f, hf, hname⟩ := List.exists_of_findSome?_eq_some h
  obtain ⟨u, t, rfl, hu, rfl⟩ := mem_ends_iff.1 hd
  obtain ⟨w, t, rfl, hw, rfl⟩ := mem_ends_iff.1 he
  obtain ⟨v, rest, rfl, hv, rfl⟩ := mem_ends_iff.1 hf
  obtain rfl : w = name := by simpa [passed] using hname
  obtain ⟨hne, hword⟩ := reads_word.1 hw
  exact ⟨u, v, rest, rfl, hu, hne, hword, hv⟩

theorem exists_nameAt?_of_names {name : Text} (h : s.Names prev t name) (n : Nat) :
    ∃ name', s.nameAt? ⟨n, prev, t⟩ = some name' := by
  obtain ⟨u, v, rest, rfl, hu, hne, hword, hv⟩ := h
  rw [← Option.isSome_iff_exists, nameAt?, firstEnd?_eq, List.findSome?_isSome_iff]
  refine ⟨_, mem_ends_iff.2 ⟨u, _, rfl, hu, rfl⟩, ?_⟩
  rw [firstEnd?_eq, List.findSome?_isSome_iff]
  refine ⟨_, mem_ends_iff.2 ⟨name, _, rfl, reads_word.2 ⟨hne, hword⟩, rfl⟩, ?_⟩
  rw [firstEnd?_eq, List.findSome?_isSome_iff]
  exact ⟨_, mem_ends_iff.2 ⟨v, rest, rfl, hv, rfl⟩, rfl⟩

/-- Where no text has two names, the name is the one that the text has. -/
theorem nameAtStart?_eq_some_iff
    (hunique : ∀ {name name'}, s.Names none t name → s.Names none t name' → name = name')
    {name : Text} : s.nameAtStart? t = some name ↔ s.Names none t name := by
  constructor
  · exact names_of_nameAt?
  · intro h
    obtain ⟨name', hname⟩ := exists_nameAt?_of_names h 0
    rw [hunique h (names_of_nameAt? hname)]
    exact hname

end PatchReview.NamedShape
