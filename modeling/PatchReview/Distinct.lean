set_option autoImplicit false

namespace PatchReview

variable {α κ : Type} [BEq κ]

/-- Items whose key is neither in `seen` nor that of an earlier item. -/
def distinctFrom (key : α → κ) (seen : List κ) : List α → List α
  | [] => []
  | a :: rest =>
    if seen.contains (key a) then distinctFrom key seen rest
    else a :: distinctFrom key (key a :: seen) rest

def distinctBy (key : α → κ) (l : List α) : List α := distinctFrom key [] l

def distinct (l : List κ) : List κ := distinctBy (fun a => a) l

variable [LawfulBEq κ]

theorem mem_map_key_distinctFrom (key : α → κ) (seen : List κ) (l : List α) (k : κ) :
    k ∈ (distinctFrom key seen l).map key ↔ k ∈ l.map key ∧ k ∉ seen := by
  induction l generalizing seen with
  | nil => simp [distinctFrom]
  | cons a l ih =>
    by_cases h : key a ∈ seen
    · simp only [distinctFrom, List.contains_iff_mem.2 h, if_true, ih, List.map_cons, List.mem_cons]
      grind
    · simp only [distinctFrom, List.contains_iff_mem, h, if_false, List.map_cons, List.mem_cons, ih]
      grind

theorem nodup_map_key_distinctFrom (key : α → κ) (seen : List κ) (l : List α) :
    ((distinctFrom key seen l).map key).Nodup := by
  induction l generalizing seen with
  | nil => simp [distinctFrom]
  | cons a l ih =>
    by_cases h : key a ∈ seen
    · simp [distinctFrom, h, ih]
    · simp only [distinctFrom, List.contains_iff_mem, h, if_false, List.map_cons, List.nodup_cons]
      exact ⟨fun hm => ((mem_map_key_distinctFrom key _ l _).1 hm).2 List.mem_cons_self, ih _⟩

theorem distinctFrom_sublist (key : α → κ) (seen : List κ) (l : List α) :
    (distinctFrom key seen l).Sublist l := by
  induction l generalizing seen with
  | nil => simp [distinctFrom]
  | cons a l ih =>
    by_cases h : key a ∈ seen
    · simp only [distinctFrom, List.contains_iff_mem, h, if_true]
      exact (ih seen).cons a
    · simp only [distinctFrom, List.contains_iff_mem, h, if_false]
      exact (ih _).cons_cons a

theorem find?_distinctFrom (key : α → κ) {seen : List κ} {k : κ} (hk : k ∉ seen) (l : List α) :
    (distinctFrom key seen l).find? (key · == k) = l.find? (key · == k) := by
  induction l generalizing seen with
  | nil => rfl
  | cons a l ih =>
    by_cases ha : key a = k
    · simp [distinctFrom, ha, hk]
    · by_cases hseen : key a ∈ seen
      · simp [distinctFrom, hseen, ha, ih hk]
      · have hnext : k ∉ key a :: seen := by simp [hk, Ne.symm ha]
        simp [distinctFrom, hseen, ha, ih hnext]

theorem find?_of_mem_distinctBy {key : α → κ} {l : List α} {a : α} (h : a ∈ distinctBy key l) :
    l.find? (key · == key a) = some a := by
  rw [← find?_distinctFrom key (List.not_mem_nil (a := key a)) l]
  have hnodup := nodup_map_key_distinctFrom key [] l
  rw [distinctBy] at h
  generalize distinctFrom key [] l = kept at h hnodup
  induction kept with
  | nil => simp at h
  | cons b kept ih =>
    rw [List.map_cons, List.nodup_cons] at hnodup
    rcases List.mem_cons.1 h with rfl | h
    · simp
    · have hne : key b ≠ key a := fun he => hnodup.1 (he ▸ List.mem_map_of_mem h)
      simp [hne, ih h hnodup.2]

theorem mem_distinct {l : List κ} {a : κ} : a ∈ distinct l ↔ a ∈ l := by
  simpa [distinct, distinctBy] using mem_map_key_distinctFrom (fun a => a) [] l a

theorem nodup_distinct (l : List κ) : (distinct l).Nodup := by
  simpa [distinct, distinctBy] using nodup_map_key_distinctFrom (fun a => a) [] l

end PatchReview
