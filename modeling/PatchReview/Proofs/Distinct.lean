import Mathlib.Data.List.Basic
import Mathlib.Data.List.Perm.Subperm
import PatchReview.Distinct

set_option autoImplicit false

namespace PatchReview

variable {α β κ : Type} [BEq κ]

theorem distinctFrom_map (key : α → κ) (f : β → α) (seen : List κ) (l : List β) :
    distinctFrom key seen (l.map f) = (distinctFrom (fun b => key (f b)) seen l).map f := by
  induction l generalizing seen with
  | nil => rfl
  | cons b l ih =>
    simp only [List.map_cons, distinctFrom]
    split
    · exact ih seen
    · rw [ih, List.map_cons]

variable [LawfulBEq κ]

/-- Keys that are told apart by other names give the same items. -/
theorem distinctFrom_key_of_injective {κ' : Type} [BEq κ'] [LawfulBEq κ'] {f : κ → κ'}
    (hf : Function.Injective f) (key : α → κ) (seen : List κ) (l : List α) :
    distinctFrom (fun a => f (key a)) (seen.map f) l = distinctFrom key seen l := by
  induction l generalizing seen with
  | nil => rfl
  | cons a l ih =>
    have hseen : (seen.map f).contains (f (key a)) = seen.contains (key a) := by
      rw [Bool.eq_iff_iff, List.contains_iff_mem, List.contains_iff_mem,
        List.mem_map_of_injective hf]
    rw [distinctFrom, distinctFrom, hseen, ih, ← List.map_cons, ih]

theorem mem_distinctFrom {seen l : List κ} {a : κ} :
    a ∈ distinctFrom (fun a => a) seen l ↔ a ∈ l ∧ a ∉ seen := by
  simpa using mem_map_key_distinctFrom (fun a => a) seen l a

theorem pairwise_idxOf_distinctFrom (seen l : List κ) :
    (distinctFrom (fun a => a) seen l).Pairwise fun a b => l.idxOf a < l.idxOf b := by
  induction l generalizing seen with
  | nil => exact .nil
  | cons a l ih =>
    -- a key kept later differs from `a`, so it stands one place further in `a :: l`
    have hlater : ∀ {seen'}, a ∈ seen' → (distinctFrom (fun a => a) seen' l).Pairwise
        fun b c => (a :: l).idxOf b < (a :: l).idxOf c := by
      intro seen' ha
      refine (ih seen').imp_of_mem fun {b c} hb hc hlt => ?_
      have hab : a ≠ b := fun he => (mem_distinctFrom.1 hb).2 (he ▸ ha)
      have hac : a ≠ c := fun he => (mem_distinctFrom.1 hc).2 (he ▸ ha)
      rw [List.idxOf_cons_ne _ hab, List.idxOf_cons_ne _ hac]
      exact Nat.succ_lt_succ hlt
    by_cases h : a ∈ seen
    · simpa [distinctFrom, h] using hlater h
    · simp only [distinctFrom, List.contains_iff_mem, h, if_false]
      refine .cons (fun b hb => ?_) (hlater List.mem_cons_self)
      have hab : a ≠ b := fun he => (mem_distinctFrom.1 hb).2 (he ▸ List.mem_cons_self)
      rw [List.idxOf_cons_self, List.idxOf_cons_ne _ hab]
      exact Nat.succ_pos _

theorem pairwise_idxOf_distinct (l : List κ) :
    (distinct l).Pairwise fun a b => l.idxOf a < l.idxOf b :=
  pairwise_idxOf_distinctFrom [] l

/-- In a list with an order the item kept for a key precedes the others that have it. -/
theorem eq_or_rel_of_mem_distinctBy {R : α → α → Prop} {key : α → κ} {l : List α}
    (hl : l.Pairwise R) {a b : α} (ha : a ∈ distinctBy key l) (hb : b ∈ l) (h : key b = key a) :
    b = a ∨ R a b := by
  obtain ⟨-, before, after, rfl, hbefore⟩ :=
    List.find?_eq_some_iff_append.1 (find?_of_mem_distinctBy ha)
  rcases List.mem_append.1 hb with hb | hb
  · have hne := hbefore b hb
    simp [h] at hne
  · refine (List.mem_cons.1 hb).imp_right fun hb => ?_
    exact (List.pairwise_cons.1 (List.pairwise_append.1 hl).2.1).1 b hb

theorem distinctFrom_congr (key : α → κ) {seen seen' : List κ} (h : ∀ k, k ∈ seen ↔ k ∈ seen')
    (l : List α) : distinctFrom key seen l = distinctFrom key seen' l := by
  induction l generalizing seen seen' with
  | nil => rfl
  | cons a l ih =>
    have hnext : ∀ k, k ∈ key a :: seen ↔ k ∈ key a :: seen' := by simp [h]
    simp only [distinctFrom, List.contains_iff_mem, h, ih h, ih hnext]

theorem distinctFrom_append (key : α → κ) (seen : List κ) (xs ys : List α) :
    distinctFrom key seen (xs ++ ys) =
      distinctFrom key seen xs ++ distinctFrom key (xs.map key ++ seen) ys := by
  induction xs generalizing seen with
  | nil => rfl
  | cons x xs ih =>
    simp only [List.cons_append, distinctFrom, List.contains_iff_mem]
    split
    case isTrue hseen =>
      have hkeys : ∀ k, k ∈ xs.map key ++ seen ↔ k ∈ (x :: xs).map key ++ seen := by grind
      rw [ih, distinctFrom_congr key hkeys]
    case isFalse =>
      have hkeys : ∀ k, k ∈ xs.map key ++ key x :: seen ↔ k ∈ (x :: xs).map key ++ seen := by grind
      rw [ih, distinctFrom_congr key hkeys, List.cons_append]

theorem filter_distinctFrom (key : α → κ) (more seen : List κ) (l : List α) :
    (distinctFrom key seen l).filter (fun a => !more.contains (key a)) =
      distinctFrom key (more ++ seen) l := by
  induction l generalizing seen with
  | nil => rfl
  | cons a l ih =>
    have hkeys : ∀ k, k ∈ more ++ key a :: seen ↔ k ∈ key a :: (more ++ seen) := by grind
    simp only [distinctFrom, List.contains_iff_mem, List.mem_append]
    by_cases hseen : key a ∈ seen
    · simp [hseen, ← ih]
    · by_cases hmore : key a ∈ more
      · have hagain : ∀ k, k ∈ more ++ key a :: seen ↔ k ∈ more ++ seen := by grind
        simp [hseen, hmore, ← distinctFrom_congr key hagain, ← ih]
      · simp [hseen, hmore, ← distinctFrom_congr key hkeys, ← ih]

theorem distinct_append (xs ys : List κ) :
    distinct (xs ++ ys) = distinct xs ++ (distinct ys).filter (!(distinct xs).contains ·) := by
  have hkeys : ∀ k, k ∈ xs.map (fun a => a) ++ [] ↔ k ∈ distinct xs ++ [] := by
    simp [mem_distinct]
  rw [distinct, distinctBy, distinctFrom_append, distinctFrom_congr _ hkeys, ← filter_distinctFrom]
  rfl

theorem distinct_of_nodup {l : List κ} (h : l.Nodup) : distinct l = l := by
  have hsub : l ⊆ distinct l := fun _ ha => mem_distinct.2 ha
  exact (distinctFrom_sublist _ [] l).eq_of_length_le (h.subperm hsub).length_le

end PatchReview
