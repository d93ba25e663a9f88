import Mathlib
import PatchReview.Complexity.Blocks

/-!
Nesting by indentation, read off the places of the lines. A block is open on a line when no line
from below its first one down to there is indented as little as its first one. Main statement:
`nesting_eq_sup`, the nesting is the greatest number of blocks that are open where one begins.
-/

set_option autoImplicit false

namespace PatchReview.Complexity.Indent

open Text (indentation)

def countedLines (body : Text) : List Text := (Text.lines body).filter (!isPassedOver ·)

/-- Line `j` opens a block, and all lines below it down to line `k` are indented more. -/
def IsOpenAt (ls : List Text) (j k : Fin ls.length) : Prop :=
  j ≤ k ∧ opensBlock ls[j] ∧ ∀ i, j < i → i ≤ k → indentation ls[j] < indentation ls[i]

instance (ls : List Text) : DecidableRel (IsOpenAt ls) := fun j k =>
  inferInstanceAs (Decidable (j ≤ k ∧ opensBlock ls[j] ∧
    ∀ i, j < i → i ≤ k → indentation ls[j] < indentation ls[i]))

def openAt (ls : List Text) (k : Fin ls.length) : Finset (Fin ls.length) := {j | IsOpenAt ls j k}

def openings (ls : List Text) : Finset (Fin ls.length) := {k | opensBlock ls[k]}

/-- First lines of the blocks that are open at the end, the outermost first. -/
def openBlocks : List Text → List Text
  | [] => []
  | l :: rest =>
    if opensBlock l ∧ ∀ m ∈ rest, indentation l < indentation m then l :: openBlocks rest
    else openBlocks rest

theorem openBlocks_sublist (ls : List Text) : (openBlocks ls).Sublist ls := by
  induction ls with
  | nil => exact .slnil
  | cons l rest ih =>
    rw [openBlocks]
    split
    · exact ih.cons_cons l
    · exact ih.cons l

theorem pairwise_openBlocks (ls : List Text) :
    (openBlocks ls).Pairwise (indentation · < indentation ·) := by
  induction ls with
  | nil => exact .nil
  | cons l rest ih =>
    rw [openBlocks]
    split
    case isTrue h => exact .cons (fun m hm => h.2 m ((openBlocks_sublist rest).subset hm)) ih
    case isFalse => exact ih

/-- A line ends the blocks that are indented as much or more, and may open one. -/
theorem openBlocks_concat (ls : List Text) (l : Text) :
    openBlocks (ls ++ [l]) = (openBlocks ls).filter (indentation · < indentation l) ++
      if opensBlock l then [l] else [] := by
  induction ls with
  | nil => simp [openBlocks]
  | cons m rest ih =>
    have hopen : (opensBlock m ∧ ∀ x ∈ rest ++ [l], indentation m < indentation x) ↔
        (opensBlock m ∧ ∀ x ∈ rest, indentation m < indentation x) ∧
          indentation m < indentation l := by
      simp [or_imp, forall_and, and_assoc]
    rw [List.cons_append, openBlocks, openBlocks, ih]
    by_cases hm : opensBlock m ∧ ∀ x ∈ rest, indentation m < indentation x
    · by_cases hl : indentation m < indentation l
      · simp [if_pos (hopen.2 ⟨hm, hl⟩), if_pos hm, hl]
      · simp [if_neg fun h => hl (hopen.1 h).2, if_pos hm, hl]
    · simp [if_neg fun h => hm (hopen.1 h).1, if_neg hm]

section
variable {l : Text} {rest : List Text}

theorem isOpenAt_zero {k : Fin (rest.length + 1)} :
    IsOpenAt (l :: rest) (0 : Fin (rest.length + 1)) k ↔
      opensBlock l ∧ ∀ m ∈ rest.take k, indentation l < indentation m := by
  simp only [IsOpenAt, List.mem_take_iff_getElem]
  constructor
  · rintro ⟨-, hopens, hmore⟩
    refine ⟨hopens, ?_⟩
    rintro _ ⟨i, hi, rfl⟩
    have hle : i + 1 ≤ k := by omega
    exact hmore (Fin.succ ⟨i, by omega⟩) (Fin.succ_pos _) hle
  · rintro ⟨hopens, hmore⟩
    refine ⟨Fin.zero_le k, hopens, fun i => ?_⟩
    cases i using Fin.cases with
    | zero => exact fun h => absurd h (lt_irrefl _)
    | succ i =>
      intro _ hi
      have hlt : (i : Nat) + 1 ≤ k := hi
      exact hmore _ ⟨i, by omega, rfl⟩

theorem isOpenAt_succ {j k : Fin rest.length} :
    IsOpenAt (l :: rest) j.succ k.succ ↔ IsOpenAt rest j k := by
  have hall : (∀ i : Fin (rest.length + 1), j.succ < i → i ≤ k.succ →
        indentation rest[j] < indentation (l :: rest)[i]) ↔
      ∀ i : Fin rest.length, j < i → i ≤ k → indentation rest[j] < indentation rest[i] := by
    simp [Fin.forall_fin_succ]
  exact and_congr Fin.succ_le_succ_iff (and_congr Iff.rfl hall)

end

theorem card_openAt {ls : List Text} (k : Fin ls.length) :
    (openAt ls k).card = (openBlocks (ls.take (k + 1))).length := by
  induction ls with
  | nil => exact k.elim0
  | cons l rest ih =>
    have hcount : (openAt (l :: rest) k).card = _ :=
      Fin.card_filter_univ_succ' (n := rest.length) (IsOpenAt (l :: rest) · k)
    have hbehind : ({j : Fin rest.length | IsOpenAt (l :: rest) j.succ k} : Finset _).card =
        (openBlocks (rest.take k)).length := by
      cases k using Fin.cases with
      | zero =>
        have hnone : ∀ j : Fin rest.length, ¬IsOpenAt (l :: rest) j.succ (0 : Fin (_ + 1)) :=
          fun j h => absurd h.1 (Fin.not_le.2 j.succ_pos)
        simp [hnone, openBlocks]
      | succ k =>
        simp only [isOpenAt_succ]
        exact ih k
    rw [hcount, hbehind, List.take_succ_cons, openBlocks]
    simp only [isOpenAt_zero]
    split <;> simp [Nat.add_comm]

def stackAfter (outer : List Nat) (l : Text) : List Nat :=
  let outer := outer.dropWhile (indentation l ≤ ·)
  if opensBlock l then indentation l :: outer else outer

theorem dropWhile_eq_filter {outer : List Nat} (h : outer.Pairwise (· > ·)) (margin : Nat) :
    outer.dropWhile (margin ≤ ·) = outer.filter (· < margin) := by
  induction h with
  | nil => rfl
  | @cons n outer hn _ ih =>
    by_cases hmargin : margin ≤ n
    · simp [hmargin, ih]
    · have hall : ∀ m ∈ n :: outer, m < margin := by
        intro m hm
        rcases List.mem_cons.1 hm with rfl | hm
        · exact Nat.lt_of_not_le hmargin
        · exact (hn m hm).trans (Nat.lt_of_not_le hmargin)
      rw [List.dropWhile_cons_of_neg (by simpa using hmargin),
        List.filter_eq_self.2 (by simpa using hall)]

theorem foldl_stackAfter (ls : List Text) :
    ls.foldl stackAfter [] = ((openBlocks ls).map indentation).reverse := by
  induction ls using List.reverseRecOn with
  | nil => rfl
  | append_singleton ls l ih =>
    have hsorted : ((openBlocks ls).map indentation).reverse.Pairwise (· > ·) := by
      rw [List.pairwise_reverse, List.pairwise_map]
      exact pairwise_openBlocks ls
    have hkept : (((openBlocks ls).map indentation).reverse).filter (· < indentation l) =
        (((openBlocks ls).filter (indentation · < indentation l)).map indentation).reverse := by
      rw [List.filter_reverse, List.filter_map]
      rfl
    rw [List.foldl_concat, ih, stackAfter, dropWhile_eq_filter hsorted, hkept, openBlocks_concat]
    by_cases h : opensBlock l <;> simp [h]

theorem deepest_filter (outer : List Nat) (ls : List Text) :
    deepest outer (ls.filter (!isPassedOver ·)) = deepest outer ls := by
  induction ls generalizing outer with
  | nil => rfl
  | cons l ls ih =>
    by_cases h : isPassedOver l
    · simp [deepest, h, ih]
    · simp [deepest, h, ih]

theorem deepest_cons {l : Text} (h : isPassedOver l = false) (outer : List Nat) (ls : List Text) :
    deepest outer (l :: ls) =
      max (if opensBlock l then (stackAfter outer l).length else 0)
        (deepest (stackAfter outer l) ls) := by
  by_cases hopens : opensBlock l <;> simp [deepest, stackAfter, h, hopens]

/-- The greatest number is that of the stack behind some line that opens a block. -/
theorem deepest_le_iff {ls : List Text} (h : ∀ l ∈ ls, isPassedOver l = false) {outer : List Nat}
    {n : Nat} :
    deepest outer ls ≤ n ↔ ∀ k : Fin ls.length, opensBlock ls[k] →
      ((ls.take (k + 1)).foldl stackAfter outer).length ≤ n := by
  induction ls generalizing outer with
  | nil => simp [deepest]
  | cons l ls ih =>
    obtain ⟨hl, hls⟩ := List.forall_mem_cons.1 h
    rw [deepest_cons hl, max_le_iff, ih hls]
    refine Iff.trans ?_ (Fin.forall_fin_succ (n := ls.length)).symm
    by_cases hopens : opensBlock l <;> simp [hopens]

/-- Nesting is the greatest number of blocks that are open on a line that opens one. -/
theorem nesting_eq_sup (body : Text) :
    nesting body = (openings (countedLines body)).sup fun k =>
      (openAt (countedLines body) k).card := by
  have hcounted : ∀ l ∈ countedLines body, isPassedOver l = false := by simp [countedLines]
  have hnesting : nesting body = deepest [] (countedLines body) :=
    (deepest_filter [] (Text.lines body)).symm
  -- Both sides have the same upper bounds.
  refine eq_of_forall_ge_iff fun n => ?_
  rw [hnesting, deepest_le_iff hcounted, Finset.sup_le_iff]
  simp [openings, card_openAt, foldl_stackAfter]

end PatchReview.Complexity.Indent
