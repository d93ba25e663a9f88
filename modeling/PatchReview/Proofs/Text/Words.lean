import PatchReview.Proofs.Text.Lines

set_option autoImplicit false

namespace PatchReview.Text

def IsSolid (t : Text) : Prop := ∀ c ∈ t, isBlank c = false

instance : DecidablePred IsSolid := fun t =>
  decidable_of_iff (t.all (!isBlank ·)) (by simp [IsSolid])

theorem IsSolid.append {v t : Text} (hv : IsSolid v) (ht : IsSolid t) : IsSolid (v ++ t) :=
  fun c hc => (List.mem_append.1 hc).elim (hv c) (ht c)

theorem IsSolid.takeWhile {t : Text} (h : IsSolid t) : t.takeWhile (!isBlank ·) = t :=
  List.takeWhile_eq_self_iff.2 fun c hc => by simp [h c hc]

theorem wordsFrom_append {c : Char} (hc : isBlank c) (word x y : Text) :
    wordsFrom word (x ++ c :: y) = wordsFrom word x ++ words y := by
  induction x generalizing word with
  | nil =>
    simp only [List.nil_append, wordsFrom, hc, if_true]
    split <;> rfl
  | cons d x ih =>
    rw [List.cons_append, wordsFrom, wordsFrom, ih, ih]
    split_ifs <;> rfl

theorem words_append_blank {c : Char} (hc : isBlank c) (x y : Text) :
    words (x ++ c :: y) = words x ++ words y := wordsFrom_append hc [] x y

theorem wordsFrom_of_ne_nil {word : Text} (hword : word ≠ []) (t : Text) :
    wordsFrom word t =
      (word.reverse ++ t.takeWhile (!isBlank ·)) :: words (t.dropWhile (!isBlank ·)) := by
  induction t generalizing word with
  | nil => simp [wordsFrom, words, hword]
  | cons c t ih =>
    by_cases hc : isBlank c
    · simp [wordsFrom, words, hc, hword]
    · rw [wordsFrom, if_neg hc, ih (List.cons_ne_nil c word)]
      simp [hc]

theorem words_of_head {t : Text} (h : t.head?.any (!isBlank ·)) :
    words t = t.takeWhile (!isBlank ·) :: words (t.dropWhile (!isBlank ·)) := by
  cases t with
  | nil => simp at h
  | cons c t =>
    have hc : isBlank c = false := by simpa using h
    rw [words, wordsFrom, if_neg (by simp [hc]), wordsFrom_of_ne_nil (List.cons_ne_nil c [])]
    simp [hc]

theorem words_of_isSolid {t : Text} (hne : t ≠ []) (h : IsSolid t) : words t = [t] := by
  have hhead : t.head?.any (!isBlank ·) := by
    obtain ⟨c, rest, rfl⟩ := List.exists_cons_of_ne_nil hne
    simp [h c List.mem_cons_self]
  have hdrop : t.dropWhile (!isBlank ·) = [] :=
    List.dropWhile_eq_nil_iff.2 fun c hc => by simp [h c hc]
  rw [words_of_head hhead, h.takeWhile, hdrop]
  rfl

/-- What stands right before a word belongs to it if it has no blank. -/
theorem words_append_of_isSolid {v t : Text} (hv : IsSolid v) (ht : t.head?.any (!isBlank ·)) :
    words (v ++ t) =
      (v ++ t.takeWhile (!isBlank ·)) :: words (t.dropWhile (!isBlank ·)) := by
  have hall : ∀ c ∈ v, (!isBlank c) = true := fun c hc => by simp [hv c hc]
  have hhead : (v ++ t).head?.any (!isBlank ·) := by
    cases v with
    | nil => exact ht
    | cons c v => simp [hv c List.mem_cons_self]
  rw [words_of_head hhead, List.takeWhile_append_of_pos hall, List.dropWhile_append_of_pos hall]

theorem isSolid_of_mem_wordsFrom {word : Text} (hword : IsSolid word) {t w : Text}
    (h : w ∈ wordsFrom word t) : IsSolid w := by
  have hreverse : ∀ {v : Text}, IsSolid v → IsSolid v.reverse :=
    fun hv c hc => hv c (List.mem_reverse.1 hc)
  have hnil : IsSolid [] := fun _ hc => absurd hc List.not_mem_nil
  induction t generalizing word with
  | nil =>
    rw [wordsFrom] at h
    split at h
    · simp at h
    · rw [List.mem_singleton.1 h]
      exact hreverse hword
  | cons c t ih =>
    rw [wordsFrom] at h
    split_ifs at h with hc hempty
    · exact ih hnil h
    · rcases List.mem_cons.1 h with rfl | h
      · exact hreverse hword
      · exact ih hnil h
    · refine ih (fun d hd => ?_) h
      rcases List.mem_cons.1 hd with rfl | hd
      · exact Bool.not_eq_true _ ▸ hc
      · exact hword d hd

theorem isSolid_of_mem_words {t w : Text} (h : w ∈ words t) : IsSolid w :=
  isSolid_of_mem_wordsFrom (fun _ hc => absurd hc List.not_mem_nil) h

end PatchReview.Text
