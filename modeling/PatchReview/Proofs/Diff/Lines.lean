import PatchReview.Diff.Lines
import PatchReview.Proofs.Text.Lines

set_option autoImplicit false

namespace PatchReview.Diff

theorem dropReturn_eq_self {l : Text} (h : l.getLast? ≠ some '\r') : dropReturn l = l := by
  fun_induction dropReturn l with
  | case1 => rfl
  | case2 => simp at h
  | case3 c rest hne ih =>
    cases rest with
    | nil => rfl
    | cons d rest => rw [ih (by simpa using h)]

theorem dropReturn_append_return (l : Text) : dropReturn (l ++ ['\r']) = l := by
  induction l with
  | nil => rfl
  | cons c l ih =>
    have hc : dropReturn (c :: (l ++ ['\r'])) = c :: dropReturn (l ++ ['\r']) := by
      rw [dropReturn]; simp
    rw [List.cons_append, hc, ih]

theorem newline_notMem_dropReturn {l : Text} (h : '\n' ∉ l) : '\n' ∉ dropReturn l := by
  by_cases hr : l.getLast? = some '\r'
  · obtain ⟨m, rfl⟩ := List.getLast?_eq_some_iff.1 hr
    rw [dropReturn_append_return]
    exact fun hm => h (List.mem_append_left _ hm)
  · rwa [dropReturn_eq_self hr]

/-- No mark has a carriage return, so the one that is dropped is not part of a mark. -/
theorem startsWith_dropReturn {s : String} (hs : '\r' ∉ s.toList) (l : Text) :
    startsWith s (dropReturn l) = startsWith s l := by
  by_cases hr : l.getLast? = some '\r'
  · obtain ⟨m, rfl⟩ := List.getLast?_eq_some_iff.1 hr
    rw [dropReturn_append_return, Bool.eq_iff_iff]
    simp only [startsWith, List.isPrefixOf_iff_prefix]
    constructor
    · exact fun h => h.trans (List.prefix_append m _)
    · intro h
      rcases List.prefix_concat_iff.1 h with he | hp
      · exact absurd (he ▸ by simp) hs
      · exact hp
  · rw [dropReturn_eq_self hr]

@[simp] theorem isGitMark_dropReturn (l : Text) : isGitMark (dropReturn l) = isGitMark l :=
  startsWith_dropReturn (by decide) l

@[simp] theorem isOldMark_dropReturn (l : Text) : isOldMark (dropReturn l) = isOldMark l :=
  startsWith_dropReturn (by decide) l

@[simp] theorem isNewMark_dropReturn (l : Text) : isNewMark (dropReturn l) = isNewMark l :=
  startsWith_dropReturn (by decide) l

@[simp] theorem isHunkMark_dropReturn (l : Text) : isHunkMark (dropReturn l) = isHunkMark l :=
  startsWith_dropReturn (by decide) l

@[simp] theorem isAddition_dropReturn (l : Text) : isAddition (dropReturn l) = isAddition l := by
  rw [isAddition, isAddition, isNewMark_dropReturn, startsWith_dropReturn (by decide)]

@[simp] theorem isDeletion_dropReturn (l : Text) : isDeletion (dropReturn l) = isDeletion l := by
  rw [isDeletion, isDeletion, isOldMark_dropReturn, startsWith_dropReturn (by decide)]

@[simp] theorem isDiffLine_dropReturn (l : Text) : isDiffLine (dropReturn l) = isDiffLine l := by
  simp [isDiffLine]

theorem head?_of_startsWith {s : String} {c : Char} {l : Text} (hs : s.toList.head? = some c)
    (h : startsWith s l) : l.head? = some c := by
  obtain ⟨t, rfl⟩ := List.isPrefixOf_iff_prefix.1 h
  rw [List.head?_append, hs]
  rfl

theorem eq_false_of_head? {kind : Bool} {c d : Char} {l : Text} (hk : kind → l.head? = some d)
    (hl : l.head? = some c) (hcd : c ≠ d) : kind = false := by
  by_contra h
  have hd := hk (Bool.not_eq_false _ ▸ h)
  rw [hl, Option.some.injEq] at hd
  exact hcd hd

theorem head?_of_isGitMark {l : Text} (h : isGitMark l) : l.head? = some 'd' :=
  head?_of_startsWith (by decide) h

theorem head?_of_isOldMark {l : Text} (h : isOldMark l) : l.head? = some '-' :=
  head?_of_startsWith (by decide) h

theorem head?_of_isNewMark {l : Text} (h : isNewMark l) : l.head? = some '+' :=
  head?_of_startsWith (by decide) h

theorem head?_of_isHunkMark {l : Text} (h : isHunkMark l) : l.head? = some '@' :=
  head?_of_startsWith (by decide) h

theorem head?_of_isAddition {l : Text} (h : isAddition l) : l.head? = some '+' :=
  head?_of_startsWith (by decide) (Bool.and_eq_true_iff.1 h).1

theorem head?_of_isDeletion {l : Text} (h : isDeletion l) : l.head? = some '-' :=
  head?_of_startsWith (by decide) (Bool.and_eq_true_iff.1 h).1

theorem isGitMark_of_isHunkMark {l : Text} (h : isHunkMark l) : isGitMark l = false :=
  eq_false_of_head? head?_of_isGitMark (head?_of_isHunkMark h) (by decide)

theorem isDiffLine_of_isHunkMark {l : Text} (h : isHunkMark l) : isDiffLine l := by
  simp only [isDiffLine, Bool.or_eq_true]
  exact .inl (.inl h)

theorem isDiffLine_of_isGitMark {l : Text} (h : isGitMark l) : isDiffLine l = false := by
  have hg := head?_of_isGitMark h
  have hd : isHunkMark l = false := eq_false_of_head? head?_of_isHunkMark hg (by decide)
  have ha : isAddition l = false := eq_false_of_head? head?_of_isAddition hg (by decide)
  have hr : isDeletion l = false := eq_false_of_head? head?_of_isDeletion hg (by decide)
  rw [isDiffLine, hd, ha, hr]
  rfl

theorem not_isDiffLine_of_not_any {ls : List Text} (h : ¬ls.any isDiffLine) :
    ∀ l ∈ ls, isDiffLine l = false := by
  simpa using h

theorem not_isDiffLine_of_mem_header {ls : List Text} {l : Text}
    (h : l ∈ ls.takeWhile (!isDiffLine ·)) : isDiffLine l = false := by
  simpa using List.all_eq_true.1 List.all_takeWhile l h

theorem all_head?_body (ls : List Text) :
    (ls.dropWhile (!isDiffLine ·)).head?.all isDiffLine := by
  have hstop := List.head?_dropWhile_not (!isDiffLine ·) ls
  cases hl : (ls.dropWhile (!isDiffLine ·)).head? with
  | none => rfl
  | some l =>
    rw [hl] at hstop
    simpa using hstop

theorem dropLastEmpty_append (xs : List Text) {ys : List Text} (h : ys ≠ []) :
    dropLastEmpty (xs ++ ys) = xs ++ dropLastEmpty ys := by
  induction xs with
  | nil => rfl
  | cons x xs ih =>
    have hne : xs ++ ys ≠ [] := by simp [h]
    obtain ⟨y, zs, hz⟩ := List.exists_cons_of_ne_nil hne
    rw [List.cons_append, List.cons_append, ← ih, hz]
    rfl

theorem dropLastEmpty_eq_self {ls : List Text} (h : ls.getLast? ≠ some []) :
    dropLastEmpty ls = ls := by
  rcases List.eq_nil_or_concat ls with rfl | ⟨ms, l, rfl⟩
  · rfl
  · rw [List.concat_eq_append, dropLastEmpty_append ms (by simp)]
    cases l with
    | nil => simp at h
    | cons c l => rfl

theorem dropLastEmpty_isPrefix (ls : List Text) : dropLastEmpty ls <+: ls := by
  fun_induction dropLastEmpty ls with
  | case1 => exact List.prefix_rfl
  | case2 l => exact List.nil_prefix
  | case3 l => exact List.prefix_rfl
  | case4 l ls _ ih => exact List.cons_prefix_cons.2 ⟨rfl, ih⟩

theorem dropLastEmpty_cons {l : Text} (h : l ≠ []) (ls : List Text) :
    dropLastEmpty (l :: ls) = l :: dropLastEmpty ls := by
  cases ls with
  | nil => simp [dropLastEmpty, h]
  | cons m ls => rfl

theorem countP_dropLastEmpty {p : Text → Bool} (hp : p [] = false) (ls : List Text) :
    (dropLastEmpty ls).countP p = ls.countP p := by
  by_cases h : ls.getLast? = some []
  · obtain ⟨ms, rfl⟩ := List.getLast?_eq_some_iff.1 h
    rw [dropLastEmpty_append ms (by simp)]
    simp [dropLastEmpty, hp]
  · rw [dropLastEmpty_eq_self h]

theorem exists_lines_of_startsWith {s : String} (hne : s.toList ≠ []) (hn : '\n' ∉ s.toList)
    (hr : '\r' ∉ s.toList) {t : Text} (h : startsWith s t) :
    ∃ l rest, lines t = l :: rest ∧ startsWith s l := by
  obtain ⟨b, rfl⟩ := List.isPrefixOf_iff_prefix.1 h
  obtain ⟨l, ls, -, hl⟩ := Text.lines_append_of_notMem hn b
  have hstart : startsWith s (dropReturn (s.toList ++ l)) := by
    rw [startsWith_dropReturn hr]
    exact List.isPrefixOf_iff_prefix.2 (List.prefix_append _ _)
  have hnil : dropReturn (s.toList ++ l) ≠ [] := by
    intro he
    rw [he] at hstart
    exact hne (List.prefix_nil.1 (List.isPrefixOf_iff_prefix.1 hstart))
  exact ⟨_, dropLastEmpty (ls.map dropReturn), by
    rw [lines, hl, List.map_cons, dropLastEmpty_cons hnil], hstart⟩

theorem exists_lines_of_isGitMark {t : Text} (h : isGitMark t) :
    ∃ l rest, lines t = l :: rest ∧ isGitMark l :=
  exists_lines_of_startsWith (by decide) (by decide) (by decide) h

theorem lines_newline_append (a b : Text) :
    lines (a ++ '\n' :: b) = (Text.lines a).map dropReturn ++ lines b := by
  rw [lines, Text.lines_append, List.map_append, dropLastEmpty_append]
  · rfl
  · simpa using Text.lines_ne_nil b

theorem lines_newline (a : Text) : lines (a ++ ['\n']) = (Text.lines a).map dropReturn := by
  rw [lines_newline_append a []]
  simp [lines, Text.lines, dropReturn, dropLastEmpty]

theorem lines_ended_append {ls : List Text} (h : ∀ l ∈ ls, '\n' ∉ l) (t : Text) :
    lines (Text.ended ls ++ t) = ls.map dropReturn ++ lines t := by
  induction ls with
  | nil => rfl
  | cons l ls ih =>
    have hl := h l List.mem_cons_self
    rw [Text.ended_cons, List.append_assoc, List.cons_append, lines_newline_append,
      Text.lines_of_notMem hl, ih fun m hm => h m (List.mem_cons_of_mem l hm)]
    rfl

theorem lines_ended_eq {ls : List Text} (h : ∀ l ∈ ls, '\n' ∉ l) :
    lines (Text.ended ls) = ls.map dropReturn := by
  have happend := lines_ended_append h []
  rwa [List.append_nil, show lines [] = [] from rfl, List.append_nil] at happend

theorem lines_unlines_eq {ls : List Text} (h : ∀ l ∈ ls, '\n' ∉ l) :
    lines (Text.unlines ls) = dropLastEmpty (ls.map dropReturn) := by
  by_cases hne : ls = []
  · subst hne
    rfl
  · rw [lines, Text.lines_unlines hne h]

theorem lines_append {a : Text} (h : a.getLast? = some '\n') (b : Text) :
    lines (a ++ b) = lines a ++ lines b := by
  obtain ⟨c, rfl⟩ := List.getLast?_eq_some_iff.1 h
  rw [List.append_assoc, List.singleton_append, lines_newline_append, lines_newline]

theorem mem_lines {t l : Text} (h : l ∈ lines t) : ∃ m ∈ Text.lines t, l = dropReturn m := by
  obtain ⟨m, hm, he⟩ := List.mem_map.1 ((dropLastEmpty_isPrefix _).subset h)
  exact ⟨m, hm, he.symm⟩

theorem newline_notMem_of_mem_lines {t l : Text} (h : l ∈ lines t) : '\n' ∉ l := by
  obtain ⟨m, hm, rfl⟩ := mem_lines h
  exact newline_notMem_dropReturn (Text.newline_notMem_of_mem_lines hm)

/-- Lines that are read as they are written: no newline, and no carriage return at the end. -/
structure Plain (l : Text) : Prop where
  newline : '\n' ∉ l
  getLast? : l.getLast? ≠ some '\r'

instance : DecidablePred Plain := fun l =>
  decidable_of_iff ('\n' ∉ l ∧ l.getLast? ≠ some '\r') ⟨fun h => ⟨h.1, h.2⟩, fun h => ⟨h.1, h.2⟩⟩

theorem Plain.of_not_blank {l : Text} (hn : '\n' ∉ l) (hl : l.getLast?.all (!isBlank ·)) :
    Plain l where
  newline := hn
  getLast? h := by
    rw [h] at hl
    exact absurd hl (by decide)

theorem Plain.of_notMem {l : Text} (hn : '\n' ∉ l) (hr : '\r' ∉ l) : Plain l where
  newline := hn
  getLast? h := hr (List.mem_of_getLast? h)

theorem Plain.append {m l : Text} (hm : Plain m) (hl : Plain l) : Plain (m ++ l) where
  newline := by simp [hm.newline, hl.newline]
  getLast? he := by
    rw [List.getLast?_append] at he
    cases hc : l.getLast? with
    | none =>
      rw [hc] at he
      exact hm.getLast? he
    | some c =>
      rw [hc] at he
      exact hl.getLast? (hc.trans he)

theorem Plain.cons {c : Char} {l : Text} (hn : c ≠ '\n') (hr : c ≠ '\r') (hl : Plain l) :
    Plain (c :: l) :=
  .append (.of_notMem (l := [c]) (by simp [hn.symm]) (by simp [hr.symm])) hl

theorem map_dropReturn_eq_self {ls : List Text} (h : ∀ l ∈ ls, Plain l) :
    ls.map dropReturn = ls := by
  rw [List.map_congr_left fun l hl => dropReturn_eq_self (h l hl).getLast?, List.map_id']

theorem lines_ended {ls : List Text} (h : ∀ l ∈ ls, Plain l) : lines (Text.ended ls) = ls := by
  rw [lines_ended_eq fun l hl => (h l hl).newline, map_dropReturn_eq_self h]

theorem lines_unlines {ls : List Text} (h : ∀ l ∈ ls, Plain l) (hlast : ls.getLast? ≠ some []) :
    lines (Text.unlines ls) = ls := by
  rw [lines_unlines_eq fun l hl => (h l hl).newline, map_dropReturn_eq_self h,
    dropLastEmpty_eq_self hlast]

section Kinds
variable {p : Text → Bool} (hnil : p [] = false) (hdrop : ∀ l, p (dropReturn l) = p l)
include hnil hdrop

theorem countP_lines (t : Text) : (lines t).countP p = (Text.lines t).countP p := by
  have hp : p ∘ dropReturn = p := funext hdrop
  rw [lines, countP_dropLastEmpty hnil, List.countP_map, hp]

theorem any_lines (t : Text) : (lines t).any p = (Text.lines t).any p := by
  rw [Bool.eq_iff_iff, List.any_eq_true, List.any_eq_true, ← List.countP_pos_iff,
    ← List.countP_pos_iff, countP_lines hnil hdrop]

theorem countP_lines_unlines {ls : List Text} (h : ∀ l ∈ ls, '\n' ∉ l) :
    (lines (Text.unlines ls)).countP p = ls.countP p := by
  rw [countP_lines hnil hdrop]
  by_cases hne : ls = []
  · subst hne
    simp [Text.unlines, Text.lines, hnil]
  · rw [Text.lines_unlines hne h]

end Kinds

end PatchReview.Diff
