import PatchReview.Proofs.Pattern.Reading

set_option autoImplicit false

namespace PatchReview.Pattern

def minLength : Pattern → Nat
  | one _ => 1
  | seq p q => minLength p + minLength q
  | alt p q => min (minLength p) (minLength q)
  | empty | many _ | few _ | wordEdge | textStart | lineStart | textEnd | notAhead _ => 0

theorem minLength_le_length {p : Pattern} {prev : Option Char} {w rest : Text}
    (h : p.Reads prev w rest) : p.minLength ≤ w.length := by
  induction p generalizing prev w rest with
  | one accepts =>
    obtain ⟨c, rfl, -⟩ := h
    simp [minLength]
  | seq p q ihp ihq =>
    obtain ⟨u, v, rfl, hu, hv⟩ := h
    have hp := ihp hu
    have hq := ihq hv
    simp only [minLength, List.length_append]
    omega
  | alt p q ihp ihq =>
    simp only [minLength]
    rcases h with h | h
    · have hp := ihp h
      omega
    · have hq := ihq h
      omega
  | _ => exact Nat.zero_le _

theorem matchesAt_nil {p : Pattern} (h : 0 < p.minLength) (n : Nat) (prev : Option Char) :
    p.matchesAt ⟨n, prev, []⟩ = false := by
  rw [← Bool.not_eq_true, matchesAt_iff]
  rintro ⟨w, rest, ht, hw⟩
  obtain ⟨rfl, -⟩ := List.append_eq_nil_iff.1 ht.symm
  have hlen := minLength_le_length hw
  simp only [List.length_nil] at hlen
  omega

theorem ends_of_rest_nil {p : Pattern} (h : 0 < p.minLength) {c : Cursor} (hrest : c.rest = []) :
    p.ends c = [] := by
  obtain ⟨n, prev, t⟩ := c
  obtain rfl : t = [] := hrest
  have hnil := matchesAt_nil h n prev
  rwa [matchesAt, firstEndAt?_eq_head?, ← Bool.not_eq_true, List.isSome_head?,
    Decidable.not_not] at hnil

theorem isSome_matchLength? (p : Pattern) (c : Cursor) :
    (p.matchLength? c).isSome = p.matchesAt c := by
  rw [matchLength?, Option.isSome_map, matchesAt]

theorem spansFrom_eq_nil_iff {p : Pattern} (h : 0 < p.minLength) {n : Nat} {prev : Option Char}
    {t : Text} : p.spansFrom n prev 0 t = [] ↔ p.occursFrom n prev t = false := by
  induction t generalizing n prev with
  | nil => simp [spansFrom, occursFrom, matchesAt_nil h]
  | cons c t ih =>
    have hat := isSome_matchLength? p ⟨n, prev, c :: t⟩
    rw [spansFrom, occursFrom, ← hat, Bool.or_eq_false_iff, ← ih]
    cases p.matchLength? ⟨n, prev, c :: t⟩ <;> simp

theorem spans_eq_nil_iff {p : Pattern} (h : 0 < p.minLength) (t : Text) :
    p.spans t = [] ↔ p.occurs t = false :=
  spansFrom_eq_nil_iff h

section
variable {p : Pattern} {n : Nat} {prev : Option Char} {c : Char} {t : Text}

theorem spansFrom_taken (w t : Text) : p.spansFrom n prev w.length (w ++ t) =
    p.spansFrom (n + w.length) (behind prev w) 0 t := by
  induction w generalizing n prev with
  | nil => rfl
  | cons c w ih =>
    rw [add_length_cons, behind_cons, ← ih]
    rfl

theorem spansFrom_of_no_end (h : p.firstEndAt? ⟨n, prev, c :: t⟩ = none) :
    p.spansFrom n prev 0 (c :: t) = p.spansFrom (n + 1) (some c) 0 t := by
  have hmatch : p.matchLength? ⟨n, prev, c :: t⟩ = none := by rw [matchLength?, h]; rfl
  rw [spansFrom, hmatch]

theorem spansFrom_of_end (hmin : 0 < p.minLength) {d : Cursor}
    (h : p.firstEndAt? ⟨n, prev, c :: t⟩ = some d) :
    d.rest.length ≤ t.length ∧
      ∃ k, p.spansFrom n prev 0 (c :: t) = ⟨n, k⟩ :: p.spansFrom d.offset d.prev 0 d.rest := by
  have hmem : d ∈ p.ends ⟨n, prev, c :: t⟩ := by
    rw [firstEndAt?_eq_head?] at h
    exact List.mem_of_head? h
  obtain ⟨w, rest, hw, hreads, rfl⟩ := mem_ends_iff.1 hmem
  have hlen := minLength_le_length hreads
  obtain ⟨x, w, rfl⟩ := List.exists_cons_of_length_pos (Nat.lt_of_lt_of_le hmin hlen)
  rw [List.cons_append, List.cons.injEq] at hw
  obtain ⟨rfl, rfl⟩ := hw
  have hmatch : p.matchLength? ⟨n, prev, c :: (w ++ rest)⟩ = some (w.length + 1) := by
    rw [matchLength?, h]
    simp
  refine ⟨by simp, w.length + 1, ?_⟩
  rw [spansFrom, hmatch, add_length_cons, behind_cons]
  exact congrArg _ (spansFrom_taken w rest)

end

def countFrom (p : Pattern) (c : Cursor) : Nat := (p.spansFrom c.offset c.prev 0 c.rest).length

theorem countFrom_of_no_end {p : Pattern} {n : Nat} {prev : Option Char} {c : Char} {t : Text}
    (h : p.firstEndAt? ⟨n, prev, c :: t⟩ = none) :
    p.countFrom ⟨n, prev, c :: t⟩ = p.countFrom ⟨n + 1, some c, t⟩ := by
  rw [countFrom, countFrom, spansFrom_of_no_end h]

theorem countFrom_of_end {p : Pattern} (hmin : 0 < p.minLength) {c d : Cursor}
    (h : p.firstEndAt? c = some d) :
    d.rest.length < c.rest.length ∧ p.countFrom c = p.countFrom d + 1 := by
  obtain ⟨n, prev, t⟩ := c
  cases t with
  | nil =>
    have hnil := matchesAt_nil hmin n prev
    rw [matchesAt, h] at hnil
    exact absurd hnil (by simp)
  | cons x t =>
    obtain ⟨hle, k, hspans⟩ := spansFrom_of_end hmin h
    refine ⟨Nat.lt_succ_of_le hle, ?_⟩
    rw [countFrom, hspans]
    rfl

section
variable {α β : Type} {R : α → β → Prop} {a : Option α} {b : Option β}

theorem rel_or (h : Option.Rel R a b) {a₂ : Option α} {b₂ : Option β} (h₂ : Option.Rel R a₂ b₂) :
    Option.Rel R (a.or a₂) (b.or b₂) := by
  cases h with
  | none => exact h₂
  | some h => exact .some h

theorem eq_none_of_rel (h : Option.Rel R none b) : b = none := by
  cases h
  rfl

theorem exists_of_rel {x : α} (h : Option.Rel R (some x) b) : ∃ y, b = some y ∧ R x y := by
  cases h with
  | some h => exact ⟨_, rfl, h⟩

end

/-- Two searches find as many matches if they go on from cursors to cursors of the same relation:
where the first passes a character the second passes characters without a match, and where the
first finds a match so does the second. -/
theorem countFrom_eq_of_rel {p : Pattern} (hmin : 0 < p.minLength)
    {R : Cursor → Cursor → Prop}
    (hend : ∀ {c c'}, R c c' → c.rest = [] → p.countFrom c' = 0)
    (hpass : ∀ {n prev x t c'}, R ⟨n, prev, x :: t⟩ c' →
      p.firstEndAt? ⟨n, prev, x :: t⟩ = none →
      ∃ e, R ⟨n + 1, some x, t⟩ e ∧ p.countFrom c' = p.countFrom e)
    (hmatch : ∀ {c c' d}, R c c' → p.firstEndAt? c = some d →
      ∃ e, R d e ∧ p.countFrom c' = p.countFrom e + 1)
    {c c' : Cursor} (h : R c c') : p.countFrom c' = p.countFrom c := by
  induction hn : c.rest.length using Nat.strongRecOn generalizing c c' with
  | ind n ih =>
    subst hn
    obtain ⟨n, prev, t⟩ := c
    cases t with
    | nil => exact hend h rfl
    | cons x t =>
      cases hd : p.firstEndAt? ⟨n, prev, x :: t⟩ with
      | none =>
        obtain ⟨e, he, hcount⟩ := hpass h hd
        rw [hcount, countFrom_of_no_end hd]
        exact ih t.length (Nat.lt_succ_self _) he rfl
      | some d =>
        obtain ⟨hlt, hfirst⟩ := countFrom_of_end hmin hd
        obtain ⟨e, he, hcount⟩ := hmatch h hd
        rw [hcount, hfirst, ih d.rest.length hlt he rfl]

end PatchReview.Pattern
