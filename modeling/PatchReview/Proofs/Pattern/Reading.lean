import PatchReview.Pattern.Scan

set_option autoImplicit false

namespace PatchReview.Pattern

def behind (prev : Option Char) : Text → Option Char
  | [] => prev
  | c :: w => behind (some c) w

@[simp] theorem behind_nil (prev : Option Char) : behind prev [] = prev := rfl

@[simp] theorem behind_cons (prev : Option Char) (c : Char) (w : Text) :
    behind prev (c :: w) = behind (some c) w := rfl

theorem add_length_cons (n : Nat) (c : Char) (w : Text) :
    n + (c :: w).length = n + 1 + w.length := by
  rw [List.length_cons]
  omega

@[simp] theorem behind_append (prev : Option Char) (u v : Text) :
    behind prev (u ++ v) = behind (behind prev u) v := by
  induction u generalizing prev with
  | nil => rfl
  | cons c u ih => exact ih (some c)

theorem behind_eq_none_iff {prev : Option Char} {w : Text} :
    behind prev w = none ↔ prev = none ∧ w = [] := by
  induction w generalizing prev with
  | nil => simp
  | cons c w ih => simp [ih]

/-- The pattern may read the word `w` behind the character `prev` and before the text `rest`. -/
def Reads : Pattern → Option Char → Text → Text → Prop
  | empty, _, w, _ => w = []
  | one accepts, _, w, _ => ∃ c, w = [c] ∧ accepts c
  | many accepts, _, w, _ => ∀ c ∈ w, accepts c
  | few accepts, _, w, _ => ∀ c ∈ w, accepts c
  | seq p q, prev, w, rest =>
    ∃ u v, w = u ++ v ∧ Reads p prev u (v ++ rest) ∧ Reads q (behind prev u) v rest
  | alt p q, prev, w, rest => Reads p prev w rest ∨ Reads q prev w rest
  | wordEdge, prev, w, rest => w = [] ∧ (Cursor.mk 0 prev rest).atWordEdge
  | textStart, prev, w, _ => w = [] ∧ prev = none
  | lineStart, prev, w, rest => w = [] ∧ (Cursor.mk 0 prev rest).atLineStart
  | textEnd, _, w, rest => w = [] ∧ (rest = [] ∨ rest = ['\n'])
  | notAhead p, prev, w, rest => w = [] ∧ ∀ u v, rest = u ++ v → ¬Reads p prev u v

attribute [local simp] Reads

theorem fewEnds_eq_reverse (accepts : Char → Bool) (n : Nat) (prev : Option Char) (t : Text) :
    fewEnds accepts n prev t = (manyEnds accepts n prev t).reverse := by
  induction t generalizing n prev with
  | nil => rfl
  | cons c rest ih => by_cases h : accepts c <;> simp [fewEnds, manyEnds, h, ih]

theorem mem_oneEnds {accepts : Char → Bool} {n : Nat} {prev : Option Char} {t : Text}
    {d : Cursor} :
    d ∈ oneEnds accepts n t ↔ ∃ w rest, t = w ++ rest ∧ (∃ c, w = [c] ∧ accepts c) ∧
      d = ⟨n + w.length, behind prev w, rest⟩ := by
  constructor
  · intro h
    cases t with
    | nil => simp [oneEnds] at h
    | cons c rest =>
      by_cases hc : accepts c
      · exact ⟨[c], rest, rfl, ⟨c, rfl, hc⟩, by simpa [oneEnds, hc] using h⟩
      · simp [oneEnds, hc] at h
  · rintro ⟨w, rest, rfl, ⟨c, rfl, hc⟩, rfl⟩
    simp [oneEnds, hc]

theorem mem_manyEnds {accepts : Char → Bool} {n : Nat} {prev : Option Char} {t : Text}
    {d : Cursor} :
    d ∈ manyEnds accepts n prev t ↔ ∃ w rest, t = w ++ rest ∧ (∀ c ∈ w, accepts c) ∧
      d = ⟨n + w.length, behind prev w, rest⟩ := by
  constructor
  · intro h
    induction t generalizing n prev with
    | nil => exact ⟨[], [], rfl, by simp, by simpa [manyEnds] using h⟩
    | cons c rest ih =>
      have hstay : d = ⟨n, prev, c :: rest⟩ → ∃ w rest', c :: rest = w ++ rest' ∧
          (∀ x ∈ w, accepts x) ∧ d = ⟨n + w.length, behind prev w, rest'⟩ :=
        fun hd => ⟨[], c :: rest, rfl, by simp, hd⟩
      by_cases hc : accepts c
      · rw [manyEnds, if_pos hc, List.mem_append, List.mem_singleton] at h
        rcases h with h | h
        · obtain ⟨w, rest', rfl, hw, rfl⟩ := ih h
          exact ⟨c :: w, rest', rfl, by simpa [hc] using hw, by simp; omega⟩
        · exact hstay h
      · rw [manyEnds, if_neg hc, List.mem_singleton] at h
        exact hstay h
  · rintro ⟨w, rest, rfl, hw, rfl⟩
    induction w generalizing n prev with
    | nil => cases rest <;> simp [manyEnds]; split <;> simp
    | cons c w ih =>
      have hc : accepts c := hw c List.mem_cons_self
      have hin := @ih (n + 1) (some c) fun x hx => hw x (List.mem_cons_of_mem c hx)
      rw [List.cons_append, manyEnds, if_pos hc, List.mem_append, add_length_cons]
      exact .inl hin

theorem mem_anchor {ok : Prop} [Decidable ok] {n : Nat} {prev : Option Char} {t : Text} {d : Cursor}
    {holds : Text → Prop} (h : ok ↔ holds t) :
    d ∈ (if ok then [⟨n, prev, t⟩] else []) ↔ ∃ w rest, t = w ++ rest ∧ (w = [] ∧ holds rest) ∧
      d = ⟨n + w.length, behind prev w, rest⟩ := by
  constructor
  · intro hd
    split at hd
    case isTrue hok => exact ⟨[], t, rfl, ⟨rfl, h.1 hok⟩, List.mem_singleton.1 hd⟩
    case isFalse => simp at hd
  · rintro ⟨w, rest, rfl, ⟨rfl, hw⟩, rfl⟩
    rw [if_pos (h.2 hw)]
    exact List.mem_singleton.2 rfl

theorem mem_ends_iff {p : Pattern} {n : Nat} {prev : Option Char} {t : Text} {d : Cursor} :
    d ∈ p.ends ⟨n, prev, t⟩ ↔ ∃ w rest, t = w ++ rest ∧ p.Reads prev w rest ∧
      d = ⟨n + w.length, behind prev w, rest⟩ := by
  induction p generalizing n prev t d with
  | empty =>
    rw [ends, List.mem_singleton]
    constructor
    · exact fun h => ⟨[], t, rfl, rfl, h⟩
    · rintro ⟨_, rest, rfl, rfl, rfl⟩
      rfl
  | one accepts => exact mem_oneEnds
  | many accepts => exact mem_manyEnds
  | few accepts =>
    rw [ends, fewEnds_eq_reverse, List.mem_reverse]
    exact mem_manyEnds
  | seq p q ihp ihq =>
    simp only [ends, List.mem_flatMap, Reads]
    constructor
    · rintro ⟨e, he, hd⟩
      obtain ⟨u, t', rfl, hu, rfl⟩ := ihp.1 he
      obtain ⟨v, rest, rfl, hv, rfl⟩ := ihq.1 hd
      refine ⟨u ++ v, rest, by simp, ⟨u, v, rfl, hu, hv⟩, ?_⟩
      simp [Nat.add_assoc]
    · rintro ⟨w, rest, rfl, ⟨u, v, rfl, hu, hv⟩, rfl⟩
      refine ⟨⟨n + u.length, behind prev u, v ++ rest⟩, ihp.2 ⟨u, v ++ rest, by simp, hu, rfl⟩, ?_⟩
      refine ihq.2 ⟨v, rest, rfl, hv, ?_⟩
      simp [Nat.add_assoc]
  | alt p q ihp ihq =>
    simp only [ends, List.mem_append, ihp, ihq, Reads]
    grind
  | wordEdge => exact mem_anchor (by simp [Cursor.atWordEdge])
  | textStart => exact mem_anchor (by simp)
  | lineStart => exact mem_anchor (by simp [Cursor.atLineStart])
  | textEnd => exact mem_anchor (by simp [Cursor.atTextEnd])
  | notAhead p ih =>
    refine mem_anchor ?_
    rw [List.isEmpty_iff, List.eq_nil_iff_forall_not_mem]
    constructor
    · exact fun h u v ht hu => h _ (ih.2 ⟨u, v, ht, hu, rfl⟩)
    · intro h e he
      obtain ⟨u, v, ht, hu, -⟩ := ih.1 he
      exact h u v ht hu

def Starts (p : Pattern) (prev : Option Char) (t : Text) : Prop :=
  ∃ w rest, t = w ++ rest ∧ p.Reads prev w rest

theorem matchesAt_iff {p : Pattern} {n : Nat} {prev : Option Char} {t : Text} :
    p.matchesAt ⟨n, prev, t⟩ ↔ p.Starts prev t := by
  rw [matchesAt, firstEndAt?_eq_head?, List.isSome_head?]
  constructor
  · intro h
    obtain ⟨d, hd⟩ := List.exists_mem_of_ne_nil _ h
    obtain ⟨w, rest, ht, hw, -⟩ := mem_ends_iff.1 hd
    exact ⟨w, rest, ht, hw⟩
  · rintro ⟨w, rest, ht, hw⟩
    exact List.ne_nil_of_mem (mem_ends_iff.2 ⟨w, rest, ht, hw, rfl⟩)

theorem occursFrom_iff {p : Pattern} {n : Nat} {prev : Option Char} {t : Text} :
    p.occursFrom n prev t ↔ ∃ x t', t = x ++ t' ∧ p.Starts (behind prev x) t' := by
  induction t generalizing n prev with
  | nil =>
    rw [occursFrom, matchesAt_iff]
    constructor
    · exact fun h => ⟨[], [], rfl, h⟩
    · rintro ⟨x, t', ht, h⟩
      obtain ⟨rfl, rfl⟩ := List.append_eq_nil_iff.1 ht.symm
      exact h
  | cons c t ih =>
    rw [occursFrom, Bool.or_eq_true, matchesAt_iff, ih]
    constructor
    · rintro (h | ⟨x, t', rfl, h⟩)
      · exact ⟨[], c :: t, rfl, h⟩
      · exact ⟨c :: x, t', rfl, h⟩
    · rintro ⟨x, t', ht, h⟩
      cases x with
      | nil =>
        rw [List.nil_append] at ht
        exact .inl (ht ▸ h)
      | cons d x =>
        obtain ⟨rfl, rfl⟩ := List.cons.inj ht
        exact .inr ⟨x, t', rfl, h⟩

theorem occurs_iff {p : Pattern} {t : Text} :
    p.occurs t ↔ ∃ x t', t = x ++ t' ∧ p.Starts (behind none x) t' :=
  occursFrom_iff

theorem reads_append {p q : Pattern} {prev : Option Char} {w rest : Text} :
    (p ++ q).Reads prev w rest ↔
      ∃ u v, w = u ++ v ∧ p.Reads prev u (v ++ rest) ∧ q.Reads (behind prev u) v rest := by
  change (append p q).Reads prev w rest ↔ (seq p q).Reads prev w rest
  induction p generalizing prev w rest with
  | seq p p' _ ih =>
    simp only [append, Reads] at ih ⊢
    constructor
    · rintro ⟨u, v, rfl, hu, hv⟩
      obtain ⟨v, x, rfl, hv, hx⟩ := ih.1 hv
      exact ⟨u ++ v, x, by simp, ⟨u, v, rfl, by simpa using hu, hv⟩, by simpa using hx⟩
    · rintro ⟨w, x, rfl, ⟨u, v, rfl, hu, hv⟩, hx⟩
      exact ⟨u, v ++ x, by simp, by simpa using hu, ih.2 ⟨v, x, rfl, hv, by simpa using hx⟩⟩
  | _ => rfl

@[simp] theorem reads_ofText {s w rest : Text} {prev : Option Char} :
    (ofText s).Reads prev w rest ↔ w = s := by
  fun_induction ofText s generalizing prev w rest with
  | case1 => rfl
  | case2 c => simp
  | case3 c s _ ih =>
    simp only [reads_append, ih, Reads]
    constructor
    · rintro ⟨u, v, rfl, ⟨d, rfl, hd⟩, rfl⟩
      simpa using hd
    · rintro rfl
      exact ⟨[c], s, rfl, ⟨c, rfl, by simp⟩, rfl⟩

@[simp] theorem reads_lit {s : String} {w rest : Text} {prev : Option Char} :
    (lit s).Reads prev w rest ↔ w = s.toList := reads_ofText

theorem reads_firstOf {ps : List Pattern} {prev : Option Char} {w rest : Text} :
    (firstOf ps).Reads prev w rest ↔ ∃ p ∈ ps, p.Reads prev w rest := by
  fun_induction firstOf ps with
  | case1 => simp
  | case2 p => simp
  | case3 p ps _ ih =>
    change p.Reads prev w rest ∨ (firstOf ps).Reads prev w rest ↔ _
    simp [ih]

@[simp] theorem reads_words {l : List String} {w rest : Text} {prev : Option Char} :
    (words l).Reads prev w rest ↔ ∃ s ∈ l, w = s.toList := by
  rw [words, reads_firstOf]
  constructor
  · rintro ⟨_, hp, hw⟩
    obtain ⟨s, hs, rfl⟩ := List.mem_map.1 hp
    exact ⟨s, hs, reads_lit.1 hw⟩
  · rintro ⟨s, hs, hw⟩
    exact ⟨lit s, List.mem_map_of_mem hs, reads_lit.2 hw⟩

@[simp] theorem reads_optional {p : Pattern} {w rest : Text} {prev : Option Char} :
    (optional p).Reads prev w rest ↔ p.Reads prev w rest ∨ w = [] := Iff.rfl

theorem reads_many_ne {x : Char} {prev : Option Char} {w rest : Text} :
    (many (· != x)).Reads prev w rest ↔ x ∉ w := by
  simp only [Reads, bne_iff_ne, ne_eq]
  exact ⟨fun h hx => h x hx rfl, fun h c hc he => h (he ▸ hc)⟩

theorem reads_exactly {n : Nat} {accepts : Char → Bool} {prev : Option Char} {w rest : Text} :
    (exactly n accepts).Reads prev w rest ↔ w.length = n ∧ ∀ c ∈ w, accepts c := by
  fun_induction exactly n accepts generalizing prev w with
  | case1 =>
    rw [Reads, List.length_eq_zero_iff]
    exact ⟨fun h => ⟨h, by simp [h]⟩, And.left⟩
  | case2 =>
    rw [Reads, List.length_eq_one_iff]
    constructor
    · rintro ⟨c, rfl, hc⟩
      exact ⟨⟨c, rfl⟩, by simpa using hc⟩
    · rintro ⟨⟨c, rfl⟩, hc⟩
      exact ⟨c, rfl, hc c List.mem_cons_self⟩
  | case3 n _ ih =>
    simp only [reads_append, ih, Reads]
    constructor
    · rintro ⟨_, v, rfl, ⟨c, rfl, hc⟩, hlen, hv⟩
      exact ⟨by simp [hlen], by simpa [hc] using hv⟩
    · rintro ⟨hlen, hw⟩
      cases w with
      | nil => simp at hlen
      | cons c v =>
        have hv : ∀ x ∈ v, accepts x := fun x hx => hw x (List.mem_cons_of_mem c hx)
        exact ⟨[c], v, rfl, ⟨c, rfl, hw c List.mem_cons_self⟩, by simpa using hlen, hv⟩

theorem reads_atLeast {n : Nat} {accepts : Char → Bool} {prev : Option Char} {w rest : Text} :
    (atLeast n accepts).Reads prev w rest ↔ n ≤ w.length ∧ ∀ c ∈ w, accepts c := by
  simp only [atLeast, reads_append, reads_exactly, Reads]
  constructor
  · rintro ⟨u, v, rfl, ⟨rfl, hu⟩, hv⟩
    exact ⟨by simp, fun c hc => (List.mem_append.1 hc).elim (hu c) (hv c)⟩
  · rintro ⟨hlen, hw⟩
    refine ⟨w.take n, w.drop n, (List.take_append_drop n w).symm, ⟨?_, ?_⟩, ?_⟩
    · exact List.length_take_of_le hlen
    · exact fun c hc => hw c (List.mem_of_mem_take hc)
    · exact fun c hc => hw c (List.mem_of_mem_drop hc)

theorem reads_atLeast_one {accepts : Char → Bool} {prev : Option Char} {w rest : Text} :
    (atLeast 1 accepts).Reads prev w rest ↔ w ≠ [] ∧ ∀ c ∈ w, accepts c := by
  rw [reads_atLeast, Nat.one_le_iff_ne_zero, Ne, List.length_eq_zero_iff]

theorem append_assoc (p q r : Pattern) : p ++ q ++ r = p ++ (q ++ r) := by
  change append (append p q) r = append p (append q r)
  induction p with
  | seq p p' _ ih => rw [append, append, append, ih]
  | _ => rfl

theorem starts_append {p q : Pattern} {prev : Option Char} {t : Text} :
    (p ++ q).Starts prev t ↔
      ∃ w t', t = w ++ t' ∧ p.Reads prev w t' ∧ q.Starts (behind prev w) t' := by
  simp only [Starts, reads_append]
  constructor
  · rintro ⟨_, rest, rfl, u, v, rfl, hu, hv⟩
    exact ⟨u, v ++ rest, by simp, hu, v, rest, rfl, hv⟩
  · rintro ⟨u, _, rfl, hu, v, rest, rfl, hv⟩
    exact ⟨u ++ v, rest, by simp, u, v, rfl, hu, hv⟩

theorem starts_ofText_append {s t : Text} {q : Pattern} {prev : Option Char} :
    (ofText s ++ q).Starts prev t ↔ ∃ t', t = s ++ t' ∧ q.Starts (behind prev s) t' := by
  rw [starts_append]
  constructor
  · rintro ⟨w, t', rfl, hw, hq⟩
    rw [reads_ofText] at hw
    exact ⟨t', by rw [hw], hw ▸ hq⟩
  · rintro ⟨t', rfl, hq⟩
    exact ⟨s, t', rfl, reads_ofText.2 rfl, hq⟩

theorem starts_lit_append {s : String} {t : Text} {q : Pattern} {prev : Option Char} :
    (lit s ++ q).Starts prev t ↔
      ∃ t', t = s.toList ++ t' ∧ q.Starts (behind prev s.toList) t' :=
  starts_ofText_append

theorem starts_words_append {l : List String} {t : Text} {q : Pattern} {prev : Option Char} :
    (words l ++ q).Starts prev t ↔
      ∃ s ∈ l, ∃ t', t = s.toList ++ t' ∧ q.Starts (behind prev s.toList) t' := by
  rw [starts_append]
  constructor
  · rintro ⟨w, t', rfl, hw, hq⟩
    obtain ⟨s, hs, rfl⟩ := reads_words.1 hw
    exact ⟨s, hs, t', rfl, hq⟩
  · rintro ⟨s, hs, t', rfl, hq⟩
    exact ⟨s.toList, t', rfl, reads_words.2 ⟨s, hs, rfl⟩, hq⟩

theorem starts_textEnd {prev : Option Char} {t : Text} :
    textEnd.Starts prev t ↔ t = [] ∨ t = ['\n'] := by
  constructor
  · rintro ⟨_, rest, rfl, rfl, h⟩
    exact h
  · exact fun h => ⟨[], t, rfl, rfl, h⟩

end PatchReview.Pattern
