import PatchReview.Proofs.Pattern.Plain
import PatchReview.Proofs.Pattern.Spans
import PatchReview.Proofs.Text.Lines

/-!
Blanks between the parts of a pattern. A repetition of blanks goes to their end first and falls
back to places before a blank, at which a part that begins with something else cannot go on. Main
statements: `ends_blanks_append` and `ends_someBlanks_append`.
-/

set_option autoImplicit false

namespace PatchReview

def blankCodes : List Nat :=
  [0x20, 0x85, 0xa0, 0x1680, 0x2028, 0x2029, 0x202f, 0x205f, 0x3000] ++ List.range' 0x09 5
    ++ List.range' 0x1c 4 ++ List.range' 0x2000 11

theorem mem_blankCodes {c : Char} (h : isBlank c) : c.toNat ∈ blankCodes := by
  simp only [isBlank, Bool.or_eq_true, Bool.and_eq_true, beq_iff_eq, decide_eq_true_eq] at h
  simp only [blankCodes, List.mem_append, List.mem_cons, List.mem_range'_1, List.not_mem_nil]
  omega

theorem not_isWord_of_isBlank {c : Char} (h : isBlank c) : isWord c = false := by
  have hall : ∀ n ∈ blankCodes, isWord (Char.ofNat n) = false := by decide +kernel
  simpa using hall c.toNat (mem_blankCodes h)

namespace Cursor

def beforeBlank (c : Cursor) : Bool := c.rest.head?.any isBlank

def afterBlanks (c : Cursor) : Cursor := c.skip (Text.indentation c.rest)

theorem afterBlanks_of_not_beforeBlank {c : Cursor} (h : c.beforeBlank = false) :
    c.afterBlanks = c := by
  obtain ⟨n, prev, t⟩ := c
  cases t with
  | nil => rfl
  | cons x t =>
    have hx : isBlank x = false := h
    simp [afterBlanks, Text.indentation, skip, hx]

theorem afterBlanks_cons {n : Nat} {prev : Option Char} {x : Char} {t : Text} (h : isBlank x) :
    afterBlanks ⟨n, prev, x :: t⟩ = afterBlanks ⟨n + 1, some x, t⟩ := by
  simp [afterBlanks, Text.indentation, skip, h, Nat.add_assoc, Nat.add_comm 1]

theorem afterBlanks_skip_one {c : Cursor} (h : c.beforeBlank) :
    (c.skip 1).afterBlanks = c.afterBlanks := by
  obtain ⟨n, prev, t⟩ := c
  cases t with
  | nil => exact absurd h Bool.false_ne_true
  | cons x t => exact (afterBlanks_cons h).symm

theorem afterBlanks_append {n : Nat} {prev : Option Char} {v t : Text} (h : ∀ x ∈ v, isBlank x) :
    afterBlanks ⟨n, prev, v ++ t⟩ = afterBlanks ⟨n + v.length, Pattern.behind prev v, t⟩ := by
  induction v generalizing n prev with
  | nil => rfl
  | cons x v ih =>
    rw [List.cons_append, afterBlanks_cons (h x List.mem_cons_self),
      ih fun y hy => h y (List.mem_cons_of_mem x hy), Pattern.add_length_cons, Pattern.behind_cons]

theorem rest_afterBlanks (c : Cursor) : c.afterBlanks.rest = Text.trimStart c.rest := by
  obtain ⟨n, prev, t⟩ := c
  induction t generalizing n prev with
  | nil => rfl
  | cons x t ih =>
    by_cases hx : isBlank x
    · rw [afterBlanks_cons hx, ih, Text.trimStart_cons_blank hx]
    · rw [Bool.not_eq_true] at hx
      rw [afterBlanks_of_not_beforeBlank (c := ⟨n, prev, x :: t⟩) hx]
      exact (Text.trimStart_eq_self (by simp [hx])).symm

theorem exists_blanks (c : Cursor) : ∃ v t, c.rest = v ++ t ∧ (∀ x ∈ v, isBlank x) ∧
    t.head?.any isBlank = false ∧
    c.afterBlanks = ⟨c.offset + v.length, Pattern.behind c.prev v, t⟩ := by
  obtain ⟨n, prev, t⟩ := c
  have hsplit : t.takeWhile isBlank ++ t.dropWhile isBlank = t := List.takeWhile_append_dropWhile
  have hblank : ∀ x ∈ t.takeWhile isBlank, isBlank x := fun _ => List.mem_takeWhile_imp
  have hhead : (t.dropWhile isBlank).head?.any isBlank = false := by
    have hnot := List.head?_dropWhile_not isBlank t
    cases hx : (t.dropWhile isBlank).head? with
    | none => rfl
    | some x => simpa [hx] using hnot
  refine ⟨_, _, hsplit.symm, hblank, hhead, ?_⟩
  have hpassed := @afterBlanks_append n prev _ (t.dropWhile isBlank) hblank
  rw [hsplit] at hpassed
  exact hpassed.trans (afterBlanks_of_not_beforeBlank hhead)

theorem beforeBlank_afterBlanks (c : Cursor) : c.afterBlanks.beforeBlank = false := by
  obtain ⟨v, t, -, -, hhead, hc⟩ := c.exists_blanks
  rw [hc]
  exact hhead

theorem any_isWord_behind {v : Text} (hv : ∀ x ∈ v, isBlank x) {prev : Option Char}
    (hprev : prev.any isWord = false) : (Pattern.behind prev v).any isWord = false := by
  induction v generalizing prev with
  | nil => exact hprev
  | cons c v ih =>
    exact ih (fun d hd => hv d (List.mem_cons_of_mem c hd))
      (not_isWord_of_isBlank (hv c List.mem_cons_self))

theorem any_isWord_afterBlanks {c : Cursor} (h : c.prev.any isWord = false) :
    c.afterBlanks.prev.any isWord = false := by
  obtain ⟨v, t, -, hv, -, hc⟩ := c.exists_blanks
  rw [hc]
  exact any_isWord_behind hv h

end Cursor

namespace Pattern

/-- No word that is read begins with a blank. -/
def skipsBlanks (p : Pattern) : Bool :=
  decide (0 < p.minLength) && blankCodes.all fun n => !p.mayBegin (Char.ofNat n)

section
variable {p : Pattern} (hp : p.skipsBlanks)
include hp

theorem minLength_pos_of_skipsBlanks : 0 < p.minLength := by
  rw [skipsBlanks, Bool.and_eq_true, decide_eq_true_eq] at hp
  exact hp.1

theorem exists_start_of_skipsBlanks {prev : Option Char} {w rest : Text}
    (h : p.Reads prev w rest) : ∃ c v, w = c :: v ∧ isBlank c = false := by
  have hlen := minLength_le_length h
  obtain ⟨c, v, rfl⟩ := List.exists_cons_of_length_pos
    (Nat.lt_of_lt_of_le (minLength_pos_of_skipsBlanks hp) hlen)
  refine ⟨c, v, rfl, ?_⟩
  rw [← Bool.not_eq_true]
  intro hblank
  rw [skipsBlanks, Bool.and_eq_true, List.all_eq_true] at hp
  have hnot := hp.2 c.toNat (mem_blankCodes hblank)
  rw [Char.ofNat_toNat, mayBegin_of_reads h] at hnot
  exact absurd hnot (by decide)

theorem ends_of_beforeBlank {c : Cursor} (h : c.beforeBlank) : p.ends c = [] := by
  rw [List.eq_nil_iff_forall_not_mem]
  intro d hd
  obtain ⟨w, rest, ht, hw, -⟩ := mem_ends_iff.1 hd
  obtain ⟨x, v, rfl, hx⟩ := exists_start_of_skipsBlanks hp hw
  rw [Cursor.beforeBlank, ht] at h
  exact absurd (h.symm.trans hx) (by decide)

end

/-- The blanks that come next are passed first; where a repetition falls back to, a blank
follows. -/
theorem ends_blanks (c : Cursor) :
    ∃ ds, blanks.ends c = c.afterBlanks :: ds ∧ ∀ d ∈ ds, d.beforeBlank := by
  obtain ⟨n, prev, t⟩ := c
  change ∃ ds, manyEnds isBlank n prev t = _ ∧ _
  induction t generalizing n prev with
  | nil => exact ⟨[], rfl, by simp⟩
  | cons x t ih =>
    by_cases hx : isBlank x
    · obtain ⟨ds, hds, hblank⟩ := ih (n + 1) (some x)
      refine ⟨ds ++ [⟨n, prev, x :: t⟩], ?_, ?_⟩
      · rw [manyEnds, if_pos hx, hds, Cursor.afterBlanks_cons hx, List.cons_append]
      · intro d hd
        rw [List.mem_append, List.mem_singleton] at hd
        rcases hd with hd | rfl
        · exact hblank d hd
        · exact hx
    · rw [Bool.not_eq_true] at hx
      refine ⟨[], ?_, by simp⟩
      rw [Cursor.afterBlanks_of_not_beforeBlank (c := ⟨n, prev, x :: t⟩) hx, manyEnds, hx]
      rfl

theorem ends_blanks_append {q : Pattern} (hq : q.skipsBlanks) (c : Cursor) :
    (blanks ++ q).ends c = q.ends c.afterBlanks := by
  obtain ⟨ds, hds, hblank⟩ := ends_blanks c
  have hback : ds.flatMap q.ends = [] :=
    List.flatMap_eq_nil_iff.2 fun d hd => ends_of_beforeBlank hq (hblank d hd)
  rw [ends_append, hds, List.flatMap_cons, hback, List.append_nil]

theorem ends_someBlanks (c : Cursor) :
    someBlanks.ends c = if c.beforeBlank then blanks.ends (c.skip 1) else [] := by
  change (one isBlank ++ blanks).ends c = _
  obtain ⟨n, prev, t⟩ := c
  rw [ends_append]
  cases t with
  | nil => rfl
  | cons x t =>
    by_cases hx : isBlank x <;> simp [ends, oneEnds, hx, Cursor.beforeBlank, Cursor.skip]

theorem ends_someBlanks_append {q : Pattern} (hq : q.skipsBlanks) (c : Cursor) :
    (someBlanks ++ q).ends c = if c.beforeBlank then q.ends c.afterBlanks else [] := by
  rw [ends_append, ends_someBlanks]
  split
  case isTrue h => rw [← ends_append, ends_blanks_append hq, Cursor.afterBlanks_skip_one h]
  case isFalse => rfl

theorem head?_ends_someBlanks (c : Cursor) :
    (someBlanks.ends c).head? = if c.beforeBlank then some c.afterBlanks else none := by
  rw [ends_someBlanks]
  split
  case isTrue h =>
    obtain ⟨ds, hds, -⟩ := ends_blanks (c.skip 1)
    rw [hds, Cursor.afterBlanks_skip_one h]
    rfl
  case isFalse => rfl

theorem head?_ends_blanks_one {accepts : Char → Bool} (h : ∀ x, isBlank x → accepts x)
    (c : Cursor) :
    ((blanks ++ one accepts).ends c).head? =
      ((one accepts).ends c.afterBlanks).head?.or
        (if c.beforeBlank then some c.afterBlanks else none) := by
  obtain ⟨n, prev, t⟩ := c
  rw [ends_append]
  change ((manyEnds isBlank n prev t).flatMap _).head? = _
  induction t generalizing n prev with
  | nil => rfl
  | cons x t ih =>
    by_cases hx : isBlank x
    · have hback : (one accepts).ends ⟨n, prev, x :: t⟩ = [⟨n + 1, some x, t⟩] := by
        simp [ends, oneEnds, h x hx]
      have hfirst : Cursor.beforeBlank ⟨n, prev, x :: t⟩ := hx
      rw [manyEnds, if_pos hx, List.flatMap_append, List.head?_append, ih, List.flatMap_singleton,
        hback, Cursor.afterBlanks_cons hx, if_pos hfirst, Option.or_assoc]
      congr 1
      split
      case isTrue => rfl
      case isFalse hnext =>
        rw [Bool.not_eq_true] at hnext
        rw [Cursor.afterBlanks_of_not_beforeBlank hnext]
        rfl
    · rw [Bool.not_eq_true] at hx
      have hfirst : Cursor.beforeBlank ⟨n, prev, x :: t⟩ = false := hx
      rw [manyEnds, hx, hfirst, Cursor.afterBlanks_of_not_beforeBlank hfirst]
      simp

/-- Of the character before it the pattern asks at most whether it is a word character. -/
def isLocal : Pattern → Bool
  | empty | one _ | many _ | few _ | wordEdge | textEnd => true
  | seq p q | alt p q => isLocal p && isLocal q
  | notAhead p => isLocal p
  | textStart | lineStart => false

theorem reads_congr_prev {p : Pattern} (hp : p.isLocal) {prev prev' : Option Char} {w rest : Text}
    (h : prev.any isWord = prev'.any isWord) : p.Reads prev w rest ↔ p.Reads prev' w rest := by
  induction p generalizing prev prev' w rest with
  | empty | one | many | few | textEnd => exact Iff.rfl
  | seq p q ihp ihq =>
    rw [isLocal, Bool.and_eq_true] at hp
    have hbehind (u : Text) : (behind prev u).any isWord = (behind prev' u).any isWord := by
      cases u with
      | nil => exact h
      | cons => rfl
    simp only [Reads, ihp hp.1 h]
    constructor
    · rintro ⟨u, v, rfl, hu, hv⟩
      exact ⟨u, v, rfl, hu, (ihq hp.2 (hbehind u)).1 hv⟩
    · rintro ⟨u, v, rfl, hu, hv⟩
      exact ⟨u, v, rfl, hu, (ihq hp.2 (hbehind u)).2 hv⟩
  | alt p q ihp ihq =>
    rw [isLocal, Bool.and_eq_true] at hp
    exact or_congr (ihp hp.1 h) (ihq hp.2 h)
  | wordEdge => simp only [Reads, Cursor.atWordEdge, h]
  | notAhead p ih => simp only [Reads, ih hp h]
  | textStart | lineStart => simp [isLocal] at hp

theorem starts_congr_prev {p : Pattern} (hp : p.isLocal) {prev prev' : Option Char} {t : Text}
    (h : prev.any isWord = prev'.any isWord) : p.Starts prev t ↔ p.Starts prev' t := by
  simp only [Starts, reads_congr_prev hp h]

theorem matchesAt_blanks_append {q : Pattern} (hq : q.skipsBlanks) (c : Cursor) :
    (blanks ++ q).matchesAt c = q.matchesAt c.afterBlanks := by
  rw [matchesAt, matchesAt, firstEndAt?_eq_head?, firstEndAt?_eq_head?, ends_blanks_append hq]

theorem matchesStart_append_of_blanks {q : Pattern} (hskips : q.skipsBlanks) (hq : q.isLocal)
    {v : Text} (hv : ∀ x ∈ v, isBlank x) (t : Text) :
    (blanks ++ q).matchesStart (v ++ t) = (blanks ++ q).matchesStart t := by
  have hrest : (Cursor.atStart (v ++ t)).afterBlanks.rest =
      (Cursor.atStart t).afterBlanks.rest := by
    rw [Cursor.rest_afterBlanks, Cursor.rest_afterBlanks]
    exact Text.trimStart_append_of_blanks hv t
  have hprev (s : Text) : (Cursor.atStart s).afterBlanks.prev.any isWord = false :=
    Cursor.any_isWord_afterBlanks rfl
  rw [matchesStart, matchesStart, matchesAt_blanks_append hskips, matchesAt_blanks_append hskips,
    Bool.eq_iff_iff, matchesAt_iff, matchesAt_iff, hrest]
  exact starts_congr_prev hq ((hprev _).trans (hprev _).symm)

theorem firstEnd?_of_isPlain {p : Pattern} (hp : p.isPlain) {α : Type} (c : Cursor)
    (k : Cursor → Option α) : p.firstEnd? c k = (p.lengths c.rest).findSome? (k ∘ c.skip) := by
  rw [firstEnd?_eq, ends_eq hp, List.findSome?_map]

end Pattern

namespace NamedShape

abbrev word : Pattern := .seq (.one isWord) (.many isWord)

variable {s : NamedShape}

theorem nameAt?_congr (hlead : s.lead.isPlain) (htrail : s.trail.isPlain) {c c' : Cursor}
    (h : c.rest = c'.rest) : s.nameAt? c = s.nameAt? c' := by
  have hpassed (c : Cursor) (j k : Nat) :
      passed (c.skip j) ((c.skip j).skip k) = (c.rest.drop j).take k := by
    simp [passed, Cursor.skip]
  have hname (c : Cursor) : s.nameAt? c = (s.lead.lengths c.rest).findSome? fun j =>
      (word.lengths (c.rest.drop j)).findSome? fun k =>
        (s.trail.lengths ((c.rest.drop j).drop k)).findSome? fun _ =>
          some ((c.rest.drop j).take k) := by
    rw [nameAt?, Pattern.firstEnd?_of_isPlain hlead]
    congr 1
    funext j
    rw [Function.comp_apply, Pattern.firstEnd?_of_isPlain rfl]
    congr 1
    funext k
    rw [Function.comp_apply, Pattern.firstEnd?_of_isPlain htrail]
    congr 1
    funext i
    rw [Function.comp_apply, hpassed]
  rw [hname, hname, h]

theorem nameFrom?_congr (hlead : s.lead.isPlain) (htrail : s.trail.isPlain) (t : Text)
    (n n' : Nat) (prev prev' : Option Char) : s.nameFrom? n prev t = s.nameFrom? n' prev' t := by
  induction t generalizing n n' prev prev' with
  | nil => exact nameAt?_congr hlead htrail rfl
  | cons c t ih =>
    have hat : s.nameAt? ⟨n, prev, c :: t⟩ = s.nameAt? ⟨n', prev', c :: t⟩ :=
      nameAt?_congr hlead htrail rfl
    rw [nameFrom?, nameFrom?, hat, ih (n + 1) (n' + 1) (some c) (some c)]

theorem name?_append_of_blanks (hlead : s.lead.isPlain) (htrail : s.trail.isPlain)
    (hskips : s.lead.skipsBlanks) {v : Text} (hv : ∀ x ∈ v, isBlank x) (t : Text) :
    s.name? (v ++ t) = s.name? t := by
  rw [name?]
  generalize (none : Option Char) = prev
  generalize 0 = n
  induction v generalizing n prev with
  | nil => exact nameFrom?_congr hlead htrail t _ _ _ _
  | cons x v ih =>
    have hblank : Cursor.beforeBlank ⟨n, prev, x :: (v ++ t)⟩ := hv x List.mem_cons_self
    have hnone : s.nameAt? ⟨n, prev, x :: (v ++ t)⟩ = none := by
      rw [nameAt?, Pattern.firstEnd?_eq, Pattern.ends_of_beforeBlank hskips hblank]
      rfl
    rw [List.cons_append, nameFrom?, hnone, Option.none_or]
    exact ih (fun y hy => hv y (List.mem_cons_of_mem x hy)) _ _

theorem nameAt?_blanks_append {q trail : Pattern} (hskips : (q ++ word).skipsBlanks) (c : Cursor) :
    nameAt? ⟨.blanks ++ q, trail⟩ c = nameAt? ⟨q, trail⟩ c.afterBlanks := by
  obtain ⟨ds, hds, hblank⟩ := Pattern.ends_blanks c
  simp only [nameAt?, Pattern.firstEnd?_eq (.blanks ++ q), Pattern.firstEnd?_eq q,
    Pattern.ends_append, Pattern.findSome?_flatMap, hds, List.findSome?_cons]
  generalize hk : (fun d : Cursor => word.firstEnd? d _) = k
  have hback : ds.findSome? (fun d => (q.ends d).findSome? k) = none := by
    rw [List.findSome?_eq_none_iff]
    intro d hd
    rw [List.findSome?_eq_none_iff]
    intro e he
    have hnil := Pattern.ends_of_beforeBlank hskips (hblank d hd)
    rw [Pattern.ends_append, List.flatMap_eq_nil_iff] at hnil
    simp only [← hk, Pattern.firstEnd?_eq word, hnil e he, List.findSome?_nil]
  rw [hback]
  cases (q.ends c.afterBlanks).findSome? k <;> rfl

theorem nameAtStart?_append_of_blanks {q trail : Pattern} (hskips : (q ++ word).skipsBlanks)
    (hq : q.isPlain) (htrail : trail.isPlain) {v : Text} (hv : ∀ x ∈ v, isBlank x) (t : Text) :
    nameAtStart? ⟨.blanks ++ q, trail⟩ (v ++ t) = nameAtStart? ⟨.blanks ++ q, trail⟩ t := by
  rw [nameAtStart?, nameAtStart?, nameAt?_blanks_append hskips, nameAt?_blanks_append hskips]
  refine nameAt?_congr hq htrail ?_
  rw [Cursor.rest_afterBlanks, Cursor.rest_afterBlanks]
  exact Text.trimStart_append_of_blanks hv t

end NamedShape

end PatchReview
