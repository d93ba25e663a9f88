import PatchReview.Proofs.Json.Numbers

set_option autoImplicit false

namespace PatchReview.Json

open Diff (Stops stops_cons)

theorem hexValue?_hexDigit : ∀ n < 16, hexValue? (hexDigit n) = some n := by decide

/-- An escape by a number that is no half of a pair stands for its character. -/
theorem readText_numbered {a b c d : Char} {n : Nat} (hn : hex4? a b c d = some n)
    (hsmall : n < 0xd800) (rest : Text) :
    readText ('\\' :: 'u' :: a :: b :: c :: d :: rest) =
      (readText rest).map fun p => (Char.ofNat n :: p.1, p.2) := by
  have hhigh : isHighHalf n = false := by simp [isHighHalf]; omega
  have hlow : isLowHalf n = false := by simp [isLowHalf]; omega
  rw [readText.eq_def, Option.map_eq_bind]
  split
  case h_3 heq =>
    cases heq
    simp only [hn, hhigh, hlow, Option.bind_eq_bind, Option.bind_some, Bool.false_eq_true, if_false]
    rfl
  case h_4 heq =>
    cases heq
    simp only [hn, hhigh, hlow, Option.bind_eq_bind, Option.bind_some, Bool.or_self,
      Bool.false_eq_true, if_false]
    rfl
  case h_5 hshort heq =>
    cases heq
    exact absurd rfl (hshort a b c d rest rfl)
  case h_6 hshort heq =>
    cases heq
    exact absurd rfl (hshort 'u' _ rfl)
  all_goals simp_all

theorem readText_plain {c : Char} (hquote : c ≠ '"') (hslash : c ≠ '\\') (hc : ¬c.toNat < 0x20)
    (rest : Text) : readText (c :: rest) = (readText rest).map fun p => (c :: p.1, p.2) := by
  rw [readText.eq_def, Option.map_eq_bind]
  split
  case h_6 heq =>
    cases heq
    simp only [beq_iff_eq, hslash, hc, decide_false, Bool.or_false]
    rfl
  all_goals simp_all

theorem readText_short {c x : Char} (hc : unescape? c = some x) (hu : c ≠ 'u') (rest : Text) :
    readText ('\\' :: c :: rest) = (readText rest).map fun p => (x :: p.1, p.2) := by
  rw [readText.eq_def, Option.map_eq_bind]
  split
  case h_5 heq =>
    cases heq
    simp only [hc]
    rfl
  case h_6 hshort heq =>
    cases heq
    exact absurd rfl (hshort c rest rfl)
  all_goals simp_all

def shortEscaped : Text := ['"', '\\', '\n', '\r', '\t', '\x08', '\x0c']

theorem escapeChar_of_mem {c : Char} (h : c ∈ shortEscaped) :
    ∃ x, escapeChar c = ['\\', x] ∧ unescape? x = some c ∧ x ≠ 'u' := by
  simp only [shortEscaped, List.mem_cons, List.not_mem_nil, or_false] at h
  rcases h with rfl | rfl | rfl | rfl | rfl | rfl | rfl <;> exact ⟨_, rfl, rfl, by decide⟩

theorem escapeChar_of_notMem {c : Char} (h : c ∉ shortEscaped) :
    escapeChar c =
      if c.toNat < 0x20 then
        ['\\', 'u', '0', '0', hexDigit (c.toNat / 16), hexDigit (c.toNat % 16)]
      else [c] := by
  simp only [shortEscaped, List.mem_cons, List.not_mem_nil, or_false, not_or] at h
  simp [escapeChar, h]

theorem hex4?_of_lt {n : Nat} (hn : n < 0x20) :
    hex4? '0' '0' (hexDigit (n / 16)) (hexDigit (n % 16)) = some n := by
  have hzero : hexValue? '0' = some 0 := rfl
  simp only [hex4?, hzero, hexValue?_hexDigit (n / 16) (by omega),
    hexValue?_hexDigit (n % 16) (by omega), Option.bind_eq_bind, Option.bind_some]
  congr 1
  omega

theorem readText_escapeChar (c : Char) (rest : Text) :
    readText (escapeChar c ++ rest) = (readText rest).map fun p => (c :: p.1, p.2) := by
  by_cases hshort : c ∈ shortEscaped
  · obtain ⟨x, htext, hx, hu⟩ := escapeChar_of_mem hshort
    rw [htext]
    exact readText_short hx hu rest
  rw [escapeChar_of_notMem hshort]
  split
  case isTrue hsmall =>
    have hread := readText_numbered (hex4?_of_lt hsmall) (by omega) rest
    rwa [Char.ofNat_toNat] at hread
  case isFalse hsmall =>
    have hquote : c ≠ '"' := fun h => hshort (h ▸ by decide)
    have hslash : c ≠ '\\' := fun h => hshort (h ▸ by decide)
    exact readText_plain hquote hslash hsmall rest

theorem readText_flatMap (t rest : Text) :
    readText (t.flatMap escapeChar ++ '"' :: rest) = some (t, rest) := by
  induction t with
  | nil => rfl
  | cons c t ih => rw [List.flatMap_cons, List.append_assoc, readText_escapeChar, ih]; rfl

def IsGaps (t : Text) : Prop := ∀ c ∈ t, isGap c

theorem skipGaps_append {gaps : Text} (h : IsGaps gaps) (t : Text) :
    skipGaps (gaps ++ t) = skipGaps t :=
  List.dropWhile_append_of_pos h

theorem skipGaps_cons {c : Char} (h : isGap c = false) (t : Text) :
    skipGaps (c :: t) = c :: t := by
  simp [skipGaps, h]

theorem isGaps_lineStart (indent : Option Nat) (depth : Nat) : IsGaps (lineStart indent depth) := by
  intro c hc
  cases indent with
  | none => simp [lineStart] at hc
  | some n =>
    simp only [lineStart, List.mem_cons, List.mem_replicate] at hc
    rcases hc with rfl | ⟨-, rfl⟩ <;> rfl

theorem exists_itemBreak (indent : Option Nat) (depth : Nat) :
    ∃ gaps, itemBreak indent depth = ',' :: gaps ∧ IsGaps gaps := by
  cases indent with
  | none => exact ⟨[' '], rfl, by simp [IsGaps, isGap]⟩
  | some n => exact ⟨_, rfl, isGaps_lineStart (some n) depth⟩

theorem readValue_gaps {gaps : Text} (h : IsGaps gaps) (fuel : Nat) (t : Text) :
    readValue fuel (gaps ++ t) = readValue fuel t := by
  cases fuel with
  | zero => simp [readValue]
  | succ fuel => rw [readValue, readValue, skipGaps_append h]

theorem readItems_gaps {gaps : Text} (h : IsGaps gaps) (fuel : Nat) (t : Text) :
    readItems fuel (gaps ++ t) = readItems fuel t := by
  cases fuel with
  | zero => simp [readItems]
  | succ fuel => rw [readItems, readItems, readValue_gaps h]

theorem readMembers_gaps {gaps : Text} (h : IsGaps gaps) (fuel : Nat) (t : Text) :
    readMembers fuel (gaps ++ t) = readMembers fuel t := by
  cases fuel with
  | zero => simp [readMembers]
  | succ fuel => rw [readMembers, readMembers, skipGaps_append h]

theorem stops_nil : Stops prolongs [] := by
  intro c hc
  simp at hc

theorem stops_gaps {gaps : Text} (h : IsGaps gaps) (c : Char) (hc : prolongs c = false)
    (rest : Text) : Stops prolongs (gaps ++ c :: rest) := by
  cases gaps with
  | nil => exact stops_cons hc
  | cons g gaps =>
    refine stops_cons ?_
    have hgap := h g List.mem_cons_self
    simp only [isGap, Bool.or_eq_true, beq_iff_eq] at hgap
    rcases hgap with ((rfl | rfl) | rfl) | rfl <;> rfl

theorem stops_writeItems (indent : Option Nat) (depth : Nat) (items : List Json) {closing : Text}
    (hclosing : IsGaps closing) (rest : Text) :
    Stops prolongs (writeItems indent depth items ++ (closing ++ ']' :: rest)) := by
  cases items with
  | nil => exact stops_gaps hclosing ']' (by decide) rest
  | cons v items =>
    obtain ⟨gaps, hbreak, -⟩ := exists_itemBreak indent depth
    rw [writeItems, hbreak]
    exact stops_cons (by decide)

/-- The value is read from its text, if nothing behind it would prolong it. -/
def ReadsBack (indent : Option Nat) (v : Json) : Prop :=
  ∀ (depth fuel : Nat) (rest : Text), Stops prolongs rest →
    (writeAt indent depth v).length ≤ fuel →
    readValue fuel (writeAt indent depth v ++ rest) = some (v, rest)

theorem readItems_write {indent : Option Nat} {depth fuel : Nat} {closing : Text}
    (hclosing : IsGaps closing) (rest : Text) {v : Json} {items : List Json}
    (h : ∀ w ∈ v :: items, ReadsBack indent w)
    (hfuel : (writeAt indent depth v).length + (writeItems indent depth items).length < fuel) :
    readItems fuel (writeAt indent depth v ++
        (writeItems indent depth items ++ (closing ++ ']' :: rest))) =
      some (v :: items, rest) := by
  induction items generalizing v fuel with
  | nil =>
    obtain ⟨fuel, rfl⟩ : ∃ n, fuel = n + 1 := ⟨fuel - 1, by omega⟩
    have hv := h v List.mem_cons_self depth fuel _ (stops_gaps hclosing ']' (by decide) rest)
      (by omega)
    rw [readItems, writeItems, List.nil_append, hv]
    simp [skipGaps_append hclosing, skipGaps_cons (c := ']') (by decide)]
  | cons w items ih =>
    obtain ⟨fuel, rfl⟩ : ∃ n, fuel = n + 1 := ⟨fuel - 1, by omega⟩
    obtain ⟨gaps, hbreak, hgaps⟩ := exists_itemBreak indent depth
    simp only [writeItems, hbreak, List.cons_append, List.append_assoc, List.length_append,
      List.length_cons] at hfuel ⊢
    have hv (t : Text) :=
      h v List.mem_cons_self depth fuel (',' :: t) (stops_cons (by decide)) (by omega)
    have hitems := @ih fuel w (fun x hx => h x (List.mem_cons_of_mem v hx)) (by omega)
    rw [readItems, hv]
    simp [skipGaps_cons (c := ',') (by decide), readItems_gaps hgaps, hitems]

section members

variable {fuel : Nat} {k t rest rest' : Text} {v : Json} (hv : readValue fuel t = some (v, rest))
include hv

theorem readValue_space : readValue fuel (' ' :: t) = some (v, rest) := by
  have hspace : IsGaps [' '] := by simp [IsGaps, isGap]
  exact (readValue_gaps hspace fuel t).trans hv

theorem readMembers_last (hend : skipGaps rest = '}' :: rest') :
    readMembers (fuel + 1) (writeText k ++ (':' :: ' ' :: t)) = some ([(k, v)], rest') := by
  simp [readMembers, writeText, skipGaps_cons (c := '"') (by decide), readText_flatMap,
    skipGaps_cons (c := ':') (by decide), readValue_space hv, hend]

theorem readMembers_next {members : List (Text × Json)} {rest'' : Text}
    (hnext : skipGaps rest = ',' :: rest')
    (hmembers : readMembers fuel rest' = some (members, rest'')) :
    readMembers (fuel + 1) (writeText k ++ (':' :: ' ' :: t)) =
      some ((k, v) :: members, rest'') := by
  simp [readMembers, writeText, skipGaps_cons (c := '"') (by decide), readText_flatMap,
    skipGaps_cons (c := ':') (by decide), readValue_space hv, hnext, hmembers]

end members

theorem readMembers_write {indent : Option Nat} {depth fuel : Nat} {closing : Text}
    (hclosing : IsGaps closing) (rest : Text) {k : Text} {v : Json} {members : List (Text × Json)}
    (h : ∀ m ∈ (k, v) :: members, ReadsBack indent m.2)
    (hfuel : (writeAt indent depth v).length + (writeMembers indent depth members).length < fuel) :
    readMembers fuel (writeText k ++ (':' :: ' ' :: (writeAt indent depth v ++
        (writeMembers indent depth members ++ (closing ++ '}' :: rest))))) =
      some ((k, v) :: members, rest) := by
  induction members generalizing k v fuel with
  | nil =>
    obtain ⟨fuel, rfl⟩ : ∃ n, fuel = n + 1 := ⟨fuel - 1, by omega⟩
    have hv := h (k, v) List.mem_cons_self depth fuel _
      (stops_gaps hclosing '}' (by decide) rest) (by simp only; omega)
    exact readMembers_last hv ((skipGaps_append hclosing _).trans (skipGaps_cons (by decide) rest))
  | cons m members ih =>
    obtain ⟨fuel, rfl⟩ : ∃ n, fuel = n + 1 := ⟨fuel - 1, by omega⟩
    obtain ⟨gaps, hbreak, hgaps⟩ := exists_itemBreak indent depth
    obtain ⟨k', w⟩ := m
    simp only [writeMembers, hbreak, List.cons_append, List.append_assoc, List.length_append,
      List.length_cons, List.nil_append] at hfuel ⊢
    have hv (t : Text) :=
      h (k, v) List.mem_cons_self depth fuel (',' :: t) (stops_cons (by decide))
        (by simp only; omega)
    have hmembers := @ih fuel k' w (fun x hx => h x (List.mem_cons_of_mem (k, v) hx)) (by omega)
    exact readMembers_next (hv _) (skipGaps_cons (by decide) _)
      ((readMembers_gaps hgaps fuel _).trans hmembers)

theorem exists_cons_writeNumber {n : Number} (hn : n.IsWritable) {rest : Text}
    (hrest : Stops prolongs rest) :
    ∃ c t, writeNumber n ++ rest = c :: t ∧ (c.isDigit ∨ c = '-') := by
  have hread := readNumber_writeNumber hn hrest
  generalize writeNumber n ++ rest = t at hread
  unfold readNumber at hread
  split at hread
  case h_1 => exact ⟨_, _, rfl, .inr rfl⟩
  case h_2 =>
    obtain ⟨c, t, ht, hc⟩ := exists_digit_of_readUnsigned hread
    exact ⟨c, t, ht, .inl hc⟩

theorem isGap_of_number {c : Char} (hc : c.isDigit ∨ c = '-') : isGap c = false ∧ c ≠ ']' := by
  constructor
  · rw [Bool.eq_false_iff]
    intro hgap
    simp only [isGap, Bool.or_eq_true, beq_iff_eq] at hgap
    rcases hgap with ((rfl | rfl) | rfl) | rfl <;> exact absurd hc (by decide)
  · rintro rfl
    exact absurd hc (by decide)

theorem readValue_number {fuel : Nat} {n : Number} {c : Char} {t rest : Text}
    (hc : c.isDigit ∨ c = '-') (hread : readNumber (c :: t) = some (n, rest)) :
    readValue (fuel + 1) (c :: t) = some (.num n, rest) := by
  rw [readValue, skipGaps_cons (isGap_of_number hc).1]
  split
  case h_8 =>
    rw [hread]
    rfl
  all_goals
    rename_i heq
    cases heq <;> exact absurd hc (by decide)

inductive IsWritable : Json → Prop where
  | null : IsWritable null
  | bool (b : Bool) : IsWritable (bool b)
  | num {n : Number} : n.IsWritable → IsWritable (num n)
  | str (t : Text) : IsWritable (str t)
  | arr {items : List Json} : (∀ v ∈ items, IsWritable v) → IsWritable (arr items)
  | obj {members : List (Text × Json)} : (∀ m ∈ members, IsWritable m.2) → IsWritable (obj members)

theorem allFit_iff {items : List Json} : allFit items ↔ ∀ v ∈ items, v.fits := by
  induction items with
  | nil => simp [allFit]
  | cons v items ih => simp [allFit, ih]

theorem membersFit_iff {members : List (Text × Json)} :
    membersFit members ↔ ∀ m ∈ members, m.2.fits := by
  induction members with
  | nil => simp [membersFit]
  | cons m members ih => simp [membersFit, ih]

theorem IsWritable.fits {v : Json} (h : v.IsWritable) : v.fits := by
  induction h with
  | @num n hn =>
    cases n with
    | int n => exact hn
    | double x => rfl
    | infinite negative => exact hn.elim
  | arr _ ih => exact allFit_iff.2 ih
  | obj _ ih => exact membersFit_iff.2 ih
  | _ => rfl

/-- No value begins with a blank or as a list ends. -/
theorem exists_cons_writeAt (indent : Option Nat) (depth : Nat) {v : Json} (h : v.IsWritable)
    {rest : Text} (hrest : Stops prolongs rest) :
    ∃ c t, writeAt indent depth v ++ rest = c :: t ∧ isGap c = false ∧ c ≠ ']' := by
  cases h with
  | null => exact ⟨'n', _, by rw [writeAt]; rfl, by decide, by decide⟩
  | bool b =>
    cases b with
    | true => exact ⟨'t', _, by rw [writeAt]; rfl, by decide, by decide⟩
    | false => exact ⟨'f', _, by rw [writeAt]; rfl, by decide, by decide⟩
  | num hn =>
    obtain ⟨c, t, htext, hc⟩ := exists_cons_writeNumber hn hrest
    exact ⟨c, t, by rw [writeAt, htext], isGap_of_number hc⟩
  | str t => exact ⟨'"', _, by rw [writeAt]; rfl, by decide, by decide⟩
  | @arr items _ =>
    cases items with
    | nil => exact ⟨'[', _, by rw [writeAt]; rfl, by decide, by decide⟩
    | cons v items => exact ⟨'[', _, by rw [writeAt]; rfl, by decide, by decide⟩
  | @obj members _ =>
    cases members with
    | nil => exact ⟨'\x7b', _, by rw [writeAt]; rfl, by decide, by decide⟩
    | cons m members => exact ⟨'\x7b', _, by rw [writeAt]; rfl, by decide, by decide⟩

theorem readValue_arr {fuel : Nat} {gaps t rest : Text} {items : List Json} (hgaps : IsGaps gaps)
    (hhead : ∃ c t', t = c :: t' ∧ isGap c = false ∧ c ≠ ']')
    (hread : readItems fuel t = some (items, rest)) :
    readValue (fuel + 1) ('[' :: (gaps ++ t)) = some (.arr items, rest) := by
  obtain ⟨c, t, rfl, hgap, hc⟩ := hhead
  have hskip : skipGaps (gaps ++ c :: t) = c :: t :=
    (skipGaps_append hgaps _).trans (skipGaps_cons hgap t)
  rw [readValue, skipGaps_cons (by decide)]
  simp only [hskip]
  split
  case h_1 heq => exact absurd (List.cons.inj heq).1 hc
  case h_2 => simp [hread]

theorem readValue_obj {fuel : Nat} {gaps t rest : Text} {members : List (Text × Json)}
    (hgaps : IsGaps gaps) (hread : readMembers fuel ('"' :: t) = some (members, rest)) :
    readValue (fuel + 1) ('\x7b' :: (gaps ++ '"' :: t)) = some (.obj members, rest) := by
  have hskip : skipGaps (gaps ++ '"' :: t) = '"' :: t :=
    (skipGaps_append hgaps _).trans (skipGaps_cons (by decide) t)
  rw [readValue, skipGaps_cons (by decide)]
  simp [hskip, hread]

theorem readWord_append (word : String) (v : Json) (rest : Text) :
    readWord word v (word.toList ++ rest) = some (v, rest) := by
  simp [readWord, ← String.length_toList]

/-- No value has an empty text, so a reader that has as much fuel has one step at least. -/
theorem ReadsBack.of_succ {indent : Option Nat} {v : Json} (hv : v.IsWritable)
    (h : ∀ (depth fuel : Nat) (rest : Text), Stops prolongs rest →
      (writeAt indent depth v).length ≤ fuel + 1 →
      readValue (fuel + 1) (writeAt indent depth v ++ rest) = some (v, rest)) :
    ReadsBack indent v := by
  intro depth fuel rest hrest hfuel
  obtain ⟨c, t, htext, -⟩ := exists_cons_writeAt indent depth hv stops_nil
  have hpos := congrArg List.length htext
  rw [List.append_nil, List.length_cons] at hpos
  obtain ⟨fuel, rfl⟩ : ∃ n, fuel = n + 1 := ⟨fuel - 1, by omega⟩
  exact h depth fuel rest hrest hfuel

theorem IsWritable.readsBack {v : Json} (h : v.IsWritable) (indent : Option Nat) :
    ReadsBack indent v := by
  induction h with
  | null =>
    refine .of_succ .null fun depth fuel rest _ _ => ?_
    rw [writeAt, readValue]
    exact readWord_append "null" .null rest
  | bool b =>
    refine .of_succ (.bool b) fun depth fuel rest _ _ => ?_
    rw [writeAt]
    cases b with
    | true =>
      rw [readValue]
      exact readWord_append "true" (.bool true) rest
    | false =>
      rw [readValue]
      exact readWord_append "false" (.bool false) rest
  | @num n hn =>
    refine .of_succ (.num hn) fun depth fuel rest hrest _ => ?_
    obtain ⟨c, t, htext, hc⟩ := exists_cons_writeNumber hn hrest
    have hread := readNumber_writeNumber hn hrest
    rw [writeAt]
    rw [htext] at hread ⊢
    exact readValue_number hc hread
  | str t =>
    refine .of_succ (.str t) fun depth fuel rest _ _ => ?_
    simp [writeAt, readValue, writeText, skipGaps_cons (c := '"') (by decide), readText_flatMap]
  | @arr items h ih =>
    refine .of_succ (.arr h) fun depth fuel rest _ hfuel => ?_
    have hclosing := isGaps_lineStart indent depth
    have hgaps := isGaps_lineStart indent (depth + 1)
    cases items with
    | nil => simp [writeAt, readValue, skipGaps, isGap]
    | cons v items =>
      simp only [writeAt, List.append_assoc, List.cons_append, List.length_cons,
        List.length_append, List.nil_append] at hfuel ⊢
      have hhead := exists_cons_writeAt indent (depth + 1) (h v List.mem_cons_self)
        (stops_writeItems indent (depth + 1) items hclosing rest)
      exact readValue_arr hgaps hhead (readItems_write hclosing rest ih (by simp at hfuel; omega))
  | @obj members h ih =>
    refine .of_succ (.obj h) fun depth fuel rest _ hfuel => ?_
    have hclosing := isGaps_lineStart indent depth
    have hgaps := isGaps_lineStart indent (depth + 1)
    cases members with
    | nil => simp [writeAt, readValue, skipGaps, isGap]
    | cons m members =>
      obtain ⟨k, v⟩ := m
      simp only [writeAt, List.append_assoc, List.cons_append, List.length_cons,
        List.length_append, List.nil_append] at hfuel ⊢
      exact readValue_obj hgaps (readMembers_write hclosing rest ih (by simp at hfuel; omega))

theorem read?_write {v : Json} (h : v.IsWritable) (indent : Option Nat) :
    read? (v.write indent) = some v := by
  have hread := h.readsBack indent 0 (2 * (v.write indent).length + 1) [] stops_nil
    (by rw [write]; omega)
  rw [List.append_nil, ← write] at hread
  rw [read?, hread]
  rfl

end PatchReview.Json
