import PatchReview.Json.Basic
import PatchReview.Json.Reader
import PatchReview.Proofs.Diff.HeaderForm
import PatchReview.Proofs.Number.Shortest

set_option autoImplicit false

namespace PatchReview

theorem head?_toDigits {n : ℕ} (hn : n ≠ 0) : (Nat.toDigits 10 n).head? ≠ some '0' := by
  induction n using Nat.strongRecOn with
  | ind n ih =>
    rw [Nat.toDigits_eq_if (by decide)]
    split
    case isTrue => simpa using hn
    case isFalse h =>
      have hne : n / 10 ≠ 0 := by omega
      obtain ⟨c, ds, hds⟩ :=
        List.exists_cons_of_ne_nil (Nat.toDigits_ne_nil (n := n / 10) (b := 10))
      have hhead := ih (n / 10) (by omega) hne
      rw [hds] at hhead ⊢
      simpa using hhead

theorem isDigit_of_mem_toDigits {n : ℕ} {c : Char} (h : c ∈ Nat.toDigits 10 n) : c.isDigit :=
  Nat.isDigit_of_mem_toDigits (by decide) (by decide) h

/-- A number that JSON has a text for: no infinity, and no whole number of too many digits. -/
def Number.IsWritable : Number → Prop
  | int n => Json.intFits n
  | double _ => True
  | infinite _ => False

namespace Json

open Diff (Stops stops_cons takeWhile_append_of_stops)

def prolongs (c : Char) : Bool := c.isDigit || c == '.' || c == 'e' || c == 'E'

theorem readFraction_none {rest : Text} (h : rest.head? ≠ some '.') :
    readFraction rest = some (none, rest) := by
  unfold readFraction
  split
  case h_1 => simp at h
  case h_2 => rfl

section rest

variable {rest : Text} (h : Stops prolongs rest)
include h

theorem stops_isDigit : Stops Char.isDigit rest := by
  intro c hc
  have hnot := h c hc
  simp only [prolongs, Bool.or_eq_false_iff] at hnot
  exact hnot.1.1.1

theorem head?_ne_point : rest.head? ≠ some '.' :=
  fun hc => Bool.noConfusion (h '.' hc)

theorem readExponent_none : readExponent rest = some (none, rest) := by
  cases rest with
  | nil => rfl
  | cons c rest =>
    have hnot := h c rfl
    simp only [prolongs, Bool.or_eq_false_iff] at hnot
    simp [readExponent, hnot.1.2, hnot.2]

end rest

theorem takeDigits_append {ds rest : Text} (hds : ∀ c ∈ ds, c.isDigit)
    (hrest : Stops Char.isDigit rest) : takeDigits (ds ++ rest) = (ds, rest) := by
  obtain ⟨htake, hdrop⟩ := takeWhile_append_of_stops hds hrest
  rw [takeDigits, htake, hdrop]

theorem readFraction_some {ds rest : Text} (hne : ds ≠ []) (hds : ∀ c ∈ ds, c.isDigit)
    (hrest : Stops Char.isDigit rest) :
    readFraction ('.' :: (ds ++ rest)) = some (some ds, rest) := by
  simp [readFraction, takeDigits_append hds hrest, hne]

theorem readExponent_some {ds rest : Text} (negative : Bool) (hne : ds ≠ [])
    (hds : ∀ c ∈ ds, c.isDigit) (hrest : Stops Char.isDigit rest) :
    readExponent ('e' :: (if negative then '-' else '+') :: (ds ++ rest)) =
      some (some (if negative then -(Nat.ofDigitChars 10 ds 0 : ℤ) else Nat.ofDigitChars 10 ds 0),
        rest) := by
  cases negative <;> simp [readExponent, readPower, takeDigits_append hds hrest, hne]

/-- The digits before the point: no zero stands in front of another digit. -/
structure IsWhole (ds : Text) : Prop where
  ne_nil : ds ≠ []
  digits : ∀ c ∈ ds, c.isDigit
  head : 1 < ds.length → ds.head? ≠ some '0'

theorem IsWhole.not_refused {ds : Text} (h : IsWhole ds) :
    ¬(ds.isEmpty || (decide (1 < ds.length) && ds.head? == some '0')) := by
  simpa [h.ne_nil] using h.head

theorem isWhole_zero : IsWhole ['0'] := ⟨by simp, by simp, by simp⟩

theorem isWhole_toDigits (n : ℕ) : IsWhole (Nat.toDigits 10 n) := by
  refine ⟨Nat.toDigits_ne_nil, fun c => isDigit_of_mem_toDigits, fun hlen => ?_⟩
  apply head?_toDigits
  rintro rfl
  simp at hlen

theorem isWhole_of_prefix {n : ℕ} (hn : n ≠ 0) {ds : Text} (hne : ds ≠ [])
    (hds : ∀ c ∈ ds, c.isDigit) (h : ds <+: Nat.toDigits 10 n ∨ Nat.toDigits 10 n <+: ds) :
    IsWhole ds := by
  refine ⟨hne, hds, fun _ => ?_⟩
  have hhead : ds.head? = (Nat.toDigits 10 n).head? := by
    rcases h with ⟨t, ht⟩ | ⟨t, ht⟩
    · rw [← ht, List.head?_append_of_ne_nil _ hne]
    · rw [← ht, List.head?_append_of_ne_nil _ Nat.toDigits_ne_nil]
  rw [hhead]
  exact head?_toDigits hn

section parts

variable {whole t : Text} (negative : Bool) (hwhole : IsWhole whole) (ht : Stops Char.isDigit t)
include hwhole ht

theorem readUnsigned_decimal {t' rest : Text} {fraction : Option Text} {power : Option Int}
    (hfraction : readFraction t = some (fraction, t'))
    (hpower : readExponent t' = some (power, rest)) (h : fraction ≠ none ∨ power ≠ none) :
    readUnsigned negative (whole ++ t) =
      some (.ofDecimal negative (Nat.ofDigitChars 10 (whole ++ fraction.getD []) 0)
        (power.getD 0 - (fraction.getD []).length), rest) := by
  simp only [readUnsigned, takeDigits_append hwhole.digits ht, if_neg hwhole.not_refused, hfraction,
    Option.bind_eq_bind, Option.bind_some, hpower]
  cases fraction <;> cases power <;> simp_all

theorem readUnsigned_int (h : Stops prolongs t) :
    readUnsigned negative (whole ++ t) =
      some (.int (if negative then -(Nat.ofDigitChars 10 whole 0 : ℤ)
        else Nat.ofDigitChars 10 whole 0), t) := by
  simp only [readUnsigned, takeDigits_append hwhole.digits ht, if_neg hwhole.not_refused,
    readFraction_none (head?_ne_point h), Option.bind_eq_bind, Option.bind_some,
    readExponent_none h]

end parts

theorem exists_digit_of_readUnsigned {negative : Bool} {t : Text} {r : Number × Text}
    (h : readUnsigned negative t = some r) : ∃ c t', t = c :: t' ∧ c.isDigit := by
  cases t with
  | nil => simp [readUnsigned, takeDigits] at h
  | cons c t =>
    refine ⟨c, t, rfl, ?_⟩
    by_contra hc
    simp [readUnsigned, takeDigits, hc] at h

def powerDigits (power : ℤ) : Text :=
  (if (Nat.toDigits 10 power.natAbs).length < 2 then ['0'] else []) ++
    Nat.toDigits 10 power.natAbs

theorem powerDigits_ne_nil (power : ℤ) : powerDigits power ≠ [] := by
  simp [powerDigits, Nat.toDigits_ne_nil]

theorem isDigit_of_mem_powerDigits {power : ℤ} : ∀ c ∈ powerDigits power, c.isDigit := by
  intro c hc
  rw [powerDigits, List.mem_append] at hc
  rcases hc with hc | hc
  · split at hc
    · exact List.mem_singleton.1 hc ▸ rfl
    · simp at hc
  · exact isDigit_of_mem_toDigits hc

theorem ofDigitChars_powerDigits (power : ℤ) :
    Nat.ofDigitChars 10 (powerDigits power) 0 = power.natAbs := by
  rw [powerDigits, Nat.ofDigitChars_append]
  split <;> simp [Nat.ofDigitChars_cons]

theorem readExponent_power {rest : Text} (power : ℤ) (hrest : Stops prolongs rest) :
    readExponent ('e' :: (if power < 0 then '-' else '+') :: (powerDigits power ++ rest)) =
      some (some power, rest) := by
  have hread := readExponent_some (decide (power < 0)) (powerDigits_ne_nil power)
    isDigit_of_mem_powerDigits (stops_isDigit hrest)
  have hvalue : (if power < 0 then -(power.natAbs : ℤ) else power.natAbs) = power := by
    split <;> omega
  simpa only [decide_eq_true_eq, ofDigitChars_powerDigits, hvalue] using hread

section decimal

variable {n : ℕ} {ds rest : Text} (negative : Bool) (hn : n ≠ 0) (hds : Nat.toDigits 10 n = ds)
  (hrest : Stops prolongs rest)
include hds

theorem digits_of_toDigits : ∀ c ∈ ds, c.isDigit :=
  fun _ hc => isDigit_of_mem_toDigits (hds ▸ hc)

theorem ofDigitChars_of_toDigits : Nat.ofDigitChars 10 ds 0 = n :=
  hds ▸ Nat.ofDigitChars_ten_toDigits

theorem ne_nil_of_toDigits : ds ≠ [] := hds ▸ Nat.toDigits_ne_nil

include hrest

theorem readUnsigned_point_before (zeros : ℕ) :
    readUnsigned negative ('0' :: '.' :: (List.replicate zeros '0' ++ ds ++ rest)) =
      some (.ofDecimal negative n (-(zeros + ds.length)), rest) := by
  have htail : ∀ c ∈ List.replicate zeros '0' ++ ds, c.isDigit := by
    intro c hc
    rw [List.mem_append, List.mem_replicate] at hc
    rcases hc with ⟨-, rfl⟩ | hc
    · rfl
    · exact digits_of_toDigits hds c hc
  have hread := readUnsigned_decimal negative isWhole_zero (stops_cons (by decide))
    (readFraction_some (by simp [ne_nil_of_toDigits hds]) htail (stops_isDigit hrest))
    (readExponent_none hrest) (.inl (by simp))
  have hvalue : Nat.ofDigitChars 10 (['0'] ++ (List.replicate zeros '0' ++ ds)) 0 = n := by
    simp [Nat.ofDigitChars_append, Nat.ofDigitChars_cons, ofDigitChars_of_toDigits hds]
  simp only [Option.getD_some, hvalue, Option.getD_none] at hread
  simpa using hread

include hn

theorem readUnsigned_point_within {k : ℕ} (hk : 0 < k) (hlt : k < ds.length) :
    readUnsigned negative (ds.take k ++ '.' :: (ds.drop k ++ rest)) =
      some (.ofDecimal negative n (k - ds.length), rest) := by
  have hdigit := digits_of_toDigits hds
  have hwhole : IsWhole (ds.take k) :=
    isWhole_of_prefix hn (by simp [ne_nil_of_toDigits hds]; omega)
      (fun c hc => hdigit c (List.mem_of_mem_take hc)) (.inl (hds ▸ List.take_prefix k _))
  have hread := readUnsigned_decimal negative hwhole (stops_cons (by decide))
    (readFraction_some (by simp; omega) (fun c hc => hdigit c (List.mem_of_mem_drop hc))
      (stops_isDigit hrest))
    (readExponent_none hrest) (.inl (by simp))
  simp only [Option.getD_some, List.take_append_drop, ofDigitChars_of_toDigits hds,
    Option.getD_none, List.length_drop] at hread
  rw [hread]
  congr 3
  omega

theorem readUnsigned_point_behind (zeros : ℕ) :
    readUnsigned negative (ds ++ List.replicate zeros '0' ++ '.' :: '0' :: rest) =
      some (.ofDecimal negative (n * 10 ^ (zeros + 1)) (-1), rest) := by
  have hwhole : IsWhole (ds ++ List.replicate zeros '0') := by
    refine isWhole_of_prefix hn (by simp [ne_nil_of_toDigits hds]) ?_
      (.inr (hds ▸ List.prefix_append _ _))
    intro c hc
    rw [List.mem_append, List.mem_replicate] at hc
    rcases hc with hc | ⟨-, rfl⟩
    · exact digits_of_toDigits hds c hc
    · rfl
  have hread := readUnsigned_decimal negative hwhole (stops_cons (by decide))
    (readFraction_some (List.cons_ne_nil '0' []) (by simp) (stops_isDigit hrest))
    (readExponent_none hrest) (.inl (by simp))
  have hvalue : Nat.ofDigitChars 10 (ds ++ List.replicate zeros '0' ++ ['0']) 0 =
      n * 10 ^ (zeros + 1) := by
    rw [Nat.ofDigitChars_append, Nat.ofDigitChars_append, ofDigitChars_of_toDigits hds,
      Nat.ofDigitChars_replicate_zero, Nat.ofDigitChars_cons, Nat.ofDigitChars_nil, pow_succ]
    simp
    ring
  simp only [Option.getD_some, hvalue, Option.getD_none] at hread
  simpa using hread

theorem readUnsigned_scientific (power : ℤ) :
    readUnsigned negative (Decimal.scientific ds power ++ rest) =
      some (.ofDecimal negative n (power + 1 - ds.length), rest) := by
  have hdigit := digits_of_toDigits hds
  have hlen : 0 < ds.length := List.length_pos_iff.2 (ne_nil_of_toDigits hds)
  have hwhole : IsWhole (ds.take 1) :=
    isWhole_of_prefix hn (by simp [ne_nil_of_toDigits hds])
      (fun c hc => hdigit c (List.mem_of_mem_take hc)) (.inl (hds ▸ List.take_prefix 1 _))
  have hpower := readExponent_power power hrest
  have htext : Decimal.scientific ds power ++ rest = ds.take 1 ++
      ((if (ds.drop 1).isEmpty then [] else '.' :: ds.drop 1) ++
        'e' :: (if power < 0 then '-' else '+') :: (powerDigits power ++ rest)) := by
    simp [Decimal.scientific, powerDigits]
  rw [htext]
  by_cases htail : ds.drop 1 = []
  · have hone : ds.length = 1 := by
      have hle := List.drop_eq_nil_iff.1 htail
      omega
    have hread := readUnsigned_decimal negative hwhole (stops_cons (by decide))
      (readFraction_none (by simp)) hpower (.inr (by simp))
    have htake : ds.take 1 = ds := List.take_of_length_le hone.le
    simp only [Option.getD_none, List.append_nil, htake, ofDigitChars_of_toDigits hds,
      Option.getD_some, List.length_nil] at hread
    rw [if_pos (List.isEmpty_iff.2 htail), htake, hone]
    simpa using hread
  · have hread := readUnsigned_decimal negative hwhole (stops_cons (by decide))
      (readFraction_some htail (fun c hc => hdigit c (List.mem_of_mem_drop hc))
        (stops_cons (by decide)))
      hpower (.inl (by simp))
    simp only [Option.getD_some, List.take_append_drop, ofDigitChars_of_toDigits hds,
      List.length_drop] at hread
    have hexp : power - ((ds.length - 1 : ℕ) : ℤ) = power + 1 - ds.length := by omega
    rw [hexp] at hread
    rw [if_neg (by simpa using htail)]
    simpa using hread

end decimal

/-- A decimal in either form is read as a decimal of its value. -/
theorem readUnsigned_toText {d : Decimal} (hd : d.digits ≠ 0) (negative : Bool) {rest : Text}
    (hrest : Stops prolongs rest) :
    ∃ d' : Decimal, d'.toRat = d.toRat ∧ readUnsigned negative (d.toText ++ rest) =
      some (.ofDecimal negative d'.digits d'.exponent, rest) := by
  obtain ⟨n, e⟩ := d
  obtain ⟨ds, hds⟩ : ∃ ds, Nat.toDigits 10 n = ds := ⟨_, rfl⟩
  obtain ⟨point, hpoint⟩ : ∃ point : ℤ, ds.length + e = point := ⟨_, rfl⟩
  simp only [Decimal.toText, hds, hpoint]
  split
  case isFalse =>
    refine ⟨⟨n, e⟩, rfl, ?_⟩
    have hexp : point - 1 + 1 - (ds.length : ℤ) = e := by omega
    rw [readUnsigned_scientific negative hd hds hrest, hexp]
  case isTrue =>
    rw [Decimal.positional]
    split
    case isTrue hneg =>
      obtain ⟨zeros, hzeros⟩ : ∃ zeros : ℕ, -point = zeros := ⟨(-point).toNat, by omega⟩
      refine ⟨⟨n, e⟩, rfl, ?_⟩
      have hread := readUnsigned_point_before negative hds hrest zeros
      have hexp : -((zeros : ℤ) + ds.length) = e := by omega
      rw [hexp] at hread
      simpa [hzeros] using hread
    case isFalse hpos =>
      obtain ⟨k, hk⟩ : ∃ k : ℕ, point = k := ⟨point.toNat, by omega⟩
      simp only [hk, Int.toNat_natCast]
      by_cases hlt : k < ds.length
      · refine ⟨⟨n, e⟩, rfl, ?_⟩
        have hread := readUnsigned_point_within negative hd hds hrest (k := k) (by omega) hlt
        have hexp : (k : ℤ) - ds.length = e := by omega
        rw [hexp] at hread
        have hzeros : k - ds.length = 0 := by omega
        have hfraction : ds.drop k ≠ [] := by simpa using hlt
        simpa [hzeros, hfraction] using hread
      · refine ⟨⟨n * 10 ^ (k - ds.length + 1), -1⟩, ?_, ?_⟩
        · rw [Decimal.toRat_shift]
          congr 2
          omega
        · have hread := readUnsigned_point_behind negative hd hds hrest (k - ds.length)
          have htake : ds.take k = ds := List.take_of_length_le (by omega)
          have hdrop : ds.drop k = [] := List.drop_of_length_le (by omega)
          simpa [htake, hdrop] using hread

theorem readUnsigned_double (x : Binary64) {rest : Text} (hrest : Stops prolongs rest) :
    readUnsigned x.negative
        ((if x.significand = 0 then "0.0".toList else x.shortest.toText) ++ rest) =
      some (.double x, rest) := by
  split
  case isTrue hzero =>
    have hread := readUnsigned_point_before x.negative (n := 0) rfl hrest 0
    have hx : Number.ofDecimal x.negative 0 (-(((0 : ℕ) : ℤ) + ['0'].length)) = .double x := by
      rw [Binary64.eq_zero_of_significand hzero]
      rfl
    exact hread.trans (by rw [← hx]; rfl)
  case isFalse hzero =>
    have hback := x.readsBack_shortest
    obtain ⟨d, hvalue, hread⟩ :=
      readUnsigned_toText (Binary64.digits_ne_zero_of_readsBack hzero hback) x.negative hrest
    rw [hread, Number.ofDecimal_eq hzero ((Binary64.readsBack_congr hvalue).2 hback)]

theorem readNumber_of_readUnsigned {negative : Bool} {t : Text} {r : Number × Text}
    (h : readUnsigned negative t = some r) :
    readNumber ((if negative then ['-'] else []) ++ t) = some r := by
  cases negative with
  | true => exact h
  | false =>
    obtain ⟨c, t, rfl, hc⟩ := exists_digit_of_readUnsigned h
    have hne : c ≠ '-' := by
      rintro rfl
      exact absurd hc (by decide)
    simp only [Bool.false_eq_true, if_false, List.nil_append]
    unfold readNumber
    split
    case h_1 heq => exact absurd (List.cons.inj heq).1 hne
    case h_2 => exact h

/-- A number is read from its text, if nothing comes next that would prolong it. -/
theorem readNumber_writeNumber {n : Number} (hn : n.IsWritable) {rest : Text}
    (hrest : Stops prolongs rest) : readNumber (writeNumber n ++ rest) = some (n, rest) := by
  cases n with
  | int n =>
    have hread := readUnsigned_int (decide (n < 0)) (isWhole_toDigits n.natAbs)
      (stops_isDigit hrest) hrest
    have hvalue : (if n < 0 then -(n.natAbs : ℤ) else n.natAbs) = n := by split <;> omega
    simp only [decide_eq_true_eq, Nat.ofDigitChars_ten_toDigits, hvalue] at hread
    simpa [writeNumber, Text.ofInt, Text.ofNat] using readNumber_of_readUnsigned hread
  | double x =>
    have hread := readNumber_of_readUnsigned (readUnsigned_double x hrest)
    simpa [writeNumber, Binary64.toText] using hread
  | infinite negative => exact hn.elim

end Json

end PatchReview
