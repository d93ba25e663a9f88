import Mathlib
import PatchReview.Text.Basic

set_option autoImplicit false

namespace PatchReview

theorem digitValue?_of_isDigit {c : Char} (h : c.isDigit) :
    digitValue? c = some (c.toNat - '0'.toNat) := by
  obtain ⟨hlo, hhi⟩ := Char.isDigit_iff_toNat.1 h
  have hfind : (zeroDigits.find? fun z => z ≤ c.toNat && c.toNat ≤ z + 9) = some 0x30 := by
    refine List.find?_cons_of_pos ?_
    simp only [Bool.and_eq_true, decide_eq_true_eq]
    exact ⟨hlo, hhi⟩
  rw [digitValue?, hfind]
  rfl

theorem isDigit_of_isDigit {c : Char} (h : c.isDigit) : isDigit c := by
  simp [isDigit, digitValue?_of_isDigit h]

namespace Text

theorem ofNat_ne_nil (n : Nat) : ofNat n ≠ [] :=
  List.ne_nil_of_length_pos Nat.length_toDigits_pos

theorem isDigit_of_mem_ofNat {n : Nat} {c : Char} (h : c ∈ ofNat n) : c.isDigit :=
  Nat.isDigit_of_mem_toDigits (by decide) (by decide) h

theorem notMem_ofNat {n : Nat} {c : Char} (h : c.isDigit = false) : c ∉ ofNat n := by
  intro hc
  simp [isDigit_of_mem_ofNat hc] at h

@[simp] theorem digitsValue_ofNat (n : Nat) : digitsValue (ofNat n) = n := by
  have hstep : ∀ (t : Text) (init : Nat), (∀ c ∈ t, c.isDigit) →
      t.foldl (fun n c => 10 * n + (digitValue? c).getD 0) init = Nat.ofDigitChars 10 t init := by
    intro t
    induction t with
    | nil => exact fun _ _ => rfl
    | cons c t ih =>
      intro init ht
      rw [List.foldl_cons, Nat.ofDigitChars_cons, ih _ fun d hd => ht d (List.mem_cons_of_mem c hd),
        digitValue?_of_isDigit (ht c List.mem_cons_self)]
      rfl
  rw [digitsValue, hstep _ 0 fun c => isDigit_of_mem_ofNat]
  exact Nat.ofDigitChars_ten_toDigits

theorem ofInt_natCast (n : ℕ) : ofInt n = ofNat n := by
  rw [ofInt, if_neg (by omega), Int.natAbs_natCast, List.nil_append]

theorem length_ofNat_le_iff {n k : Nat} (hk : 0 < k) : (ofNat n).length ≤ k ↔ n < 10 ^ k :=
  Nat.length_toDigits_le_iff (by decide) hk

end Text

end PatchReview
