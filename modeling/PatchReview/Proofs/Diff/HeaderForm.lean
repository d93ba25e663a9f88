import PatchReview.Diff.Hunk
import PatchReview.Proofs.Diff.Lines
import PatchReview.Proofs.Fallible

set_option autoImplicit false

namespace PatchReview

theorem isDigit_of_isBlank {c : Char} (h : isBlank c) : isDigit c = false := by
  have hgaps : ∀ z ∈ zeroDigits, 0x20 < z ∧ (z + 9 < 0x85 ∨ 0xa0 < z) ∧
      (z + 9 < 0x1680 ∨ 0x1680 < z) ∧ (z + 9 < 0x2000 ∨ 0x3000 < z) := by decide
  simp only [isBlank, Bool.or_eq_true, Bool.and_eq_true, beq_iff_eq, decide_eq_true_eq] at h
  have hfind : (zeroDigits.find? fun z => z ≤ c.toNat && c.toNat ≤ z + 9) = none := by
    rw [List.find?_eq_none]
    intro z hz hin
    obtain ⟨h₁, h₂, h₃, h₄⟩ := hgaps z hz
    simp only [Bool.and_eq_true, decide_eq_true_eq] at hin
    omega
  simp [isDigit, digitValue?, hfind]

namespace Diff

/-- One or more characters of a kind. -/
def Row (accepts : Char → Bool) (t : Text) : Prop := t ≠ [] ∧ ∀ c ∈ t, accepts c

theorem row_singleton {accepts : Char → Bool} {c : Char} (h : accepts c) : Row accepts [c] :=
  ⟨List.cons_ne_nil c [], by simpa using h⟩

theorem row_replicate {accepts : Char → Bool} {c : Char} {n : Nat} (hn : n ≠ 0)
    (h : accepts c) : Row accepts (List.replicate n c) :=
  ⟨by simpa using hn, fun _ hd => List.eq_of_mem_replicate hd ▸ h⟩

/-- No further character of the row comes next. -/
def Stops (accepts : Char → Bool) (rest : Text) : Prop :=
  ∀ c, rest.head? = some c → accepts c = false

theorem stops_cons {accepts : Char → Bool} {c : Char} {t : Text} (h : accepts c = false) :
    Stops accepts (c :: t) := by
  intro x hx
  rw [List.head?_cons, Option.some.injEq] at hx
  exact hx ▸ h

theorem takeWhile_append_of_stops {accepts : Char → Bool} {row rest : Text}
    (hrow : ∀ c ∈ row, accepts c) (hrest : Stops accepts rest) :
    (row ++ rest).takeWhile accepts = row ∧ (row ++ rest).dropWhile accepts = rest := by
  rw [List.takeWhile_append_of_pos hrow, List.dropWhile_append_of_pos hrow]
  cases rest with
  | nil => simp
  | cons c rest => simp [hrest c rfl]

theorem append_inj_of_stops {accepts : Char → Bool} {u u' x x' : Text} (h : u ++ x = u' ++ x')
    (hu : ∀ c ∈ u, accepts c) (hu' : ∀ c ∈ u', accepts c) (hx : Stops accepts x)
    (hx' : Stops accepts x') : u = u' ∧ x = x' := by
  obtain ⟨htake, hdrop⟩ := takeWhile_append_of_stops hu hx
  obtain ⟨htake', hdrop'⟩ := takeWhile_append_of_stops hu' hx'
  rw [h] at htake hdrop
  exact ⟨htake.symm.trans htake', hdrop.symm.trans hdrop'⟩

theorem stops_dropWhile (accepts : Char → Bool) (t : Text) :
    Stops accepts (t.dropWhile accepts) := by
  intro c hc
  have h := List.head?_dropWhile_not accepts t
  rw [hc] at h
  simpa using h

theorem digits?_eq_some_iff {t digits rest : Text} :
    digits? t = some (digits, rest) ↔
      t = digits ++ rest ∧ Row isDigit digits ∧ Stops isDigit rest := by
  constructor
  · intro h
    simp only [digits?] at h
    split at h
    case isTrue => simp at h
    case isFalse hne =>
      simp only [Option.some.injEq, Prod.mk.injEq] at h
      obtain ⟨rfl, rfl⟩ := h
      refine ⟨List.takeWhile_append_dropWhile.symm, ⟨by simpa using hne, ?_⟩, stops_dropWhile _ _⟩
      exact fun c hc => List.mem_takeWhile_imp hc
  · intro ⟨ht, hrow, hrest⟩
    obtain ⟨htake, hdrop⟩ := takeWhile_append_of_stops hrow.2 hrest
    subst ht
    simp [digits?, htake, hdrop, hrow.1]

theorem afterBlanks?_eq_some_iff {t rest : Text} :
    afterBlanks? t = some rest ↔ ∃ b, t = b ++ rest ∧ Row isBlank b ∧ Stops isBlank rest := by
  constructor
  · intro h
    unfold afterBlanks? at h
    split at h
    case h_1 => simp at h
    case h_2 c t =>
      split at h
      case isFalse => simp at h
      case isTrue hc =>
        rw [Option.some.injEq] at h
        subst h
        refine ⟨c :: t.takeWhile isBlank, by simp, ⟨by simp, ?_⟩, stops_dropWhile _ _⟩
        have hall : ∀ x ∈ t.takeWhile isBlank, isBlank x := fun x hx => List.mem_takeWhile_imp hx
        simpa [hc] using hall
  · intro ⟨b, ht, hrow, hrest⟩
    obtain ⟨c, b, rfl⟩ := List.exists_cons_of_ne_nil hrow.1
    have hc : isBlank c := hrow.2 c List.mem_cons_self
    have hb : ∀ x ∈ b, isBlank x := fun x hx => hrow.2 x (List.mem_cons_of_mem c hx)
    subst ht
    simp [afterBlanks?, hc, (takeWhile_append_of_stops hb hrest).2]

theorem after?_eq_some_iff {mark : Char} {t rest : Text} :
    after? mark t = some rest ↔ t = mark :: rest := by
  cases t with
  | nil => simp [after?]
  | cons c t => by_cases h : c = mark <;> simp [after?, h]

theorem afterMark?_eq_some_iff {t rest : Text} :
    afterMark? t = some rest ↔ t = '@' :: '@' :: rest := by
  simp only [afterMark?, Option.bind_eq_bind, Option.bind_eq_some_iff, after?_eq_some_iff]
  constructor
  · intro ⟨_, h, h'⟩
    rw [h, h']
  · intro h
    exact ⟨_, h, rfl⟩

namespace RangeDigits

def written (r : RangeDigits) (sign : Char) : Text :=
  sign :: (r.start ++ (r.count.map (',' :: ·)).getD [])

structure Numeric (r : RangeDigits) : Prop where
  start : Row isDigit r.start
  count : ∀ n ∈ r.count, Row isDigit n

end RangeDigits

theorem range?_eq_some_iff {sign : Char} {t rest : Text} {r : RangeDigits}
    (hrest : Stops isDigit rest) (hcomma : rest.head? ≠ some ',') :
    range? sign t = some (r, rest) ↔ t = r.written sign ++ rest ∧ r.Numeric := by
  simp only [range?, Option.bind_eq_bind, Option.bind_eq_some_iff, after?_eq_some_iff]
  constructor
  · intro ⟨_, ht, ⟨start, rest'⟩, hstart, h⟩
    obtain ⟨rfl, hrow, -⟩ := digits?_eq_some_iff.1 hstart
    subst ht
    cases hc : after? ',' rest' with
    | none =>
      rw [hc] at h
      cases h
      exact ⟨by simp [RangeDigits.written], hrow, by simp⟩
    | some counted =>
      rw [hc] at h
      rw [after?_eq_some_iff] at hc
      subst hc
      obtain ⟨⟨count, rest⟩, hcount, h⟩ := Option.bind_eq_some_iff.1 h
      cases h
      obtain ⟨rfl, hrow', -⟩ := digits?_eq_some_iff.1 hcount
      exact ⟨by simp [RangeDigits.written], hrow, by simpa using hrow'⟩
  · intro ⟨ht, hstart, hcount⟩
    obtain ⟨start, count⟩ := r
    subst ht
    refine ⟨_, rfl, (start, (count.map (',' :: ·)).getD [] ++ rest), ?_, ?_⟩
    · refine digits?_eq_some_iff.2 ⟨by simp, hstart, ?_⟩
      cases count with
      | none => exact hrest
      | some n =>
        intro c hc
        obtain rfl : ',' = c := by simpa using hc
        decide
    · cases count with
      | none =>
        have hnone : after? ',' rest = none := by
          rw [Option.eq_none_iff_forall_not_mem]
          intro _ h
          rw [Option.mem_def, after?_eq_some_iff] at h
          simp [h] at hcomma
        simp [hnone]
      | some n =>
        have hn : digits? (n ++ rest) = some (n, rest) :=
          digits?_eq_some_iff.2 ⟨rfl, hcount n rfl, hrest⟩
        simp [after?, hn]

namespace HeaderParts

/-- The line is a header made of these parts. -/
def Forms (p : HeaderParts) (line : Text) : Prop :=
  ∃ b₁ b₂ b₃, Row isBlank b₁ ∧ Row isBlank b₂ ∧ Row isBlank b₃ ∧ p.old.Numeric ∧ p.new.Numeric ∧
    line = "@@".toList ++ b₁ ++ p.old.written '-' ++ b₂ ++ p.new.written '+' ++ b₃ ++
      "@@".toList ++ p.trailer

theorem ofLine?_eq_some_iff {line : Text} {p : HeaderParts} :
    ofLine? line = some p ↔ p.Forms line := by
  have hblank {b rest : Text} (hb : Row isBlank b) :
      Stops isDigit (b ++ rest) ∧ (b ++ rest).head? ≠ some ',' := by
    obtain ⟨c, b, rfl⟩ := List.exists_cons_of_ne_nil hb.1
    have hc := hb.2 c List.mem_cons_self
    refine ⟨?_, ?_⟩
    · intro d hd
      obtain rfl : c = d := by simpa using hd
      exact isDigit_of_isBlank hc
    · intro hd
      obtain rfl : c = ',' := by simpa using hd
      exact absurd hc (by decide)
  have hsign {c : Char} (hc : isBlank c = false) (rest : Text) : Stops isBlank (c :: rest) := by
    intro d hd
    obtain rfl : c = d := by simpa using hd
    exact hc
  simp only [ofLine?, Option.bind_eq_bind, Option.bind_eq_some_iff, afterMark?_eq_some_iff]
  constructor
  · intro ⟨_, hline, _, h₁, ⟨old, r₁⟩, hold, _, h₂, ⟨new, r₂⟩, hnew, _, h₃, trailer, hend, hp⟩
    cases hp
    obtain ⟨b₁, rfl, hb₁, -⟩ := afterBlanks?_eq_some_iff.1 h₁
    obtain ⟨b₂, rfl, hb₂, -⟩ := afterBlanks?_eq_some_iff.1 h₂
    obtain ⟨b₃, rfl, hb₃, -⟩ := afterBlanks?_eq_some_iff.1 h₃
    obtain ⟨rfl, holdn⟩ := (range?_eq_some_iff (hblank hb₂).1 (hblank hb₂).2).1 hold
    obtain ⟨rfl, hnewn⟩ := (range?_eq_some_iff (hblank hb₃).1 (hblank hb₃).2).1 hnew
    subst hline
    exact ⟨b₁, b₂, b₃, hb₁, hb₂, hb₃, holdn, hnewn, by simp [hend]⟩
  · intro ⟨b₁, b₂, b₃, hb₁, hb₂, hb₃, hold, hnew, hline⟩
    have hend : Stops isBlank ("@@".toList ++ p.trailer) := hsign (by decide) _
    have hplus (rest : Text) : Stops isBlank (p.new.written '+' ++ rest) := hsign (by decide) _
    have hminus (rest : Text) : Stops isBlank (p.old.written '-' ++ rest) := hsign (by decide) _
    let fourth := "@@".toList ++ p.trailer
    let third := p.new.written '+' ++ (b₃ ++ fourth)
    let second := p.old.written '-' ++ (b₂ ++ third)
    have h₃ : afterBlanks? (b₃ ++ fourth) = some fourth :=
      afterBlanks?_eq_some_iff.2 ⟨b₃, rfl, hb₃, hend⟩
    have hnew' : range? '+' third = some (p.new, b₃ ++ fourth) :=
      (range?_eq_some_iff (hblank hb₃).1 (hblank hb₃).2).2 ⟨rfl, hnew⟩
    have h₂ : afterBlanks? (b₂ ++ third) = some third :=
      afterBlanks?_eq_some_iff.2 ⟨b₂, rfl, hb₂, hplus _⟩
    have hold' : range? '-' second = some (p.old, b₂ ++ third) :=
      (range?_eq_some_iff (hblank hb₂).1 (hblank hb₂).2).2 ⟨rfl, hold⟩
    have h₁ : afterBlanks? (b₁ ++ second) = some second :=
      afterBlanks?_eq_some_iff.2 ⟨b₁, rfl, hb₁, hminus _⟩
    exact ⟨_, by simp [hline, second, third, fourth], _, h₁, (p.old, _), hold', _, h₂,
      (p.new, _), hnew', _, h₃, p.trailer, rfl, rfl⟩

theorem Forms.isHunkMark {p : HeaderParts} {line : Text} (h : p.Forms line) : isHunkMark line := by
  obtain ⟨b₁, b₂, b₃, -, -, -, -, -, rfl⟩ := h
  simp [Diff.isHunkMark, startsWith]

theorem forms_append_return {p : HeaderParts} {line : Text} :
    p.Forms (line ++ ['\r']) ↔
      ∃ q : HeaderParts, q.Forms line ∧ { q with trailer := q.trailer ++ ['\r'] } = p := by
  constructor
  · intro ⟨b₁, b₂, b₃, hb₁, hb₂, hb₃, hold, hnew, hline⟩
    have hlast : some '\r' = p.trailer.getLast?.or (some '@') := by
      have hlast := congrArg List.getLast? hline
      rw [List.getLast?_concat, List.getLast?_append, List.getLast?_append] at hlast
      simpa using hlast
    rcases List.eq_nil_or_concat p.trailer with htrailer | ⟨trailer, c, htrailer⟩
    · simp [htrailer] at hlast
    · rw [List.concat_eq_append] at htrailer
      obtain rfl : '\r' = c := by simpa [htrailer] using hlast
      refine ⟨{ p with trailer := trailer }, ⟨b₁, b₂, b₃, hb₁, hb₂, hb₃, hold, hnew, ?_⟩, ?_⟩
      · rw [htrailer, ← List.append_assoc] at hline
        exact List.append_cancel_right hline
      · simp [← htrailer]
  · intro ⟨q, ⟨b₁, b₂, b₃, hb₁, hb₂, hb₃, hold, hnew, hline⟩, hp⟩
    subst hp
    exact ⟨b₁, b₂, b₃, hb₁, hb₂, hb₃, hold, hnew, by simp [hline]⟩

/-- The numbers of a header, in the order in which they are read. -/
def numbers (p : HeaderParts) : List Text :=
  [p.new.start, p.old.start] ++ p.old.count.toList ++ p.new.count.toList

/-- Only the start of the new lines is left open. -/
def ofNewStart (digits : Text) : HeaderParts := ⟨⟨['1'], none⟩, ⟨digits, none⟩, []⟩

theorem forms_ofNewStart {digits : Text} (h : Row isDigit digits) :
    (ofNewStart digits).Forms ("@@ -1 +".toList ++ digits ++ " @@".toList) := by
  have hblank : Row isBlank [' '] := row_singleton (by decide)
  have hone : Row isDigit ['1'] := row_singleton (by decide)
  have hold : (ofNewStart digits).old.Numeric := ⟨hone, by simp [ofNewStart]⟩
  have hnew : (ofNewStart digits).new.Numeric := ⟨h, by simp [ofNewStart]⟩
  refine ⟨[' '], [' '], [' '], hblank, hblank, hblank, hold, hnew, ?_⟩
  simp [ofNewStart, RangeDigits.written]

end HeaderParts

def NumberTooLong.ofDigits? (digits : Text) : Option NumberTooLong :=
  if maxDigits < digits.length then some ⟨digits.length⟩ else none

def tooLong? (line : Text) : Option NumberTooLong :=
  (HeaderParts.ofLine? line).bind fun p => p.numbers.findSome? NumberTooLong.ofDigits?

/-- The number is too long, and none that is read before it. -/
def HeaderParts.FirstTooLong (p : HeaderParts) (n : Text) : Prop :=
  ∃ earlier later, p.numbers = earlier ++ n :: later ∧ maxDigits < n.length ∧
    ∀ m ∈ earlier, m.length ≤ maxDigits

theorem HeaderParts.firstTooLong_ofNewStart {digits : Text} (h : maxDigits < digits.length) :
    (ofNewStart digits).FirstTooLong digits :=
  ⟨[], [['1']], rfl, h, by simp⟩

/-- The line is no header with a number that is too long. -/
def Readable (line : Text) : Prop :=
  ∀ p : HeaderParts, p.Forms line → ∀ n ∈ p.numbers, n.length ≤ maxDigits

theorem NumberTooLong.ofDigits?_eq_none_iff {digits : Text} :
    ofDigits? digits = none ↔ digits.length ≤ maxDigits := by
  simp [ofDigits?]

theorem NumberTooLong.ofDigits?_eq_some_iff {digits : Text} {e : NumberTooLong} :
    ofDigits? digits = some e ↔ maxDigits < digits.length ∧ e = ⟨digits.length⟩ := by
  simp [ofDigits?, eq_comm]

theorem tooLong?_eq_none_iff {line : Text} : tooLong? line = none ↔ Readable line := by
  simp only [tooLong?, Option.bind_eq_none_iff, List.findSome?_eq_none_iff, Readable,
    HeaderParts.ofLine?_eq_some_iff, NumberTooLong.ofDigits?_eq_none_iff]

theorem tooLong?_eq_some_iff {line : Text} {e : NumberTooLong} :
    tooLong? line = some e ↔ ∃ (p : HeaderParts) (n : Text),
      p.Forms line ∧ p.FirstTooLong n ∧ e = ⟨n.length⟩ := by
  simp only [tooLong?, Option.bind_eq_some_iff, List.findSome?_eq_some_iff,
    HeaderParts.ofLine?_eq_some_iff, NumberTooLong.ofDigits?_eq_none_iff,
    NumberTooLong.ofDigits?_eq_some_iff]
  constructor
  · intro ⟨p, hp, earlier, n, later, hnumbers, ⟨hn, he⟩, hearlier⟩
    exact ⟨p, n, hp, ⟨earlier, later, hnumbers, hn, hearlier⟩, he⟩
  · intro ⟨p, n, hp, ⟨earlier, later, hnumbers, hn, hearlier⟩, he⟩
    exact ⟨p, hp, earlier, n, later, hnumbers, ⟨hn, he⟩, hearlier⟩

theorem tooLong?_eq_none_of_not_isHunkMark {line : Text} (h : isHunkMark line = false) :
    tooLong? line = none := by
  refine tooLong?_eq_none_iff.2 fun p hp => ?_
  simp [hp.isHunkMark] at h

theorem tooLong?_append_return (line : Text) : tooLong? (line ++ ['\r']) = tooLong? line := by
  have hparts : HeaderParts.ofLine? (line ++ ['\r']) =
      (HeaderParts.ofLine? line).map fun q => { q with trailer := q.trailer ++ ['\r'] } := by
    refine Option.ext fun p => ?_
    simp only [HeaderParts.ofLine?_eq_some_iff, Option.map_eq_some_iff]
    exact HeaderParts.forms_append_return
  rw [tooLong?, hparts, Option.bind_map]
  rfl

@[simp] theorem tooLong?_dropReturn (line : Text) : tooLong? (dropReturn line) = tooLong? line := by
  by_cases h : line.getLast? = some '\r'
  · obtain ⟨m, rfl⟩ := List.getLast?_eq_some_iff.1 h
    rw [dropReturn_append_return, tooLong?_append_return]
  · rw [dropReturn_eq_self h]

namespace HunkHeader

theorem failure?_readNumber (digits : Text) :
    failure? (readNumber digits) = NumberTooLong.ofDigits? digits := by
  unfold readNumber NumberTooLong.ofDigits?
  by_cases h : digits.length ≤ maxDigits
  · rw [if_pos h, if_neg (by omega), failure?_ok]
  · rw [if_neg h, if_pos (by omega), failure?_error]

theorem failure?_readCount (count : Option Text) :
    failure? (readCount count) = count.toList.findSome? NumberTooLong.ofDigits? := by
  cases count with
  | none => rfl
  | some digits => simp [readCount, failure?_readNumber]

theorem failure?_ofParts (p : HeaderParts) :
    failure? (ofParts p) = p.numbers.findSome? NumberTooLong.ofDigits? := by
  have hparts : failure? (ofParts p) = (failure? (readNumber p.new.start)).or
      ((failure? (readNumber p.old.start)).or
        ((failure? (readCount p.old.count)).or (failure? (readCount p.new.count)))) :=
    failure?_bind_of_forall fun _ => failure?_bind_of_forall fun _ =>
      failure?_bind_of_forall fun _ => failure?_bind_ok _ _
  rw [hparts]
  simp only [HeaderParts.numbers, failure?_readNumber, failure?_readCount, List.append_assoc,
    List.findSome?_append, List.findSome?_cons, List.findSome?_nil]
  cases NumberTooLong.ofDigits? p.new.start <;> cases NumberTooLong.ofDigits? p.old.start <;> rfl

theorem failure?_ofLine (line : Text) : failure? (ofLine line) = tooLong? line := by
  unfold ofLine tooLong?
  cases HeaderParts.ofLine? line with
  | none => rfl
  | some p => exact failure?_ofParts p

end HunkHeader

end Diff

end PatchReview
