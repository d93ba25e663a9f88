import Mathlib.Data.List.Nodup
import PatchReview.Proofs.Distinct
import PatchReview.Proofs.Tools.Session

set_option autoImplicit false

namespace PatchReview

theorem findIdx_lt_of_idxOf_filterMap {α β : Type} [BEq β] [LawfulBEq β] {f : α → Option β}
    {l : List α} {b c : β} (h : (l.filterMap f).idxOf b < (l.filterMap f).idxOf c) :
    l.findIdx (f · == some b) < l.findIdx (f · == some c) := by
  induction l with
  | nil => simp at h
  | cons a l ih =>
    have hnext {d : β} (hd : f a ≠ some d) :
        (a :: l).findIdx (f · == some d) = l.findIdx (f · == some d) + 1 := by
      rw [List.findIdx_cons, beq_eq_false_iff_ne.2 hd, cond_false]
    cases hf : f a with
    | none =>
      rw [List.filterMap_cons_none hf] at h
      rw [hnext (by simp [hf]), hnext (by simp [hf])]
      exact Nat.succ_lt_succ (ih h)
    | some d =>
      rw [List.filterMap_cons_some hf] at h
      by_cases hc : d = c
      · subst hc
        simp at h
      rw [hnext (d := c) (by simpa [hf] using hc)]
      by_cases hb : d = b
      · subst hb
        simp [List.findIdx_cons, hf]
      · rw [List.idxOf_cons_ne _ hb, List.idxOf_cons_ne _ hc] at h
        rw [hnext (by simpa [hf] using hb)]
        exact Nat.succ_lt_succ (ih (Nat.lt_of_succ_lt_succ h))

namespace Tools

namespace Check

def isNamedBy (c : Check) (t : Text) : Bool := Text.lower (Text.trim t) == c.name.toList

theorem ofText?_beq (c : Check) (t : Text) : (ofText? t == some c) = c.isNamedBy t := by
  rw [Bool.eq_iff_iff, beq_iff_eq, ofText?_eq_some_iff, isNamedBy, beq_iff_eq]

theorem ofText?_name (c : Check) : ofText? c.name.toList = some c := by
  cases c <;> decide

theorem mem_all (c : Check) : c ∈ all := by
  cases c <;> decide

theorem toolName_injective : Function.Injective toolName := by
  intro c d h
  have hread := ofToolName?_toolName c
  rw [h, ofToolName?_toolName] at hread
  exact (Option.some.inj hread).symm

end Check

/-- The checks that a list of names stands for: the known ones of the names, each once and in the
order in which they first occur. -/
structure IsNormal (names : List Text) (checks : List Check) : Prop where
  nodup : checks.Nodup
  mem_iff : ∀ name, name ∈ checks.map (·.name.toList) ↔
    name ∈ Check.all.map (·.name.toList) ∧ ∃ t ∈ names, Text.lower (Text.trim t) = name
  order : checks.Pairwise fun c d => names.findIdx c.isNamedBy < names.findIdx d.isNamedBy

theorem isNormal_normalizeChecks (names : List Text) :
    IsNormal names (normalizeChecks (some names)) where
  nodup := nodup_normalizeChecks _
  mem_iff name := by
    have hmem (c : Check) : c ∈ normalizeChecks (some names) ↔
        ∃ t ∈ names, Text.lower (Text.trim t) = c.name.toList := by
      rw [mem_normalizeChecks, Asked]
      simp
    simp only [List.mem_map, hmem, Check.mem_all, true_and]
    constructor
    · rintro ⟨c, hnamed, hname⟩
      exact ⟨⟨c, hname⟩, hname ▸ hnamed⟩
    · rintro ⟨⟨c, hname⟩, hnamed⟩
      exact ⟨c, hname ▸ hnamed, hname⟩
  order := by
    refine (pairwise_idxOf_distinct (names.filterMap Check.ofText?)).imp fun {c d} hlt => ?_
    simpa only [Check.ofText?_beq] using findIdx_lt_of_idxOf_filterMap hlt

theorem normalizeChecks_names {checks : List Check} (h : checks.Nodup) :
    normalizeChecks (some (checks.map (·.name.toList))) = checks := by
  have hread : (checks.map (·.name.toList)).filterMap Check.ofText? = checks := by
    simp only [List.filterMap_map, Function.comp_def, Check.ofText?_name, List.filterMap_some]
  rw [normalizeChecks, hread, distinct_of_nodup h]

theorem normalizeChecks_append (a b : List Text) :
    normalizeChecks (some (a ++ b)) = normalizeChecks (some a) ++
      (normalizeChecks (some b)).filter (!(normalizeChecks (some a)).contains ·) := by
  simp only [normalizeChecks, List.filterMap_append, distinct_append]

/-- The tools of the checks are registered: each has a name of its own, under which the check
answers. -/
structure Server.Offers (s : Server) (checks : List Check) : Prop where
  nodup : (checks.map (·.toolName)).Nodup
  answers : ∀ c ∈ checks, ∀ args, s.call c.toolName.toList args = answerOf c args

theorem Server.offers_register (s : Server) {checks : List Check} (h : checks.Nodup) :
    (s.register checks).Offers checks where
  nodup := List.Nodup.map Check.toolName_injective h
  answers c hc args := call_of_mem ((s.mem_register checks c).2 (.inr hc)) args

/-- A list of names stands for its known checks, is read the same once it is in that form, and adds
to another list what is new; a server that is told to register it offers these checks. -/
theorem normalizeChecks_laws (a b : List Text) :
    let checks := normalizeChecks (some a)
    IsNormal a checks ∧
    normalizeChecks (some (checks.map (·.name.toList))) = checks ∧
    normalizeChecks (some (a ++ b)) =
      checks ++ (normalizeChecks (some b)).filter (!checks.contains ·) ∧
    ∀ s : Server, ∃ s', s.step (.register (some a)) = (s', .registered checks) ∧
      s'.Offers checks := by
  intro checks
  have hnormal : IsNormal a checks := isNormal_normalizeChecks a
  exact ⟨hnormal, normalizeChecks_names hnormal.nodup, normalizeChecks_append a b,
    fun s => ⟨_, rfl, s.offers_register hnormal.nodup⟩⟩

/-- Blanks and capitals make no difference, but a long s is another letter. -/
example :
    normalizeChecks (some ["\u2003TESTS\n".toList, "lint".toList, "te\u017fts".toList,
      "AI-Detection".toList, "tests".toList]) = [.tests, .aiDetection] := by
  decide

end Tools

end PatchReview
