import Mathlib.Data.List.Forall2

set_option autoImplicit false

namespace PatchReview

variable {ε α β γ : Type} {f : α → Except ε β}

theorem bind_eq_ok {x : Except ε α} {r : β} :
    x >>= f = .ok r ↔ ∃ a, x = .ok a ∧ f a = .ok r := by
  cases x <;> simp [bind, Except.bind]

/-- Both runs succeed with related results, or both fail. -/
def Agree (related : α → β → Prop) : Except ε α → Except ε β → Prop
  | .ok a, .ok b => related a b
  | .error _, .error _ => True
  | _, _ => False

theorem Agree.bind {δ : Type} {related : α → β → Prop} {related' : γ → δ → Prop} {x : Except ε α}
    {y : Except ε β} {f : α → Except ε γ} {g : β → Except ε δ} (h : Agree related x y)
    (hfg : ∀ a b, related a b → Agree related' (f a) (g b)) :
    Agree related' (x >>= f) (y >>= g) := by
  match x, y, h with
  | .ok a, .ok b, h => exact hfg a b h
  | .error _, .error _, _ => trivial

def failure? : Except ε α → Option ε
  | .ok _ => none
  | .error e => some e

@[simp] theorem failure?_ok (a : α) : failure? (.ok a : Except ε α) = none := rfl

@[simp] theorem failure?_error (e : ε) : failure? (.error e : Except ε α) = some e := rfl

theorem failure?_eq_some_iff {x : Except ε α} {e : ε} : failure? x = some e ↔ x = .error e := by
  cases x <;> simp

theorem failure?_bind (x : Except ε α) (f : α → Except ε β) :
    failure? (x >>= f) = match x with
      | .ok a => failure? (f a)
      | .error e => some e := by
  cases x <;> rfl

/-- What is done with the result of a run cannot make it fail. -/
theorem failure?_bind_ok (x : Except ε α) (g : α → β) :
    failure? (x >>= fun a => .ok (g a)) = failure? x := by
  cases x <;> rfl

theorem failure?_bind_of_forall {x : Except ε α} {o : Option ε} (h : ∀ a, failure? (f a) = o) :
    failure? (x >>= f) = (failure? x).or o := by
  cases x with
  | error e => rfl
  | ok a => exact h a

theorem failure?_mapM (l : List α) : failure? (l.mapM f) = l.findSome? fun a => failure? (f a) := by
  induction l with
  | nil => rfl
  | cons a l ih =>
    rw [List.mapM_cons, failure?_bind, List.findSome?_cons]
    cases f a with
    | error e => rfl
    | ok b => exact (failure?_bind_ok (l.mapM f) (b :: ·)).trans ih

theorem mapM_eq_pure {m : Type → Type} [Monad m] [LawfulMonad m] {f : α → m β} {g : α → β}
    {l : List α} (h : ∀ a ∈ l, f a = pure (g a)) : l.mapM f = pure (l.map g) := by
  induction l with
  | nil => rfl
  | cons a l ih =>
    have ha := h a List.mem_cons_self
    have hl := ih fun b hb => h b (List.mem_cons_of_mem a hb)
    rw [List.mapM_cons, ha, hl, pure_bind, pure_bind]
    rfl

theorem mapM_eq_ok {g : α → β} {l : List α} (h : ∀ a ∈ l, f a = .ok (g a)) :
    l.mapM f = .ok (l.map g) :=
  mapM_eq_pure h

theorem mapM_congr {g : α → Except ε β} {l : List α} (h : ∀ a ∈ l, f a = g a) :
    l.mapM f = l.mapM g := by
  induction l with
  | nil => rfl
  | cons a l ih =>
    rw [List.mapM_cons, List.mapM_cons, h a List.mem_cons_self,
      ih fun b hb => h b (List.mem_cons_of_mem a hb)]

theorem forall₂_of_mapM {related : α → β → Prop} {l : List α} {r : List β}
    (h : l.mapM f = .ok r) (hr : ∀ a ∈ l, ∀ b, f a = .ok b → related a b) :
    List.Forall₂ related l r := by
  induction l generalizing r with
  | nil =>
    cases h
    exact .nil
  | cons a l ih =>
    rw [List.mapM_cons, bind_eq_ok] at h
    obtain ⟨b, hb, h⟩ := h
    obtain ⟨bs, hbs, h⟩ := bind_eq_ok.1 h
    cases h
    exact .cons (hr a List.mem_cons_self b hb)
      (ih hbs fun c hc => hr c (List.mem_cons_of_mem a hc))

theorem mem_of_mapM {l : List α} {r : List β} (h : l.mapM f = .ok r) {a : α} {b : β} (ha : a ∈ l)
    (hb : f a = .ok b) : b ∈ r := by
  induction l generalizing r with
  | nil => simp at ha
  | cons c l ih =>
    rw [List.mapM_cons, bind_eq_ok] at h
    obtain ⟨d, hd, h⟩ := h
    obtain ⟨ds, hds, h⟩ := bind_eq_ok.1 h
    cases h
    rcases List.mem_cons.1 ha with rfl | ha
    · cases hd.symm.trans hb
      exact List.mem_cons_self
    · exact List.mem_cons_of_mem d (ih hds ha)

theorem exists_of_mem_of_mapM {l : List α} {r : List β} (h : l.mapM f = .ok r) {b : β}
    (hb : b ∈ r) : ∃ a ∈ l, f a = .ok b := by
  induction l generalizing r with
  | nil =>
    cases h
    simp at hb
  | cons a l ih =>
    rw [List.mapM_cons, bind_eq_ok] at h
    obtain ⟨c, hc, h⟩ := h
    obtain ⟨cs, hcs, h⟩ := bind_eq_ok.1 h
    cases h
    rcases List.mem_cons.1 hb with rfl | hb
    · exact ⟨a, List.mem_cons_self, hc⟩
    · obtain ⟨a', ha', hf⟩ := ih hcs hb
      exact ⟨a', List.mem_cons_of_mem a ha', hf⟩

theorem map_eq_of_mapM {g : β → γ} {w : α → γ} {l : List α} {r : List β}
    (h : l.mapM f = .ok r) (hg : ∀ a ∈ l, ∀ b, f a = .ok b → g b = w a) :
    r.map g = l.map w := by
  induction l generalizing r with
  | nil =>
    cases h
    rfl
  | cons a l ih =>
    rw [List.mapM_cons, bind_eq_ok] at h
    obtain ⟨b, hb, h⟩ := h
    obtain ⟨bs, hbs, h⟩ := bind_eq_ok.1 h
    cases h
    have hl := ih hbs fun c hc => hg c (List.mem_cons_of_mem a hc)
    simp [hg a List.mem_cons_self b hb, hl]

end PatchReview
