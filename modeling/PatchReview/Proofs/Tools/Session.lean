import PatchReview.Tools.Server

/-!
Sessions of any length. What is registered after some steps follows from the last `create` and the
`register`s behind it, and every answer from that and the step. Main statement: `session_spec`.
-/

set_option autoImplicit false

namespace PatchReview.Tools

/-- The check is on: there is no list of names, or one of them reads as its name. -/
def Asked (checks : Option (List Text)) (c : Check) : Prop :=
  ∀ names, checks = some names → ∃ t ∈ names, Text.lower (Text.trim t) = c.name.toList

theorem Check.ofText?_eq_some_iff {t : Text} {c : Check} :
    ofText? t = some c ↔ Text.lower (Text.trim t) = c.name.toList := by
  simp only [ofText?]
  generalize Text.lower (Text.trim t) = name
  constructor
  · intro h
    have hname := List.find?_some h
    exact (by simpa using hname : c.name.toList = name).symm
  · intro h
    subst h
    cases c <;> decide

theorem Check.ofToolName?_eq_some_iff {tool : Text} {c : Check} :
    ofToolName? tool = some c ↔ c.toolName.toList = tool := by
  constructor
  · intro h
    simpa using List.find?_some h
  · intro h
    subst h
    exact ofToolName?_toolName c

theorem mem_normalizeChecks {checks : Option (List Text)} {c : Check} :
    c ∈ normalizeChecks checks ↔ Asked checks c := by
  cases checks with
  | none => cases c <;> simp [normalizeChecks, Check.all, Asked]
  | some names => simp [normalizeChecks, mem_distinct, Asked, Check.ofText?_eq_some_iff]

theorem nodup_normalizeChecks (checks : Option (List Text)) : (normalizeChecks checks).Nodup := by
  cases checks with
  | none => decide
  | some names => exact nodup_distinct _

namespace Step

def isCreate : Step → Bool
  | create _ => true
  | register _ | list | call _ _ => false

def TurnsOn (x : Step) (c : Check) : Prop :=
  ∃ checks, (x = create checks ∨ x = register checks) ∧ c ∈ normalizeChecks checks

end Step

/-- Some step turns the check on, and no `create` comes after it. -/
def Offered (steps : List Step) (c : Check) : Prop :=
  ∃ before x after, steps = before ++ x :: after ∧ x.TurnsOn c ∧ ∀ y ∈ after, y.isCreate = false

theorem offered_cons {x : Step} {steps : List Step} {c : Check} :
    Offered (x :: steps) c ↔
      Offered steps c ∨ x.TurnsOn c ∧ ∀ y ∈ steps, y.isCreate = false := by
  constructor
  · intro ⟨before, y, after, hsteps, hy, hafter⟩
    cases before with
    | nil =>
      obtain ⟨rfl, rfl⟩ := List.cons.inj hsteps
      exact .inr ⟨hy, hafter⟩
    | cons z before =>
      obtain ⟨rfl, rfl⟩ := List.cons.inj hsteps
      exact .inl ⟨before, y, after, rfl, hy, hafter⟩
  · intro h
    rcases h with ⟨before, y, after, rfl, hy, hafter⟩ | ⟨hx, hsteps⟩
    · exact ⟨x :: before, y, after, rfl, hy, hafter⟩
    · exact ⟨[], x, steps, rfl, hx, hsteps⟩

namespace Server

def after (s : Server) (steps : List Step) : Server := steps.foldl (fun s x => (s.step x).1) s

theorem getElem?_run (s : Server) (before : List Step) (x : Step) (rest : List Step) :
    (s.run (before ++ x :: rest))[before.length]? = some ((s.after before).step x).2 := by
  induction before generalizing s with
  | nil => rfl
  | cons y before ih => exact ih (s.step y).1

theorem mem_registered_step {s : Server} {x : Step} {c : Check} :
    c ∈ (s.step x).1.registered ↔ x.TurnsOn c ∨ x.isCreate = false ∧ c ∈ s.registered := by
  cases x with
  | create checks => simp [step, create, mem_register, empty, Step.TurnsOn, Step.isCreate]
  | register checks =>
    simp [step, mem_register, Step.TurnsOn, Step.isCreate, or_comm]
  | list => simp [step, Step.TurnsOn, Step.isCreate]
  | call tool args => simp [step, Step.TurnsOn, Step.isCreate]

/-- What was registered before the steps stays so up to the first `create`. -/
theorem mem_registered_after {s : Server} {steps : List Step} {c : Check} :
    c ∈ (s.after steps).registered ↔
      Offered steps c ∨ c ∈ s.registered ∧ ∀ y ∈ steps, y.isCreate = false := by
  induction steps generalizing s with
  | nil => simp [after, Offered]
  | cons x steps ih =>
    have hafter : s.after (x :: steps) = (s.step x).1.after steps := rfl
    rw [hafter, ih, mem_registered_step, offered_cons, List.forall_mem_cons, or_and_right,
      or_assoc, and_assoc, and_left_comm]

theorem nodup_register {s : Server} {checks : List Check} (hs : s.registered.Nodup)
    (hc : checks.Nodup) : (s.register checks).registered.Nodup := by
  refine List.nodup_append.2 ⟨hs, hc.filter _, fun c hmem d hd => ?_⟩
  have hnew : d ∉ s.registered := by simpa using (List.mem_filter.1 hd).2
  exact fun heq => hnew (heq ▸ hmem)

theorem nodup_step {s : Server} (hs : s.registered.Nodup) (x : Step) :
    (s.step x).1.registered.Nodup := by
  cases x with
  | create checks => exact nodup_register List.nodup_nil (nodup_normalizeChecks checks)
  | register checks => exact nodup_register hs (nodup_normalizeChecks checks)
  | list => exact hs
  | call tool args => exact hs

theorem nodup_after {s : Server} (hs : s.registered.Nodup) (steps : List Step) :
    (s.after steps).registered.Nodup := by
  induction steps generalizing s with
  | nil => exact hs
  | cons x steps ih => exact ih (nodup_step hs x)

theorem find?_eq_some_iff {s : Server} {tool : Text} {c : Check} :
    s.find? tool = some c ↔ c.toolName.toList = tool ∧ c ∈ s.registered := by
  rw [find?, Option.filter_eq_some_iff, Check.ofToolName?_eq_some_iff]
  simp

def answerOf (c : Check) (args : Arguments) : Outcome :=
  match Call.read c args with
  | .error problems => .badArguments problems
  | .ok c => .text c.answer

theorem call_eq (s : Server) (tool : Text) (args : Arguments) :
    s.call tool args = match s.find? tool with
      | none => .unknownTool tool
      | some c => answerOf c args := rfl

theorem answerOf_ne_unknownTool (c : Check) (args : Arguments) (tool : Text) :
    answerOf c args ≠ .unknownTool tool := by
  unfold answerOf
  split <;> simp

theorem call_eq_unknownTool_iff {s : Server} {tool name : Text} {args : Arguments} :
    s.call tool args = .unknownTool name ↔
      name = tool ∧ ∀ c ∈ s.registered, c.toolName.toList ≠ tool := by
  rw [call_eq]
  cases h : s.find? tool with
  | none =>
    have hnone : ∀ c ∈ s.registered, c.toolName.toList ≠ tool := by
      intro c hc hname
      rw [find?_eq_some_iff.2 ⟨hname, hc⟩] at h
      exact Option.some_ne_none c h
    constructor
    · intro heq
      exact ⟨(Outcome.unknownTool.inj heq).symm, hnone⟩
    · intro ⟨heq, _⟩
      rw [heq]
  | some c =>
    obtain ⟨hname, hc⟩ := find?_eq_some_iff.1 h
    simp only [answerOf_ne_unknownTool, false_iff, not_and]
    exact fun _ hall => hall c hc hname

theorem call_of_mem {s : Server} {c : Check} (h : c ∈ s.registered) (args : Arguments) :
    s.call c.toolName.toList args = answerOf c args := by
  rw [call_eq, find?_eq_some_iff.2 ⟨rfl, h⟩]

theorem pairwise_listed (s : Server) : s.listed.Pairwise fun a b => a.toolName < b.toolName := by
  have hall : Check.byToolName.Pairwise fun a b => a.toolName < b.toolName := by decide
  exact hall.sublist List.filter_sublist

end Server

/-- At every point of a session: what is registered, what is listed, and what is answered. -/
theorem session_spec (before : List Step) :
    let s := Server.empty.after before
    let reply := fun x => (s.step x).2
    (∀ checks c, c ∈ normalizeChecks checks ↔ Asked checks c) ∧
    (∀ x rest, (Server.empty.run (before ++ x :: rest))[before.length]? = some (reply x)) ∧
    (s.registered.Nodup ∧ ∀ c, c ∈ s.registered ↔ Offered before c) ∧
    (∃ cs, reply .list = .tools cs ∧ (cs.Pairwise fun a b => a.toolName < b.toolName) ∧
      ∀ c, c ∈ cs ↔ Offered before c) ∧
    ∀ tool args, (s.step (.call tool args)).1 = s ∧
      ∃ outcome, reply (.call tool args) = .called outcome ∧
        (outcome = .unknownTool tool ↔ ∀ c, Offered before c → c.toolName.toList ≠ tool) ∧
        ∀ c, Offered before c → c.toolName.toList = tool → outcome = Server.answerOf c args := by
  intro s reply
  have hoffered : ∀ c, c ∈ s.registered ↔ Offered before c := by
    intro c
    rw [Server.mem_registered_after]
    simp [Server.empty]
  have hnodup : s.registered.Nodup := Server.nodup_after List.nodup_nil before
  refine ⟨fun _ _ => mem_normalizeChecks, Server.getElem?_run _ before, ⟨hnodup, hoffered⟩, ?_,
    fun tool args => ⟨rfl, _, rfl, ?_, ?_⟩⟩
  · exact ⟨s.listed, rfl, s.pairwise_listed, fun c => (s.mem_listed c).trans (hoffered c)⟩
  · simp only [Server.call_eq_unknownTool_iff, hoffered, true_and]
  · intro c hc htool
    subst htool
    exact Server.call_of_mem ((hoffered c).2 hc) args

end PatchReview.Tools
