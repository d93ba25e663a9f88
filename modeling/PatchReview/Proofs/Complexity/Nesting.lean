import PatchReview.Proofs.Complexity.Turns

/-!
Nesting of code that is laid out with one construct on a line. Its nesting is the depth of its tree,
as long as no branch begins with a condition of its own and no block is guarded. Each branch with a
condition opens a block that is not closed, and each guarded block closes one that was not opened;
by these the depth is off in all code behind. Main statements: `nesting_of_printsAs` and
`isNeutral_of_printsAs`.
-/

set_option autoImplicit false

namespace PatchReview.Complexity.Brace

open Text (IsMargin)

structure Header extends Parens where
  word : String
  word_mem : word ∈ ["for", "while", "switch"]

namespace Header

variable (h : Header)

def text : Text := h.line h.word

@[simp] theorem turn_text : turn h.text = .opens := by
  have hsub : ∀ s ∈ ["for", "while", "switch"], s ∈ controlStarts := by decide
  exact h.turn_line_of_mem (hsub _ h.word_mem)

theorem newline_notMem_text : '\n' ∉ h.text := by
  have hall : ∀ s ∈ ["for", "while", "switch"], '\n' ∉ s.toList := by decide
  exact h.newline_notMem_line _ (hall _ h.word_mem)

end Header

/-- The statements of a block, or the rest of an `if` behind its first block. -/
inductive Part where
  | statements | branches

/-- Blocks that are open before the part and closed behind it. -/
def Part.closed : Part → Nat
  | statements => 0
  | branches => 1

inductive Code : Part → Type where
  | done : Code .statements
  | line (l : StraightLine) (next : Code .statements) : Code .statements
  | block (header : Header) (body next : Code .statements) : Code .statements
  | branching (condition : Parens) (body : Code .statements) (others : Code .branches)
    (next : Code .statements) : Code .statements
  | guarded (body : Code .statements) (parameter : Parameter) (handler next : Code .statements) :
    Code .statements
  | close : Code .branches
  | otherwise (body : Code .statements) : Code .branches
  | another (condition : Parens) (body : Code .statements) (rest : Code .branches) : Code .branches

namespace Code

variable {k : Part}

def lines {k : Part} : Code k → List Text
  | done => []
  | line l next => l.text :: next.lines
  | block header body next => header.text :: (body.lines ++ ['}'] :: next.lines)
  | branching condition body others next =>
    condition.line "if" :: (body.lines ++ (others.lines ++ next.lines))
  | guarded body parameter handler next => tryLine ::
      (body.lines ++ parameter.line "\x7d catch" :: (handler.lines ++ ['}'] :: next.lines))
  | close => [['}']]
  | otherwise body => elseLine :: (body.lines ++ [['}']])
  | another condition body rest => condition.line "\x7d else if" :: (body.lines ++ rest.lines)

/-- Greatest depth of a block. Every branch of an `if` is as deep as the first. -/
def depth {k : Part} : Code k → Nat
  | done => 0
  | line _ next => next.depth
  | block _ body next => max (body.depth + 1) next.depth
  | branching _ body others next => max (max body.depth others.depth + 1) next.depth
  | guarded body _ handler next => max (max body.depth handler.depth + 1) next.depth
  | close => 0
  | otherwise body => body.depth
  | another _ body rest => max body.depth rest.depth

/-- Number of branches that begin with a condition of their own. -/
def elseIfs {k : Part} : Code k → Nat
  | done => 0
  | line _ next => next.elseIfs
  | block _ body next => body.elseIfs + next.elseIfs
  | branching _ body others next => body.elseIfs + others.elseIfs + next.elseIfs
  | guarded body _ handler next => body.elseIfs + handler.elseIfs + next.elseIfs
  | close => 0
  | otherwise body => body.elseIfs
  | another _ body rest => body.elseIfs + rest.elseIfs + 1

def tries {k : Part} : Code k → Nat
  | done => 0
  | line _ next => next.tries
  | block _ body next => body.tries + next.tries
  | branching _ body others next => body.tries + others.tries + next.tries
  | guarded body _ handler next => body.tries + handler.tries + next.tries + 1
  | close => 0
  | otherwise body => body.tries
  | another _ body rest => body.tries + rest.tries

/-- No branch has a condition of its own, and no block is guarded. -/
def IsPlain (c : Code k) : Prop := c.elseIfs = 0 ∧ c.tries = 0

theorem newline_notMem_lines (c : Code k) : ∀ l ∈ c.lines, '\n' ∉ l := by
  induction c with
  | done => simp [lines]
  | line l next ihnext => simpa [lines, l.newline_notMem] using ihnext
  | block header body next ihbody ihnext =>
    simpa [lines, header.newline_notMem_text, or_imp, forall_and] using ⟨ihbody, ihnext⟩
  | branching condition body others next ihbody ihothers ihnext =>
    have hcondition := condition.newline_notMem_line "if" (by decide)
    simpa [lines, hcondition, or_imp, forall_and] using ⟨ihbody, ihothers, ihnext⟩
  | guarded body parameter handler next ihbody ihhandler ihnext =>
    have hparameter := parameter.newline_notMem_line "\x7d catch" (by decide)
    have htry : '\n' ∉ tryLine := by decide
    simpa [lines, htry, hparameter, or_imp, forall_and] using ⟨ihbody, ihhandler, ihnext⟩
  | close => simp [lines]
  | otherwise body ihbody =>
    have helse : '\n' ∉ elseLine := by decide
    simpa [lines, helse, or_imp, forall_and] using ihbody
  | another condition body rest ihbody ihrest =>
    have hcondition := condition.newline_notMem_line "\x7d else if" (by decide)
    simpa [lines, hcondition, or_imp, forall_and] using ⟨ihbody, ihrest⟩

section
attribute [local simp] lines depth elseIfs tries Part.closed

/-- A branch with a condition opens one block more than it closes, and a guarded block closes one
more than it opens. -/
theorem net_lines (c : Code k) : net c.lines = c.elseIfs - c.tries - k.closed := by
  induction c with
  | done => simp
  | line l next ihnext => simp [ihnext]
  | block header body next ihbody ihnext =>
    simp [ihbody, ihnext]
    omega
  | branching condition body others next ihbody ihothers ihnext =>
    simp [ihbody, ihothers, ihnext]
    omega
  | guarded body parameter handler next ihbody ihhandler ihnext =>
    simp [ihbody, ihhandler, ihnext]
    omega
  | close => simp
  | otherwise body ihbody =>
    simp [ihbody]
    omega
  | another condition body rest ihbody ihrest =>
    simp [ihbody, ihrest]
    omega

theorem isPlain_block {header : Header} {body next : Code .statements} :
    (block header body next).IsPlain ↔ body.IsPlain ∧ next.IsPlain := by
  simp only [IsPlain, elseIfs, tries]
  omega

theorem isPlain_branching {condition : Parens} {body next : Code .statements}
    {others : Code .branches} : (branching condition body others next).IsPlain ↔
      body.IsPlain ∧ others.IsPlain ∧ next.IsPlain := by
  simp only [IsPlain, elseIfs, tries]
  omega

theorem IsPlain.scan {c : Code k} (h : c.IsPlain) (d : Nat) :
    level (d + k.closed) c.lines = d ∧
      reach (d + k.closed) c.lines = d + k.closed + c.depth := by
  induction c generalizing d with
  | done => simp
  | line l next ihnext =>
    obtain ⟨hlevel, hreach⟩ : level d next.lines = d ∧ reach d next.lines = d + next.depth :=
      ihnext h d
    simp [hlevel, hreach]
  | block header body next ihbody ihnext =>
    obtain ⟨hbody, hnext⟩ := isPlain_block.1 h
    obtain ⟨hlevelBody, hreachBody⟩ : level (d + 1) body.lines = d + 1 ∧
        reach (d + 1) body.lines = d + 1 + body.depth := ihbody hbody (d + 1)
    obtain ⟨hlevelNext, hreachNext⟩ : level d next.lines = d ∧
        reach d next.lines = d + next.depth := ihnext hnext d
    simp [hlevelBody, hreachBody, hlevelNext, hreachNext]
    omega
  | branching condition body others next ihbody ihothers ihnext =>
    obtain ⟨hbody, hothers, hnext⟩ := isPlain_branching.1 h
    obtain ⟨hlevelBody, hreachBody⟩ : level (d + 1) body.lines = d + 1 ∧
        reach (d + 1) body.lines = d + 1 + body.depth := ihbody hbody (d + 1)
    obtain ⟨hlevelOthers, hreachOthers⟩ : level (d + 1) others.lines = d ∧
        reach (d + 1) others.lines = d + 1 + others.depth := ihothers hothers d
    obtain ⟨hlevelNext, hreachNext⟩ : level d next.lines = d ∧
        reach d next.lines = d + next.depth := ihnext hnext d
    simp [hlevelBody, hreachBody, hlevelOthers, hreachOthers, hlevelNext, hreachNext]
    omega
  | guarded => exact absurd h.2 (Nat.succ_ne_zero _)
  | close => simp
  | otherwise body ihbody =>
    obtain ⟨hlevel, hreach⟩ : level (d + 1) body.lines = d + 1 ∧
        reach (d + 1) body.lines = d + 1 + body.depth := ihbody h (d + 1)
    simp [hlevel, hreach]
  | another => exact absurd h.1 (Nat.succ_ne_zero _)

theorem isPlain_of_depth_eq_zero : ∀ {c : Code .statements}, c.depth = 0 → c.IsPlain
  | done, _ => ⟨rfl, rfl⟩
  | line _ next, h => @isPlain_of_depth_eq_zero next h
  | block _ body next, h => absurd h (by simp)
  | branching _ body others next, h => absurd h (by simp)
  | guarded body _ handler next, h => absurd h (by simp)

/-- Behind straight blocks each branch with a condition lies one deeper than the one before. -/
theorem reach_branches : ∀ {c : Code .branches} (d : Nat), c.depth = 0 →
    reach (d + 1) c.lines = d + 1 + c.elseIfs
  | close, d, _ => by simp
  | otherwise body, d, h => by
    have hplain : (otherwise body).IsPlain := isPlain_of_depth_eq_zero (c := body) h
    have hreach : reach (d + 1) (otherwise body).lines = d + 1 + (otherwise body).depth :=
      (hplain.scan d).2
    rw [hreach, h, hplain.1]
  | another condition body rest, d, h => by
    obtain ⟨hbody, hrest⟩ : body.depth = 0 ∧ rest.depth = 0 := by simpa using h
    have hplain := isPlain_of_depth_eq_zero hbody
    obtain ⟨hlevel, hreach⟩ : level (d + 2) body.lines = d + 2 ∧
        reach (d + 2) body.lines = d + 2 + body.depth := hplain.scan (d + 2)
    have ihrest := reach_branches (d + 1) hrest
    simp [hlevel, hreach, hbody, hplain.1, ihrest]
    omega

end

def IsIndented (l m : Text) : Prop := ∃ w, IsMargin w ∧ m = w ++ l

theorem isIndented_iff {l m : Text} :
    IsIndented l m ↔ l <:+ m ∧ IsMargin (m.take (m.length - l.length)) := by
  constructor
  · rintro ⟨w, hw, rfl⟩
    exact ⟨List.suffix_append w l, by simpa using hw⟩
  · rintro ⟨⟨w, rfl⟩, hw⟩
    exact ⟨w, by simpa using hw, rfl⟩

instance (l m : Text) : Decidable (IsIndented l m) := decidable_of_iff' _ isIndented_iff

/-- The text has the lines of the code, each with a margin of its own. -/
def PrintsAs (c : Code .statements) (t : Text) : Prop :=
  ∃ ls, List.Forall₂ IsIndented c.lines ls ∧ t = Text.unlines ls

theorem scan_of_isIndented {ls ms : List Text} (h : List.Forall₂ IsIndented ls ms)
    (hls : ∀ l ∈ ls, '\n' ∉ l) :
    (∀ m ∈ ms, '\n' ∉ m) ∧ ∀ d, level d ms = level d ls ∧ reach d ms = reach d ls := by
  induction h with
  | nil => exact ⟨by simp, fun d => ⟨rfl, rfl⟩⟩
  | @cons l m ls ms hm hms ih =>
    obtain ⟨hl, hls⟩ := List.forall_mem_cons.1 hls
    obtain ⟨hnewline, hscan⟩ := ih hls
    obtain ⟨w, hw, rfl⟩ := hm
    have hturn : turn (w ++ l) = turn l := turn_append hw hl
    have hm : '\n' ∉ w ++ l := List.not_mem_append hw.newline_notMem hl
    refine ⟨List.forall_mem_cons.2 ⟨hm, hnewline⟩, fun d => ?_⟩
    simp only [level_cons, reach_cons, hturn, hscan, and_self]

theorem scan_lines_unlines {ls : List Text} (h : ∀ l ∈ ls, '\n' ∉ l) (d : Nat) :
    level d (Text.lines (Text.unlines ls)) = level d ls ∧
      reach d (Text.lines (Text.unlines ls)) = reach d ls := by
  by_cases hne : ls = []
  · subst hne
    simp [Text.unlines, Text.lines]
  · rw [Text.lines_unlines hne h]
    exact ⟨rfl, rfl⟩

theorem PrintsAs.scan {c : Code .statements} {t : Text} (h : c.PrintsAs t) (d : Nat) :
    level d (Text.lines t) = level d c.lines ∧ reach d (Text.lines t) = reach d c.lines := by
  obtain ⟨ls, hls, rfl⟩ := h
  obtain ⟨hnewline, hscan⟩ := scan_of_isIndented hls c.newline_notMem_lines
  rw [(scan_lines_unlines hnewline d).1, (scan_lines_unlines hnewline d).2]
  exact hscan d

end Code

/-- Without branches that begin with a condition and without guarded blocks the nesting is the depth
of the tree, whatever the conditions and the lines between hold. -/
theorem nesting_of_printsAs {c : Code .statements} {t : Text} (hprint : c.PrintsAs t)
    (hplain : c.IsPlain) : nesting t = c.depth := by
  have hreach : reach 0 c.lines = 0 + c.depth := (hplain.scan 0).2
  rw [nesting_eq_reach, (hprint.scan 0).2, hreach, Nat.zero_add]

/-- Braces in the heads of the blocks, and the line of the other branch in a condition. -/
theorem nesting_of_printsAs_loop :
    let spaced (s : String) (h : '\n' ∉ s.toList) : Parens :=
      ⟨[' '], s.toList, [' '], by decide, h, by decide⟩
    let call : StraightLine := ⟨"f();".toList, by decide, by decide, by decide⟩
    let inner : Code .statements := .branching (spaced "/\x7d else \x7b/.test(x)" (by decide))
      (.line call .done) (.otherwise (.block ⟨spaced "g()" (by decide), "while", by decide⟩ .done
        (.line call .done))) .done
    let c : Code .statements :=
      .block ⟨spaced "x of \x7b\x7d" (by decide), "for", by decide⟩ inner .done
    let ls := ["for (x of \x7b\x7d) \x7b", "  if (/\x7d else \x7b/.test(x)) \x7b", "    f();",
      "  \x7d else \x7b", "\twhile (g()) \x7b", "\t\x7d", "    f();", "  \x7d",
      "\x7d"].map String.toList
    c.PrintsAs (Text.unlines ls) ∧ c.IsPlain ∧ nesting (Text.unlines ls) = 3 := by
  intro spaced call inner c ls
  have hprint : c.PrintsAs (Text.unlines ls) := ⟨ls, by decide +kernel, rfl⟩
  have hplain : c.IsPlain := ⟨rfl, rfl⟩
  exact ⟨hprint, hplain, nesting_of_printsAs hprint hplain⟩

def depthAfter (t : Text) : Nat := level 0 (Text.lines t)

theorem depthAfter_unlines (before t : Text) :
    depthAfter (Text.unlines [before, t]) = level (depthAfter before) (Text.lines t) := by
  rw [depthAfter, Text.unlines_cons_cons, Text.lines_append, level_append]
  rfl

theorem nesting_unlines (before t : Text) : nesting (Text.unlines [before, t]) =
    max (nesting before) (reach (depthAfter before) (Text.lines t)) := by
  rw [nesting_eq_reach, Text.unlines_cons_cons, Text.lines_append, reach_append, nesting_eq_reach]
  rfl

/-- Code behind the text nests as it does without the text. -/
def IsNeutral (t : Text) : Prop :=
  ∀ before after, nesting (Text.unlines [before, t, after]) =
    max (nesting (Text.unlines [before, t])) (nesting (Text.unlines [before, after]))

def openings (n : Nat) : Text := Text.ended (List.replicate n "if () \x7b".toList)

theorem scan_openings (n d : Nat) : level d (Text.lines (openings n)) = d + n ∧
    reach d (Text.lines (openings n)) = d + n := by
  have hturn : turn "if () \x7b".toList = .opens := by decide
  have hlines : Text.lines (openings n) = List.replicate n "if () \x7b".toList ++ [[]] :=
    Text.lines_ended fun l hl => by
      rw [(List.mem_replicate.1 hl).2]
      decide
  rw [hlines]
  clear hlines
  induction n generalizing d with
  | zero => simp
  | succ n ih =>
    obtain ⟨hlevel, hreach⟩ := ih (d + 1)
    rw [List.replicate_succ, List.cons_append, level_cons, reach_cons, hturn, Turn.after, hlevel,
      hreach]
    omega

theorem isNeutral_iff {t : Text} : IsNeutral t ↔ ∀ d, level d (Text.lines t) = d := by
  have hthree (before after : Text) : nesting (Text.unlines [before, t, after]) =
      max (nesting (Text.unlines [before, t]))
        (reach (level (depthAfter before) (Text.lines t)) (Text.lines after)) := by
    rw [← depthAfter_unlines, ← nesting_unlines]
    simp [Text.unlines]
  constructor
  · intro h d
    -- As many openings before the text as the depth is, and more behind it than there are in both.
    have hdepth : depthAfter (openings d) = d := (scan_openings d 0).1.trans (Nat.zero_add d)
    have hn := h (openings d) (openings (nesting (Text.unlines [openings d, t]) + 1))
    rw [hthree, nesting_unlines (openings d) (openings _), hdepth, (scan_openings _ _).2,
      (scan_openings _ _).2, nesting_eq_reach (openings d), (scan_openings _ _).2] at hn
    omega
  · intro h before after
    have hbefore : nesting before ≤ nesting (Text.unlines [before, t]) := by
      rw [nesting_unlines]
      exact Nat.le_max_left _ _
    rw [hthree, h, nesting_unlines before after]
    omega

/-- One `if` over straight code, with any branches. -/
def Code.IsChain (c : Code .statements) : Prop :=
  ∃ condition body others, c = .branching condition body others .done ∧ body.depth = 0 ∧
    others.depth = 0

theorem Code.IsChain.reach_lines {c : Code .statements} (h : c.IsChain) :
    reach 0 c.lines = 1 + c.elseIfs := by
  obtain ⟨condition, body, others, rfl, hbody, hothers⟩ := h
  have hplain := isPlain_of_depth_eq_zero hbody
  obtain ⟨hlevel, hreach⟩ : level 1 body.lines = 1 ∧ reach 1 body.lines = 1 + body.depth :=
    hplain.scan 1
  have hbranches : reach 1 others.lines = 1 + others.elseIfs := by
    simpa using reach_branches 0 hothers
  simp [Code.lines, Code.elseIfs, hlevel, hreach, hbody, hplain.1, hbranches]

/-- A branch with a condition of its own leaves the depth one too high, and a guarded block one too
low unless it is zero. Code is neutral only if these make up for each other; code that has none of
them is, and in a chain over straight code each branch with a condition adds to the nesting. -/
theorem isNeutral_of_printsAs {c : Code .statements} {t : Text} (hprint : c.PrintsAs t) :
    (∀ before, (depthAfter (Text.unlines [before, t]) : Int) =
        max (depthAfter t : Int) (depthAfter before + c.elseIfs - c.tries)) ∧
      (IsNeutral t ↔ c.elseIfs = c.tries ∧ depthAfter t = 0) ∧
      (c.IsPlain → IsNeutral t) ∧ (c.IsChain → nesting t = 1 + c.elseIfs) := by
  have hlevel (d : Nat) : (level d (Text.lines t) : Int) =
      max (depthAfter t : Int) (d + c.elseIfs - c.tries) := by
    have hnet : net c.lines = c.elseIfs - c.tries - (0 : Nat) := c.net_lines
    rw [depthAfter, (hprint.scan d).1, (hprint.scan 0).1, level_eq, hnet]
    omega
  refine ⟨fun before => ?_, ?_, fun hplain => ?_, fun hchain => ?_⟩
  · rw [depthAfter_unlines]
    exact hlevel (depthAfter before)
  · rw [isNeutral_iff]
    constructor
    · intro h
      have hzero := hlevel 0
      have hone := hlevel 1
      rw [h] at hzero hone
      omega
    · rintro ⟨hcounts, hzero⟩ d
      have hd := hlevel d
      omega
  · refine isNeutral_iff.2 fun d => ?_
    rw [(hprint.scan d).1]
    exact (hplain.scan d).1
  · rw [nesting_eq_reach, (hprint.scan 0).2, hchain.reach_lines]

/-- The same `if` without and with a branch that has a condition. -/
theorem isNeutral_of_printsAs_if :
    let spaced (s : String) (h : '\n' ∉ s.toList) : Parens :=
      ⟨[' '], s.toList, [' '], by decide, h, by decide⟩
    let body : Code .statements := .line ⟨"f();".toList, by decide, by decide, by decide⟩ .done
    let single : Code .statements :=
      .branching (spaced "a" (by decide)) body (.otherwise body) .done
    let chain : Code .statements := .branching (spaced "a" (by decide)) body
      (.another (spaced "b" (by decide)) body (.otherwise body)) .done
    let singleText := Text.unlines (["if (a) \x7b", "  f();", "\x7d else \x7b", "  f();",
      "\x7d"].map String.toList)
    let chainText := Text.unlines (["if (a) \x7b", "  f();", "\x7d else if (b) \x7b", "  f();",
      "\x7d else \x7b", "  f();", "\x7d"].map String.toList)
    (single.PrintsAs singleText ∧ single.IsPlain ∧ IsNeutral singleText) ∧
      chain.PrintsAs chainText ∧ chain.IsChain ∧ ¬IsNeutral chainText ∧ nesting chainText = 2 := by
  intro spaced body single chain singleText chainText
  have hsingle : single.PrintsAs singleText := ⟨_, by decide +kernel, rfl⟩
  have hplain : single.IsPlain := ⟨rfl, rfl⟩
  have hchain : chain.PrintsAs chainText := ⟨_, by decide +kernel, rfl⟩
  have hstraight : chain.IsChain := ⟨_, _, _, rfl, rfl, rfl⟩
  obtain ⟨-, -, hneutral, -⟩ := isNeutral_of_printsAs hsingle
  obtain ⟨-, hiff, -, hnesting⟩ := isNeutral_of_printsAs hchain
  have hcounts : ¬(chain.elseIfs = chain.tries ∧ depthAfter chainText = 0) :=
    fun h => absurd h.1 (by decide)
  exact ⟨⟨hsingle, hplain, hneutral hplain⟩, hchain, hstraight, mt hiff.1 hcounts,
    hnesting hstraight⟩

/-- Behind the branch the code is one block deeper, behind the guarded block one block less deep. -/
theorem not_isNeutral_elseIf_try :
    let single := "if (a) \x7b\nf();\n\x7d".toList
    let chain := "if (a) \x7b\nf();\n\x7d else if (b) \x7b\ng();\n\x7d".toList
    let guarded := "try \x7b\nf();\n\x7d catch (e) \x7b\ng();\n\x7d".toList
    ¬IsNeutral chain ∧ ¬IsNeutral guarded ∧ nesting chain ≠ nesting single := by
  intro single chain guarded
  have hchain : ¬IsNeutral chain := by
    intro h
    exact absurd (h [] "if (c) \x7b\nif (d) \x7b".toList) (by decide +kernel)
  have hguarded : ¬IsNeutral guarded := by
    intro h
    exact absurd (h "if (c) \x7b".toList "if (d) \x7b".toList) (by decide +kernel)
  exact ⟨hchain, hguarded, by decide +kernel⟩

end PatchReview.Complexity.Brace
