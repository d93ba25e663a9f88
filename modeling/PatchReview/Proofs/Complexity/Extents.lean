import PatchReview.Complexity.Blocks
import PatchReview.Proofs.Complexity.Brace
import PatchReview.Proofs.Diff.HeaderForm
import PatchReview.Proofs.Pattern.Names

/-!
Where functions with blocks by indentation begin and end. One begins on each line that has the
form of a definition. It has its signature, up to the first line at whose end no parenthesis is
open, and behind it the lines up to the last one before a line that is indented no more than the
definition, where blank lines do not count. Signature and indented run are given by properties
that only one list of lines has. Main statement: `extracts_blocks`.
-/

set_option autoImplicit false

namespace PatchReview.Complexity

open Diff (Row Stops append_inj_of_stops stops_cons)

namespace Indent

def IsMark (t : Text) : Prop := t = [] ∨ ∃ gap, Row isBlank gap ∧ t = "async".toList ++ gap

def IsDefinition (line name : Text) : Prop :=
  ∃ margin mark gap sep rest,
    line = margin ++ (mark ++ ("def".toList ++ (gap ++ (name ++ (sep ++ '(' :: rest))))) ∧
      (∀ c ∈ margin, isBlank c) ∧ IsMark mark ∧ Row isBlank gap ∧ Row isWord name ∧
      ∀ c ∈ sep, isBlank c

theorem reads_asyncWord {prev : Option Char} {w rest : Text} :
    asyncWord.Reads prev w rest ↔ IsMark w := by
  simp only [asyncWord, Pattern.reads_optional, Pattern.reads_append, Pattern.reads_lit,
    Pattern.someBlanks, Pattern.reads_atLeast_one, IsMark, Row]
  rw [or_comm]
  refine or_congr_right ?_
  constructor
  · intro h
    obtain ⟨_, gap, rfl, rfl, hgap⟩ := h
    exact ⟨gap, hgap, rfl⟩
  · intro h
    obtain ⟨gap, hgap, rfl⟩ := h
    exact ⟨_, gap, rfl, rfl, hgap⟩

theorem names_iff {line name : Text} : defShape.Names none line name ↔ IsDefinition line name := by
  have hblanks {prev : Option Char} {w rest : Text} :
      Pattern.blanks.Reads prev w rest ↔ ∀ c ∈ w, isBlank c := Iff.rfl
  simp only [NamedShape.Names, defShape, Pattern.reads_append, Pattern.reads_lit, reads_asyncWord,
    Pattern.someBlanks, Pattern.reads_atLeast_one, hblanks, IsDefinition]
  constructor
  · intro h
    obtain ⟨_, _, rest, rfl, hlead, hne, hword, sep, _, rfl, hsep, rfl⟩ := h
    obtain ⟨_, gap, rfl, ⟨_, _, rfl, ⟨margin, mark, rfl, hmargin, hmark⟩, rfl⟩, hgap⟩ := hlead
    exact ⟨margin, mark, gap, sep, rest, by simp, hmargin, hmark, hgap, ⟨hne, hword⟩, hsep⟩
  · intro h
    obtain ⟨margin, mark, gap, sep, rest, rfl, hmargin, hmark, hgap, ⟨hne, hword⟩, hsep⟩ := h
    refine ⟨margin ++ mark ++ "def".toList ++ gap, sep ++ ['('], rest, by simp,
      ⟨_, gap, rfl, ⟨_, _, rfl, ⟨margin, mark, rfl, hmargin, hmark⟩, rfl⟩, hgap⟩, hne, hword,
      sep, _, rfl, hsep, rfl⟩

theorem stops_isBlank_append_of_row {name x : Text} (h : Row isWord name) :
    Stops isBlank (name ++ x) := by
  obtain ⟨c, name, rfl⟩ := List.exists_cons_of_ne_nil h.1
  refine stops_cons (Bool.eq_false_iff.2 fun hblank => ?_)
  have hword := h.2 c List.mem_cons_self
  rw [not_isWord_of_isBlank hblank] at hword
  exact absurd hword (by decide)

theorem stops_isWord_append_paren {sep rest : Text} (h : ∀ c ∈ sep, isBlank c) :
    Stops isWord (sep ++ '(' :: rest) := by
  cases sep with
  | nil => exact stops_cons (by decide)
  | cons c sep => exact stops_cons (not_isWord_of_isBlank (h c List.mem_cons_self))

theorem IsMark.stops_append_def {mark : Text} (h : IsMark mark) (x : Text) :
    Stops isBlank (mark ++ ("def".toList ++ x)) := by
  obtain rfl | ⟨gap, -, rfl⟩ := h
  · exact stops_cons (by decide)
  · exact stops_cons (by decide)

theorem IsMark.append_def_inj {mark mark' x x' : Text} (hmark : IsMark mark)
    (hmark' : IsMark mark')
    (h : mark ++ ("def".toList ++ x) = mark' ++ ("def".toList ++ x')) : x = x' := by
  obtain rfl | ⟨gap, hgap, rfl⟩ := hmark <;> obtain rfl | ⟨gap', hgap', rfl⟩ := hmark'
  · simpa using h
  · simp at h
  · simp at h
  · rw [List.append_assoc, List.append_assoc, List.append_cancel_left_eq] at h
    have hdef (y : Text) : Stops isBlank ("def".toList ++ y) := stops_cons (by decide)
    have hrest := (append_inj_of_stops h hgap.2 hgap'.2 (hdef x) (hdef x')).2
    rwa [List.append_cancel_left_eq] at hrest

theorem IsDefinition.unique {line name name' : Text} (h : IsDefinition line name)
    (h' : IsDefinition line name') : name = name' := by
  obtain ⟨margin, mark, gap, sep, rest, rfl, hmargin, hmark, hgap, hname, hsep⟩ := h
  obtain ⟨margin', mark', gap', sep', rest', heq, hmargin', hmark', hgap', hname', hsep'⟩ := h'
  have hbehind := (append_inj_of_stops heq hmargin hmargin' (hmark.stops_append_def _)
    (hmark'.stops_append_def _)).2
  have hgaps := hmark.append_def_inj hmark' hbehind
  have hnames := (append_inj_of_stops hgaps hgap.2 hgap'.2 (stops_isBlank_append_of_row hname)
    (stops_isBlank_append_of_row hname')).2
  exact (append_inj_of_stops hnames hname.2 hname'.2 (stops_isWord_append_paren hsep)
    (stops_isWord_append_paren hsep')).1

theorem nameAtStart?_defShape {line name : Text} :
    defShape.nameAtStart? line = some name ↔ IsDefinition line name := by
  have hunique {m m' : Text} (h : defShape.Names none line m)
      (h' : defShape.Names none line m') : m = m' :=
    (names_iff.1 h).unique (names_iff.1 h')
  rw [NamedShape.nameAtStart?_eq_some_iff hunique, names_iff]

def opened (ls : List Text) : Int := Text.surplus '(' ')' (Text.unlines ls)

@[simp] theorem opened_nil : opened [] = 0 := rfl

theorem opened_cons (l : Text) (ls : List Text) :
    opened (l :: ls) = Text.surplus '(' ')' l + opened ls :=
  Text.surplus_unlines_cons (by decide) (by decide) l ls

/-- The lines up to the first at whose end no parenthesis is open, or all lines if there is none;
`rest` are the lines after them. -/
structure IsSignature (signature rest : List Text) : Prop where
  ne_nil : signature ≠ []
  isOpen : ∀ k < signature.length, 0 < k → 0 < opened (signature.take k)
  closed : opened signature ≤ 0 ∨ rest = []

/-- The lines up to the last one that is indented more than `margin` before a line that is not;
`after` are the lines after them. -/
structure IsIndentedRun (margin : Nat) (run after : List Text) : Prop where
  indented : ∀ l ∈ run, Text.isBlankLine l = false → margin < Text.indentation l
  ends : ∀ l ∈ run.getLast?, Text.isBlankLine l = false
  stops : ∀ l ∈ after.find? (!Text.isBlankLine ·), Text.indentation l ≤ margin

def IsBody (line : Text) (rest body : List Text) : Prop :=
  ∃ signature run after, line :: rest = signature ++ (run ++ after) ∧ body = signature ++ run ∧
    IsSignature signature (run ++ after) ∧ IsIndentedRun (Text.indentation line) run after

/-- A list is cut in one place only if no cut of it lies behind another. -/
theorem eq_of_cuts {cut : List Text → List Text → Prop}
    (hends : ∀ {u more v}, cut u (more ++ v) → cut (u ++ more) v → more = [])
    {u u' v v' : List Text} (h : cut u v) (h' : cut u' v') (heq : u ++ v = u' ++ v') : u = u' := by
  obtain ⟨more, rfl, rfl⟩ | ⟨more, rfl, rfl⟩ := List.append_eq_append_iff.1 heq
  · rw [hends h h', List.append_nil]
  · rw [hends h' h, List.append_nil]

section
variable {openBefore : Int} {ls : List Text}

theorem splitSignature_ne_nil (h : ls ≠ []) : (splitSignature openBefore ls).1 ≠ [] := by
  cases ls with
  | nil => exact absurd rfl h
  | cons l ls =>
    simp only [splitSignature]
    split <;> simp

theorem isOpen_splitSignature {k : Nat} (h : k < (splitSignature openBefore ls).1.length)
    (hk : 0 < k) : 0 < openBefore + opened ((splitSignature openBefore ls).1.take k) := by
  induction ls generalizing openBefore k with
  | nil => simp [splitSignature] at h
  | cons l ls ih =>
    simp only [splitSignature] at h ⊢
    split at h
    case isTrue =>
      simp at h
      omega
    case isFalse hopen =>
      rw [if_neg hopen]
      cases k with
      | zero => omega
      | succ k =>
        rw [List.take_succ_cons, opened_cons, ← Int.add_assoc]
        cases k with
        | zero => simpa using hopen
        | succ k => exact ih (by simpa using h) (by omega)

theorem closed_splitSignature (openBefore : Int) (ls : List Text) :
    openBefore + opened (splitSignature openBefore ls).1 ≤ 0 ∨
      (splitSignature openBefore ls).2 = [] := by
  induction ls generalizing openBefore with
  | nil => exact .inr rfl
  | cons l ls ih =>
    simp only [splitSignature]
    split
    case isTrue hclosed =>
      left
      simpa [opened_cons] using hclosed
    case isFalse =>
      rw [opened_cons, ← Int.add_assoc]
      exact ih _

theorem isSignature_splitSignature (h : ls ≠ []) :
    IsSignature (splitSignature 0 ls).1 (splitSignature 0 ls).2 where
  ne_nil := splitSignature_ne_nil h
  isOpen k hk hpos := by simpa using isOpen_splitSignature hk hpos
  closed := by simpa using closed_splitSignature 0 ls

end

section
variable {margin : Nat} {run after : List Text}

theorem IsIndentedRun.cons (h : IsIndentedRun margin run after) {l : Text}
    (hl : Text.isBlankLine l = false → margin < Text.indentation l)
    (hend : run = [] → Text.isBlankLine l = false) : IsIndentedRun margin (l :: run) after where
  indented := List.forall_mem_cons.2 ⟨hl, h.indented⟩
  ends := by
    cases run with
    | nil => simpa using hend rfl
    | cons m run => simpa [List.getLast?_cons] using h.ends
  stops := h.stops

theorem isIndentedRun_nil (h : ∀ l ∈ after.find? (!Text.isBlankLine ·),
    Text.indentation l ≤ margin) : IsIndentedRun margin [] after :=
  ⟨by simp, by simp, h⟩

theorem exists_isIndentedRun (margin : Nat) (ls : List Text) :
    ∃ after, ls = indentedRun margin ls ++ after ∧
      IsIndentedRun margin (indentedRun margin ls) after := by
  induction ls with
  | nil => exact ⟨[], rfl, isIndentedRun_nil (by simp)⟩
  | cons l ls ih =>
    obtain ⟨after, hls, hrun⟩ := ih
    by_cases hblank : Text.isBlankLine l
    case pos =>
      -- A blank line belongs to the run if more of the run comes behind it.
      cases htail : indentedRun margin ls with
      | nil =>
        rw [htail] at hls hrun
        obtain rfl : ls = after := hls
        have hnil : indentedRun margin (l :: ls) = [] := by simp [indentedRun, hblank, htail]
        rw [hnil]
        exact ⟨l :: ls, rfl, isIndentedRun_nil (by simpa [hblank] using hrun.stops)⟩
      | cons m run =>
        rw [htail] at hls hrun
        have hcons : indentedRun margin (l :: ls) = l :: m :: run := by
          simp [indentedRun, hblank, htail]
        rw [hcons]
        exact ⟨after, congrArg (l :: ·) hls, hrun.cons (by simp [hblank]) (by simp)⟩
    case neg =>
      by_cases hmargin : Text.indentation l ≤ margin
      case pos =>
        have hnil : indentedRun margin (l :: ls) = [] := by simp [indentedRun, hblank, hmargin]
        rw [hnil]
        exact ⟨l :: ls, rfl, isIndentedRun_nil (by simpa [hblank] using hmargin)⟩
      case neg =>
        have hcons : indentedRun margin (l :: ls) = l :: indentedRun margin ls := by
          simp [indentedRun, hblank, hmargin]
        rw [hcons]
        exact ⟨after, congrArg (l :: ·) hls,
          hrun.cons (fun _ => Nat.lt_of_not_le hmargin) (by simp [hblank])⟩

theorem IsIndentedRun.eq_nil {more : List Text} (h : IsIndentedRun margin run (more ++ after))
    (h' : IsIndentedRun margin (run ++ more) after) : more = [] := by
  by_contra hne
  have hlast : Text.isBlankLine (more.getLast hne) = false := by
    refine h'.ends _ ?_
    rw [List.getLast?_append_of_ne_nil run hne, List.getLast?_eq_some_getLast hne]
    rfl
  obtain ⟨l, hl⟩ : ∃ l, more.find? (!Text.isBlankLine ·) = some l := by
    rw [← Option.isSome_iff_exists, List.find?_isSome]
    exact ⟨_, List.getLast_mem hne, by simp [hlast]⟩
  have hstop : Text.indentation l ≤ margin := h.stops l (by simp [List.find?_append, hl])
  have hin : margin < Text.indentation l :=
    h'.indented l (by simp [List.mem_of_find?_eq_some hl]) (by simpa using List.find?_some hl)
  omega

theorem IsIndentedRun.unique {run' after' : List Text} (h : IsIndentedRun margin run after)
    (h' : IsIndentedRun margin run' after') (heq : run ++ after = run' ++ after') :
    run = run' :=
  eq_of_cuts IsIndentedRun.eq_nil h h' heq

end

theorem IsSignature.eq_nil {signature more rest : List Text}
    (h : IsSignature signature (more ++ rest)) (h' : IsSignature (signature ++ more) rest) :
    more = [] := by
  by_contra hne
  have hpos := List.length_pos_of_ne_nil hne
  have hopen := h'.isOpen signature.length (by simpa using hpos)
    (List.length_pos_of_ne_nil h.ne_nil)
  rw [List.take_left] at hopen
  obtain hclosed | hnil := h.closed
  · omega
  · exact hne (List.append_eq_nil_iff.1 hnil).1

theorem IsSignature.unique {signature signature' rest rest' : List Text}
    (h : IsSignature signature rest) (h' : IsSignature signature' rest')
    (heq : signature ++ rest = signature' ++ rest') : signature = signature' :=
  eq_of_cuts IsSignature.eq_nil h h' heq

theorem IsBody.unique {line : Text} {rest body body' : List Text} (h : IsBody line rest body)
    (h' : IsBody line rest body') : body = body' := by
  obtain ⟨signature, run, after, heq, rfl, hsignature, hrun⟩ := h
  obtain ⟨signature', run', after', heq', rfl, hsignature', hrun'⟩ := h'
  have hsplit := heq.symm.trans heq'
  obtain rfl := hsignature.unique hsignature' hsplit
  rw [hrun.unique hrun' (List.append_cancel_left hsplit)]

theorem isBody_blockLines (line : Text) (rest : List Text) :
    IsBody line rest (blockLines line rest) := by
  have happend := splitSignature_append 0 (line :: rest)
  have hsignature := isSignature_splitSignature (List.cons_ne_nil line rest)
  simp only [blockLines]
  cases hsplit : splitSignature 0 (line :: rest) with
  | mk signature behind =>
    rw [hsplit] at happend hsignature
    obtain ⟨after, hbehind, hrun⟩ := exists_isIndentedRun (Text.indentation line) behind
    rw [hbehind] at happend hsignature
    exact ⟨signature, _, after, happend.symm, rfl, hsignature, hrun⟩

theorem block?_eq_some_iff {number : Nat} {line : Text} {rest : List Text} {b : Block} :
    block? number line rest = some b ↔
      b.startLine = number ∧ IsDefinition line b.name ∧ IsBody line rest b.lines := by
  rw [block?, Option.map_eq_some_iff]
  constructor
  · intro h
    obtain ⟨name, hname, rfl⟩ := h
    exact ⟨rfl, nameAtStart?_defShape.1 hname, isBody_blockLines line rest⟩
  · intro ⟨hnumber, hname, hbody⟩
    refine ⟨b.name, nameAtStart?_defShape.2 hname, ?_⟩
    rw [(isBody_blockLines line rest).unique hbody, ← hnumber]

def IsFunction (code : Text) (b : Block) : Prop :=
  ∃ before line rest, Text.lines code = before ++ line :: rest ∧
    b.startLine = before.length + 1 ∧ IsDefinition line b.name ∧ IsBody line rest b.lines

theorem mem_blocks {code : Text} {b : Block} : b ∈ blocks code ↔ IsFunction code b := by
  simp only [blocks, mem_blocksFrom, block?_eq_some_iff, IsFunction, Nat.add_comm]

/-- The blocks are the functions of the code, one for each line with a definition and in the order
of these lines. -/
structure Extracts (code : Text) (bs : List Block) : Prop where
  order : bs.Pairwise (·.startLine < ·.startLine)
  mem_iff : ∀ b, b ∈ bs ↔ IsFunction code b
  found : ∀ before line rest name, Text.lines code = before ++ line :: rest →
    IsDefinition line name → ∃ b ∈ bs, b.startLine = before.length + 1 ∧ b.name = name

/-- What is found in a text are its functions. -/
theorem extracts_blocks (code : Text) : Extracts code (blocks code) where
  order := pairwise_startLine_blocksFrom (fun h => (block?_eq_some_iff.1 h).1) 1 _
  mem_iff _ := mem_blocks
  found before line rest name hlines hname :=
    ⟨⟨name, before.length + 1, blockLines line rest⟩,
      mem_blocks.2 ⟨before, line, rest, hlines, rfl, hname, isBody_blockLines line rest⟩, rfl, rfl⟩

example :
    let body := ["def f(a,".toList, "b):".toList, "  x".toList, [], "  y".toList]
    blocks (Text.unlines (body ++ [[], "z".toList])) = [⟨"f".toList, 1, body⟩] := by
  decide

end Indent

end PatchReview.Complexity
