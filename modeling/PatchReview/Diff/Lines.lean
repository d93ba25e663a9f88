import PatchReview.Text.Basic

/-!
Lines of a diff and what their first characters say, and the pieces of text for each file. Only a
newline ends a line; one carriage return before it is dropped, and so is the empty line after the
last newline. A text with a `diff --git` line is cut at these lines; any other text at each `---` line
directly followed by a `+++` line.
-/

set_option autoImplicit false

namespace PatchReview.Diff

def dropReturn : Text → Text
  | [] => []
  | ['\r'] => []
  | c :: rest => c :: dropReturn rest

def dropLastEmpty : List Text → List Text
  | [] => []
  | [l] => if l.isEmpty then [] else [l]
  | l :: ls => l :: dropLastEmpty ls

def lines (t : Text) : List Text := dropLastEmpty ((Text.lines t).map dropReturn)

def startsWith (s : String) (line : Text) : Bool := s.toList.isPrefixOf line

def isGitMark (line : Text) : Bool := startsWith "diff --git" line

def isOldMark (line : Text) : Bool := startsWith "---" line

def isNewMark (line : Text) : Bool := startsWith "+++" line

def isHunkMark (line : Text) : Bool := startsWith "@@" line

def isAddition (line : Text) : Bool := startsWith "+" line && !isNewMark line

def isDeletion (line : Text) : Bool := startsWith "-" line && !isOldMark line

/-- A line that shows a change or announces one. -/
def isDiffLine (line : Text) : Bool := isHunkMark line || isAddition line || isDeletion line

/-- The part before the first line that opens a section, and the sections. Whether a line opens
one may depend on the lines after it. -/
def sectionsBy (opens : Text → List Text → Bool) : List Text → List Text × List (List Text)
  | [] => ([], [])
  | l :: rest =>
    let (before, sections) := sectionsBy opens rest
    if opens l rest then ([], (l :: before) :: sections) else (l :: before, sections)

theorem sectionsBy_flatten (opens : Text → List Text → Bool) (ls : List Text) :
    (sectionsBy opens ls).1 ++ (sectionsBy opens ls).2.flatten = ls := by
  induction ls with
  | nil => rfl
  | cons l rest ih =>
    by_cases h : opens l rest <;> simp [sectionsBy, h, ih]

def opensPair (line : Text) (rest : List Text) : Bool :=
  isOldMark line && rest.head?.any isNewMark

def opensFile (git : Bool) (line : Text) (rest : List Text) : Bool :=
  if git then isGitMark line else opensPair line rest

/-- Text of each file. What stands before the first file is kept only if it shows a change, and
a text without a section start is one chunk, as it is, if it shows a change. -/
def chunks (t : Text) : List Text :=
  let ls := lines t
  let (before, sections) := sectionsBy (opensFile (ls.any isGitMark)) ls
  let leads := before.any isDiffLine
  if sections.isEmpty then if leads then [t] else []
  else ((if leads then [before] else []) ++ sections).map Text.unlines

end PatchReview.Diff
