import PatchReview.Diff.Hunk
import PatchReview.Diff.Lines
import PatchReview.Text.Lowercase

set_option autoImplicit false

namespace PatchReview.Path

def fileName (path : Text) : Text := Text.afterLast '/' path

def extension (path : Text) : Text :=
  let name := fileName path
  let tail := Text.afterLast '.' name
  let stem := name.take (name.length - tail.length - 1)
  if stem.all (· == '.') then [] else '.' :: tail

def baseName (path : Text) : Text :=
  let name := fileName path
  name.take (name.length - (extension path).length)

/-- In files of these extensions a number sign starts a comment. -/
def hashExtensions : List Text := [".py", ".pyi", ".rb", ".sh"].map String.toList

def hasHashComments (path : Text) : Bool := hashExtensions.contains (Text.lower (extension path))

end PatchReview.Path

namespace PatchReview.Diff

-- Sums start at the zero of core in every context.
attribute [local instance (2000)] Zero.ofOfNat0

/-- What the header lines say about a file. A missing path is that of no file. -/
structure Identity where
  oldPath : Option Text := none
  newPath : Option Text := none
  isNew : Bool := false
  isDeleted : Bool := false
  isRenamed : Bool := false
  deriving DecidableEq, Repr

/-- A path as written after a path mark: up to a tab, trimmed, without its side letter. -/
def readPath (written : Text) : Option Text :=
  let path := Text.trim (Text.before '\t' written)
  if path == "/dev/null".toList then none
  else if startsWith "a/" path || startsWith "b/" path then some (path.drop 2)
  else some path

namespace Identity

def readGitMark (line : Text) (id : Identity) : Identity :=
  match Text.words line with
  | _ :: _ :: old :: new :: _ => { id with oldPath := readPath old, newPath := readPath new }
  | _ => id

def readOldMark (line : Text) (id : Identity) : Identity :=
  let path := readPath (line.drop 3)
  { id with oldPath := path, isNew := id.isNew || path.isNone }

def readNewMark (line : Text) (id : Identity) : Identity :=
  let path := readPath (line.drop 3)
  { id with newPath := path, isDeleted := id.isDeleted || path.isNone }

/-- What one header line adds. A path mark counts only beside its partner. -/
def readLine (prev : Option Text) (line : Text) (next : Option Text) (id : Identity) : Identity :=
  if isGitMark line then readGitMark line id
  else if startsWith "new file" line then { id with isNew := true }
  else if startsWith "deleted file" line then { id with isDeleted := true }
  else if startsWith "rename from" line || startsWith "rename to" line then
    { id with isRenamed := true }
  else if isOldMark line then if next.any isNewMark then readOldMark line id else id
  else if isNewMark line then if prev.any isOldMark then readNewMark line id else id
  else id

def readLines (id : Identity) (prev : Option Text) : List Text → Identity
  | [] => id
  | line :: rest => readLines (readLine prev line rest.head? id) (some line) rest

def ofHeader (header : List Text) : Identity := readLines {} none header

/-- Below the header only `diff --git` lines say something about the file. -/
def readBody (id : Identity) (body : List Text) : Identity :=
  (body.filter isGitMark).foldl (fun id line => readGitMark line id) id

theorem readBody_of_not_isGitMark {body : List Text} (h : ∀ l ∈ body, isGitMark l = false)
    (id : Identity) : id.readBody body = id := by
  have hnone : body.filter isGitMark = [] := List.filter_eq_nil_iff.2 fun l hl => by simp [h l hl]
  rw [readBody, hnone]
  rfl

end Identity

structure FileDiff where
  identity : Identity
  hunks : List Hunk
  text : Text
  deriving DecidableEq, Repr

namespace FileDiff

def path (f : FileDiff) : Text :=
  let named (p : Option Text) := p.filter (!·.isEmpty)
  ((named f.identity.newPath).or (named f.identity.oldPath)).getD "unknown".toList

def changes (f : FileDiff) : List LineChange := f.hunks.flatMap (·.changes)

def additionCount (f : FileDiff) : Nat := (f.hunks.map (·.additions.length)).sum

def deletionCount (f : FileDiff) : Nat := (f.hunks.map (·.deletions.length)).sum

/-- The first line that shows or announces a change ends the header. -/
def ofLines (text : Text) (ls : List Text) : Except NumberTooLong FileDiff := do
  let header := ls.takeWhile (!isDiffLine ·)
  let body := ls.dropWhile (!isDiffLine ·)
  let hunks ← Hunk.ofBody body
  .ok ⟨(Identity.ofHeader header).readBody body, hunks, text⟩

def ofChunk (chunk : Text) : Except NumberTooLong FileDiff := ofLines chunk (lines chunk)

end FileDiff

structure Document where
  files : List FileDiff
  deriving DecidableEq, Repr

structure Stats where
  filesChanged : Nat
  linesAdded : Nat
  linesRemoved : Nat
  newFiles : List Text
  deletedFiles : List Text
  renamedFiles : List Text
  deriving DecidableEq, Repr

namespace Document

def additionCount (d : Document) : Nat := (d.files.map (·.additionCount)).sum

def deletionCount (d : Document) : Nat := (d.files.map (·.deletionCount)).sum

def parse (t : Text) : Except NumberTooLong Document := do
  .ok ⟨← (chunks t).mapM FileDiff.ofChunk⟩

def stats (d : Document) : Stats where
  filesChanged := d.files.length
  linesAdded := d.additionCount
  linesRemoved := d.deletionCount
  newFiles := (d.files.filter (·.identity.isNew)).map (·.path)
  deletedFiles := (d.files.filter (·.identity.isDeleted)).map (·.path)
  renamedFiles := (d.files.filter (·.identity.isRenamed)).map (·.path)

end Document

end PatchReview.Diff
