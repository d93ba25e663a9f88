import PatchReview.Proofs.Diff.Reading

set_option autoImplicit false

namespace PatchReview.Diff

theorem any_head?_dropLastEmpty {p : Text → Bool} (hnil : p [] = false) (ls : List Text) :
    (dropLastEmpty ls).head?.any p = ls.head?.any p := by
  fun_cases dropLastEmpty ls with
  | case2 l hl =>
    obtain rfl : l = [] := List.isEmpty_iff.1 hl
    exact hnil.symm
  | case1 | case3 | case4 => rfl

namespace Identity

/-- Of the line below it matters only whether it is a new path mark. -/
theorem readLine_congr_next (prev : Option Text) (line : Text) {next next' : Option Text}
    (h : next.any isNewMark = next'.any isNewMark) (id : Identity) :
    readLine prev line next id = readLine prev line next' id := by
  rw [readLine, readLine, h]

theorem readLines_dropLastEmpty (id : Identity) (prev : Option Text) (ls : List Text) :
    readLines id prev (dropLastEmpty ls) = readLines id prev ls := by
  fun_induction dropLastEmpty ls generalizing id prev with
  | case1 | case3 => rfl
  | case2 l hl =>
    obtain rfl : l = [] := List.isEmpty_iff.1 hl
    rfl
  | case4 l ls _ ih =>
    have hnil : isNewMark [] = false := rfl
    rw [readLines, readLines, readLine_congr_next prev l (any_head?_dropLastEmpty hnil ls) id]
    exact ih _ _

end Identity

namespace FileDiff

theorem ofLines_header (text : Text) {head : List Text} (hhead : ∀ l ∈ head, isDiffLine l = false) :
    ofLines text head = .ok ⟨Identity.ofHeader head, [], text⟩ := by
  have happend := @ofLines_header_append text head [] hhead rfl
  rwa [List.append_nil] at happend

theorem identity_of_ofLines {text : Text} {head body : List Text} {f : FileDiff}
    (hhead : ∀ l ∈ head, isDiffLine l = false) (hbody : body.head?.all isDiffLine)
    (hgit : ∀ l ∈ body, isGitMark l = false) (h : ofLines text (head ++ body) = .ok f) :
    f.identity = Identity.ofHeader head := by
  rw [ofLines_header_append text hhead hbody, Identity.readBody_of_not_isGitMark hgit] at h
  obtain ⟨hunks, -, hf⟩ := bind_eq_ok.1 h
  cases hf
  rfl

/-- Whatever stands under a hunk header, the file has the paths and flags that the lines above it
give alone, if only no line there is a `diff --git` line. -/
theorem identity_of_header {header : List Text} {body : Text} {f : FileDiff}
    (hheader : ∀ l ∈ header, '\n' ∉ l ∧ isDiffLine l = false) (hbody : startsWith "@@" body)
    (hgit : ∀ l ∈ Text.lines body, isGitMark l = false)
    (h : ofChunk (Text.ended header ++ body) = .ok f) :
    ∀ alone ∈ [Text.ended header, Text.unlines header],
      ∃ g, ofChunk alone = .ok g ∧ g.identity = f.identity ∧ g.hunks = [] := by
  have hnewline : ∀ l ∈ header, '\n' ∉ l := fun l hl => (hheader l hl).1
  have hread : ∀ l ∈ header.map dropReturn, isDiffLine l = false := by
    intro l hl
    obtain ⟨m, hm, rfl⟩ := List.mem_map.1 hl
    rw [isDiffLine_dropReturn]
    exact (hheader m hm).2
  have hidentity : f.identity = Identity.ofHeader (header.map dropReturn) := by
    obtain ⟨l, rest, hlines, hl⟩ :=
      exists_lines_of_startsWith (by decide) (by decide) (by decide) hbody
    rw [ofChunk, lines_ended_append hnewline] at h
    refine identity_of_ofLines hread ?_ ?_ h
    · rw [hlines]
      exact isDiffLine_of_isHunkMark hl
    · intro k hk
      obtain ⟨m, hm, rfl⟩ := mem_lines hk
      rw [isGitMark_dropReturn]
      exact hgit m hm
  rw [hidentity]
  simp only [List.forall_mem_cons, List.not_mem_nil, false_imp_iff, implies_true, and_true]
  constructor
  · exact ⟨_, by rw [ofChunk, lines_ended_eq hnewline, ofLines_header _ hread], rfl, rfl⟩
  · have hshort := fun l hl => hread l ((dropLastEmpty_isPrefix _).subset hl)
    refine ⟨_, by rw [ofChunk, lines_unlines_eq hnewline, ofLines_header _ hshort], ?_, rfl⟩
    exact Identity.readLines_dropLastEmpty {} none _

/-- A lone old path mark right above the hunk, whose lines name, move and delete other files. -/
theorem identity_of_header_forged :
    let header := ["diff --git a/p b/q".toList, "rename from p".toList, "--- a/r".toList]
    let body := "@@ -1 +1 @@\n+++ b/x.test.ts\n--- /dev/null\nrename to s\ndeleted file".toList
    ∃ f, ofChunk (Text.ended header ++ body) = .ok f ∧
      f.identity = ⟨some ['p'], some ['q'], false, false, true⟩ ∧
      ∀ alone ∈ [Text.ended header, Text.unlines header],
        ∃ g, ofChunk alone = .ok g ∧ g.identity = f.identity ∧ g.hunks = [] := by
  intro header body
  have hchunk : ofChunk (Text.ended header ++ body) = .ok _ := rfl
  refine ⟨_, hchunk, rfl, identity_of_header ?_ ?_ ?_ hchunk⟩
  · decide
  · decide
  · decide

end FileDiff

end PatchReview.Diff
