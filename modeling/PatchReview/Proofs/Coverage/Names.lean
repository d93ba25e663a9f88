import PatchReview.Coverage.Mapping
import PatchReview.Proofs.Pattern.Reading

set_option autoImplicit false

namespace PatchReview

namespace Text

variable {mark : Char}

theorem notMem_afterLast (t : Text) : mark ∉ afterLast mark t := by
  intro h
  rw [afterLast, List.mem_reverse] at h
  have hne := List.all_takeWhile (p := (· != mark)) (l := t.reverse)
  simpa using List.all_eq_true.1 hne mark h

theorem afterLast_suffix (t : Text) : afterLast mark t <:+ t := by
  rw [afterLast, ← List.reverse_prefix, List.reverse_reverse]
  exact List.takeWhile_prefix _

theorem afterLast_append {t : Text} (h : mark ∉ t) (x : Text) :
    afterLast mark (x ++ t) = afterLast mark x ++ t := by
  have hall : ∀ c ∈ t.reverse, (c != mark) = true := by
    intro c hc
    have hne : c ≠ mark := fun he => h (he ▸ List.mem_reverse.1 hc)
    simpa using hne
  rw [afterLast, afterLast, List.reverse_append, List.takeWhile_append_of_pos hall,
    List.reverse_append, List.reverse_reverse]

theorem afterLast_append_cons {t : Text} (h : mark ∉ t) (x : Text) :
    afterLast mark (x ++ mark :: t) = t := by
  have hx : afterLast mark (x ++ [mark]) = [] := by simp [afterLast]
  rw [List.append_cons, afterLast_append h, hx, List.nil_append]

end Text

namespace Path

theorem slash_notMem_baseName (path : Text) : '/' ∉ baseName path :=
  fun h => Text.notMem_afterLast path (List.mem_of_mem_take h)

/-- A name of dots alone keeps its extension, every other one loses it. -/
theorem baseName_append {tail : Text} (hdot : '.' ∉ tail) (hslash : '/' ∉ tail) (x : Text) :
    baseName (x ++ '.' :: tail) =
      if (fileName x).all (· == '.') then fileName x ++ '.' :: tail else fileName x := by
  have hname : fileName (x ++ '.' :: tail) = fileName x ++ '.' :: tail :=
    Text.afterLast_append (by simp [hslash]) x
  have hstem : (fileName x ++ '.' :: tail).take
      ((fileName x ++ '.' :: tail).length - tail.length - 1) = fileName x := by
    rw [List.take_append_of_le_length (by simp; omega)]
    exact List.take_of_length_le (by simp; omega)
  have hext : extension (x ++ '.' :: tail) =
      if (fileName x).all (· == '.') then [] else '.' :: tail := by
    simp only [extension, hname, Text.afterLast_append_cons hdot, hstem]
  rw [baseName, hname, hext]
  split
  · exact List.take_length
  · rw [List.length_append, Nat.add_sub_cancel, List.take_left]

end Path

end PatchReview

namespace PatchReview.Coverage

open Pattern

def extensions : List String :=
  ["js", "jsx", "ts", "tsx", "py", "go", "rs", "rb", "java", "cs", "cpp", "c"]

/-- An extension with its dot, at the end of a path or before the newline that ends it. -/
def IsTail (ext : String) (t : Text) : Prop :=
  t = '.' :: ext.toList ∨ t = '.' :: (ext.toList ++ ['\n'])

def IsSourceTail (t : Text) : Prop := ∃ ext ∈ extensions, IsTail ext t

def IsDirectory (d : Text) : Prop := d = [] ∨ ∃ x, d = x ++ ['/']

def testEndings : List String := [".test", ".spec", "_test"]

def InTestsDirectory (path : Text) : Prop :=
  ∃ d rest, IsDirectory d ∧ path = d ++ "__tests__/".toList ++ rest

def HasTestEnding (path : Text) : Prop :=
  ∃ x, ∃ s ∈ testEndings, ∃ t, IsSourceTail t ∧ path = x ++ s.toList ++ t

def IsPyTest (path : Text) : Prop :=
  ∃ d name t, IsDirectory d ∧ '/' ∉ name ∧ IsTail "py" t ∧ path = d ++ "test_".toList ++ name ++ t

@[simp] theorem reads_scriptExtension {prev : Option Char} {w rest : Text} :
    scriptExtension.Reads prev w rest ↔ w = "js".toList ∨ w = "ts".toList := by
  simp only [scriptExtension, reads_append, reads_lit, Reads, among]
  constructor
  · rintro ⟨_, _, rfl, ⟨c, rfl, hc⟩, rfl⟩
    simpa using hc
  · rintro (rfl | rfl)
    · exact ⟨['j'], ['s'], rfl, ⟨'j', rfl, by decide⟩, rfl⟩
    · exact ⟨['t'], ['s'], rfl, ⟨'t', rfl, by decide⟩, rfl⟩

theorem reads_sourceExtension {prev : Option Char} {w rest : Text} :
    sourceExtension.Reads prev w rest ↔ ∃ ext ∈ extensions, w = ext.toList := by
  have hscript : (scriptExtension ++ optional (lit "x")).Reads prev w rest ↔
      ∃ ext ∈ ["js", "jsx", "ts", "tsx"], w = ext.toList := by
    simp only [reads_append, reads_scriptExtension, reads_optional, reads_lit]
    constructor
    · rintro ⟨_, _, rfl, rfl | rfl, rfl | rfl⟩ <;> simp
    · simp only [List.mem_cons, List.not_mem_nil, or_false, exists_eq_or_imp, exists_eq_left]
      rintro (rfl | rfl | rfl | rfl)
      · exact ⟨"js".toList, [], rfl, .inl rfl, .inr rfl⟩
      · exact ⟨"js".toList, ['x'], rfl, .inl rfl, .inl rfl⟩
      · exact ⟨"ts".toList, [], rfl, .inr rfl, .inr rfl⟩
      · exact ⟨"ts".toList, ['x'], rfl, .inr rfl, .inl rfl⟩
  simp only [sourceExtension, reads_firstOf, List.mem_cons, List.not_mem_nil, or_false,
    exists_eq_or_imp, exists_eq_left, hscript, reads_lit, extensions, or_assoc]

theorem starts_lit_textEnd {ext : String} {prev : Option Char} {t : Text} :
    (lit ext ++ textEnd).Starts prev t ↔ t = ext.toList ∨ t = ext.toList ++ ['\n'] := by
  simp only [starts_lit_append, starts_textEnd, and_or_left, exists_or, exists_eq_right,
    List.append_nil]

@[simp] theorem starts_extensionEnd {prev : Option Char} {t : Text} :
    extensionEnd.Starts prev t ↔ IsSourceTail t := by
  rw [extensionEnd, append_assoc, starts_lit_append]
  simp only [starts_append, reads_sourceExtension, starts_textEnd, IsSourceTail, IsTail]
  constructor
  · rintro ⟨_, rfl, _, y, rfl, ⟨ext, hext, rfl⟩, rfl | rfl⟩
    · exact ⟨ext, hext, .inl (by simp)⟩
    · exact ⟨ext, hext, .inr rfl⟩
  · rintro ⟨ext, hext, rfl | rfl⟩
    · exact ⟨ext.toList, rfl, ext.toList, [], by simp, ⟨ext, hext, rfl⟩, .inl rfl⟩
    · exact ⟨ext.toList ++ ['\n'], rfl, ext.toList, ['\n'], rfl, ⟨ext, hext, rfl⟩, .inr rfl⟩

theorem occurs_nameStart {q : Pattern} {path : Text} :
    (nameStart ++ q).occurs path ↔
      ∃ d t, path = d ++ t ∧ IsDirectory d ∧ q.Starts (behind none d) t := by
  have hreads {prev : Option Char} {w rest : Text} :
      nameStart.Reads prev w rest ↔ (w = [] ∧ prev = none) ∨ w = ['/'] := by
    change textStart.Reads prev w rest ∨ (lit "/").Reads prev w rest ↔ _
    rw [reads_lit]
    rfl
  rw [occurs_iff]
  simp only [starts_append, hreads]
  constructor
  · rintro ⟨x, _, rfl, w, t, rfl, (⟨rfl, hnone⟩ | rfl), hq⟩
    · exact ⟨x, t, rfl, .inl (behind_eq_none_iff.1 hnone).2, hq⟩
    · exact ⟨x ++ ['/'], t, by simp, .inr ⟨x, rfl⟩, by simpa using hq⟩
  · rintro ⟨_, t, rfl, (rfl | ⟨x, rfl⟩), hq⟩
    · exact ⟨[], t, rfl, [], t, rfl, .inl ⟨rfl, rfl⟩, hq⟩
    · exact ⟨x, '/' :: t, by simp, ['/'], t, rfl, .inr rfl, by simpa using hq⟩

theorem occurs_words_extensionEnd {l : List String} {path : Text} :
    (words l ++ extensionEnd).occurs path ↔
      ∃ x, ∃ s ∈ l, ∃ t, IsSourceTail t ∧ path = x ++ s.toList ++ t := by
  rw [occurs_iff]
  simp only [starts_words_append, starts_extensionEnd]
  constructor
  · rintro ⟨x, _, rfl, s, hs, t, rfl, ht⟩
    exact ⟨x, s, hs, t, ht, by simp⟩
  · rintro ⟨x, s, hs, t, ht, rfl⟩
    exact ⟨x, s.toList ++ t, by simp, s, hs, t, rfl, ht⟩

theorem occurs_testsDirectory {path : Text} :
    (nameStart ++ lit "__tests__/").occurs path ↔ InTestsDirectory path := by
  rw [occurs_nameStart]
  constructor
  · rintro ⟨d, _, rfl, hd, w, rest, rfl, hw⟩
    exact ⟨d, rest, hd, by simp [reads_lit.1 hw]⟩
  · rintro ⟨d, rest, hd, rfl⟩
    exact ⟨d, "__tests__/".toList ++ rest, by simp, hd, _, rest, rfl, reads_lit.2 rfl⟩

theorem occurs_pyTest {path : Text} :
    (nameStart ++ lit "test_" ++ many (· != '/') ++ lit ".py" ++ textEnd).occurs path ↔
      IsPyTest path := by
  rw [append_assoc, append_assoc, append_assoc, occurs_nameStart]
  constructor
  · rintro ⟨d, _, rfl, hd, hstart⟩
    obtain ⟨_, rfl, hname⟩ := starts_lit_append.1 hstart
    obtain ⟨name, t, rfl, hname, ht⟩ := starts_append.1 hname
    exact ⟨d, name, t, hd, reads_many_ne.1 hname, starts_lit_textEnd.1 ht, by simp⟩
  · rintro ⟨d, name, t, hd, hname, ht, rfl⟩
    refine ⟨d, "test_".toList ++ (name ++ t), by simp, hd, starts_lit_append.2 ⟨name ++ t, rfl, ?_⟩⟩
    exact starts_append.2 ⟨name, t, rfl, reads_many_ne.2 hname, starts_lit_textEnd.2 ht⟩

theorem isTestFile_iff {path : Text} :
    isTestFile path ↔ HasTestEnding path ∨ InTestsDirectory path ∨ IsPyTest path := by
  have hending : HasTestEnding path ↔ (words [".test", ".spec"] ++ extensionEnd).occurs path ∨
      (lit "_test" ++ extensionEnd).occurs path := by
    have hlit : lit "_test" = words ["_test"] := rfl
    rw [hlit, occurs_words_extensionEnd, occurs_words_extensionEnd]
    simp only [HasTestEnding, testEndings, List.mem_cons, List.not_mem_nil, or_false,
      exists_eq_or_imp, exists_eq_left, exists_or, or_assoc]
  rw [hending, ← occurs_testsDirectory, ← occurs_pyTest]
  simp only [isTestFile, testPatterns, List.any_cons, List.any_nil, Bool.or_false, Bool.or_eq_true,
    or_assoc]

theorem reads_innerDirectory {prev : Option Char} {m rest : Text} :
    (optional (line ++ lit "/")).Reads prev m rest ↔
      m = [] ∨ ∃ l, '\n' ∉ l ∧ m = l ++ ['/'] := by
  rw [reads_optional, reads_append, or_comm]
  refine or_congr Iff.rfl ?_
  constructor
  · rintro ⟨l, w, rfl, hl, hw⟩
    exact ⟨l, reads_many_ne.1 hl, by rw [reads_lit.1 hw]; rfl⟩
  · rintro ⟨l, hl, rfl⟩
    exact ⟨l, ['/'], rfl, reads_many_ne.2 hl, reads_lit.2 rfl⟩

theorem isSameNameTest_iff {name path : Text} :
    isSameNameTest name path ↔
      (∃ d, ∃ s ∈ testEndings, ∃ t, IsDirectory d ∧ IsSourceTail t ∧
        path = d ++ name ++ s.toList ++ t) ∨
      (∃ d t, IsDirectory d ∧ IsSourceTail t ∧ path = d ++ "test_".toList ++ name ++ t) ∨
      (∃ d m t, IsDirectory d ∧ (m = [] ∨ ∃ l, '\n' ∉ l ∧ m = l ++ ['/']) ∧ IsSourceTail t ∧
        path = d ++ "__tests__/".toList ++ m ++ name ++ t) := by
  simp only [isSameNameTest, sameNamePatterns, List.any_cons, List.any_nil, Bool.or_false,
    Bool.or_eq_true, append_assoc, occurs_nameStart]
  refine or_congr ?ending (or_congr ?start ?directory)
  case ending =>
    constructor
    · rintro ⟨d, _, rfl, hd, hname⟩
      obtain ⟨_, rfl, hending⟩ := starts_ofText_append.1 hname
      obtain ⟨s, hs, t, rfl, ht⟩ := starts_words_append.1 hending
      exact ⟨d, s, hs, t, hd, starts_extensionEnd.1 ht, by simp⟩
    · rintro ⟨d, s, hs, t, hd, ht, rfl⟩
      refine ⟨d, name ++ (s.toList ++ t), by simp, hd, starts_ofText_append.2 ⟨_, rfl, ?_⟩⟩
      exact starts_words_append.2 ⟨s, hs, t, rfl, starts_extensionEnd.2 ht⟩
  case start =>
    constructor
    · rintro ⟨d, _, rfl, hd, hstart⟩
      obtain ⟨_, rfl, hname⟩ := starts_lit_append.1 hstart
      obtain ⟨t, rfl, ht⟩ := starts_ofText_append.1 hname
      exact ⟨d, t, hd, starts_extensionEnd.1 ht, by simp⟩
    · rintro ⟨d, t, hd, ht, rfl⟩
      refine ⟨d, "test_".toList ++ (name ++ t), by simp, hd, starts_lit_append.2 ⟨_, rfl, ?_⟩⟩
      exact starts_ofText_append.2 ⟨t, rfl, starts_extensionEnd.2 ht⟩
  case directory =>
    constructor
    · rintro ⟨d, _, rfl, hd, htests⟩
      obtain ⟨_, rfl, hm⟩ := starts_lit_append.1 htests
      obtain ⟨m, _, rfl, hm, hname⟩ := starts_append.1 hm
      obtain ⟨t, rfl, ht⟩ := starts_ofText_append.1 hname
      exact ⟨d, m, t, hd, reads_innerDirectory.1 hm, starts_extensionEnd.1 ht, by simp⟩
    · rintro ⟨d, m, t, hd, hm, ht, rfl⟩
      refine ⟨d, "__tests__/".toList ++ (m ++ (name ++ t)), by simp, hd,
        starts_lit_append.2 ⟨_, rfl, starts_append.2 ⟨m, _, rfl, reads_innerDirectory.2 hm, ?_⟩⟩⟩
      exact starts_ofText_append.2 ⟨t, rfl, starts_extensionEnd.2 ht⟩

/-- Stems of the tests of a name that may stand in any directory. -/
def testStems (name : Text) : List Text :=
  ["test_".toList ++ name, name ++ ".test".toList, name ++ ".spec".toList, name ++ "_test".toList]

/-- One of the directories is `__tests__`, and the names of those below it have no newline. -/
def IsTestsDirectory (d : Text) : Prop :=
  ∃ x y, d = x ++ "__tests__/".toList ++ y ∧ IsDirectory x ∧ IsDirectory y ∧ '\n' ∉ y

/-- The path is a directory, a stem made of the whole name, and a source extension. -/
def IsTestOf (name path : Text) : Prop :=
  ∃ d stem, ∃ ext ∈ extensions, path = d ++ stem ++ '.' :: ext.toList ∧ IsDirectory d ∧
    (stem ∈ testStems name ∨ stem = name ∧ IsTestsDirectory d)

theorem isDirectory_iff_of_newline {m : Text} :
    IsDirectory m ∧ '\n' ∉ m ↔ m = [] ∨ ∃ l, '\n' ∉ l ∧ m = l ++ ['/'] := by
  constructor
  · rintro ⟨rfl | ⟨l, rfl⟩, hline⟩
    · exact .inl rfl
    · exact .inr ⟨l, fun hl => hline (List.mem_append_left _ hl), rfl⟩
  · rintro (rfl | ⟨l, hline, rfl⟩)
    · exact ⟨.inl rfl, by simp⟩
    · exact ⟨.inr ⟨l, rfl⟩, by simpa using hline⟩

theorem IsTestsDirectory.isDirectory {d : Text} (h : IsTestsDirectory d) : IsDirectory d := by
  obtain ⟨x, y, rfl, -, rfl | ⟨l, rfl⟩, -⟩ := h
  · exact .inr ⟨x ++ "__tests__".toList, by simp⟩
  · exact .inr ⟨x ++ "__tests__/".toList ++ l, by simp⟩

theorem isSameNameTest_iff_exists_stem {name path : Text} :
    isSameNameTest name path ↔ ∃ d stem t, path = d ++ stem ++ t ∧ IsSourceTail t ∧ IsDirectory d ∧
      (stem ∈ testStems name ∨ stem = name ∧ IsTestsDirectory d) := by
  rw [isSameNameTest_iff]
  constructor
  · rintro (⟨d, s, hs, t, hd, ht, rfl⟩ | ⟨d, t, hd, ht, rfl⟩ | ⟨d, m, t, hd, hm, ht, rfl⟩)
    · have hstem : ∀ s ∈ testEndings, name ++ s.toList ∈ testStems name := by
        simp [testEndings, testStems]
      exact ⟨d, name ++ s.toList, t, by simp, ht, hd, .inl (hstem s hs)⟩
    · exact ⟨d, "test_".toList ++ name, t, by simp, ht, hd, .inl List.mem_cons_self⟩
    · obtain ⟨hm, hline⟩ := isDirectory_iff_of_newline.2 hm
      have htests : IsTestsDirectory (d ++ "__tests__/".toList ++ m) := ⟨d, m, rfl, hd, hm, hline⟩
      exact ⟨_, name, t, rfl, ht, htests.isDirectory, .inr ⟨rfl, htests⟩⟩
  · rintro ⟨d, stem, t, rfl, ht, hd, hstem | ⟨rfl, x, m, rfl, hx, hm, hline⟩⟩
    · rcases List.mem_cons.1 hstem with rfl | hstem
      · exact .inr (.inl ⟨d, t, hd, ht, by simp⟩)
      · have hending : ∃ s ∈ testEndings, stem = name ++ s.toList := by
          simpa [testEndings] using hstem
        obtain ⟨s, hs, rfl⟩ := hending
        exact .inl ⟨d, s, hs, t, hd, ht, by simp⟩
    · exact .inr (.inr ⟨x, m, t, hx, isDirectory_iff_of_newline.1 ⟨hm, hline⟩, ht, rfl⟩)

/-- The name is taken as it is and as a whole, whatever characters are in it. -/
theorem isSameNameTest_iff_isTestOf {name path : Text} :
    isSameNameTest name path ↔
      IsTestOf name path ∨ ∃ p, path = p ++ ['\n'] ∧ IsTestOf name p := by
  rw [isSameNameTest_iff_exists_stem]
  constructor
  · rintro ⟨d, stem, t, rfl, ⟨ext, hext, rfl | rfl⟩, hd, hstem⟩
    · exact .inl ⟨d, stem, ext, hext, rfl, hd, hstem⟩
    · exact .inr ⟨_, by simp, d, stem, ext, hext, rfl, hd, hstem⟩
  · rintro (⟨d, stem, ext, hext, rfl, hd, hstem⟩ | ⟨_, rfl, d, stem, ext, hext, rfl, hd, hstem⟩)
    · exact ⟨d, stem, _, rfl, ⟨ext, hext, .inl rfl⟩, hd, hstem⟩
    · exact ⟨d, stem, _, by simp, ⟨ext, hext, .inr rfl⟩, hd, hstem⟩

end PatchReview.Coverage
