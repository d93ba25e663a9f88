import PatchReview.Proofs.Diff.Failure
import PatchReview.Proofs.Tools.Session
import PatchReview.Proofs.Tools.Validation

/-!
The one outcome of a call: the problems of its arguments, or else the report of the tool on what the
arguments say, or the error that stood in the way of it. Main statement: `call_outcome`.
-/

set_option autoImplicit false

namespace PatchReview.Tools

section
variable {args : Arguments} {name : String}

theorem IsText.unique {t t' : Text} (h : IsText args name t) (h' : IsText args name t') :
    t = t' :=
  Json.str.inj (Option.some.inj (h.symm.trans h'))

theorem IsOptionalText.unique {t t' : Option Text} (h : IsOptionalText args name t)
    (h' : IsOptionalText args name t') : t = t' := by
  cases t <;> cases t' <;> simp_all [IsOptionalText, IsText]

theorem IsTexts.unique {ts ts' : List Text} (h : IsTexts args name ts)
    (h' : IsTexts args name ts') : ts = ts' :=
  (List.map_inj_right fun _ _ => Json.str.inj).1
    (Json.arr.inj (Option.some.inj (h.symm.trans h')))

theorem IsCommitCount.unique {n n' : Int} (h : IsCommitCount args name n)
    (h' : IsCommitCount args name n') : n = n' := by
  unfold IsCommitCount at h h'
  cases hv : argument? args name with
  | none =>
    simp only [hv] at h h'
    rw [h, h']
  | some v =>
    simp only [hv] at h h'
    have hread : readWhole [] v = .ok n := readWhole_of_countsAs h
    exact Except.ok.inj (hread.symm.trans (readWhole_of_countsAs h'))

end

/-- What the tool of a check reports about the arguments, unless a number in the diff is too long to
be read. -/
def Check.Analyses (args : Arguments) (result : Except Diff.NumberTooLong Json) : Check → Prop
  | security => ∃ code file language, IsText args "code" code ∧
      IsOptionalText args "filename" file ∧ IsOptionalText args "language" language ∧
      result = .ok (Security.scan code file).toJson
  | aiDetection => ∃ diff commits, IsText args "diff" diff ∧
      IsCommitCount args "commit_count" commits ∧ 1 ≤ commits ∧
      result = (Authorship.detect diff commits).map (·.toJson)
  | tests => ∃ changed diff, IsTexts args "changed_files" changed ∧ IsText args "diff" diff ∧
      result = (Coverage.mapTests changed diff).map (·.toJson)
  | complexity => ∃ code file, IsText args "code" code ∧ IsOptionalText args "filename" file ∧
      result = .ok (Complexity.analyze (.ofFile file) code file).toJson

theorem Check.Analyses.unique {args : Arguments} {c : Check}
    {result result' : Except Diff.NumberTooLong Json} (h : c.Analyses args result)
    (h' : c.Analyses args result') : result = result' := by
  cases c with
  | security =>
    obtain ⟨code, file, -, hcode, hfile, -, rfl⟩ := h
    obtain ⟨code', file', -, hcode', hfile', -, rfl⟩ := h'
    rw [hcode.unique hcode', hfile.unique hfile']
  | aiDetection =>
    obtain ⟨diff, commits, hdiff, hcommits, -, rfl⟩ := h
    obtain ⟨diff', commits', hdiff', hcommits', -, rfl⟩ := h'
    rw [hdiff.unique hdiff', hcommits.unique hcommits']
  | tests =>
    obtain ⟨changed, diff, hchanged, hdiff, rfl⟩ := h
    obtain ⟨changed', diff', hchanged', hdiff', rfl⟩ := h'
    rw [hchanged.unique hchanged', hdiff.unique hdiff']
  | complexity =>
    obtain ⟨code, file, hcode, hfile, rfl⟩ := h
    obtain ⟨code', file', hcode', hfile', rfl⟩ := h'
    rw [hcode.unique hcode', hfile.unique hfile']

theorem Call.Fits.analyses {args : Arguments} {call : Call} (h : call.Fits args) :
    ∃ result, call.check.Analyses args result ∧ call.report = result.mapError .diff := by
  cases call with
  | scanSecurity code file =>
    obtain ⟨hcode, hfile, language, hlanguage⟩ := h
    exact ⟨_, ⟨code, file, language, hcode, hfile, hlanguage, rfl⟩, rfl⟩
  | detectAuthorship diff commits =>
    exact ⟨_, ⟨diff, commits.value, h.1, h.2, commits.one_le, rfl⟩, rfl⟩
  | mapTests changed diff => exact ⟨_, ⟨changed, diff, h.1, h.2, rfl⟩, rfl⟩
  | analyzeComplexity code file => exact ⟨_, ⟨code, file, h.1, h.2, rfl⟩, rfl⟩

def tooLongMessage (detail : Text) : Text :=
  "Exceeds the limit (4300 digits) for integer string conversion".toList ++ detail
    ++ "; use sys.set_int_max_str_digits() to increase the limit".toList

theorem message_numberTooLong (e : Diff.NumberTooLong) :
    e.message =
      tooLongMessage (": value has ".toList ++ Text.ofNat e.digits ++ " digits".toList) := by
  have hlimit : "Exceeds the limit (".toList ++ Text.ofNat Diff.maxDigits ++
      " digits) for integer string conversion: value has ".toList =
      "Exceeds the limit (4300 digits) for integer string conversion".toList ++
        ": value has ".toList := by decide +kernel
  have hend : " digits; use sys.set_int_max_str_digits() to increase the limit".toList =
      " digits".toList ++ "; use sys.set_int_max_str_digits() to increase the limit".toList := by
    decide +kernel
  unfold Diff.NumberTooLong.message tooLongMessage
  rw [hlimit, hend]
  simp only [List.append_assoc]

theorem message_intTooLong : Json.WriteError.intTooLong.message = tooLongMessage [] := by
  decide +kernel

/-- The three members that tell of a failure. -/
def failureText (tool message : Text) : Text :=
  Json.write (some 2) (.obj [
    ("tool".toList, .str tool),
    ("summary".toList, .str ("Tool '".toList ++ tool ++ "' failed: ".toList ++ message)),
    ("error".toList, .str message)])

/-- The report as it is written, or the error that stood in the way of it. -/
inductive Check.Answers (args : Arguments) (c : Check) : Text → Prop where
  | written {report : Json} {text : Text} : c.Analyses args (.ok report) →
      Json.render (some 2) report = .ok text → Answers args c text
  | unread {e : Diff.NumberTooLong} : c.Analyses args (.error e) →
      Answers args c (failureText c.toolName.toList
        (tooLongMessage (": value has ".toList ++ Text.ofNat e.digits ++ " digits".toList)))
  | unwritten {report : Json} : c.Analyses args (.ok report) →
      Json.render (some 2) report = .error .intTooLong →
      Answers args c (failureText c.toolName.toList (tooLongMessage []))

theorem Check.Answers.unique {args : Arguments} {c : Check} {text text' : Text}
    (h : c.Answers args text) (h' : c.Answers args text') : text = text' := by
  -- The analysis has one result, which settles the kind of both answers.
  cases h with
  | written hreport hrender =>
    cases h' with
    | written hreport' hrender' =>
      cases hreport.unique hreport'
      exact Except.ok.inj (hrender.symm.trans hrender')
    | unread herror => cases hreport.unique herror
    | unwritten hreport' hfailed =>
      cases hreport.unique hreport'
      cases hrender.symm.trans hfailed
  | unread herror =>
    cases h' with
    | written hreport _ => cases herror.unique hreport
    | unread herror' => cases herror.unique herror'; rfl
    | unwritten hreport _ => cases herror.unique hreport
  | unwritten hreport hfailed =>
    cases h' with
    | written hreport' hrender =>
      cases hreport.unique hreport'
      cases hfailed.symm.trans hrender
    | unread herror => cases hreport.unique herror
    | unwritten _ _ => rfl

theorem Call.Fits.answers {args : Arguments} {call : Call} (h : call.Fits args) :
    call.check.Answers args call.answer := by
  obtain ⟨result, hanalyses, hreport⟩ := h.analyses
  cases result with
  | error e =>
    have htext : call.reportText = .error (.diff e) := by rw [reportText, hreport]; rfl
    rw [answer, htext]
    simp only [CallError.message, message_numberTooLong]
    exact .unread hanalyses
  | ok report =>
    have htext : call.reportText = (Json.render (some 2) report).mapError .writing := by
      rw [reportText, hreport]; rfl
    rw [answer, htext]
    cases hrender : Json.render (some 2) report with
    | error w =>
      cases w with
      | intTooLong =>
        simp only [Except.mapError, CallError.message, message_intTooLong]
        exact .unwritten hanalyses hrender
    | ok text => exact .written hanalyses hrender

theorem Call.Fits.answers_iff {args : Arguments} {call : Call} (h : call.Fits args) (text : Text) :
    call.check.Answers args text ↔ text = call.answer :=
  ⟨fun htext => htext.unique h.answers, fun heq => heq ▸ h.answers⟩

/-- A call of a registered tool has one of two outcomes: all problems of its arguments if there are
any, and otherwise the one text that the tool answers to what they say. -/
theorem call_outcome {s : Server} {c : Check} (hc : c ∈ s.registered) (args : Arguments) :
    let outcome := s.call c.toolName.toList args
    (c.problems args ≠ [] ∧ outcome = .badArguments (c.problems args) ∧
        (∀ call, Call.read c args ≠ .ok call) ∨
      c.problems args = [] ∧ ∃ call text, Call.read c args = .ok call ∧ call.check = c ∧
        call.Fits args ∧ (∀ t, c.Answers args t ↔ t = text) ∧ outcome = .text text) ∧
    (∀ location v, (countFaults location v = [] ↔ ∃ n, CountsAs v n ∧ 1 ≤ n) ∧
      ∀ fault, countFaults location v = [⟨location, fault⟩] ↔
        NoCount v fault ∨ fault = .tooSmall ∧ ∃ n, CountsAs v n ∧ n < 1) ∧
    ∀ diff commits, Call.read c args = .ok (.detectAuthorship diff commits) →
      argument? args "diff" = some (.str diff) ∧ 1 ≤ commits.value ∧
        ∀ v, argument? args "commit_count" = some v → CountsAs v commits.value := by
  intro outcome
  have houtcome : outcome = Server.answerOf c args := Server.call_of_mem hc args
  have hread := Call.reads_read c args
  rw [houtcome, Server.answerOf]
  refine ⟨?_, fun _ _ => ⟨countFaults_eq_nil_iff, fun _ => countFaults_eq_singleton_iff⟩, ?_⟩
  · cases h : Call.read c args with
    | error found =>
      rw [h] at hread
      exact .inl ⟨hread.2, by rw [← hread.1], by simp⟩
    | ok call =>
      rw [h] at hread
      obtain ⟨hnone, rfl, hfits⟩ := hread
      exact .inr ⟨hnone, call, _, rfl, rfl, hfits, hfits.answers_iff, rfl⟩
  · intro diff commits h
    rw [h] at hread
    obtain ⟨-, -, hdiff, hcommits⟩ := hread
    refine ⟨hdiff, commits.one_le, fun v hv => ?_⟩
    simpa [IsCommitCount, hv] using hcommits

/-- Three problems at once, a count of commits read from a text, and a diff that cannot be read. -/
theorem call_outcome_detector :
    let s := Server.create none
    let answer := s.call "ai_slop_detector".toList
    let wrong : Arguments := [("x".toList, .null), ("commit_count".toList, .str "0".toList),
      ("diff".toList, .bool true)]
    let counted : Arguments := [("commit_count".toList, .str " 2.0 ".toList),
      ("diff".toList, .str [])]
    let unread : Arguments := [("diff".toList,
      .str ("@@ -1 +".toList ++ List.replicate 4301 '1' ++ " @@".toList))]
    Check.aiDetection ∈ s.registered ∧
    answer wrong = .badArguments [⟨"diff".toList, .notText⟩, ⟨"commit_count".toList, .tooSmall⟩,
      ⟨"x".toList, .unexpected⟩] ∧
    answer counted = .text ("\x7b\n  \"confidence\": 0.0,\n  \"riskLevel\": \"none\",\n".toList ++
      "  \"signals\": [],\n  \"sections\": [],\n".toList ++
      "  \"vibeTranslation\": \"looks hand-crafted ✋\"\n\x7d".toList) ∧
    answer unread = .text ("\x7b\n  \"tool\": \"ai_slop_detector\",\n".toList ++
      "  \"summary\": \"Tool 'ai_slop_detector' failed: Exceeds the limit (4300 ".toList ++
      "digits) for integer string conversion: value has 4301 digits; use ".toList ++
      "sys.set_int_max_str_digits() to increase the limit\",\n".toList ++
      "  \"error\": \"Exceeds the limit (4300 digits) for integer string ".toList ++
      "conversion: value has 4301 digits; use sys.set_int_max_str_digits() ".toList ++
      "to increase the limit\"\n\x7d".toList) := by
  intro s answer wrong counted unread
  have hc : Check.aiDetection ∈ s.registered := by decide
  -- Without problems the one text that counts as an answer is the outcome.
  have hanswer {args : Arguments} {text : Text} (hnone : Check.aiDetection.problems args = [])
      (htext : Check.aiDetection.Answers args text) : answer args = .text text := by
    obtain ⟨⟨hne, -⟩ | ⟨-, call, answered, -, -, -, hanswers, houtcome⟩, -⟩ :=
      call_outcome hc args
    · exact absurd hnone hne
    · exact houtcome.trans (congrArg _ ((hanswers text).1 htext).symm)
  refine ⟨hc, ?_, ?_, ?_⟩
  · have hproblems : Check.aiDetection.problems wrong = [⟨"diff".toList, .notText⟩,
        ⟨"commit_count".toList, .tooSmall⟩, ⟨"x".toList, .unexpected⟩] := by rfl
    obtain ⟨⟨-, houtcome, -⟩ | ⟨hnone, -⟩, -⟩ := call_outcome hc wrong
    · exact houtcome.trans (congrArg _ hproblems)
    · rw [hproblems] at hnone
      exact absurd hnone (List.cons_ne_nil _ _)
  · have hreport : Authorship.detect [] 2 = .ok ⟨.double (.zero false), .none, [], []⟩ := by
      decide +kernel
    have hcommits : IsCommitCount counted "commit_count" 2 := .str (by decide +kernel)
    have hanalyses : Check.aiDetection.Analyses counted (.ok _) :=
      ⟨[], 2, rfl, hcommits, by decide, by rw [hreport]; rfl⟩
    exact hanswer (by decide +kernel) (.written hanalyses (by decide +kernel))
  · have hdigits : Diff.Row isDigit (List.replicate 4301 '1') :=
      Diff.row_replicate (by decide) (by decide)
    have hlong : Diff.maxDigits < (List.replicate 4301 '1').length := by
      rw [List.length_replicate]
      decide
    have herror := Diff.Document.parse_newStart hdigits hlong
    rw [List.length_replicate] at herror
    have hanalyses : Check.aiDetection.Analyses unread (.error ⟨4301⟩) :=
      ⟨_, 1, rfl, rfl, by decide, by rw [Authorship.detect, herror]; rfl⟩
    exact (hanswer rfl (.unread hanalyses)).trans (congrArg Outcome.text (by decide +kernel))

end PatchReview.Tools
