import PatchReview.Authorship.Detection
import PatchReview.Complexity.Analysis
import PatchReview.Coverage.Mapping
import PatchReview.Security.Scan
import PatchReview.Tools.Call

set_option autoImplicit false

namespace PatchReview.Tools

inductive CallError where
  | diff (e : Diff.NumberTooLong)
  | writing (e : Json.WriteError)
  deriving DecidableEq, Repr

def CallError.message : CallError → Text
  | diff e => e.message
  | writing e => e.message

namespace Call

def report : Call → Except CallError Json
  | scanSecurity code file => .ok (Security.scan code file).toJson
  | detectAuthorship diff commits =>
    ((Authorship.detect diff commits.value).map (·.toJson)).mapError .diff
  | mapTests changed diff => ((Coverage.mapTests changed diff).map (·.toJson)).mapError .diff
  | analyzeComplexity code file =>
    .ok (Complexity.analyze (.ofFile file) code file).toJson

def reportIndent : Option Nat := some 2

def reportText (c : Call) : Except CallError Text := do
  (Json.render reportIndent (← c.report)).mapError .writing

def errorObject (tool : Text) (message : Text) : Json :=
  .ofMembers [
    ("tool", .str tool),
    ("summary", .str ("Tool '".toList ++ tool ++ "' failed: ".toList ++ message)),
    ("error", .str message)]

def answer (c : Call) : Text :=
  match c.reportText with
  | .ok t => t
  | .error e => (errorObject c.check.toolName.toList e.message).write reportIndent

end Call

def serverName : String := "vibecheck-mcp"

def serverVersion : String := "0.3.0"

structure Server where
  name : String
  version : String
  /-- The checks whose tools are registered. -/
  registered : List Check
  deriving DecidableEq, Repr

inductive Outcome where
  | unknownTool (name : Text)
  | badArguments (problems : List Problem)
  | text (t : Text)
  deriving DecidableEq, Repr

namespace Server

def empty : Server := ⟨serverName, serverVersion, []⟩

/-- A tool that is registered again replaces itself. -/
def register (s : Server) (checks : List Check) : Server :=
  { s with registered := s.registered ++ checks.filter (!s.registered.contains ·) }

def create (checks : Option (List Text)) : Server := empty.register (normalizeChecks checks)

def listed (s : Server) : List Check := Check.byToolName.filter (s.registered.contains ·)

def find? (s : Server) (tool : Text) : Option Check :=
  (Check.ofToolName? tool).filter (s.registered.contains ·)

def call (s : Server) (tool : Text) (args : Arguments) : Outcome :=
  match s.find? tool with
  | none => .unknownTool tool
  | some check =>
    match Call.read check args with
    | .error problems => .badArguments problems
    | .ok c => .text c.answer

theorem mem_register (s : Server) (checks : List Check) (c : Check) :
    c ∈ (s.register checks).registered ↔ c ∈ s.registered ∨ c ∈ checks := by
  by_cases h : c ∈ s.registered <;> simp [register, h]

theorem mem_listed (s : Server) (c : Check) : c ∈ s.listed ↔ c ∈ s.registered := by
  cases c <;> simp [listed, Check.byToolName]

end Server

inductive Step where
  | create (checks : Option (List Text))
  | register (checks : Option (List Text))
  | list
  | call (tool : Text) (args : Arguments)

inductive Reply where
  | created
  | registered (checks : List Check)
  | tools (checks : List Check)
  | called (outcome : Outcome)
  deriving DecidableEq, Repr

namespace Server

def step (s : Server) : Step → Server × Reply
  | .create checks => (create checks, .created)
  | .register checks =>
    let checks := normalizeChecks checks
    (s.register checks, .registered checks)
  | .list => (s, .tools s.listed)
  | .call tool args => (s, .called (s.call tool args))

def run (s : Server) : List Step → List Reply
  | [] => []
  | x :: rest => (s.step x).2 :: run (s.step x).1 rest

end Server

end PatchReview.Tools
