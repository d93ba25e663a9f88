import PatchReview.Json.Basic
import PatchReview.Text.Quoted

set_option autoImplicit false

namespace PatchReview

inductive Severity where
  | high | medium | low
  deriving DecidableEq, Repr

namespace Severity

def name : Severity → String
  | high => "high"
  | medium => "medium"
  | low => "low"

def all : List Severity := [high, medium, low]

def ofName? (t : Text) : Option Severity := all.find? fun s => s.name.toList == t

def unknownMessage (t : Text) : Text := Text.quoted t ++ " is not a valid Severity".toList

end Severity

end PatchReview

namespace PatchReview.Security

structure Finding where
  severity : Severity
  type : Text
  message : Text
  file : Option Text
  line : Option Int
  snippet : Option Text
  deriving DecidableEq, Repr

/-- Members without a value are left out. -/
def Finding.toJson (f : Finding) : Json :=
  .ofPresent [
    ("severity", some (.ofString f.severity.name)),
    ("type", some (.str f.type)),
    ("message", some (.str f.message)),
    ("file", f.file.map .str),
    ("line", f.line.map .ofInt),
    ("snippet", f.snippet.map .str)]

structure Report where
  findings : List Finding
  deriving DecidableEq, Repr

namespace Report

def count (r : Report) (s : Severity) : Nat := r.findings.countP (·.severity == s)

def worst? (r : Report) : Option Severity := Severity.all.find? fun s => 0 < r.count s

def overall (r : Report) : String :=
  match r.worst? with
  | some s => s.name
  | none => "clean"

def headline (r : Report) : Text :=
  let high := r.count .high
  let medium := r.count .medium
  if 0 < high then
    "🔴 ".toList ++ Text.ofNat high ++ " critical issue".toList ++ pluralEnding high
      ++ " found - needs attention before merge".toList
  else if 0 < medium then
    "🟡 ".toList ++ Text.ofNat medium ++ " thing".toList ++ pluralEnding medium
      ++ " to review".toList
  else if 0 < r.count .low then "🟢 Minor observations only".toList
  else "✨ Looking clean!".toList

def toJson (r : Report) : Json :=
  .ofMembers [
    ("findings", .arr (r.findings.map (·.toJson))),
    ("summary", .ofMembers [
      ("high", .ofNat (r.count .high)),
      ("medium", .ofNat (r.count .medium)),
      ("low", .ofNat (r.count .low)),
      ("total", .ofNat r.findings.length)]),
    ("vibeTranslation", .str r.headline)]

end Report

end PatchReview.Security
