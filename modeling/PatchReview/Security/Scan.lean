import PatchReview.Distinct
import PatchReview.Pattern.Scan
import PatchReview.Security.Report

set_option autoImplicit false

namespace PatchReview.Security

inductive Weakness where
  | hardcodedSecret | stripeKey | githubToken | awsKey | sqlInjection | xss | commandInjection
  | eval | weakCrypto | insecureRandom | authBypass | jwtNone
  deriving DecidableEq, Repr

def Weakness.name : Weakness → String
  | hardcodedSecret => "hardcoded-secret"
  | stripeKey => "stripe-key"
  | githubToken => "github-token"
  | awsKey => "aws-key"
  | sqlInjection => "sql-injection"
  | xss => "xss"
  | commandInjection => "command-injection"
  | eval => "eval"
  | weakCrypto => "weak-crypto"
  | insecureRandom => "insecure-random"
  | authBypass => "auth-bypass"
  | jwtNone => "jwt-none"

structure Rule where
  weakness : Weakness
  severity : Severity
  message : String
  pattern : Pattern

namespace Rule

open Pattern

def quote : Pattern := one (among "'\"")

def openCall : Pattern := blanks ++ lit "("

def interpolation : Pattern := lit "$\x7b"

def insideCall : Pattern := many (· != ')')

def nameChars : Pattern := many fun c => c.isAlphanum || c == '_'

def secretWord : Pattern :=
  firstOf [lit "api" ++ optional (one (among "_-")) ++ lit "key", lit "secret", lit "password",
    lit "token", lit "credential"]

def hardcodedSecret : Rule where
  weakness := .hardcodedSecret
  severity := .high
  message := "Possible hardcoded secret detected"
  pattern := caseless (quoted (nameChars ++ secretWord ++ nameChars) ++ blanks ++ one (among ":=")
    ++ blanks ++ quoted (atLeast 8 (notAmong "'\"")))

def stripeKey : Rule where
  weakness := .stripeKey
  severity := .high
  message := "Stripe API key detected"
  pattern := words ["sk", "pk"] ++ lit "_" ++ words ["live", "test"] ++ lit "_"
    ++ atLeast 24 Char.isAlphanum

def githubToken : Rule where
  weakness := .githubToken
  severity := .high
  message := "GitHub personal access token detected"
  pattern := lit "ghp_" ++ exactly 36 Char.isAlphanum

def awsKey : Rule where
  weakness := .awsKey
  severity := .high
  message := "AWS access key detected"
  pattern := lit "AKIA" ++ exactly 16 fun c => c.isDigit || c.isUpper

def sqlTemplate : Rule where
  weakness := .sqlInjection
  severity := .high
  message := "Potential SQL injection - string interpolation in query"
  pattern := caseless (lit "`SELECT" ++ line ++ interpolation ++ line ++ lit "\x7d`")

def sqlConcatenation : Rule where
  weakness := .sqlInjection
  severity := .high
  message := "Potential SQL injection - concatenating user input"
  pattern := caseless (quote ++ lit "SELECT" ++ line ++ quote ++ line ++ lit "+" ++ line
    ++ words ["req", "params", "query", "body"])

def sqlQueryCall : Rule where
  weakness := .sqlInjection
  severity := .high
  message := "Potential SQL injection in query method"
  pattern := caseless (lit ".query" ++ openCall ++ blanks ++ one (among "'\"`") ++ line
    ++ interpolation)

def sqlFormatting : Rule where
  weakness := .sqlInjection
  severity := .high
  message := "Potential SQL injection - query built with string formatting"
  pattern := wordEdge ++ lit "execute" ++ openCall ++ blanks ++ lit "f" ++ quote
    ||| lit ".format" ++ openCall ++ line ++ words ["SELECT", "INSERT", "UPDATE", "DELETE"]

def innerHtml : Rule where
  weakness := .xss
  severity := .high
  message := "Potential XSS - setting innerHTML with dynamic content"
  pattern := lit "innerHTML" ++ blanks ++ lit "=" ++ blanks ++ notAhead (quote ++ lit "<")

def dangerousHtml : Rule where
  weakness := .xss
  severity := .medium
  message := "Using dangerouslySetInnerHTML - ensure content is sanitized"
  pattern := lit "dangerouslySetInnerHTML"

def documentWrite : Rule where
  weakness := .xss
  severity := .high
  message := "document.write can enable XSS attacks"
  pattern := lit "document.write" ++ openCall

def commandInterpolation : Rule where
  weakness := .commandInjection
  severity := .high
  message := "Potential command injection - interpolating into shell command"
  pattern := words ["exec", "spawn", "execSync", "spawnSync"] ++ openCall ++ insideCall
    ++ interpolation

def commandConcatenation : Rule where
  weakness := .commandInjection
  severity := .high
  message := "Potential command injection - concatenating into shell command"
  pattern := words ["exec", "spawn"] ++ openCall ++ insideCall ++ lit "+"

def shellCall : Rule where
  weakness := .commandInjection
  severity := .high
  message := "Potential command injection - shell invocation with dynamic input"
  pattern := lit "subprocess." ++ wordChars ++ openCall ++ insideCall ++ lit "shell" ++ blanks
      ++ lit "=" ++ blanks ++ lit "True"
    ||| lit "os.system" ++ openCall ++ blanks ++ lit "f" ++ quote

def evalCall : Rule where
  weakness := .eval
  severity := .medium
  message := "eval() is dangerous - consider alternatives"
  pattern := wordEdge ++ lit "eval" ++ openCall

def newFunction : Rule where
  weakness := .eval
  severity := .medium
  message := "new Function() can execute arbitrary code"
  pattern := lit "new Function" ++ openCall

def createHash : Rule where
  weakness := .weakCrypto
  severity := .medium
  message := "Weak hash algorithm - use SHA-256 or better"
  pattern := caseless (lit "crypto.createHash" ++ openCall ++ blanks ++ quote
    ++ words ["md5", "sha1"] ++ quote ++ blanks ++ lit ")")

def hashlibCall : Rule where
  weakness := .weakCrypto
  severity := .medium
  message := "Weak hash algorithm - use SHA-256 or better"
  pattern := lit "hashlib." ++ words ["md5", "sha1"] ++ openCall

def mathRandom : Rule where
  weakness := .insecureRandom
  severity := .low
  message := "Math.random() is not cryptographically secure"
  pattern := lit "Math.random" ++ openCall ++ blanks ++ lit ")"

def authComparison : Rule where
  weakness := .authBypass
  severity := .high
  message := "Suspicious authentication check pattern"
  pattern := caseless (words ["verify", "check"] ++ line ++ words ["password", "token", "auth"]
    ++ line ++ words ["==", "!="] ++ optional (lit "=") ++ blanks ++ words ["true", "false"])

def jwtNone : Rule where
  weakness := .jwtNone
  severity := .high
  message := "JWT allowing \"none\" algorithm is insecure"
  pattern := caseless (lit "jwt.verify" ++ line ++ lit "\x7b" ++ blanks ++ lit "algorithms"
    ++ blanks ++ lit ":" ++ blanks ++ lit "[" ++ blanks ++ quote ++ lit "none" ++ quote)

end Rule

/-- All rules, in the order of their findings. -/
def rules : List Rule :=
  [.hardcodedSecret, .stripeKey, .githubToken, .awsKey, .sqlTemplate, .sqlConcatenation,
    .sqlQueryCall, .sqlFormatting, .innerHtml, .dangerousHtml, .documentWrite,
    .commandInterpolation, .commandConcatenation, .shellCall, .evalCall, .newFunction,
    .createHash, .hashlibCall, .mathRandom, .authComparison, .jwtNone]

structure Hit where
  rule : Rule
  line : Nat

namespace Hit

/-- At most one hit of a key is reported. -/
def key (h : Hit) : Weakness × Nat := (h.rule.weakness, h.line)

end Hit

/-- Number of the line that holds an offset, counted from one. -/
def lineAt (code : Text) (offset : Nat) : Nat := (code.take offset).count '\n' + 1

def Rule.hits (r : Rule) (code : Text) : List Hit :=
  (r.pattern.spans code).map fun s => ⟨r, lineAt code s.start⟩

def hits (code : Text) : List Hit := rules.flatMap (·.hits code)

def maxSnippet : Nat := 100

def snippet (lines : List Text) (line : Nat) : Text :=
  (Text.trim (lines.getD (line - 1) [])).take maxSnippet

def Hit.finding (lines : List Text) (file : Option Text) (h : Hit) : Finding where
  severity := h.rule.severity
  type := h.rule.weakness.name.toList
  message := h.rule.message.toList
  file := file
  line := some h.line
  snippet := some (snippet lines h.line)

def scan (code : Text) (file : Option Text) : Report :=
  ⟨(distinctBy Hit.key (hits code)).map (Hit.finding (Text.lines code) file)⟩

end PatchReview.Security
