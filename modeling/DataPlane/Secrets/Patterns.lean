/-
The detectors: eleven regular expressions by name. They sit in a hash map, so the order in which they
are tried is not fixed.
-/
import DataPlane.Lib.Regex

namespace DataPlane.Secrets

open Regex

/-! ## Names -/

/-- The keys of `PATTERNS`. -/
inductive PatternName where
  | awsAccessKeyId
  | awsSecretAccessKey
  | googleApiKey
  | githubToken
  | stripeSecretKey
  | genericApiKeyAssignment
  | slackToken
  | privateKeyBlock
  | jwtLike
  | hexSecret32
  | base6424
  deriving DecidableEq

namespace PatternName

def text : PatternName → String
  | awsAccessKeyId => "aws_access_key_id"
  | awsSecretAccessKey => "aws_secret_access_key"
  | googleApiKey => "google_api_key"
  | githubToken => "github_token"
  | stripeSecretKey => "stripe_secret_key"
  | genericApiKeyAssignment => "generic_api_key_assignment"
  | slackToken => "slack_token"
  | privateKeyBlock => "private_key_block"
  | jwtLike => "jwt_like"
  | hexSecret32 => "hex_secret_32"
  | base6424 => "base64_24"

def all : List PatternName :=
  [awsAccessKeyId, awsSecretAccessKey, googleApiKey, githubToken, stripeSecretKey, genericApiKeyAssignment, slackToken,
    privateKeyBlock, jwtLike, hexSecret32, base6424]

/-- `CAPTURE_PATTERNS`. -/
def isCapture : PatternName → Bool
  | base6424 => true
  | _ => false

/-- `pattern_specificity`. -/
def specificity : PatternName → Nat
  | genericApiKeyAssignment | jwtLike => 1
  | hexSecret32 => 2
  | base6424 => 3
  | _ => 0

end PatternName

/-! ## Character classes -/

/-- `.` -/
def anyChar (c : Char) : Bool := c != '\n'

/-- `\s` -/
def isSpace (c : Char) : Bool :=
  let n := c.toNat
  (9 ≤ n && n ≤ 13) || n == 0x20 || n == 0x85 || n == 0xA0 || n == 0x1680 || (0x2000 ≤ n && n ≤ 0x200A) ||
    n == 0x2028 || n == 0x2029 || n == 0x202F || n == 0x205F || n == 0x3000

def isUpperDigit (c : Char) : Bool := c.isUpper || c.isDigit

/-- `[A-Za-z0-9]` and some more characters. -/
def alphanumOr (extra : List Char) (c : Char) : Bool := c.isAlphanum || extra.contains c

def oneOf (chars : List Char) (c : Char) : Bool := chars.contains c

def isHex (c : Char) : Bool := c.isDigit || ('a' ≤ c && c ≤ 'f')

/-- `\w`: letters, digits and `_`; for other than ASCII characters, what the Unicode tables say. -/
def isWord (table : Char → Bool) (c : Char) : Bool :=
  if c.toNat < 128 then c.isAlphanum || c == '_' else table c

/-! ## The expressions -/

/-- A literal text. -/
def lit (text : String) : Regex := literal (· == ·) text.toList

/-- A literal text under `(?i)`. -/
def litFold (text : String) : Regex := literal (fun c => foldCase (· == c)) text.toList

def quote : Regex := opt (one (oneOf ['"', '\'']))

/-- The values of `PATTERNS`. -/
def PatternName.regex : PatternName → Regex
  | awsAccessKeyId => Regex.all [wordBoundary, lit "AKIA", exactly 16 isUpperDigit, wordBoundary]
  | awsSecretAccessKey => Regex.all [litFold "aws", many anyChar 0 (some 20), any [litFold "secret", litFold "access"],
      many anyChar 0 (some 20), one (oneOf [':', '=']), atLeast 0 isSpace, quote,
      group (exactly 40 (foldCase (alphanumOr ['/', '+', '=']))), quote]
  | googleApiKey => Regex.all [wordBoundary, lit "AIza", exactly 35 (alphanumOr ['-', '_']), wordBoundary]
  | githubToken => Regex.all [wordBoundary,
      any [Regex.all [lit "gh", one (oneOf ['o', 'p', 'u', 's', 'r']), lit "_", exactly 36 (alphanumOr [])],
        Regex.all [lit "github_pat_", atLeast 20 (alphanumOr ['_'])]],
      wordBoundary]
  | stripeSecretKey => Regex.all [wordBoundary, any [lit "sk", lit "rk"], lit "_", any [lit "live", lit "test"], lit "_",
      atLeast 16 (alphanumOr []), wordBoundary]
  | genericApiKeyAssignment => Regex.all [wordBoundary,
      any [Regex.all [opt (Regex.all [litFold "x", dash]), litFold "api", opt dash, litFold "key"], litFold "apikey",
        tokenWord "api", tokenWord "access", tokenWord "bearer", tokenWord "auth"],
      wordBoundary, atLeast 0 isSpace, one (oneOf [':', '=']), atLeast 0 isSpace, quote,
      atLeast 20 (foldCase (alphanumOr ['_', '-'])), quote]
  | slackToken => Regex.all [wordBoundary, lit "xox", one (oneOf ['a', 'b', 'p', 'q', 'r']), lit "-",
      many (alphanumOr ['-']) 10 (some 80), wordBoundary]
  | privateKeyBlock => Regex.all [lit "-----BEGIN ", any [lit "RSA", lit "DSA", lit "EC", lit "OPENSSH"],
      lit " PRIVATE KEY-----"]
  | jwtLike => Regex.all [wordBoundary, lit "eyJ", atLeast 10 (alphanumOr ['_', '-']), lit ".", lit "eyJ",
      atLeast 10 (alphanumOr ['_', '-']), lit ".", atLeast 10 (alphanumOr ['_', '-']), wordBoundary]
  | hexSecret32 => Regex.all [wordBoundary, atLeast 32 (foldCase isHex), wordBoundary]
  | base6424 => Regex.all [alt textStart (one fun c => !base64 c),
      group (any [Regex.all [atLeast 24 base64, many (· == '=') 0 (some 2)], Regex.all [exactly 22 base64, lit "=="],
        Regex.all [exactly 23 base64, lit "="]])]
where
  dash := one (oneOf ['-', '_'])
  tokenWord (word : String) := Regex.all [litFold word, opt dash, litFold "token"]
  base64 := alphanumOr ['+', '/']

/-- `PATTERNS`: the order of its iteration, and what each expression finds in a text. -/
structure Patterns where
  order : List PatternName
  complete : order.Perm PatternName.all
  findIter : PatternName → List Char → List Found

/-- The patterns as compiled, over the Unicode tables for `\w`. -/
def Patterns.compiled (table : Char → Bool) : Patterns where
  order := PatternName.all
  complete := .refl _
  findIter name text := name.regex.findIter (isWord table) text

end DataPlane.Secrets
