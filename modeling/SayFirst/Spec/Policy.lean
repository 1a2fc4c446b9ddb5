import SayFirst.Lib.Text

/-!
# The policy file and its evaluation (`domain/policy.py`)

`parsePolicy` reads format 1 and answers `PolicyInvalid` for a bad file;
`evaluate` applies exact matches and takes deny before suspend before allow;
`referencesRead` is what the record keeps of the caller's memberships. The TOML
parser is a parameter (`TomlLib`): both packages call the same one.
-/

namespace SayFirst.Plane

open Py

/-! ## TOML documents -/

/-- A value `tomllib` produces. -/
inductive Toml where
  | str (s : Str)
  | int (n : ℤ)
  | float (text : Str)
  | bool (b : Bool)
  | stamp (text : Str)
  | arr (items : List Toml)
  | table (members : List (Str × Toml))

/-- `document.get(key)`. -/
def Toml.get (document : List (Str × Toml)) (key : String) : Option Toml :=
  document.lookup (lit key)

/-- `raw.decode("utf-8")` and `tomllib.loads`, and the interpreter's text of a value. -/
structure TomlLib where
  loads : List UInt8 → Except Str (List (Str × Toml))
  format : Option Toml → Str
  repr : Option Toml → Str

/-! ## Values -/

inductive Outcome where
  | allow
  | deny
  | suspend
  deriving DecidableEq, Repr

def Outcome.value : Outcome → Str
  | allow => lit "allow"
  | deny => lit "deny"
  | suspend => lit "suspend"

inductive Reason where
  | policyAllows
  | policyDenies
  | policyAbsent
  | policyRequiresReview
  | capabilityUnknown
  | approvalGranted
  | approvalRejected
  deriving DecidableEq, Repr

def Reason.value : Reason → Str
  | policyAllows => lit "policy_allows"
  | policyDenies => lit "policy_denies"
  | policyAbsent => lit "policy_absent"
  | policyRequiresReview => lit "policy_requires_review"
  | capabilityUnknown => lit "capability_unknown"
  | approvalGranted => lit "approval_granted"
  | approvalRejected => lit "approval_rejected"

/-- The acting identity already established from a connection. -/
structure Principal where
  kind : Str
  uid : ℕ
  userName : Str
  gids : List ℕ
  groupNames : List Str
  delegatedHuman : Option Str

def Principal.reference (p : Principal) : Str := lit "user:" ++ p.userName

inductive ReferenceKind where
  | user
  | group
  deriving DecidableEq, Repr

def ReferenceKind.value : ReferenceKind → Str
  | user => lit "user"
  | group => lit "group"

structure PrincipalReference where
  kind : ReferenceKind
  name : Str
  deriving DecidableEq, Repr

def PrincipalReference.isHeldBy (r : PrincipalReference) (p : Principal) : Bool :=
  match r.kind with
  | .user => r.name == p.userName
  | .group => p.groupNames.contains r.name

/-- `str(reference)`. -/
def PrincipalReference.text (r : PrincipalReference) : Str := r.kind.value ++ 58 :: r.name

structure DecisionAsk where
  capability : Str
  scope : Str
  argumentsDigest : Option Str
  correlation : Option Str

/-- An ask and the principal established from the connection it came on. -/
structure DecisionQuestion where
  ask : DecisionAsk
  principal : Principal

structure Rule where
  ruleId : Str
  capability : Str
  scope : Str
  principals : List PrincipalReference
  outcome : Outcome
  reason : Str
  grantLifetimeSeconds : Option ℤ
  argumentsDigest : Option Str
  reviewDeadlineSeconds : Option ℤ
  deriving DecidableEq, Repr

def Rule.applies (r : Rule) (q : DecisionQuestion) : Bool :=
  r.capability == q.ask.capability && r.scope == q.ask.scope &&
    r.principals.any (·.isHeldBy q.principal) &&
    (r.argumentsDigest.isNone || r.argumentsDigest == q.ask.argumentsDigest)

structure Policy where
  format : ℤ
  revisionReason : Str
  rules : List Rule

inductive Refused where
  | malformed
  | formatUnsupported
  | invalid
  deriving DecidableEq, Repr

structure PolicyInvalid where
  reason : Refused
  message : Str

/-! ## Patterns and bounds -/

/-- `^[a-z0-9][a-z0-9._-]{0,63}$` -/
def identifierPattern : Pattern :=
  .seq (.cls fun c => isLower c || isDigit c)
    (.upTo (.cls fun c => isLower c || isDigit c || c == 46 || c == 95 || c == 45) 63)

/-- `^[a-z][a-z0-9]*(\.[a-z][a-z0-9]*)*$` -/
def capabilityPattern : Pattern :=
  let word : Pattern := .seq (.cls isLower) (.star (.cls fun c => isLower c || isDigit c))
  .seq word (.star (.seq (.cls (· == 46)) word))

/-- `^[A-Za-z0-9][A-Za-z0-9._-]{0,127}$` -/
def scopePattern : Pattern :=
  let alnum := fun c => isUpper c || isLower c || isDigit c
  .seq (.cls alnum) (.upTo (.cls fun c => alnum c || c == 46 || c == 95 || c == 45) 127)

/-- `^sha256:[0-9a-f]{64}$` -/
def digestPattern : Pattern := .seq (.text "sha256:") (.times (.cls isLowerHex) 64)

def rootMembers : List Str := [lit "format", lit "revision", lit "rule"]
def revisionMembers : List Str := [lit "reason"]
def ruleMembers : List Str :=
  ["id", "capability", "scope", "principals", "outcome", "reason", "grant_lifetime_seconds",
    "review_deadline_seconds", "arguments_digest"].map lit

def defaultReviewDeadlineSeconds : ℤ := 300
def maxReviewDeadlineSeconds : ℤ := 86400

/-! ## Parsing

A field check raises `_Invalid` with its message; both packages spell the four
helpers below alike.
-/

namespace PolicyFile

def hasControl (value : Str) : Bool := value.any isControl

/-- `_text` -/
def text (value : Option Toml) (member : Str) (maximum : ℕ) : Except Str Str :=
  let complaint := member ++ lit " must be a non-empty string of at most " ++ decimal maximum ++
    lit " characters"
  match value with
  | some (.str s) =>
    if s.isEmpty || s.length > maximum || hasControl s then .error complaint else .ok s
  | _ => .error complaint

/-- `_only` -/
def only (document : List (Str × Toml)) (allowed : List Str) (member : Str) : Except Str Unit :=
  match sortedSet ((document.map Prod.fst).filter fun k => !allowed.contains k) with
  | [] => .ok ()
  | unknown :: _ => .error (member ++ lit " has unknown member " ++ unknown)

/-- `kind, name = raw.split(":", 1)` -/
def splitColon (raw : Str) : Str × Str :=
  (raw.takeWhile (· != 58), (raw.dropWhile (· != 58)).drop 1)

/-- `_principal` -/
def principal (raw : Toml) (member : Str) : Except Str PrincipalReference :=
  let complaint := member ++ lit " must be user:<name> or group:<name>"
  match raw with
  | .str s =>
    if s.count 58 != 1 then .error complaint
    else
      let (kind, name) := splitColon s
      if name.isEmpty || name.length > 256 || hasControl name then .error complaint
      else if kind == lit "user" then .ok ⟨.user, name⟩
      else if kind == lit "group" then .ok ⟨.group, name⟩
      else .error complaint
  | _ => .error complaint

/-- `Outcome(raw)` -/
def outcomeOf : Option Toml → Option Outcome
  | some (.str s) =>
    if s == lit "allow" then some .allow
    else if s == lit "deny" then some .deny
    else if s == lit "suspend" then some .suspend
    else none
  | _ => none

/-- `_review_deadline` -/
def reviewDeadline (raw : Option Toml) (outcome : Outcome) (pre : Str) :
    Except Str (Option ℤ) :=
  let complaint := pre ++ lit ".review_deadline_seconds is invalid"
  match outcome, raw with
  | .suspend, none => .ok (some defaultReviewDeadlineSeconds)
  | .suspend, some (.int n) =>
    if 1 ≤ n ∧ n ≤ maxReviewDeadlineSeconds then .ok (some n) else .error complaint
  | .suspend, some _ => .error complaint
  | _, none => .ok none
  | _, some _ => .error complaint

/-- A lifetime, when the rule names one: only an `allow` may, within the deployment's bound. -/
def grantLifetime (raw : Option Toml) (outcome : Outcome) (maxLifetimeSeconds : ℤ) (pre : Str) :
    Except Str (Option ℤ) :=
  match raw with
  | none => .ok none
  | some (.int n) =>
    if 1 ≤ n ∧ n ≤ maxLifetimeSeconds ∧ outcome = .allow then .ok (some n)
    else .error (pre ++ lit ".grant_lifetime_seconds is invalid")
  | some _ => .error (pre ++ lit ".grant_lifetime_seconds is invalid")

/-- A pinned digest, when the rule names one. -/
def pinnedDigest (raw : Option Toml) (pre : Str) : Except Str (Option Str) :=
  match raw with
  | none => .ok none
  | some (.str s) =>
    if digestPattern.fullmatch s then .ok (some s)
    else .error (pre ++ lit ".arguments_digest is invalid")
  | some _ => .error (pre ++ lit ".arguments_digest is invalid")

/-- `_rule` -/
def rule (raw : Toml) (index : ℕ) (maxLifetimeSeconds : ℤ) : Except Str Rule := do
  let here := lit "rule[" ++ decimal index ++ lit "]"
  let .table members := raw | throw (here ++ lit " must be a table")
  only members ruleMembers here
  let some (.str ruleId) := Toml.get members "id" | throw (here ++ lit ".id is invalid")
  unless identifierPattern.fullmatch ruleId do throw (here ++ lit ".id is invalid")
  let pre := lit "rule " ++ ruleId
  let some (.str capability) := Toml.get members "capability"
    | throw (pre ++ lit ".capability is invalid")
  unless capabilityPattern.fullmatch capability do throw (pre ++ lit ".capability is invalid")
  let .str scope := (Toml.get members "scope").getD (.str (lit "local"))
    | throw (pre ++ lit ".scope is invalid")
  if !scopePattern.fullmatch scope || hasControl scope then throw (pre ++ lit ".scope is invalid")
  let some (.arr raws) := Toml.get members "principals"
    | throw (pre ++ lit ".principals must be a non-empty array")
  if raws.isEmpty then throw (pre ++ lit ".principals must be a non-empty array")
  let principals ← raws.mapM fun value => principal value (pre ++ lit ".principals")
  let some outcome := outcomeOf (Toml.get members "outcome")
    | throw (pre ++ lit ".outcome is invalid")
  let reason ← text (Toml.get members "reason") (pre ++ lit ".reason") 512
  let lifetime ← grantLifetime (Toml.get members "grant_lifetime_seconds") outcome
    maxLifetimeSeconds pre
  let argumentsDigest ← pinnedDigest (Toml.get members "arguments_digest") pre
  let deadline ← reviewDeadline (Toml.get members "review_deadline_seconds") outcome pre
  return ⟨ruleId, capability, scope, principals, outcome, reason, lifetime, argumentsDigest,
    deadline⟩

/-- The rules of a document, each read at its index. -/
def rulesFrom (maxLifetimeSeconds : ℤ) : ℕ → List Toml → Except Str (List Rule)
  | _, [] => .ok []
  | index, raw :: raws => do
    let first ← rule raw index maxLifetimeSeconds
    let rest ← rulesFrom maxLifetimeSeconds (index + 1) raws
    return first :: rest

/-- The first value met a second time. -/
def duplicate : List Str → List Str → Option Str
  | _, [] => none
  | seen, x :: xs => if seen.contains x then some x else duplicate (x :: seen) xs

/-- The part of `parse_policy` that raises `_Invalid`, after the format was read. -/
def parseBody (document : List (Str × Toml)) (maxLifetimeSeconds : ℤ) :
    Except Str (Str × List Rule) := do
  let some (.table revision) := Toml.get document "revision"
    | throw (lit "policy.revision must be a table")
  only revision revisionMembers (lit "revision")
  let revisionReason ← text (Toml.get revision "reason") (lit "revision.reason") 512
  let .arr raws := (Toml.get document "rule").getD (.arr [])
    | throw (lit "policy.rule must be an array of tables")
  let rules ← rulesFrom maxLifetimeSeconds 0 raws
  match duplicate [] (rules.map Rule.ruleId) with
  | some twice => throw (lit "rule " ++ twice ++ lit ".id is duplicated")
  | none => return (revisionReason, rules)

end PolicyFile

/-- `parse_policy` -/
def parsePolicy (toml : TomlLib) (raw : List UInt8) (maxLifetimeSeconds : ℤ) :
    Except PolicyInvalid Policy :=
  match toml.loads raw with
  | .error message => .error ⟨.malformed, message⟩
  | .ok document =>
    match PolicyFile.only document rootMembers (lit "policy") with
    | .error message => .error ⟨.invalid, message⟩
    | .ok () =>
      match Toml.get document "format" with
      | some (.int 1) =>
        match PolicyFile.parseBody document maxLifetimeSeconds with
        | .error message => .error ⟨.invalid, message⟩
        | .ok (revisionReason, rules) => .ok ⟨1, revisionReason, rules⟩
      | other =>
        .error ⟨.formatUnsupported,
          lit "policy.format " ++ toml.format other ++ lit " is unsupported"⟩

/-! ## Evaluation -/

structure Verdict where
  outcome : Outcome
  reason : Reason
  ruleId : Option Str
  rule : Option Rule

/-- The order in which outcomes are taken, each with the reason it answers. -/
def strictestFirst : List (Outcome × Reason) :=
  [(.deny, .policyDenies), (.suspend, .policyRequiresReview), (.allow, .policyAllows)]

/-- The first rule of the first outcome that has one. -/
def select (applying : List Rule) : List (Outcome × Reason) → Option Verdict
  | [] => none
  | (outcome, reason) :: rest =>
    match applying.find? (·.outcome == outcome) with
    | some r => some ⟨outcome, reason, some r.ruleId, some r⟩
    | none => select applying rest

/-- `evaluate`; an error is its `AssertionError`. -/
def evaluate (policy : Policy) (question : DecisionQuestion) : Except String Verdict :=
  let applying := policy.rules.filter (·.applies question)
  if applying.isEmpty then .ok ⟨.deny, .policyAbsent, none, none⟩
  else
    match select applying strictestFirst with
    | some verdict => .ok verdict
    | none => .error "Outcome is a closed enum and every rule was parsed from it"

/-- `references_read` -/
def referencesRead (policy : Policy) (question : DecisionQuestion) : List Str :=
  let held := (lit "user:" ++ question.principal.userName) ::
    question.principal.groupNames.map (lit "group:" ++ ·)
  let named := (policy.rules.filter fun r =>
      r.capability == question.ask.capability && r.scope == question.ask.scope).flatMap
    fun r => r.principals.map (·.text)
  sortedSet (held.filter named.contains)

end SayFirst.Plane
