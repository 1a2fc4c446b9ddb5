import SayFirst.Spec.Policy

/-!
# The retrospective evaluation recipe (`sayfirst_contract/retrospective_policy.py`)

The contract's own parser and evaluator: it sees the references that were
recorded as read, never the caller's full identity. `rederiveRecordedDecision`
compares a recorded answer with what its recorded inputs and bytes yield.
-/

namespace SayFirst.Contract

open Py
open SayFirst.Plane (Toml TomlLib identifierPattern capabilityPattern scopePattern digestPattern
  rootMembers revisionMembers ruleMembers)
open SayFirst.Plane.PolicyFile (hasControl text only splitColon duplicate)

/-- `RECIPE` -/
def recipe : Str := lit "sayfirst/policy-evaluation/v1"

/-- `RECIPE_REASONS` -/
def recipeReasons : List Str :=
  ["policy_allows", "policy_denies", "policy_absent", "policy_requires_review"].map lit

def outcomes : List Str := ["allow", "deny", "suspend"].map lit

/-- `_STRICTEST_FIRST` -/
def strictestFirst : List (Str × Str) :=
  [(lit "deny", lit "policy_denies"), (lit "suspend", lit "policy_requires_review"),
    (lit "allow", lit "policy_allows")]

inductive Rederivation where
  | confirmed
  | differs
  | unverifiable
  deriving DecidableEq, Repr

/-- The outcome, the reason and the rule id of an answer. -/
abbrev Triple := Str × Str × Option Str

/-- The recorded inputs and the recorded answer of one decision. -/
structure RecordedDecision where
  scope : Str
  capability : Str
  principalReferences : Option (List Str)
  argumentsDigest : Option Str
  outcome : Str
  reason : Str
  ruleId : Option Str
  evaluationRecipe : Option Str
  deriving DecidableEq

structure Rederived where
  verdict : Rederivation
  cause : Option String
  expected : Option Triple
  deriving DecidableEq

/-- `_Rule` -/
structure Rule where
  ruleId : Str
  capability : Str
  scope : Str
  principals : List Str
  outcome : Str
  argumentsDigest : Option Str
  deriving DecidableEq

/-! ## Parsing -/

namespace Retrospective

/-- `_reference` -/
def reference (raw : Toml) (member : Str) : Except Str Str :=
  let complaint := member ++ lit " must be user:<name> or group:<name>"
  match raw with
  | .str s =>
    if s.count 58 != 1 then .error complaint
    else
      let (kind, name) := splitColon s
      if !(kind == lit "user" || kind == lit "group") || name.isEmpty || name.length > 256 ||
        hasControl name then .error complaint
      else .ok s
  | _ => .error complaint

/-- The check of a lifetime. The deployment's upper bound is deliberately not reproduced. -/
def lifetime (raw : Option Toml) (outcome pre : Str) : Except Str Unit :=
  match raw with
  | none => .ok ()
  | some (.int n) =>
    if n < 1 ∨ outcome ≠ lit "allow" then .error (pre ++ lit ".grant_lifetime_seconds is invalid")
    else .ok ()
  | some _ => .error (pre ++ lit ".grant_lifetime_seconds is invalid")

/-- The check of a wait, which no other member of the recipe reads. -/
def deadline (raw : Option Toml) (outcome pre : Str) : Except Str Unit :=
  match raw with
  | none => .ok ()
  | some (.int n) =>
    if ¬(1 ≤ n ∧ n ≤ 86400) ∨ outcome ≠ lit "suspend" then
      .error (pre ++ lit ".review_deadline_seconds is invalid")
    else .ok ()
  | some _ => .error (pre ++ lit ".review_deadline_seconds is invalid")

/-- `_rule` -/
def rule (raw : Toml) (index : ℕ) : Except Str Rule := do
  let here := lit "rule[" ++ decimal index ++ lit "]"
  let .table members := raw | throw (here ++ lit " must be a table")
  only members ruleMembers here
  let some (.str ruleId) := Toml.get members "id" | throw (here ++ lit ".id is invalid")
  unless identifierPattern.fullmatch ruleId do throw (here ++ lit ".id is invalid")
  let pre := lit "rule " ++ ruleId
  let some (.str capability) := Toml.get members "capability"
    | throw (pre ++ lit ".capability is invalid")
  unless capabilityPattern.fullmatch capability do throw (pre ++ lit ".capability is invalid")
  let .str scope := (Toml.get members "scope").getD (.str (lit "local"))
    | throw (pre ++ lit ".scope is invalid")
  if !scopePattern.fullmatch scope || hasControl scope then throw (pre ++ lit ".scope is invalid")
  let some (.arr raws) := Toml.get members "principals"
    | throw (pre ++ lit ".principals must be a non-empty array")
  if raws.isEmpty then throw (pre ++ lit ".principals must be a non-empty array")
  let principals ← raws.mapM fun value => reference value (pre ++ lit ".principals")
  let some (.str outcome) := Toml.get members "outcome" | throw (pre ++ lit ".outcome is invalid")
  unless outcomes.contains outcome do throw (pre ++ lit ".outcome is invalid")
  let _ ← text (Toml.get members "reason") (pre ++ lit ".reason") 512
  lifetime (Toml.get members "grant_lifetime_seconds") outcome pre
  deadline (Toml.get members "review_deadline_seconds") outcome pre
  let digest ← Plane.PolicyFile.pinnedDigest (Toml.get members "arguments_digest") pre
  return ⟨ruleId, capability, scope, principals, outcome, digest⟩

def rulesFrom : ℕ → List Toml → Except Str (List Rule)
  | _, [] => .ok []
  | index, raw :: raws => do
    let first ← rule raw index
    let rest ← rulesFrom (index + 1) raws
    return first :: rest

/-- `_parse` -/
def parse (toml : TomlLib) (policy : List UInt8) : Except Str (List Rule) := do
  let document ← toml.loads policy
  only document rootMembers (lit "policy")
  let format := Toml.get document "format"
  let some (.int 1) := format
    | throw (lit "policy.format " ++ toml.repr format ++ lit " is unsupported")
  let some (.table revision) := Toml.get document "revision"
    | throw (lit "policy.revision must be a table")
  only revision revisionMembers (lit "revision")
  let _ ← text (Toml.get revision "reason") (lit "revision.reason") 512
  let .arr raws := (Toml.get document "rule").getD (.arr [])
    | throw (lit "policy.rule must be an array of tables")
  let rules ← rulesFrom 0 raws
  if (duplicate [] (rules.map Rule.ruleId)).isSome then throw (lit "a rule id is duplicated")
  return rules

end Retrospective

/-! ## Evaluation -/

/-- What `evaluate_recorded_inputs` answers. -/
inductive Evaluated where
  | unparseable (message : Str)
  | triple (t : Triple)
  deriving DecidableEq

/-- Whether a rule applies to the recorded inputs. -/
def Rule.applies (r : Rule) (scope capability : Str) (recorded : List Str)
    (argumentsDigest : Option Str) : Bool :=
  r.capability == capability && r.scope == scope && r.principals.any recorded.contains &&
    (r.argumentsDigest.isNone || (argumentsDigest.isSome && r.argumentsDigest == argumentsDigest))

def select (applying : List Rule) : List (Str × Str) → Option Triple
  | [] => none
  | (outcome, reason) :: rest =>
    match applying.find? (·.outcome == outcome) with
    | some r => some (outcome, reason, some r.ruleId)
    | none => select applying rest

/-- `evaluate_recorded_inputs`; an error is its `AssertionError`. -/
def evaluateRecordedInputs (toml : TomlLib) (policy : List UInt8) (scope capability : Str)
    (principalReferences : List Str) (argumentsDigest : Option Str) : Except String Evaluated :=
  match Retrospective.parse toml policy with
  | .error message => .ok (.unparseable message)
  | .ok rules =>
    let applying := rules.filter (·.applies scope capability principalReferences argumentsDigest)
    if applying.isEmpty then .ok (.triple (lit "deny", lit "policy_absent", none))
    else
      match select applying strictestFirst with
      | some t => .ok (.triple t)
      | none => .error "every parsed rule carries one of the three outcomes"

/-- `rederive_recorded_decision` -/
def rederiveRecordedDecision (toml : TomlLib) (recorded : RecordedDecision)
    (policy : List UInt8) : Except String Rederived :=
  match recorded.evaluationRecipe, recorded.principalReferences with
  | some named, some references =>
    if named ≠ recipe then .ok ⟨.unverifiable, some "evaluation_recipe_unsupported", none⟩
    else if recorded.reason ∉ recipeReasons then
      .ok ⟨.unverifiable, some "reason_outside_recipe", none⟩
    else
      match evaluateRecordedInputs toml policy recorded.scope recorded.capability references
          recorded.argumentsDigest with
      | .error raised => .error raised
      | .ok (.unparseable _) => .ok ⟨.unverifiable, some "policy_unparseable", none⟩
      | .ok (.triple computed) =>
        if computed = (recorded.outcome, recorded.reason, recorded.ruleId) then
          .ok ⟨.confirmed, none, none⟩
        else .ok ⟨.differs, none, some computed⟩
  | _, _ => .ok ⟨.unverifiable, some "members_absent", none⟩

end SayFirst.Contract
