import SayFirst.Lib.Chain
import SayFirst.Lib.Interpreter

/-!
# What the two chain verifiers spell alike

The control plane (`domain/evidence_chain.py`) and the contract
(`evidence_recipes.py`) each implement one published recipe. The preimage, the
verdict and the grade fold are the same in both; what differs stays with each.
-/

namespace SayFirst.Evidence

open Py

/-- `PREIMAGE_VERSION` -/
def preimageVersion : Str := lit "sayfirst-control-plane/evidence/v1"

def gapReasons : List String := ["dropped", "purged", "torn", "unflushed"]

/-- `^[0-9a-f]{64}$` -/
def hashPattern : Pattern := .times (.cls isLowerHex) 64

/-! ## Hashing -/

/-- `_component` -/
def component : Option Bytes → Bytes
  | none => ascii (lit "-:")
  | some raw => ascii (decimal raw.length) ++ 58 :: raw

/-- The bytes a hash is taken over, from the texts an entry renders to; none where encoding
raises. -/
def preimageOf (py : Interpreter) (version scope : Str) (sequence : ℤ) (kind recordedAt connectionId : Str)
    (principal body : Json) (previousHash : Option Str) : Option Bytes := do
  let version ← utf8 version
  let scope ← utf8 scope
  let kind ← utf8 kind
  let connectionId ← utf8 connectionId
  let previous ← match previousHash with
    | none => some none
    | some h => (utf8 h).map some
  return [some version, some scope, some (ascii (intText sequence)), some kind,
    some (ascii recordedAt), some connectionId, some (ascii (principal.canonical py)),
    some (ascii (body.canonical py)), previous].flatMap component

/-! ## Verdicts -/

inductive ChainCondition where
  | intact
  | brokenAt
  | gapAt
  | unverifiable
  deriving DecidableEq, Repr

structure DeclaredGap where
  sequence : ℤ
  reason : Str
  count : ℤ
  deriving DecidableEq

structure ConnectionGrade where
  connectionId : Str
  grade : Str
  deriving DecidableEq

structure ChainVerdict where
  scope : Str
  condition : ChainCondition
  fromSequence : ℤ
  toSequence : Option ℤ
  upTo : Option ℤ
  sequence : Option ℤ
  expected : Option Str
  found : Option Str
  version : Option Str
  coversAnEntry : Bool
  declaredGaps : List DeclaredGap
  grades : List ConnectionGrade
  deriving DecidableEq

/-- What the passes found, as a verdict tells it, and the entries it grades. -/
structure Report (α : Type) where
  condition : ChainCondition
  sequence : Option ℤ
  expected : Option Str
  found : Option Str
  version : Option Str
  graded : List α

/-- The verdict each `return` of the passes builds. -/
def report {α : Type} (v : Chain.View α) (version : α → Str) (entries : List α) :
    Chain.Finding α → Report α
  | .nothing => ⟨.unverifiable, none, none, none, none, entries⟩
  | .missingAll s => ⟨.gapAt, some s, none, none, none, []⟩
  | .missingFirst s => ⟨.gapAt, some s, none, none, none, []⟩
  | .missing s index => ⟨.gapAt, some s, none, none, none, entries.take index⟩
  | .missingLast s => ⟨.gapAt, some s, none, none, none, entries⟩
  | .unknown e index =>
    ⟨.unverifiable, some (v.sequence e), none, some (v.hash e), some (version e),
      entries.take index⟩
  | .unappliable e index =>
    ⟨.unverifiable, some (v.sequence e), none, some (v.hash e), some (version e),
      entries.take index⟩
  | .altered e expected index =>
    ⟨.brokenAt, some (v.sequence e), some expected, some (v.hash e), none, entries.take index⟩
  | .unlinked before e index =>
    ⟨.brokenAt, some (v.sequence e), some (v.hash before), v.previous e, none,
      entries.take index⟩
  | .intact => ⟨.intact, none, none, none, none, entries⟩

/-- `GRADE_RANK` -/
def gradeRank (grade : Str) : ℕ :=
  if grade = lit "unverified" then 0 else if grade = lit "observability" then 1 else 2

/-- `min(values, key=GRADE_RANK.__getitem__)`: the first of the least. -/
def weakest : List Str → Str
  | [] => lit "unverified"
  | [g] => g
  | g :: g' :: rest => if gradeRank g ≤ gradeRank (weakest (g' :: rest)) then g
      else weakest (g' :: rest)

/-- The grade each connection had at each of its entries: `current` and `covered`, grown
entry by entry. -/
structure Grading where
  current : List (Str × Str)
  covered : List (Str × List Str)

/-- One turn of the loop of `_grades`. -/
def Grading.take (g : Grading) (connection : Str) (grade : Option Str) : Grading :=
  let current := match grade with
    | some grade => (connection, grade) :: g.current
    | none => g.current
  let value := (current.lookup connection).getD (lit "unverified")
  ⟨current,
    if g.covered.any (·.1 == connection) then
      g.covered.map fun c => if c.1 = connection then (c.1, c.2 ++ [value]) else c
    else g.covered ++ [(connection, [value])]⟩

/-- The connections in order, each at the weakest grade it had. -/
def Grading.answer (g : Grading) (lowered : Str → Bool) : List ConnectionGrade :=
  (g.covered.insertionSort fun a b => Str.le a.1 b.1).map fun c =>
    ⟨c.1, if lowered c.1 then lit "unverified" else weakest c.2⟩

/-- `any(right.sequence <= left.sequence for left, right in pairwise(entries))` -/
def outOfOrder {α : Type} (sequence : α → ℤ) : List α → Bool
  | a :: b :: rest => sequence b ≤ sequence a || outOfOrder sequence (b :: rest)
  | _ => false

end SayFirst.Evidence
