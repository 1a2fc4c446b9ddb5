import SayFirst.Lib.JsonArranged
import SayFirst.Proof.Agree

/-!
# The rules of a body do not see the order of members

A body whose members stand in another order is admitted as the body is: each rule looks a member
up, or asks something of all of them.

* `item_arrange` — what is looked up of an arranged body.
* `validateBody_arrange` — the rules of a kind, on a body and on the arranged body.
-/

namespace SayFirst.Plane.EvidenceBody

open Py Evidence

variable {F : PyFloat → Prop} {body : Body}

/-! ## Values -/

@[simp] theorem isText_arranged (v : Json) : v.arranged.isText = v.isText := by cases v <;> rfl

@[simp] theorem str_arranged (v : Json) : v.arranged.str? = v.str? := by cases v <;> rfl

@[simp] theorem int_arranged (v : Json) : v.arranged.int? = v.int? := by cases v <;> rfl

@[simp] theorem plainInt_arranged (v : Json) : v.arranged.plainInt? = v.plainInt? := by
  cases v <;> rfl

@[simp] theorem eqText_arranged (v : Json) (t : String) : v.arranged.eqText t = v.eqText t := by
  rw [Json.eqText, Json.eqText, str_arranged]

@[simp] theorem isOneOf_arranged (v : Json) (texts : List String) :
    v.arranged.isOneOf texts = v.isOneOf texts := by
  have h : v.arranged.eqText = v.eqText := funext (eqText_arranged v)
  rw [Json.isOneOf, Json.isOneOf, h]

@[simp] theorem isUnhashable_arranged (v : Json) : v.arranged.isUnhashable = v.isUnhashable := by
  cases v <;> rfl

@[simp] theorem eqInt_arranged (v : Json) (n : ℤ) : v.arranged.eqInt n = v.eqInt n := by
  cases v <;> rfl

@[simp] theorem inSet_arranged (v : Json) (texts : List String) :
    inSet v.arranged texts = inSet v texts := by
  simp [inSet]

/-! ## Members -/

theorem plain_get {key : String} {v : Json} (h : Json.PlainMembers F body)
    (hget : Json.get body key = some v) : Json.Plain F v := by
  obtain ⟨before, after, heq, -⟩ := List.lookup_eq_some_iff.1 hget
  exact (Json.plainMembers_iff.1 h (lit key, v) (heq ▸ by simp)).2

/-- A body as JSON has one. -/
abbrev PlainBody (F : PyFloat → Prop) (body : Body) : Prop := Json.Plain F (.obj body)

theorem get_arrange (h : PlainBody F body) (key : String) :
    Json.get (Json.arrange body) key = (Json.get body key).map Json.arranged :=
  Json.get_arrange h.2 key

theorem has_arrange (h : PlainBody F body) (key : String) :
    has (Json.arrange body) key = has body key := by
  simp [has, get_arrange h]

/-- A question of the keys of all members. -/
theorem all_arrange (p : Str × Json → Bool) (hp : ∀ k v, p (k, Json.arranged v) = p (k, v)) :
    (Json.arrange body).all p = body.all p := by
  rw [Json.arrange, (Json.sortedMembers_perm).all_eq, Json.arrangedMembers_eq, List.all_map]
  congr 1
  exact funext fun m => hp m.1 m.2

theorem exactly_arrange (h : PlainBody F body) (keys : List String) :
    exactly (Json.arrange body) keys = exactly body keys := by
  have hhas : has (Json.arrange body) = has body := funext (has_arrange h)
  rw [exactly, exactly, all_arrange _ fun _ _ => rfl, hhas]

theorem present_arrange (h : PlainBody F body) (keys : List String) :
    present (Json.arrange body) keys = present body keys := by
  simp [present, get_arrange h]

/-- **What is looked up of an arranged body** is what is looked up of the body, arranged. -/
theorem item_arrange (h : PlainBody F body) {α : Type} {key : String} {f g : Json → Except PyError α}
    (hfg : ∀ v, Json.Plain F v → f v.arranged = g v) :
    (item (Json.arrange body) key >>= f) = (item body key >>= g) := by
  unfold item
  rw [get_arrange h]
  cases hget : Json.get body key with
  | none => rfl
  | some v => exact hfg v (plain_get h.1 hget)

/-! ## Checks -/

theorem textMember_arrange (h : PlainBody F body) (what key : String) :
    textMember (Json.arrange body) what key = textMember body what key :=
  item_arrange h fun v _ => by rw [isText_arranged]

/-- The first step is the same, and what follows it. -/
theorem then_congr {α β : Type} {x y : Except PyError α} {f g : α → Except PyError β} (hxy : x = y)
    (hfg : ∀ a, f a = g a) : (x >>= f) = (y >>= g) := by
  rw [hxy, show f = g from funext hfg]

theorem validateCapture_arranged {v : Json} (h : Json.Plain F v) :
    validateCapture v.arranged = validateCapture v := by
  cases v with
  | obj document =>
    have hhas : has (Json.arrange document) = has document := funext (has_arrange h)
    rw [Json.arranged_obj]
    unfold validateCapture
    simp only [get_arrange h]
    cases hcaptured : Json.get document "captured" with
    | none => rfl
    | some captured =>
      cases captured with
      | bool b =>
        cases b with
        | true =>
          refine then_congr ?_ fun _ => ?_
          · rw [all_arrange _ fun _ _ => rfl, hhas]
          · refine item_arrange h fun provider _ => item_arrange h fun bytes _ =>
              item_arrange h fun truncated _ => item_arrange h fun content _ => ?_
            rw [isText_arranged, int_arranged, str_arranged, Option.all_map]
            simp only [eqText_arranged]
            cases truncated <;> rfl
        | false =>
          refine then_congr ?_ fun _ => ?_
          · rw [exactly_arrange h, Option.any_map]
            simp only [str_arranged]
          · refine item_arrange h fun withheld _ => ?_
            rw [Option.any_map]
            simp only [isText_arranged, eqText_arranged]
      | _ => rfl
  | _ => rfl

theorem validatePosition_arranged {v : Json} (h : Json.Plain F v) :
    validatePosition v.arranged = validatePosition v := by
  cases v with
  | obj document =>
    rw [Json.arranged_obj]
    unfold validatePosition
    simp only [exactly_arrange h, get_arrange h, Option.any_map, isText_arranged, plainInt_arranged]
  | _ => rfl

theorem getStr_arrange (h : PlainBody F body) (key : String) :
    Json.getStr (Json.arrange body) key = Json.getStr body key := by
  unfold Json.getStr
  rw [get_arrange h]
  cases Json.get body key with
  | none => rfl
  | some v => cases v <;> rfl

theorem positionOf_arranged {v : Json} (h : Json.Plain F v) :
    positionOf v.arranged = positionOf v := by
  cases v with
  | obj document =>
    have hposition : ((Json.get document "position").map Json.arranged).bind Json.int? =
        (Json.get document "position").bind Json.int? := by
      cases Json.get document "position" with
      | none => rfl
      | some v => exact int_arranged v
    rw [Json.arranged_obj]
    unfold positionOf
    simp only [getStr_arrange h, get_arrange h, hposition]
  | _ => rfl

theorem plainItems_iff {vs : List Json} : Json.PlainItems F vs ↔ ∀ v ∈ vs, Json.Plain F v := by
  induction vs with
  | nil => simp [Json.PlainItems]
  | cons v vs ih => simp [Json.PlainItems, ih]

theorem texts_arranged (items : List Json) : texts (Json.arrangedItems items) = texts items := by
  have hcomp : Json.str? ∘ Json.arranged = Json.str? := funext str_arranged
  rw [texts, texts, Json.arrangedItems_eq, List.mapM_map, hcomp]

theorem sortedReferences_arranged (v : Json) : sortedReferences v.arranged = sortedReferences v := by
  cases v with
  | arr items => rw [Json.arranged, sortedReferences, sortedReferences, texts_arranged]
  | obj members => rw [Json.arranged_obj, sortedReferences, sortedReferences] <;> simp
  | _ => rfl

theorem nullOr_arranged {ok : Json → Bool} (hok : ∀ v, ok v.arranged = ok v) (v : Json) :
    nullOr ok v.arranged = nullOr ok v := by
  cases v with
  | null => rfl
  | obj members => rw [Json.arranged_obj, nullOr, nullOr, ← Json.arranged_obj, hok] <;> simp
  | arr items => exact hok (.arr items)
  | _ => rfl

theorem validateCopiedDecision_arrange (h : PlainBody F body) :
    validateCopiedDecision (Json.arrange body) = validateCopiedDecision body := by
  unfold validateCopiedDecision
  rw [present_arrange h]
  split
  · rfl
  · refine then_congr rfl fun _ => ?_
    refine then_congr (item_arrange h fun v _ => inSet_arranged v _) fun known => ?_
    refine then_congr rfl fun _ => item_arrange h fun ruleId _ => ?_
    refine then_congr (by rw [nullOr_arranged isText_arranged]) fun _ => ?_
    refine item_arrange h fun digest _ => ?_
    refine then_congr (by rw [nullOr_arranged fun v => by rw [str_arranged]]) fun _ => ?_
    refine item_arrange h fun correlation _ => ?_
    refine then_congr (by rw [nullOr_arranged fun v => by rw [str_arranged]]) fun _ => ?_
    refine item_arrange h fun source _ => ?_
    refine then_congr (by rw [eqText_arranged]; cases correlation <;> rfl) fun _ => ?_
    refine item_arrange h fun references _ => ?_
    refine then_congr (by rw [sortedReferences_arranged]) fun _ => ?_
    refine item_arrange h fun recipe _ => ?_
    refine then_congr (by rw [isText_arranged]) fun _ => ?_
    exact item_arrange h fun v hv => validatePosition_arranged hv

theorem any_get_arrange (h : PlainBody F body) {key : String} {p : Json → Bool}
    (hp : ∀ v, p v.arranged = p v) :
    (Json.get (Json.arrange body) key).any p = (Json.get body key).any p := by
  rw [get_arrange h, Option.any_map]
  congr 1
  exact funext hp

theorem all_get_arrange (h : PlainBody F body) {key : String} {p : Json → Bool}
    (hp : ∀ v, p v.arranged = p v) :
    (Json.get (Json.arrange body) key).all p = (Json.get body key).all p := by
  rw [get_arrange h, Option.all_map]
  congr 1
  exact funext hp

theorem forM_arranged {check : Json → Check} {items : List Json}
    (hcheck : ∀ v ∈ items, check v.arranged = check v) :
    (Json.arrangedItems items).forM check = items.forM check := by
  induction items with
  | nil => rfl
  | cons v vs ih =>
    change (check v.arranged >>= fun _ => (Json.arrangedItems vs).forM check) =
      (check v >>= fun _ => vs.forM check)
    refine then_congr (hcheck v List.mem_cons_self) fun _ => ?_
    exact ih fun w hw => hcheck w (List.mem_cons_of_mem _ hw)

theorem validateNames_arrange (h : PlainBody F body) {identities positions : List Json}
    (hpositions : ∀ v ∈ positions, Json.Plain F v) :
    validateNames (Json.arrange body) (Json.arrangedItems identities) (Json.arrangedItems positions) =
      validateNames body identities positions := by
  have hmap : (Json.arrangedItems positions).map positionOf = positions.map positionOf := by
    rw [Json.arrangedItems_eq, List.map_map]
    exact List.map_congr_left fun v hv => positionOf_arranged (hpositions v hv)
  have hall : (Json.arrangedItems identities).all Json.isText = identities.all Json.isText := by
    rw [Json.arrangedItems_eq, List.all_map]
    congr 1
    exact funext isText_arranged
  have hlength : ∀ items, (Json.arrangedItems items).length = items.length := fun items => by
    rw [Json.arrangedItems_eq, List.length_map]
  unfold validateNames
  rw [hlength, hlength, hall, texts_arranged, hmap]
  refine then_congr rfl fun _ => then_congr rfl fun _ => then_congr rfl fun _ => ?_
  refine then_congr (forM_arranged fun v hv => validatePosition_arranged (hpositions v hv)) fun _ => ?_
  refine then_congr rfl fun _ => item_arrange h fun count _ => ?_
  rw [any_get_arrange h fun v => eqText_arranged v _, eqInt_arranged]

theorem validateNamedLosses_arrange (h : PlainBody F body) :
    validateNamedLosses (Json.arrange body) = validateNamedLosses body := by
  unfold validateNamedLosses
  rw [all_get_arrange h fun v => isOneOf_arranged v _, has_arrange h, has_arrange h]
  refine then_congr rfl fun _ => ?_
  split
  · rfl
  · refine then_congr rfl fun _ => item_arrange h fun identities _ =>
      item_arrange h fun positions hpositions => ?_
    cases identities with
    | arr identities =>
      cases positions with
      | arr positions => exact validateNames_arrange h (plainItems_iff.1 hpositions)
      | _ => rfl
    | _ => cases positions <;> rfl

theorem validateEffect_arrange (h : PlainBody F body) :
    validateEffect (Json.arrange body) = validateEffect body := by
  have hcapture : captureMember (Json.arrange body) = captureMember body := by
    unfold captureMember
    rw [get_arrange h]
    cases hget : Json.get body "capture" with
    | none => rfl
    | some capture => exact validateCapture_arranged (plain_get h.1 hget)
  have htexts : textMember (Json.arrange body) "effect " = textMember body "effect " :=
    funext (textMember_arrange h "effect ")
  unfold validateEffect
  rw [htexts, hcapture, validateCopiedDecision_arrange h]
  refine then_congr rfl fun _ => ?_
  exact then_congr (item_arrange h fun v _ => inSet_arranged v _) fun _ => rfl

theorem validateGrade_arrange (h : PlainBody F body) :
    validateGrade (Json.arrange body) = validateGrade body := by
  unfold validateGrade
  refine item_arrange h fun grade _ => ?_
  refine then_congr (inSet_arranged grade _) fun _ => then_congr rfl fun _ => ?_
  refine item_arrange h fun basis _ => ?_
  refine then_congr (inSet_arranged basis _) fun _ => then_congr rfl fun _ => ?_
  refine item_arrange h fun inspected _ => ?_
  refine then_congr (by rw [int_arranged]) fun _ => textMember_arrange h _ _

theorem validateKinds_arranged {reason count v : Json} (h : Json.Plain F v) :
    validateKinds reason.arranged count.arranged v.arranged = validateKinds reason count v := by
  cases v with
  | obj kinds =>
    have hsum : ((Json.arrange kinds).map fun m => m.2.int?.getD 0).sum =
        (kinds.map fun m => m.2.int?.getD 0).sum := by
      rw [Json.arrange, (Json.sortedMembers_perm.map _).sum_eq, Json.arrangedMembers_eq, List.map_map]
      congr 1
      exact List.map_congr_left fun m _ => by rw [Function.comp, int_arranged]
    have hempty : (Json.arrange kinds).isEmpty = kinds.isEmpty := by
      rw [Json.arrange, Json.sortedMembers_perm.isEmpty_eq, Json.arrangedMembers_eq, List.isEmpty_map]
    rw [Json.arranged_obj]
    unfold validateKinds
    simp only
    rw [all_arrange _ fun k v => by rw [int_arranged], hsum, hempty, eqText_arranged, int_arranged]
  | _ => rfl

theorem validateGap_arrange (h : PlainBody F body) :
    validateGap (Json.arrange body) = validateGap body := by
  have htexts : textMember (Json.arrange body) "gap " = textMember body "gap " :=
    funext (textMember_arrange h "gap ")
  unfold validateGap
  rw [htexts, validateNamedLosses_arrange h]
  refine item_arrange h fun reason _ => then_congr (by rw [isOneOf_arranged]) fun _ => ?_
  refine item_arrange h fun count _ => then_congr (by rw [int_arranged]) fun _ => ?_
  refine then_congr (item_arrange h fun kinds hkinds => ?_) fun _ => rfl
  exact validateKinds_arranged hkinds

theorem validateUnclean_arrange (h : PlainBody F body) :
    validateUnclean (Json.arrange body) = validateUnclean body := by
  unfold validateUnclean
  refine item_arrange h fun lost _ => item_arrange h fun coverage _ => ?_
  refine then_congr (by rw [eqText_arranged]; cases lost <;> rfl) fun _ => ?_
  refine item_arrange h fun kinds _ => ?_
  cases kinds with
  | arr kinds =>
    have hany : ∀ p : Json → Bool, (∀ v, p v.arranged = p v) →
        (Json.arrangedItems kinds).any p = kinds.any p := by
      intro p hp
      rw [Json.arrangedItems_eq, List.any_map]
      congr 1
      exact funext hp
    rw [Json.arranged]
    simp only
    rw [hany _ isUnhashable_arranged]
    split
    · rfl
    · congr 2
      exact funext fun k => hany _ fun v => eqText_arranged v k
  | _ => rfl

theorem validateBaseline_arrange (h : PlainBody F body) :
    validateBaseline (Json.arrange body) = validateBaseline body := by
  unfold validateBaseline
  refine item_arrange h fun first _ => then_congr (by rw [eqInt_arranged]) fun _ => ?_
  exact item_arrange h fun legacy _ => by rw [int_arranged]

theorem validateRecovery_arrange (h : PlainBody F body) :
    validateRecovery (Json.arrange body) = validateRecovery body := by
  have hhas : has (Json.arrange body) = has body := funext (has_arrange h)
  have hsequence : sequenceMember (Json.arrange body) = sequenceMember body := by
    refine funext fun key => ?_
    rw [sequenceMember, sequenceMember, all_get_arrange h fun v => by rw [plainInt_arranged]]
  unfold validateRecovery
  rw [hhas, hsequence, validateUnclean_arrange h, validateBaseline_arrange h]
  refine item_arrange h fun event _ => ?_
  have hrequired : recoveryRequired event.arranged = recoveryRequired event := by
    rw [recoveryRequired, recoveryRequired, eqText_arranged, eqText_arranged]
  have heq : event.arranged.eqText = event.eqText := funext (eqText_arranged event)
  rw [isOneOf_arranged, hrequired, heq]

theorem validateProvider_arranged {v : Json} (h : Json.Plain F v) :
    validateProvider v.arranged = validateProvider v := by
  cases v with
  | obj document =>
    rw [Json.arranged_obj]
    unfold validateProvider
    refine then_congr (by rw [exactly_arrange h]) fun _ => ?_
    refine item_arrange h fun interface _ => item_arrange h fun provider _ =>
      item_arrange h fun version _ => ?_
    rw [isText_arranged, isText_arranged, int_arranged]
  | _ => rfl

theorem validateComposition_arrange (h : PlainBody F body) :
    validateComposition (Json.arrange body) = validateComposition body := by
  unfold validateComposition
  refine item_arrange h fun providers hproviders => ?_
  cases providers with
  | arr providers =>
    exact forM_arranged fun v hv => validateProvider_arranged (plainItems_iff.1 hproviders v hv)
  | _ => rfl

/-- **The rules of a kind do not see the order of members.** -/
theorem validateBody_arrange (h : PlainBody F body) (kind : Str) :
    validateBody kind (Json.arrange body) = validateBody kind body := by
  unfold validateBody
  rw [all_get_arrange h isText_arranged, validateEffect_arrange h, validateRecovery_arrange h,
    validateGrade_arrange h, validateGap_arrange h, validateComposition_arrange h]

end SayFirst.Plane.EvidenceBody

namespace SayFirst.Plane

open Py Evidence

/-- The entry with the members of its body in the order of their keys. -/
def EntryFields.arrange (e : EntryFields) : EntryFields := { e with body := Json.arrange e.body }

/-- **An entry is admitted as it is arranged.** -/
theorem validate_arrange {F : PyFloat → Prop} {e : EntryFields}
    (h : EvidenceBody.PlainBody F e.body) : e.arrange.validate = e.validate := by
  have hhas : EvidenceBody.has (Json.arrange e.body) = EvidenceBody.has e.body :=
    funext (EvidenceBody.has_arrange h)
  have hmembers : (Json.arrange e.body).all (fun m => (bodyMembers e.kind).any fun k => m.1 == lit k) =
      e.body.all fun m => (bodyMembers e.kind).any fun k => m.1 == lit k :=
    EvidenceBody.all_arrange _ fun _ _ => rfl
  unfold EntryFields.validate EvidenceFields.validate EntryFields.arrange
  simp only
  rw [hhas, hmembers, EvidenceBody.validateBody_arrange h]

end SayFirst.Plane
