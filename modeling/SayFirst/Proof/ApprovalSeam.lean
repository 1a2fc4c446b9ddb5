import SayFirst.Lib.Raises
import SayFirst.Lib.Reference
import SayFirst.Proof.ApprovalStore
import SayFirst.Spec.ApprovalSeam

/-!
# What an approval provider can bring about

* `judgeable_iff` — when an answer can be judged.
* `resumeThroughProvider_bound` — the seam applies, records and answers nothing but the act.
* `writeResolution_only` — the writer ends the wait it is handed, as the act says.
* `seam_faithful_iff` — when an answer that is not derivable is recorded as a refusal, too.
-/

namespace SayFirst.Plane.ApprovalSeam

open Py

variable {py : Interpreter} {recorder : Recorder} {provider : Provider} {apply : Option Writer}

/-! ## Answers that can be judged -/

/-- The comparison of a member answers. -/
def Answers (member : Member) (fact : Option Str) : Prop := ∃ b, differs member fact = .ok b

/-- A member answers that it is the fact. -/
def Same (member : Member) (fact : Option Str) : Prop := differs member fact = .ok false

/-- What the judgement asks of the person, the verdict and the reason answers. -/
structure ActAnswers (person resolution reason : Foreign) (act : ApprovalAction) : Prop where
  compared : ∃ b, person.differs (some act.person) = .ok b
  rendered : person.differs (some act.person) = .ok true → ∃ text, person.repr = .ok text
  valued : person.differs (some act.person) = .ok false →
    resolution.verdict ≠ some act.resolution → ∃ text, resolution.valueRepr = .ok text
  kept : person.differs (some act.person) = .ok false →
    resolution.verdict = some act.resolution → ∃ b, reason.differs act.reason = .ok b

/-- The members of a resolution are there, and what the judgement asks of them answers. -/
def ResolutionAnswers (decisionRef person resolution reason : Member) (request : ApprovalRequest)
    (acts : List ApprovalAction) : Prop :=
  ∃ d p v r, decisionRef = .ok d ∧ person = .ok p ∧ resolution = .ok v ∧ reason = .ok r ∧
    (∃ b, d.differs (some request.decisionRef) = .ok b) ∧
    (d.differs (some request.decisionRef) = .ok false → ∀ act, acts.getLast? = some act →
      ActAnswers p v r act)

/-- The references answer, and where they are the request's, so does the rest. -/
def ReferencesAnswer (approvalRef scope : Member) (request : ApprovalRequest) (rest : Prop) : Prop :=
  Answers approvalRef (some request.approvalRef) ∧
    (Same approvalRef (some request.approvalRef) → Answers scope (some request.scope) ∧
      (Same scope (some request.scope) → rest))

/-- Every member the judgement comes to is there, and answers what it is asked. -/
def Judgeable (request : ApprovalRequest) (acts : List ApprovalAction) : Answer → Prop
  | .foreign => True
  | .suspended approvalRef scope otherRequest =>
    ReferencesAnswer approvalRef scope request (∃ b, otherRequest request = .ok b)
  | .resolved approvalRef scope decisionRef person resolution reason =>
    ReferencesAnswer approvalRef scope request
      (ResolutionAnswers decisionRef person resolution reason request acts)

/-- What is read answers, not raises. -/
abbrev Judged {α : Type} (read : Read α) : Prop := ∃ a, read = .ok a

theorem judged_bind {α β : Type} {x : Read α} {f : α → Read β} :
    Judged (x >>= f) ↔ ∃ a, x = .ok a ∧ Judged (f a) := by
  constructor
  · rintro ⟨b, h⟩
    obtain ⟨a, ha, h⟩ := bind_ok_iff.1 h
    exact ⟨a, ha, b, h⟩
  · rintro ⟨a, ha, b, h⟩
    exact ⟨b, bind_ok_iff.2 ⟨a, ha, h⟩⟩

/-- A branch on what a comparison answers. -/
theorem judged_ite {x : Read Bool} {a : Option Str} {rest : Read (Option Str)} :
    Judged (x >>= fun b => if b then pure a else rest) ↔
      Judged x ∧ (x = .ok false → Judged rest) := by
  rw [judged_bind]
  constructor
  · rintro ⟨b, hb, h⟩
    refine ⟨⟨b, hb⟩, fun hfalse => ?_⟩
    obtain rfl : b = false := Except.ok.inj (hb.symm.trans hfalse)
    exact h
  · rintro ⟨⟨b, hb⟩, h⟩
    cases b with
    | true => exact ⟨true, hb, a, rfl⟩
    | false => exact ⟨false, hb, h hb⟩

theorem judged_references {approvalRef scope : Member} {request : ApprovalRequest}
    {rest : Read (Option Str)} : Judged (unsupportedReferences approvalRef scope request rest) ↔
      ReferencesAnswer approvalRef scope request (Judged rest) := by
  unfold unsupportedReferences ReferencesAnswer
  rw [judged_ite]
  exact and_congr_right fun _ => imp_congr_right fun _ => judged_ite

theorem judged_act {person resolution reason : Foreign} {act : ApprovalAction} :
    Judged (unsupportedByAct py person resolution reason act) ↔
      ActAnswers person resolution reason act := by
  unfold unsupportedByAct
  rw [judged_bind]
  constructor
  · rintro ⟨b, hb, h⟩
    cases b with
    | true =>
      obtain ⟨text, htext, -⟩ := judged_bind.1 h
      have hne : person.differs (some act.person) ≠ .ok false := fun hfalse => by
        rw [hb] at hfalse
        cases hfalse
      exact ⟨⟨true, hb⟩, fun _ => ⟨text, htext⟩, fun hfalse => absurd hfalse hne,
        fun hfalse => absurd hfalse hne⟩
    | false =>
      refine ⟨⟨false, hb⟩, fun htrue => ?_, fun _ hverdict => ?_, fun _ hverdict => ?_⟩
      · rw [hb] at htrue
        cases htrue
      · rw [if_neg (by decide), if_pos hverdict] at h
        obtain ⟨text, htext, -⟩ := judged_bind.1 h
        exact ⟨text, htext⟩
      · rw [if_neg (by decide), if_neg (by simpa using hverdict)] at h
        obtain ⟨answer, hanswer, -⟩ := judged_bind.1 h
        exact ⟨answer, hanswer⟩
  · rintro ⟨⟨b, hb⟩, hrendered, hverdict, hreason⟩
    refine ⟨b, hb, ?_⟩
    cases b with
    | true => exact judged_bind.2 ((hrendered hb).imp fun text htext => ⟨htext, _, rfl⟩)
    | false =>
      rw [if_neg (by decide)]
      by_cases hown : resolution.verdict = some act.resolution
      · obtain ⟨answer, hanswer⟩ := hreason hb hown
        rw [if_neg (by simpa using hown)]
        refine judged_bind.2 ⟨answer, hanswer, ?_⟩
        cases answer <;> exact ⟨_, rfl⟩
      · rw [if_pos hown]
        exact judged_bind.2 ((hverdict hb hown).imp fun text htext => ⟨htext, _, rfl⟩)

/-- What `unsupportedResolution` asks of the members it has. -/
def unsupportedByLast (py : Interpreter) (request : ApprovalRequest) (acts : List ApprovalAction)
    (d p v r : Foreign) : Read (Option Str) := do
  if ← d.differs (some request.decisionRef) then
    return some (lit "it names another decision")
  else
    match acts.getLast? with
    | none => return some (lit "no act of any person was put to it")
    | some act => unsupportedByAct py p v r act

theorem judged_resolution {decisionRef person resolution reason : Member}
    {request : ApprovalRequest} {acts : List ApprovalAction} :
    Judged (unsupportedResolution py decisionRef person resolution reason request acts) ↔
      ResolutionAnswers decisionRef person resolution reason request acts := by
  have hrest : ∀ d p v r : Foreign, Judged (unsupportedByLast py request acts d p v r) ↔
      (∃ b, d.differs (some request.decisionRef) = .ok b) ∧
        (d.differs (some request.decisionRef) = .ok false → ∀ act, acts.getLast? = some act →
          ActAnswers p v r act) := by
    intro d p v r
    unfold unsupportedByLast
    rw [judged_ite]
    refine and_congr_right fun _ => imp_congr_right fun _ => ?_
    cases acts.getLast? with
    | none => exact iff_of_true ⟨_, rfl⟩ fun _ h => (by cases h)
    | some act =>
      rw [judged_act]
      exact ⟨fun h _ heq => Option.some.inj heq ▸ h, fun h => h act rfl⟩
  unfold unsupportedResolution ResolutionAnswers
  constructor
  · intro h
    obtain ⟨d, hd, h⟩ := judged_bind.1 h
    obtain ⟨p, hp, h⟩ := judged_bind.1 h
    obtain ⟨v, hv, h⟩ := judged_bind.1 h
    obtain ⟨r, hr, h⟩ := judged_bind.1 h
    exact ⟨d, p, v, r, hd, hp, hv, hr, (hrest d p v r).1 h⟩
  · rintro ⟨d, p, v, r, hd, hp, hv, hr, h⟩
    exact judged_bind.2 ⟨d, hd, judged_bind.2 ⟨p, hp, judged_bind.2 ⟨v, hv, judged_bind.2
      ⟨r, hr, (hrest d p v r).2 h⟩⟩⟩⟩

/-- **An answer is judged exactly when the members the judgement comes to answer.** -/
theorem judgeable_iff {answer : Answer} {request : ApprovalRequest} {acts : List ApprovalAction} :
    Judged (unsupportedByActs py answer request acts) ↔ Judgeable request acts answer := by
  cases answer with
  | foreign => exact iff_of_true ⟨_, rfl⟩ trivial
  | suspended approvalRef scope otherRequest =>
    rw [unsupportedByActs, judged_references, judged_ite, Judgeable]
    have hrest : (Judged (otherRequest request) ∧ (otherRequest request = .ok false →
        Judged (pure none : Read (Option Str)))) ↔ ∃ b, otherRequest request = .ok b :=
      and_iff_left fun _ => ⟨none, rfl⟩
    rw [hrest]
  | resolved approvalRef scope decisionRef person resolution reason =>
    rw [unsupportedByActs, judged_references, judged_resolution, Judgeable]

/-! ## What a call of the seam leaves -/

/-- The world a call leaves. -/
def worldOf {α : Type} : EStateM.Result SeamError World α → World
  | .ok _ w => w
  | .error _ w => w

/-- What a call hands back, where it returns. -/
def returned {α : Type} : EStateM.Result SeamError World α → Option α
  | .ok a _ => some a
  | .error _ _ => none

def World.saw (w : World) (event : Event) : World := { w with events := w.events ++ [event] }

/-- The refusal of an act. -/
def refusalOf (held : SuspendedApproval) (submitted : ApprovalAction) (complaint : Str) :
    RefusedProviderAnswer :=
  ⟨held.approvalRef, held.request.decisionRef, held.scope, submitted.person, complaint⟩

variable {held : SuspendedApproval} {submitted : ApprovalAction} {complaint : Str} {w : World}

theorem recordRefusal_world : worldOf (recordRefusal py recorder held submitted complaint w) =
    w.saw (.refused (refusalOf held submitted complaint)) := by
  unfold recordRefusal orUnrecorded
  cases recorder.recordRefusal with
  | ok u => rfl
  | error r =>
    simp only
    split <;> rfl

theorem refuse_world {α : Type} :
    worldOf (refuse (α := α) py recorder held submitted complaint w) =
        w.saw (.refused (refusalOf held submitted complaint)) ∧
      returned (refuse (α := α) py recorder held submitted complaint w) = none := by
  have hworld := @recordRefusal_world py recorder held submitted complaint w
  unfold refuse
  simp only [bind, EStateM.bind]
  cases hres : recordRefusal py recorder held submitted complaint w with
  | ok u w' =>
    rw [hres] at hworld
    exact ⟨hworld, rfl⟩
  | error e w' =>
    rw [hres] at hworld
    exact ⟨hworld, rfl⟩

/-- **What the seam lets see is in order**: an application behind a judgement that finds the answer
derivable, and a record behind an application that succeeded, where there is a writer. -/
def InOrder (writes : Bool) : Bool → Bool → List Event → Prop
  | _, _, [] => True
  | _, succeeded, .judged complaint :: events => InOrder writes complaint.isNone succeeded events
  | derivable, _, .applied _ succeeded :: events =>
    derivable = true ∧ InOrder writes derivable succeeded events
  | derivable, succeeded, .recorded _ :: events =>
    derivable = true ∧ (writes = true → succeeded = true) ∧
      InOrder writes derivable succeeded events
  | derivable, succeeded, .refused _ :: events => InOrder writes derivable succeeded events

/-- How many resolutions were handed to the writer. -/
def applications : List Event → ℕ
  | [] => 0
  | .applied _ _ :: events => applications events + 1
  | _ :: events => applications events

/-- An event names nothing but the held request and the submitted act. -/
def Own (held : SuspendedApproval) (submitted : ApprovalAction) : Event → Prop
  | .judged _ => True
  | .applied resolution _ => resolution = resolutionOf held submitted
  | .recorded resolution => resolution = resolutionOf held submitted
  | .refused refusal => ∃ complaint, refusal = refusalOf held submitted complaint

/-- What is handed back names nothing but the held request and the submitted act. -/
def OwnAnswer (held : SuspendedApproval) (submitted : ApprovalAction) : Progress → Prop
  | .suspended suspended => suspended = held
  | .resolved resolution => resolution = resolutionOf held submitted

/-- What a call of the seam lets see and hands back is about the held request and the act alone. -/
structure Bound (writes : Bool) (held : SuspendedApproval) (submitted : ApprovalAction)
    (result : EStateM.Result SeamError World Progress) : Prop where
  once : applications (worldOf result).events ≤ 1
  inOrder : InOrder writes false false (worldOf result).events
  own : ∀ event ∈ (worldOf result).events, Own held submitted event
  answer : ∀ progress, returned result = some progress → OwnAnswer held submitted progress

variable (py) in
/-- What the seam owes of one call: and an answer that is not derivable changes no wait and is
recorded as a refusal. -/
structure Faithful (provider : Provider) (apply : Option Writer) (held : SuspendedApproval)
    (submitted : ApprovalAction) (result : EStateM.Result SeamError World Progress) : Prop
    extends Bound apply.isSome held submitted result where
  refuses : ∀ answer, provider.outcome = .ok answer →
    unsupportedByActs py answer held.request (actsPutTo submitted held) ≠ .ok none →
      (worldOf result).store = provider.store ∧
        ∃ complaint, .refused (refusalOf held submitted complaint) ∈ (worldOf result).events

/-! ## Each way a call goes -/

variable {writes : Bool} {result : EStateM.Result SeamError World Progress}

/-- A call that only judges, refuses and raises. -/
theorem bound_of_refusal (hnone : returned result = none)
    (hevents : ∀ event ∈ (worldOf result).events, (∃ c, event = .judged c) ∨
      ∃ c, event = .refused (refusalOf held submitted c)) : Bound writes held submitted result := by
  have hquiet : ∀ (events : List Event) (derivable succeeded : Bool),
      (∀ event ∈ events, (∃ c, event = .judged c) ∨
        ∃ c, event = .refused (refusalOf held submitted c)) →
      applications events = 0 ∧ InOrder writes derivable succeeded events := by
    intro events
    induction events with
    | nil => exact fun _ _ _ => ⟨rfl, trivial⟩
    | cons event events ih =>
      intro derivable succeeded h
      have hrest := fun d s => ih d s fun e he => h e (List.mem_cons_of_mem event he)
      obtain ⟨c, rfl⟩ | ⟨c, rfl⟩ := h event List.mem_cons_self
      · exact ⟨(hrest false false).1, (hrest c.isNone succeeded).2⟩
      · exact ⟨(hrest false false).1, (hrest derivable succeeded).2⟩
  have hall := hquiet _ false false hevents
  refine ⟨hall.1.le.trans zero_le_one, hall.2, fun event hmem => ?_, fun progress h => ?_⟩
  · obtain ⟨c, rfl⟩ | ⟨c, rfl⟩ := hevents event hmem
    · trivial
    · exact ⟨c, rfl⟩
  · rw [hnone] at h
    cases h

/-- The provider raised: the act is refused and the refusal recorded, or nothing is. -/
theorem providerRaised_bound (hw : w.events = []) (r : Raised) :
    Bound writes held submitted (providerRaised py recorder held submitted r w) := by
  unfold providerRaised
  cases hkind : r.kind with
  | providerError =>
    have hworld := @recordRefusal_world py recorder held submitted
      (lit "the provider refused the act with " ++ r.name) w
    simp only [bind, EStateM.bind]
    cases hres : recordRefusal py recorder held submitted
        (lit "the provider refused the act with " ++ r.name) w with
    | ok u w' | error u w' =>
      rw [hres] at hworld
      have hw' : w' = w.saw (.refused (refusalOf held submitted _)) := hworld
      refine bound_of_refusal rfl fun event hmem =>
        .inr ⟨lit "the provider refused the act with " ++ r.name, ?_⟩
      change event ∈ w'.events at hmem
      rw [hw', World.saw, hw] at hmem
      exact List.mem_singleton.1 hmem
  | exception =>
    obtain ⟨hworld, hnone⟩ := @refuse_world py recorder held submitted (lit "it raised " ++ r.name) w
      Progress
    refine bound_of_refusal hnone fun event hmem => .inr ⟨lit "it raised " ++ r.name, ?_⟩
    change event ∈ (worldOf (refuse py recorder held submitted (lit "it raised " ++ r.name) w)).events
      at hmem
    rw [hworld, World.saw, hw] at hmem
    exact List.mem_singleton.1 hmem
  | baseException =>
    refine bound_of_refusal rfl fun event hmem => ?_
    change event ∈ w.events at hmem
    rw [hw] at hmem
    cases hmem

/-- The recorder is asked once, and what it raises is raised on. -/
theorem orUnrecorded_world {message : Str} {outcome : Except Raised Unit} :
    worldOf (orUnrecorded message outcome w) = w := by
  unfold orUnrecorded
  cases outcome with
  | ok u => rfl
  | error r =>
    simp only
    split <;> rfl

/-- What is recorded and handed back of a resolution that was applied. -/
theorem recorded_bound (events : List Event)
    (hw : w.events = .judged none :: (events ++ [.recorded (resolutionOf held submitted)]))
    (hevents : events = [] ∧ writes = false ∨
      events = [.applied (resolutionOf held submitted) true]) {message : Str}
    {outcome : Except Raised Unit} :
    Bound writes held submitted
      ((do orUnrecorded message outcome; return .resolved (resolutionOf held submitted) :
        Seam Progress) w) := by
  have hworld : worldOf ((do orUnrecorded message outcome
                             return .resolved (resolutionOf held submitted) : Seam Progress) w) = w := by
    have h := @orUnrecorded_world w message outcome
    simp only [bind, EStateM.bind]
    cases hres : orUnrecorded message outcome w with
    | ok u w' | error e w' =>
      rw [hres] at h
      exact h
  refine ⟨?_, ?_, fun event hmem => ?_, fun progress hprogress => ?_⟩
  · rw [hworld, hw]
    obtain ⟨rfl, -⟩ | rfl := hevents
    · exact zero_le_one
    · exact le_rfl
  · rw [hworld, hw]
    obtain ⟨rfl, rfl⟩ | rfl := hevents
    · exact ⟨rfl, fun h => (by cases h), trivial⟩
    · exact ⟨rfl, rfl, fun _ => rfl, trivial⟩
  · rw [hworld, hw] at hmem
    obtain ⟨rfl, -⟩ | rfl := hevents
    all_goals
      simp only [List.nil_append, List.cons_append, List.mem_cons, List.not_mem_nil, or_false] at hmem
    · obtain rfl | rfl := hmem
      · trivial
      · rfl
    · obtain rfl | rfl | rfl := hmem
      · trivial
      · rfl
      · rfl
  · simp only [bind, EStateM.bind] at hprogress
    cases hres : orUnrecorded message outcome w with
    | ok u w' =>
      rw [hres] at hprogress
      obtain rfl : .resolved (resolutionOf held submitted) = progress := Option.some.inj hprogress
      rfl
    | error e w' =>
      rw [hres] at hprogress
      cases hprogress

/-- The writer is handed the resolution once, and what it raises is raised on. -/
theorem applied_some (write : Writer) (resolution : ResolvedApproval) :
    applied (some write) resolution w =
      match write resolution w.store with
      | (.ok (), store) => .ok () ({ w with store }.saw (.applied resolution true))
      | (.error r, store) => .error (.raised r) ({ w with store }.saw (.applied resolution false)) := by
  obtain ⟨store, suspended, action, events⟩ := w
  change (match write resolution store with
    | (.ok (), store) => _
    | (.error r, store) => _ : Seam Unit) _ = _
  obtain ⟨⟨r⟩ | ⟨⟨⟩⟩, store'⟩ := write resolution store
  · rfl
  · rfl

/-- A derivable resolution: it is applied once, recorded behind that, and handed back. -/
theorem conclude_bound (hw : w.events = [.judged none]) :
    Bound apply.isSome held submitted (conclude py recorder apply held submitted w) := by
  unfold conclude
  cases apply with
  | none =>
    refine recorded_bound [] ?_ (.inl ⟨rfl, rfl⟩)
    change w.events ++ [.recorded (resolutionOf held submitted)] = _
    rw [hw]
    rfl
  | some write =>
    have happlied := @applied_some w write (resolutionOf held submitted)
    rcases hwrite : write (resolutionOf held submitted) w.store with ⟨⟨r⟩ | ⟨⟨⟩⟩, store⟩
    · rw [hwrite] at happlied
      simp only [bind, EStateM.bind, happlied]
      refine ⟨?_, ?_, fun event hmem => ?_, fun progress h => (by cases h)⟩
      all_goals
        have hevents : ({ w with store }.saw (.applied (resolutionOf held submitted) false)).events =
            [.judged none, .applied (resolutionOf held submitted) false] := by
          rw [World.saw, hw]
          rfl
      · change applications ({ w with store }.saw _).events ≤ 1
        rw [hevents]
        exact le_rfl
      · change InOrder true false false ({ w with store }.saw _).events
        rw [hevents]
        exact ⟨rfl, trivial⟩
      · change event ∈ ({ w with store }.saw _).events at hmem
        rw [hevents] at hmem
        obtain rfl | hmem := List.mem_cons.1 hmem
        · trivial
        · obtain rfl := List.mem_singleton.1 hmem
          rfl
    · rw [hwrite] at happlied
      simp only [bind, EStateM.bind, happlied]
      refine recorded_bound [.applied (resolutionOf held submitted) true] ?_ (.inr rfl)
      change (w.events ++ [.applied (resolutionOf held submitted) true]) ++
        [.recorded (resolutionOf held submitted)] = _
      rw [hw]
      rfl

theorem getLast?_actsPutTo (action : ApprovalAction) (suspended : SuspendedApproval) :
    (actsPutTo action suspended).getLast? = none ∨
      (actsPutTo action suspended).getLast? = some action := by
  unfold actsPutTo
  split
  · exact .inl rfl
  · exact .inr rfl

/-- An answer: it is judged, and then refused, concluded or handed back as held. -/
theorem answered_bound (hw : w.events = []) (answer : Answer) :
    Bound apply.isSome held submitted
      (answered py recorder apply held submitted (actsPutTo submitted held) answer w) := by
  unfold answered
  cases hjudged : unsupportedByActs py answer held.request (actsPutTo submitted held) with
  | error r =>
    refine bound_of_refusal rfl fun event hmem => ?_
    change event ∈ w.events at hmem
    rw [hw] at hmem
    cases hmem
  | ok complaint =>
    cases complaint with
    | some complaint =>
      obtain ⟨hworld, hnone⟩ := @refuse_world py recorder held submitted complaint
        (w.saw (.judged (some complaint))) Progress
      refine bound_of_refusal hnone fun event hmem => ?_
      change event ∈ (worldOf (refuse py recorder held submitted complaint
        (w.saw (.judged (some complaint))))).events at hmem
      rw [hworld, World.saw, World.saw, hw, List.nil_append, List.singleton_append] at hmem
      obtain rfl | hmem := List.mem_cons.1 hmem
      · exact .inl ⟨_, rfl⟩
      · exact .inr ⟨complaint, List.mem_singleton.1 hmem⟩
    | none =>
      have hw' : (w.saw (.judged none)).events = [.judged none] := by
        rw [World.saw, hw]
        rfl
      have hheld : Bound apply.isSome held submitted
          (.ok (.suspended held) (w.saw (.judged none))) := by
        refine ⟨?_, ?_, fun event hmem => ?_, fun progress h => ?_⟩
        · rw [worldOf, hw']
          exact zero_le_one
        · rw [worldOf, hw']
          trivial
        · rw [worldOf, hw'] at hmem
          obtain rfl := List.mem_singleton.1 hmem
          trivial
        · obtain rfl : .suspended held = progress := Option.some.inj h
          rfl
      cases answer with
      | foreign => exact hheld
      | suspended approvalRef scope otherRequest => exact hheld
      | resolved approvalRef scope decisionRef person resolution reason =>
        obtain hacts | hacts := getLast?_actsPutTo submitted held
        · rw [hacts]
          refine bound_of_refusal rfl fun event hmem => .inl ⟨none, ?_⟩
          change event ∈ (w.saw (.judged none)).events at hmem
          rw [hw'] at hmem
          exact List.mem_singleton.1 hmem
        · rw [hacts]
          exact conclude_bound hw'

/-- What is not derivable, and can be judged, changes no wait and is recorded as a refusal. -/
theorem answered_refuses {answer : Answer} {complaint : Str}
    (hjudged : unsupportedByActs py answer held.request (actsPutTo submitted held) =
      .ok (some complaint)) :
    worldOf (answered py recorder apply held submitted (actsPutTo submitted held) answer w) =
      (w.saw (.judged (some complaint))).saw (.refused (refusalOf held submitted complaint)) := by
  unfold answered
  rw [hjudged]
  exact refuse_world.1

/-- Where the judgement raises, nothing is seen of the answer. -/
theorem answered_raises {answer : Answer} {r : Raised}
    (hjudged : unsupportedByActs py answer held.request (actsPutTo submitted held) = .error r) :
    worldOf (answered py recorder apply held submitted (actsPutTo submitted held) answer w) = w := by
  unfold answered
  rw [hjudged]
  rfl

/-! ## The seam -/

/-- What a call makes of what its provider did. -/
theorem resumeThroughProvider_eq {store : ApprovalStore} {suspended : SuspendedApproval}
    {action : ApprovalAction} :
    resumeThroughProvider py recorder provider apply ⟨store, suspended, action, []⟩ =
      match provider.outcome with
      | .error r => providerRaised py recorder suspended action r
          ⟨provider.store, provider.suspended, provider.action, []⟩
      | .ok answer => answered py recorder apply suspended action (actsPutTo action suspended) answer
          ⟨provider.store, provider.suspended, provider.action, []⟩ := by
  obtain ⟨outcome, suspended', action', store'⟩ := provider
  cases outcome with
  | error r => rfl
  | ok answer => rfl

/-- The seam keeps to the held request and the act, whatever the provider does. -/
theorem resumeThroughProvider_bound {store : ApprovalStore} {suspended : SuspendedApproval}
    {action : ApprovalAction} : Bound apply.isSome suspended action
      (resumeThroughProvider py recorder provider apply ⟨store, suspended, action, []⟩) := by
  rw [resumeThroughProvider_eq]
  cases provider.outcome with
  | error r => exact providerRaised_bound rfl r
  | ok answer => exact answered_bound rfl answer

/-- A call is faithful exactly when the answer it was given can be judged. -/
theorem faithful_iff {store : ApprovalStore} {suspended : SuspendedApproval}
    {action : ApprovalAction} : Faithful py provider apply suspended action
        (resumeThroughProvider py recorder provider apply ⟨store, suspended, action, []⟩) ↔
      ∀ answer, provider.outcome = .ok answer →
        Judgeable suspended.request (actsPutTo action suspended) answer := by
  constructor
  · intro hfaithful answer houtcome
    rw [← @judgeable_iff py]
    cases hjudged : unsupportedByActs py answer suspended.request (actsPutTo action suspended) with
    | ok complaint => exact ⟨complaint, rfl⟩
    | error r =>
      obtain ⟨-, complaint, hmem⟩ := hfaithful.refuses answer houtcome fun h => by
        rw [hjudged] at h
        cases h
      rw [resumeThroughProvider_eq, houtcome] at hmem
      simp only at hmem
      rw [answered_raises hjudged] at hmem
      cases hmem
  · intro hjudgeable
    refine ⟨resumeThroughProvider_bound, fun answer houtcome hunsupported => ?_⟩
    obtain ⟨complaint, hjudged⟩ := (@judgeable_iff py _ _ _).2 (hjudgeable answer houtcome)
    rw [resumeThroughProvider_eq, houtcome]
    simp only
    cases complaint with
    | none => exact absurd hjudged hunsupported
    | some complaint =>
      rw [answered_refuses hjudged]
      exact ⟨rfl, complaint, List.mem_append_right _ List.mem_cons_self⟩

/-! ## The writer of the waits -/

/-- A write touches the one wait its resolution names: it ends it as the resolution says, or it
raises and leaves it as it was or, past its deadline, expired. -/
structure WritesOnly (resolved : ResolvedApproval) (now : ℤ) (store : ApprovalStore)
    (outcome : Except Raised Unit) (store' : ApprovalStore) : Prop where
  others : ∀ key ≠ (resolved.scope, resolved.approvalRef),
    store'.byReference key = store.byReference key
  questions : store'.byQuestion = store.byQuestion
  ended : outcome = .ok () → ∃ kept ended : Approval,
    store.byReference (resolved.scope, resolved.approvalRef) = some kept ∧
    kept.state = .pending ∧ now < kept.deadline ∧
    store'.byReference (resolved.scope, resolved.approvalRef) = some ended ∧
    ended.toApprovalFields = { kept.toApprovalFields with
      state := resolved.resolution.state, resolvedAt := some now, person := some resolved.person,
      resolutionReason := resolved.reason, published := true }
  raised : ∀ r, outcome = .error r →
    store'.byReference (resolved.scope, resolved.approvalRef) =
        store.byReference (resolved.scope, resolved.approvalRef) ∨
      ∃ kept expired : Approval,
        store.byReference (resolved.scope, resolved.approvalRef) = some kept ∧
        kept.deadline ≤ now ∧
        store'.byReference (resolved.scope, resolved.approvalRef) = some expired ∧
        expired.toApprovalFields = { kept.toApprovalFields with
          state := .expired, resolvedAt := some kept.deadline }

theorem writeResolution_only (resolved : ResolvedApproval) (now : ℤ) (store : ApprovalStore) :
    WritesOnly resolved now store (writeResolution now resolved store).1
      (writeResolution now resolved store).2 := by
  unfold writeResolution
  obtain ⟨e, h⟩ | ⟨kept, expired, h, hkept, -, hlapsed, hfields⟩ |
      ⟨kept, ended, h, hkept, hstate, hopen, hfields⟩ :=
    store.resolve_ways (resolved.scope, resolved.approvalRef) resolved.person resolved.resolution
      resolved.reason now
  · rw [h]
    exact ⟨fun _ _ => rfl, rfl, fun h => (by cases h), fun _ _ => .inl rfl⟩
  · rw [h]
    exact ⟨fun key hkey => by simp [hkey], by simp, fun h => (by cases h),
      fun _ _ => .inr ⟨kept, expired, hkept, hlapsed, by simp, hfields⟩⟩
  · rw [h]
    exact ⟨fun key hkey => by simp [hkey], by simp,
      fun _ => ⟨kept, ended, hkept, hstate, hopen, by simp, hfields⟩, fun r h => (by cases h)⟩

/-! ## The seam and its writer -/

/-- **The seam resolves nothing but the act it was handed, exactly where the answer can be
judged**, and the writer ends no wait but the one it is handed. -/
theorem seam_faithful_iff (py : Interpreter) (recorder : Recorder) (provider : Provider)
    (apply : Option Writer) (store : ApprovalStore) (suspended : SuspendedApproval)
    (action : ApprovalAction) :
    (Faithful py provider apply suspended action
        (resumeThroughProvider py recorder provider apply ⟨store, suspended, action, []⟩) ↔
      ∀ answer, provider.outcome = .ok answer →
        Judgeable suspended.request (actsPutTo action suspended) answer) ∧
    ∀ resolved now s, WritesOnly resolved now s (writeResolution now resolved s).1
      (writeResolution now resolved s).2 :=
  ⟨faithful_iff, writeResolution_only⟩

/-! An answer of the right class whose verdict is the text `approve` and no `ApprovalResolution`:
the judgement asks it for its `value`, and what that raises escapes. -/

/-- A text where a member stands. -/
def textMember (text : Str) : Member :=
  .ok ⟨fun fact => .ok (fact != some text), .ok text, none, .error ⟨.exception, lit "AttributeError"⟩⟩

def heldRequest : ApprovalRequest where
  approvalRef := lit "a1"
  decisionRef := lit "d1"
  scope := lit "local"
  capability := lit "write"
  requestedAt := 0
  deadline := 60
  held := by decide

def heldSuspension : SuspendedApproval := ⟨heldRequest, lit "local", rfl⟩

def submittedAct : ApprovalAction := ⟨lit "a1", lit "local", lit "alice", .approve, none⟩

def textProvider : Provider where
  outcome := .ok (.resolved (textMember (lit "a1")) (textMember (lit "local")) (textMember (lit "d1"))
    (textMember (lit "alice")) (textMember (lit "approve")) (textMember (lit "none")))
  suspended := heldSuspension
  action := submittedAct
  store := .empty

theorem seam_lets_answer_escape : ¬Faithful reference textProvider none heldSuspension submittedAct
    (resumeThroughProvider reference ⟨.ok (), .ok ()⟩ textProvider none
      ⟨.empty, heldSuspension, submittedAct, []⟩) := by
  intro hfaithful
  obtain ⟨-, complaint, hmem⟩ := hfaithful.refuses _ rfl (by intro h; cases h)
  have hevents : (worldOf (resumeThroughProvider reference ⟨.ok (), .ok ()⟩ textProvider none
      ⟨.empty, heldSuspension, submittedAct, []⟩)).events = [] := rfl
  rw [hevents] at hmem
  cases hmem

end SayFirst.Plane.ApprovalSeam
