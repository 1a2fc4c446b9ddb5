import SayFirst.Spec.DecisionFile
import SayFirst.Spec.EvidenceFile

/-!
# What the recovery of a torn tail leaves

Each store drops the bytes behind the last newline of a file. It looks for that newline in a
window at the end of the file; where the window holds none, the evidence store refuses, and the
decision store and the journal drop the file.

* `recoverTornTail_keeps` — the evidence store keeps every complete line.
* `torn_tails_kept_iff` — when each of the stores does.
-/

namespace SayFirst.Plane

open Py EvidenceFile

/-- A recovery leaves the file up to its last newline, or refuses and leaves it as it was. -/
def KeepsLines (raw : Str) (left : Bool × Option Str) : Prop :=
  left.2 = some (upToNewline raw) ∨ left.1 = true ∧ left.2 = some raw

/-- Whether a recovery of the evidence store refuses, and the file it leaves. -/
def EvidenceFile.leaves (raw : Str) : Bool × Option Str :=
  ((recoverTornTail raw).1.toOption.isNone, some (recoverTornTail raw).2)

/-- Whether a call of the decision store refuses, and the file it leaves. -/
def DecisionFile.leaves {α : Type} :
    EStateM.Result DecisionFile.AppendError DecisionFile.Store α → Bool × Option Str
  | .ok _ s => (false, s.content)
  | .error _ s => (true, s.content)

/-- **The evidence store keeps every complete line.** -/
theorem recoverTornTail_keeps (raw : Str) : KeepsLines raw (EvidenceFile.leaves raw) := by
  unfold EvidenceFile.leaves recoverTornTail
  by_cases hwhole : Whole raw
  · rw [if_pos hwhole]
    exact .inl (by rw [upToNewline_whole hwhole])
  · rw [if_neg hwhole]
    simp only
    by_cases hmem : 10 ∈ raw
    · obtain ⟨before, torn, rfl, htorn⟩ := exists_lastNewline hmem
      have hlength : (before ++ 10 :: torn).length = before.length + 1 + torn.length := by
        simp only [List.length_append, List.length_cons]
        omega
      by_cases hreach : torn.length < tailBound
      · rw [lastNewline_long htorn (by omega)]
        refine .inl ?_
        have hcut : (before ++ 10 :: torn).length - min (before ++ 10 :: torn).length tailBound +
            (before.length - ((before ++ 10 :: torn).length -
              min (before ++ 10 :: torn).length tailBound)) + 1 =
            (before ++ 10 :: torn).length - torn.length := by
          omega
        rw [upToNewline, tornLength_append htorn, ← hcut]
      · rw [lastNewline_short htorn (by omega)]
        have hlong : min (before ++ 10 :: torn).length tailBound < (before ++ 10 :: torn).length := by
          omega
        simp only [hlong, if_true]
        exact .inr ⟨rfl, rfl⟩
    · have hnone : ∀ n, lastNewline (raw.drop n) = none := fun n => by
        rw [lastNewline, if_neg (by simpa using fun h => hmem (List.mem_of_mem_drop h))]
      rw [hnone]
      simp only
      split
      · exact .inr ⟨rfl, rfl⟩
      · exact .inl (by rw [upToNewline_of_notMem hmem])

namespace DecisionFile

variable {host : Host} {s : Store} {raw : Str}

theorem content_setFenced (fenced : Bool) : (s.setFenced fenced).content = s.content := rfl

theorem get_store (s : Store) : (get : Call Store) s = .ok s s := rfl

theorem leaves_whole (hcontent : s.content = some raw) (h : Whole raw) :
    leaves (recoverTail host s) = (false, some raw) := by
  have hrun : recoverTail host s = .ok 0 (s.setFenced false) := by
    unfold recoverTail
    simp only [bind, EStateM.bind, get_store, hcontent,
      Option.getD_some, if_pos h]
    rfl
  rw [hrun, leaves, content_setFenced, hcontent]

theorem leaves_uncut (hcontent : s.content = some raw) (h : ¬Whole raw)
    (hfails : host.fails .truncate = true) : leaves (recoverTail host s) = (true, some raw) := by
  have hrun : recoverTail host s = .error (.osError .truncate) s := by
    unfold recoverTail
    simp only [bind, EStateM.bind, get_store, hcontent,
      Option.getD_some, if_neg h, reach, refuseIf, hfails, if_true]
    rfl
  rw [hrun, leaves, hcontent]

theorem leaves_cut (hcontent : s.content = some raw) (h : ¬Whole raw)
    (hfails : host.fails .truncate = false) :
    (leaves (recoverTail host s)).2 = some (repaired (lineBound + 1) raw) := by
  unfold recoverTail
  cases hsync : host.fails .truncateSync <;>
    simp only [bind, EStateM.bind, get_store, hcontent,
      Option.getD_some, if_neg h, reach, refuseIf, hfails, hsync, if_true] <;> rfl

/-- A recovery of the decision store cuts the file, unless the cut fails. -/
theorem keeps_recoverTail (hcontent : s.content = some raw) :
    KeepsLines raw (leaves (recoverTail host s)) ↔
      host.fails .truncate = true ∨ repaired (lineBound + 1) raw = upToNewline raw := by
  by_cases hwhole : Whole raw
  · have hcut : repaired (lineBound + 1) raw = upToNewline raw := by
      rw [repaired, if_pos hwhole, upToNewline_whole hwhole]
    rw [leaves_whole hcontent hwhole]
    exact iff_of_true (.inl (by rw [upToNewline_whole hwhole])) (.inr hcut)
  · cases hfails : host.fails .truncate with
    | true =>
      rw [leaves_uncut hcontent hwhole hfails]
      exact iff_of_true (.inr ⟨rfl, rfl⟩) (.inl rfl)
    | false =>
      have hleft := leaves_cut hcontent hwhole hfails
      -- a file that is cut is no longer as it was
      have hshort : repaired (lineBound + 1) raw ≠ raw := fun heq => hwhole (heq ▸ repaired_whole (Nat.succ_pos _))
      unfold KeepsLines
      rw [hleft]
      simp [hshort]

end DecisionFile

/-- **A store keeps every complete line exactly when the window it looks back in reaches the last
newline.** -/
theorem torn_tails_kept_iff (host : DecisionFile.Host) (s : DecisionFile.Store) (raw : Str) :
    (KeepsLines raw (DecisionFile.leaves (DecisionFile.recoverTail host { s with content := some raw })) ↔
      (10 ∈ raw → host.fails .truncate = true ∨ tornLength raw ≤ DecisionFile.lineBound)) ∧
    (KeepsLines raw (false, recover (some raw)) ↔ (10 ∈ raw → tornLength raw ≤ lineBound)) ∧
    KeepsLines raw (EvidenceFile.leaves raw) := by
  refine ⟨?_, ?_, recoverTornTail_keeps raw⟩
  · rw [DecisionFile.keeps_recoverTail rfl, repaired_iff (Nat.succ_pos _)]
    have hlt : tornLength raw < DecisionFile.lineBound + 1 ↔
        tornLength raw ≤ DecisionFile.lineBound := Nat.lt_succ_iff
    rw [hlt]
    tauto
  · have hkeeps : KeepsLines raw (false, recover (some raw)) ↔
        repaired (lineBound + 1) raw = upToNewline raw := by
      simp [KeepsLines, recover]
    rw [hkeeps, repaired_iff (Nat.succ_pos _)]
    exact imp_congr_right fun _ => Nat.lt_succ_iff

/-- A journal with more behind its last newline than the window holds loses its lines. -/
theorem journal_drops {before torn : Str} (h : 10 ∉ torn) (hlong : lineBound < torn.length) :
    ¬KeepsLines (before ++ 10 :: torn) (false, recover (some (before ++ 10 :: torn))) := by
  have hleft : recover (some (before ++ 10 :: torn)) = some [] := by
    rw [recover, Option.map_some, repaired_long h hlong (Nat.succ_pos _)]
  rw [hleft]
  rintro (heq | ⟨hrefused, -⟩)
  · rw [upToNewline_append h] at heq
    exact absurd (Option.some.inj heq).symm (by simp)
  · cases hrefused

theorem torn_tail_drops_line :
    ¬KeepsLines ([123, 125] ++ 10 :: List.replicate 65537 123)
      (false, recover (some ([123, 125] ++ 10 :: List.replicate 65537 123))) := by
  refine journal_drops (fun h => ?_) (by rw [List.length_replicate]; decide)
  have := List.eq_of_mem_replicate h
  omega

end SayFirst.Plane
