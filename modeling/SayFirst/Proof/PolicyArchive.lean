import SayFirst.Lib.Reference
import SayFirst.Spec.PolicyArchive

/-!
# What a failing keep leaves behind

* `step_cases` — the three ways a call can leave the directory.
* `recoverable_iff` — when a later call on a healthy host succeeds.
* `archive_recovers_iff` — the runs after each call of which it does.
-/

namespace SayFirst.Plane.FilePolicyArchive

open Py

variable {py : Interpreter} {host : Host} {version : Str} {content : Bytes} {d : Directory}

/-- The bytes are offered under the version they hash to. -/
structure Offered (py : Interpreter) (version : Str) (content : Bytes) : Prop where
  named : digestPattern.fullmatch version = true
  hashed : versionOf py content = version

/-- What is present under a version hashes to it. -/
def Sound (py : Interpreter) (d : Directory) : Prop :=
  ∀ version content, d.file (.final version) = some content → versionOf py content = version

/-- Each temporary stands beside the final file of its version. -/
def Ready (d : Directory) : Prop :=
  ∀ version, d.file (.final version) = none → d.file (.temporary version) = none

/-- Nothing but the files of the version differs. -/
def Alike (version : Str) (d d' : Directory) : Prop :=
  ∀ other, other ≠ version → d'.file (.final other) = d.file (.final other) ∧
    d'.file (.temporary other) = d.file (.temporary other)

@[simp] theorem file_set_self {name : FileName} {bytes : Option Bytes} :
    (d.set name bytes).file name = bytes := if_pos rfl

@[simp] theorem file_set_ne {name other : FileName} {bytes : Option Bytes} (h : other ≠ name) :
    (d.set name bytes).file other = d.file other := if_neg h

theorem temporary_ne {other : Str} (h : other ≠ version) :
    FileName.temporary other ≠ .temporary version := fun hsame => h (FileName.temporary.inj hsame)

theorem final_ne {other : Str} (h : other ≠ version) :
    FileName.final other ≠ .final version := fun hsame => h (FileName.final.inj hsame)

/-! ## The file operations -/

theorem doing_done {operation : Operation} {change : Directory → Directory}
    (h : host.answer operation = .done) : doing host operation change d = .ok () (change d) := by
  unfold doing
  rw [h]

theorem doing_raises {operation : Operation} (d : Directory) (change : Directory → Directory)
    (h : host.answer operation ≠ .done) : ∃ d', doing host operation change d = .error .osError d' ∧
      (host.answer operation = .failed ∧ d' = d ∨ host.answer operation = .late ∧ d' = change d) := by
  unfold doing
  cases hanswer : host.answer operation with
  | done => exact absurd hanswer h
  | failed => exact ⟨d, rfl, Or.inl ⟨rfl, rfl⟩⟩
  | late => exact ⟨change d, rfl, Or.inr ⟨rfl, rfl⟩⟩

theorem get_run (d : Directory) : (get : Call Directory) d = .ok d d := rfl

/-- A call that changes nothing. -/
theorem doing_id {operation : Operation} : doing host operation id d =
    if host.answer operation = .done then .ok () d else .error .osError d := by
  unfold doing
  cases host.answer operation <;> rfl

/-- What stands under a version. -/
def found (py : Interpreter) (d : Directory) (version : Str) : ArchivedPolicy :=
  match d.file (.final version) with
  | none => ⟨version, .absent, none⟩
  | some content =>
    if versionOf py content ≠ version then ⟨version, .damaged, none⟩
    else ⟨version, .present, some content⟩

theorem readLocked_run {operation : Operation} : readLocked py host operation version d =
    if host.answer operation = .done then .ok (found py d version) d else .error .osError d := by
  unfold readLocked
  by_cases h : host.answer operation = .done
  · rw [bind_of_ok (doing_done h), if_pos h, bind_of_ok (get_run (id d))]
    unfold found
    rw [id]
    cases d.file (.final version) with
    | none => rfl
    | some content => rfl
  · rw [if_neg h, bind_of_error (by rw [doing_id, if_neg h])]

theorem found_absent : (found py d version).state = .absent ↔ d.file (.final version) = none := by
  unfold found
  cases d.file (.final version) with
  | none => exact ⟨fun _ => rfl, fun _ => rfl⟩
  | some content =>
    simp only
    split <;> simp

theorem found_sound (h : Sound py d) {kept : Bytes} (hkept : d.file (.final version) = some kept) :
    found py d version = ⟨version, .present, some kept⟩ := by
  unfold found
  rw [hkept]
  simp only
  rw [if_neg (not_not.2 (h version kept hkept))]

/-- The directory is there, or is made. -/
structure Host.Prepares (host : Host) (d : Directory) : Prop where
  isDir : host.answer .isDir = .done
  made : d.made = false →
    host.answer .mkdir = .done ∧ host.answer .chmod = .done ∧ host.answer .syncParent = .done

theorem ensureDirectory_prepared (h : host.Prepares d) :
    ∃ d', ensureDirectory host d = .ok () d' ∧ d'.file = d.file := by
  unfold ensureDirectory
  rw [bind_of_ok (doing_done h.isDir), bind_of_ok (get_run (id d))]
  cases hmade : d.made with
  | true =>
    refine ⟨d, ?_, rfl⟩
    rw [id, if_pos hmade]
    rfl
  | false =>
    obtain ⟨hmkdir, hchmod, hsync⟩ := h.made hmade
    refine ⟨{ d with made := true }, ?_, rfl⟩
    rw [id, if_neg (by rw [hmade]; decide), bind_of_ok (doing_done hmkdir),
      bind_of_ok (doing_done hchmod), doing_done hsync]
    rfl

theorem ensureDirectory_raises (h : ¬host.Prepares d) :
    ∃ e d', ensureDirectory host d = .error e d' ∧ d'.file = d.file := by
  unfold ensureDirectory
  by_cases hisDir : host.answer .isDir = .done
  · rw [bind_of_ok (doing_done hisDir), bind_of_ok (get_run (id d)), id]
    cases hmade : d.made with
    | true => exact absurd ⟨hisDir, fun hnot => by rw [hmade] at hnot; cases hnot⟩ h
    | false =>
      rw [if_neg (by decide)]
      by_cases hmkdir : host.answer .mkdir = .done
      · rw [bind_of_ok (doing_done hmkdir)]
        by_cases hchmod : host.answer .chmod = .done
        · rw [bind_of_ok (doing_done hchmod), doing_id, if_neg]
          · exact ⟨_, _, rfl, rfl⟩
          · exact fun hsync => h ⟨hisDir, fun _ => ⟨hmkdir, hchmod, hsync⟩⟩
        · rw [bind_of_error (by rw [doing_id, if_neg hchmod])]
          exact ⟨_, _, rfl, rfl⟩
      · obtain ⟨d', hrun, ⟨-, rfl⟩ | ⟨-, rfl⟩⟩ := doing_raises d
          (fun d => { d with made := true }) hmkdir
        · rw [bind_of_error hrun]
          exact ⟨_, _, rfl, rfl⟩
        · rw [bind_of_error hrun]
          exact ⟨_, _, rfl, rfl⟩
  · rw [bind_of_error (by rw [doing_id, if_neg hisDir])]
    exact ⟨_, _, rfl, rfl⟩

/-! ## The temporary -/

/-- Each write the content takes returns. -/
def wroteAll : List (Option ℕ) → Bytes → Bool
  | _, [] => true
  | [], _ => true
  | none :: _, _ => false
  | some n :: writes, content => wroteAll writes (content.drop (n + 1))

/-- The temporary of the version holds the bytes; nothing else differs. -/
structure Staged (version : Str) (bytes : Bytes) (d d' : Directory) : Prop where
  temporary : d'.file (.temporary version) = some bytes
  final : d'.file (.final version) = d.file (.final version)
  alike : Alike version d d'

theorem Staged.set (bytes : Bytes) :
    Staged version bytes d (d.set (.temporary version) (some bytes)) where
  temporary := file_set_self
  final := file_set_ne (by simp)
  alike := fun _ hother => ⟨file_set_ne (by simp), file_set_ne (temporary_ne hother)⟩

theorem Staged.extend {bytes : Bytes} {d' : Directory} (h : Staged version bytes d d')
    (more : Bytes) :
    Staged version (bytes ++ more) d (extend version more d') := by
  unfold FilePolicyArchive.extend
  rw [h.temporary]
  exact {
    temporary := file_set_self
    final := (file_set_ne (by simp)).trans h.final
    alike := fun other hother => ⟨(file_set_ne (by simp)).trans (h.alike other hother).1,
      (file_set_ne (temporary_ne hother)).trans (h.alike other hother).2⟩ }

theorem writeAll_run (writes : List (Option ℕ)) (content : Bytes) {bytes : Bytes}
    {d' : Directory} (h : Staged version bytes d d') :
    if wroteAll writes content then
      ∃ d'', writeAll version writes content d' = .ok () d'' ∧ Staged version (bytes ++ content) d d''
    else ∃ part d'', writeAll version writes content d' = .error .osError d'' ∧
      Staged version part d d'' := by
  induction writes generalizing bytes content d' with
  | nil =>
    cases content with
    | nil => exact ⟨d', rfl, by rwa [List.append_nil]⟩
    | cons b content => exact ⟨_, rfl, h.extend _⟩
  | cons write writes ih =>
    cases content with
    | nil => exact ⟨d', rfl, by rwa [List.append_nil]⟩
    | cons b content =>
      cases write with
      | none => exact ⟨bytes, d', rfl, h⟩
      | some n =>
        have hrest := ih ((b :: content).drop (n + 1)) (h.extend ((b :: content).take (n + 1)))
        rw [List.append_assoc, List.take_append_drop] at hrest
        exact hrest

/-- Every call from the creation of the temporary to its close returns. -/
structure Host.Fills (host : Host) (content : Bytes) : Prop where
  opened : host.answer .openTemporary = .done
  fchmod : host.answer .fchmod = .done
  wrote : wroteAll host.writes content = true
  fsync : host.answer .fsync = .done
  closed : host.answer .closeTemporary = .done

theorem fill_run (host : Host) (content : Bytes) {bytes : Bytes} {d' : Directory} (h : Staged version bytes d d') :
    (∃ d'', fill host version content d' = .ok () d'' ∧ Staged version (bytes ++ content) d d'' ∧
      host.answer .fchmod = .done ∧ wroteAll host.writes content = true ∧
        host.answer .fsync = .done) ∨
    ∃ part e d'', fill host version content d' = .error e d'' ∧ Staged version part d d'' ∧
      ¬host.Fills content := by
  unfold fill
  by_cases hfchmod : host.answer .fchmod = .done
  · rw [bind_of_ok (doing_done hfchmod), id]
    have hwrites := writeAll_run host.writes content h
    by_cases hwrote : wroteAll host.writes content = true
    · rw [if_pos hwrote] at hwrites
      obtain ⟨d'', hrun, hstaged⟩ := hwrites
      rw [bind_of_ok hrun, doing_id]
      by_cases hfsync : host.answer .fsync = .done
      · rw [if_pos hfsync]
        exact Or.inl ⟨d'', rfl, hstaged, hfchmod, hwrote, hfsync⟩
      · rw [if_neg hfsync]
        exact Or.inr ⟨_, _, d'', rfl, hstaged, fun hfills => hfsync hfills.fsync⟩
    · rw [if_neg hwrote] at hwrites
      obtain ⟨part, d'', hrun, hstaged⟩ := hwrites
      rw [bind_of_error hrun]
      exact Or.inr ⟨part, _, d'', rfl, hstaged, fun hfills => hwrote hfills.wrote⟩
  · rw [bind_of_error (by rw [doing_id, if_neg hfchmod])]
    exact Or.inr ⟨bytes, _, d', rfl, h, fun hfills => hfchmod hfills.fchmod⟩

/-- The temporary is created and filled. -/
def stage (host : Host) (version : Str) (content : Bytes) : Call Unit := do
  openTemporary host version
  closing host (fill host version content)

theorem stage_exists (h : d.file (.temporary version) ≠ none) :
    stage host version content d = .error .fileExists d := by
  unfold stage openTemporary
  refine bind_of_error ?_
  rw [bind_of_ok (get_run d), if_pos (Option.isSome_iff_ne_none.2 h)]
  rfl

theorem stage_run (host : Host) (content : Bytes) (h : d.file (.temporary version) = none) :
    (host.answer .openTemporary = .failed ∧ stage host version content d = .error .osError d) ∨
    (host.Fills content ∧ ∃ d', stage host version content d = .ok () d' ∧
      Staged version content d d') ∨
    (host.answer .openTemporary ≠ .failed ∧ ¬host.Fills content ∧
      ∃ part e d', stage host version content d = .error e d' ∧ Staged version part d d') := by
  have hopen : openTemporary host version d =
      doing host .openTemporary (fun d => d.set (.temporary version) (some [])) d := by
    unfold openTemporary
    rw [bind_of_ok (get_run d), if_neg (by rw [h]; decide)]
  unfold stage
  by_cases hopened : host.answer .openTemporary = .done
  · have hnot : host.answer .openTemporary ≠ .failed := by rw [hopened]; decide
    rw [bind_of_ok (hopen.trans (doing_done hopened)), closing]
    rcases fill_run host content (Staged.set [] : Staged version [] d _)
      with ⟨d', hrun, hstaged, hfchmod, hwrote, hfsync⟩ | ⟨part, e, d', hrun, hstaged, hnot'⟩
    · simp only [hrun, doing_id]
      by_cases hclosed : host.answer .closeTemporary = .done
      · rw [if_pos hclosed]
        exact Or.inr (Or.inl ⟨⟨hopened, hfchmod, hwrote, hfsync, hclosed⟩, d', rfl, hstaged⟩)
      · rw [if_neg hclosed]
        exact Or.inr (Or.inr ⟨hnot, fun hfills => hclosed hfills.closed, _, _, d', rfl, hstaged⟩)
    · simp only [hrun, doing_id]
      by_cases hclosed : host.answer .closeTemporary = .done
      · rw [if_pos hclosed]
        exact Or.inr (Or.inr ⟨hnot, hnot', part, e, d', rfl, hstaged⟩)
      · rw [if_neg hclosed]
        exact Or.inr (Or.inr ⟨hnot, hnot', part, _, d', rfl, hstaged⟩)
  · obtain ⟨d', hrun, ⟨hfailed, rfl⟩ | ⟨hlate, rfl⟩⟩ := doing_raises d
      (fun d => d.set (.temporary version) (some [])) hopened
    · rw [bind_of_error (hopen.trans hrun)]
      exact Or.inl ⟨hfailed, rfl⟩
    · rw [bind_of_error (hopen.trans hrun)]
      exact Or.inr (Or.inr ⟨by rw [hlate]; decide, fun hfills => hopened hfills.opened, [], _, _, rfl,
        Staged.set []⟩)

/-! ## The final file -/

/-- The version is kept with the bytes; nothing else differs. -/
structure Published (version : Str) (bytes : Bytes) (d d' : Directory) : Prop where
  final : d'.file (.final version) = some bytes
  alike : Alike version d d'

/-- The directory a call ends in. -/
def Ends {α : Type} (result : EStateM.Result ArchiveError Directory α) (d : Directory) : Prop :=
  match result with
  | .ok _ d' | .error _ d' => d' = d

theorem Published.unlinked {bytes : Bytes} {d' : Directory} (h : Published version bytes d d') :
    Published version bytes d (d'.set (.temporary version) none) where
  final := (file_set_ne (by simp)).trans h.final
  alike := fun other hother => ⟨(file_set_ne (by simp)).trans (h.alike other hother).1,
    (file_set_ne (temporary_ne hother)).trans (h.alike other hother).2⟩

/-- What the link makes. -/
def linked (version : Str) (d : Directory) : Directory :=
  d.set (.final version) (d.file (.temporary version))

theorem Staged.linked {bytes : Bytes} {d' : Directory} (h : Staged version bytes d d') :
    Published version bytes d (linked version d') where
  final := file_set_self.trans h.temporary
  alike := fun other hother => ⟨(file_set_ne (final_ne hother)).trans (h.alike other hother).1,
    (file_set_ne (by simp)).trans (h.alike other hother).2⟩

theorem link_run (host : Host) (h : d.file (.final version) = none) : link host version d =
    (doing host .link (linked version) >>= fun _ => pure true) d := by
  unfold link
  rw [bind_of_ok (get_run d), if_neg (by rw [h]; decide)]
  rfl

theorem publish_run (py : Interpreter) (host : Host) {d' : Directory} (h : Staged version content d d')
    (hfinal : d.file (.final version) = none) :
    (host.answer .link = .failed ∧ publish py host version content d' = .error .osError d') ∨
    (host.answer .link ≠ .failed ∧ ∃ d'', Ends (publish py host version content d') d'' ∧
      Published version content d d'') := by
  have hlink := link_run host (h.final.trans hfinal)
  unfold publish
  by_cases hlinked : host.answer .link = .done
  · refine Or.inr ⟨by rw [hlinked]; decide, ?_⟩
    have hrun : link host version d' = .ok true (linked version d') := by
      rw [hlink, bind_of_ok (doing_done hlinked)]
      rfl
    rw [bind_of_ok hrun]
    by_cases hunlink : host.answer .unlink = .done
    · rw [bind_of_ok (doing_done hunlink)]
      by_cases hsync : host.answer .syncDirectory = .done
      · rw [bind_of_ok (doing_done hsync)]
        exact ⟨_, rfl, h.linked.unlinked⟩
      · rw [bind_of_error (by rw [doing_id, if_neg hsync])]
        exact ⟨_, rfl, h.linked.unlinked⟩
    · obtain ⟨d'', hrun, ⟨-, rfl⟩ | ⟨-, rfl⟩⟩ := doing_raises
        (linked version d') (fun d => d.set (.temporary version) none) hunlink
      · rw [bind_of_error hrun]
        exact ⟨_, rfl, h.linked⟩
      · rw [bind_of_error hrun]
        exact ⟨_, rfl, h.linked.unlinked⟩
  · obtain ⟨d'', hrun, ⟨hfailed, rfl⟩ | ⟨hlate, rfl⟩⟩ := doing_raises d'
      (linked version) hlinked
    · refine Or.inl ⟨hfailed, bind_of_error ?_⟩
      rw [hlink, bind_of_error hrun]
    · refine Or.inr ⟨by rw [hlate]; decide, _, ?_, h.linked⟩
      rw [bind_of_error (hlink.trans (bind_of_error hrun))]
      rfl

/-! ## The call -/

/-- The call finds nothing under the version, and comes as far as creating its temporary. -/
structure Creates (py : Interpreter) (d : Directory) (call : Kept) : Prop where
  offered : Offered py call.version call.content
  absent : d.file (.final call.version) = none
  free : d.file (.temporary call.version) = none
  read : call.host.answer .read = .done
  prepared : call.host.Prepares d
  created : call.host.answer .openTemporary ≠ .failed

/-- The call creates its temporary, and fails before the temporary is linked. -/
structure Strands (py : Interpreter) (d : Directory) (call : Kept) : Prop where
  creates : Creates py d call
  fails : ¬(call.host.Fills call.content ∧ call.host.answer .link ≠ .failed)

variable {call : Kept}

theorem keep_run (h : Offered py version content) : keep py host version content d =
    (readLocked py host .read version >>= fun existing =>
      if existing.state ≠ .absent then pure existing else do
        ensureDirectory host
        stage host version content
        publish py host version content) d := by
  unfold keep stage
  rw [if_neg (by rw [h.named]; decide), if_neg (by rw [h.hashed]; simp)]
  simp only [bind_assoc]

theorem step_of_ends {d' : Directory}
    (h : Ends (keep py call.host call.version call.content d) d') : step py d call = d' := by
  unfold step
  unfold Ends at h
  split at h <;> rename_i hrun <;> rw [hrun] <;> exact h

theorem ends_of_ok {α : Type} {result : EStateM.Result ArchiveError Directory α} {a : α}
    {d' : Directory} (h : result = .ok a d') : Ends result d' := by
  rw [h]
  rfl

theorem ends_of_error {α : Type} {result : EStateM.Result ArchiveError Directory α}
    {e : ArchiveError} {d' : Directory} (h : result = .error e d') : Ends result d' := by
  rw [h]
  rfl

/-- A call that is not offered its version's bytes changes nothing. -/
theorem keep_refused (h : ¬Offered py call.version call.content) : step py d call = d := by
  refine step_of_ends ?_
  unfold keep
  by_cases hnamed : digestPattern.fullmatch call.version = true
  · rw [if_neg (by rw [hnamed]; decide),
      if_pos fun hhashed => h ⟨hnamed, hhashed⟩]
    rfl
  · rw [if_pos (by simpa using hnamed)]
    rfl

theorem keep_unread (h : Offered py version content) (hread : host.answer .read ≠ .done) :
    keep py host version content d = .error .osError d := by
  rw [keep_run h, bind_of_error (readLocked_run.trans (if_neg hread))]

/-- What stands under the version is answered, and left as it is. -/
theorem keep_found (h : Offered py version content) (hread : host.answer .read = .done)
    (hfinal : d.file (.final version) ≠ none) :
    keep py host version content d = .ok (found py d version) d := by
  rw [keep_run h, bind_of_ok (readLocked_run.trans (if_pos hread)),
    if_pos fun habsent => hfinal (found_absent.1 habsent)]
  rfl

theorem keep_absent (h : Offered py version content) (hread : host.answer .read = .done)
    (hfinal : d.file (.final version) = none) : keep py host version content d =
      (ensureDirectory host >>= fun _ => stage host version content >>= fun _ =>
        publish py host version content) d := by
  rw [keep_run h, bind_of_ok (readLocked_run.trans (if_pos hread)),
    if_neg (not_not.2 (found_absent.2 hfinal))]

theorem Alike.of_file {d₁ d' : Directory} (h : Alike version d₁ d') (hfile : d₁.file = d.file) :
    Alike version d d' := fun other hother => by rw [← hfile]; exact h other hother

/-- **The three ways a call leaves the directory**: its files as they were, a temporary that nothing
links, or the version published. -/
theorem step_cases (py : Interpreter) (d : Directory) (call : Kept) :
    (¬Creates py d call ∧ (step py d call).file = d.file) ∨
    (Strands py d call ∧ ∃ part, Staged call.version part d (step py d call)) ∨
    (Creates py d call ∧ ¬Strands py d call ∧
      Published call.version call.content d (step py d call)) := by
  by_cases hoffered : Offered py call.version call.content
  · by_cases hread : call.host.answer .read = .done
    · by_cases hfinal : d.file (.final call.version) = none
      · have hkeep := keep_absent hoffered hread hfinal
        by_cases hprepared : call.host.Prepares d
        · obtain ⟨d₁, hensure, hfile⟩ := ensureDirectory_prepared hprepared
          rw [bind_of_ok hensure] at hkeep
          by_cases hfree : d.file (.temporary call.version) = none
          · have hfree₁ : d₁.file (.temporary call.version) = none := by rw [hfile, hfree]
            have hfinal₁ : d₁.file (.final call.version) = none := by rw [hfile, hfinal]
            rcases stage_run call.host call.content hfree₁ with
              ⟨hfailed, hstage⟩ | ⟨hfills, d₂, hstage, hstaged⟩ |
              ⟨hcreated, hnot, part, e, d₂, hstage, hstaged⟩
            · rw [bind_of_error hstage] at hkeep
              refine Or.inl ⟨fun hcreates => hcreates.created hfailed, ?_⟩
              rw [step_of_ends (ends_of_error hkeep), hfile]
            · rw [bind_of_ok hstage] at hkeep
              have hcreates : Creates py d call := ⟨hoffered, hfinal, hfree, hread, hprepared,
                by rw [hfills.opened]; decide⟩
              rcases publish_run py call.host hstaged hfinal₁ with ⟨hlink, hpublish⟩ |
                ⟨hlink, d₃, hends, hpublished⟩
              · refine Or.inr (Or.inl ⟨⟨hcreates, fun h => h.2 hlink⟩, call.content, ?_⟩)
                rw [step_of_ends (ends_of_error (hkeep.trans hpublish))]
                exact ⟨hstaged.temporary, hstaged.final.trans (by rw [hfile]),
                  hstaged.alike.of_file hfile⟩
              · refine Or.inr (Or.inr ⟨hcreates, fun hstrands => hstrands.fails ⟨hfills, hlink⟩, ?_⟩)
                rw [← hkeep] at hends
                rw [step_of_ends hends]
                exact ⟨hpublished.final, hpublished.alike.of_file hfile⟩
            · rw [bind_of_error hstage] at hkeep
              have hcreates : Creates py d call :=
                ⟨hoffered, hfinal, hfree, hread, hprepared, hcreated⟩
              refine Or.inr (Or.inl ⟨⟨hcreates, fun h => hnot h.1⟩, part, ?_⟩)
              rw [step_of_ends (ends_of_error hkeep)]
              exact ⟨hstaged.temporary, hstaged.final.trans (by rw [hfile]),
                hstaged.alike.of_file hfile⟩
          · rw [bind_of_error (stage_exists (by rwa [hfile]))] at hkeep
            refine Or.inl ⟨fun hcreates => hfree hcreates.free, ?_⟩
            rw [step_of_ends (ends_of_error hkeep), hfile]
        · obtain ⟨e, d₁, hensure, hfile⟩ := ensureDirectory_raises hprepared
          rw [bind_of_error hensure] at hkeep
          refine Or.inl ⟨fun hcreates => hprepared hcreates.prepared, ?_⟩
          rw [step_of_ends (ends_of_error hkeep), hfile]
      · refine Or.inl ⟨fun hcreates => hfinal hcreates.absent, ?_⟩
        rw [step_of_ends (ends_of_ok (keep_found hoffered hread hfinal))]
    · refine Or.inl ⟨fun hcreates => hread hcreates.read, ?_⟩
      rw [step_of_ends (ends_of_error (keep_unread hoffered hread))]
  · exact Or.inl ⟨fun h => hoffered h.offered, by rw [keep_refused hoffered]⟩

/-- What is kept is never rewritten. -/
theorem final_step {kept : Bytes} (hkept : d.file (.final version) = some kept) :
    (step py d call).file (.final version) = some kept := by
  by_cases hversion : version = call.version
  · subst hversion
    rcases step_cases py d call with ⟨-, hfile⟩ | ⟨hstrands, -⟩ | ⟨hcreates, -⟩
    · rw [hfile, hkept]
    · rw [hstrands.creates.absent] at hkept
      cases hkept
    · rw [hcreates.absent] at hkept
      cases hkept
  · rcases step_cases py d call with ⟨-, hfile⟩ | ⟨-, part, hstaged⟩ | ⟨-, -, hpublished⟩
    · rw [hfile, hkept]
    · rw [(hstaged.alike version hversion).1, hkept]
    · rw [(hpublished.alike version hversion).1, hkept]

theorem sound_step (h : Sound py d) (call : Kept) : Sound py (step py d call) := by
  intro version kept hkept
  by_cases hversion : version = call.version
  · subst hversion
    rcases step_cases py d call with ⟨-, hfile⟩ | ⟨-, part, hstaged⟩ | ⟨hcreates, -, hpublished⟩
    · exact h call.version kept (by rw [← hfile]; exact hkept)
    · exact h call.version kept (by rw [← hstaged.final]; exact hkept)
    · rw [hpublished.final] at hkept
      cases hkept
      exact hcreates.offered.hashed
  · rcases step_cases py d call with ⟨-, hfile⟩ | ⟨-, part, hstaged⟩ | ⟨-, -, hpublished⟩
    · exact h version kept (by rw [← hfile]; exact hkept)
    · exact h version kept (by rw [← (hstaged.alike version hversion).1]; exact hkept)
    · exact h version kept (by rw [← (hpublished.alike version hversion).1]; exact hkept)

/-- A call leaves no temporary alone exactly when it does not strand one. -/
theorem ready_step_iff (h : Ready d) (call : Kept) :
    Ready (step py d call) ↔ ¬Strands py d call := by
  constructor
  · intro hready hstrands
    rcases step_cases py d call with ⟨hnot, -⟩ | ⟨-, part, hstaged⟩ | ⟨-, hnot, -⟩
    · exact hnot hstrands.creates
    · have hnone := hready call.version (hstaged.final.trans hstrands.creates.absent)
      rw [hstaged.temporary] at hnone
      cases hnone
    · exact hnot hstrands
  · intro hnot version hfinal
    rcases step_cases py d call with ⟨-, hfile⟩ | ⟨hstrands, -⟩ | ⟨-, -, hpublished⟩
    · rw [hfile] at hfinal ⊢
      exact h version hfinal
    · exact absurd hstrands hnot
    · by_cases hversion : version = call.version
      · rw [hversion, hpublished.final] at hfinal
        cases hfinal
      · obtain ⟨hsame, htemporary⟩ := hpublished.alike version hversion
        rw [htemporary]
        exact h version (by rw [← hsame]; exact hfinal)

/-! ## A later call -/

/-- A call of `keep` on a healthy host answers that the bytes offered are present. -/
def Recoverable (py : Interpreter) (d : Directory) : Prop :=
  ∀ version content, Offered py version content → ∃ kept d',
    keep py .healthy version content d = .ok kept d' ∧ kept.version = version ∧
      kept.state = .present ∧ ∃ bytes, kept.content = some bytes ∧ versionOf py bytes = version

theorem publish_healthy {d' : Directory} (h : d'.file (.final version) = none) :
    ∃ d'', publish py .healthy version content d' = .ok ⟨version, .present, some content⟩ d'' := by
  have hrun : link .healthy version d' = .ok true (linked version d') := by
    rw [link_run .healthy h, bind_of_ok (doing_done rfl)]
    rfl
  unfold publish
  rw [bind_of_ok hrun, bind_of_ok (doing_done rfl), bind_of_ok (doing_done rfl)]
  exact ⟨_, rfl⟩

theorem keep_healthy (hoffered : Offered py version content)
    (hfinal : d.file (.final version) = none) (hfree : d.file (.temporary version) = none) :
    ∃ d', keep py .healthy version content d = .ok ⟨version, .present, some content⟩ d' := by
  have hprepared : Host.healthy.Prepares d := ⟨rfl, fun _ => ⟨rfl, rfl, rfl⟩⟩
  have hwrote : wroteAll [] content = true := by cases content <;> rfl
  obtain ⟨d₁, hensure, hfile⟩ := ensureDirectory_prepared hprepared
  rw [keep_absent hoffered rfl hfinal, bind_of_ok hensure]
  rcases stage_run .healthy content (show d₁.file (.temporary version) = none by
    rw [hfile, hfree]) with ⟨hfailed, -⟩ | ⟨-, d₂, hstage, hstaged⟩ | ⟨-, hnot, -⟩
  · cases hfailed
  · rw [bind_of_ok hstage]
    exact publish_healthy (hstaged.final.trans (by rw [hfile, hfinal]))
  · exact absurd ⟨rfl, rfl, hwrote, rfl, rfl⟩ hnot

theorem recoverable_iff (h : Sound py d) : Recoverable py d ↔
    ∀ version content, Offered py version content → d.file (.final version) = none →
      d.file (.temporary version) = none := by
  constructor
  · intro hrecoverable version content hoffered hfinal
    by_contra hfree
    obtain ⟨kept, d', hkeep, -⟩ := hrecoverable version content hoffered
    have hprepared : Host.healthy.Prepares d := ⟨rfl, fun _ => ⟨rfl, rfl, rfl⟩⟩
    obtain ⟨d₁, hensure, hfile⟩ := ensureDirectory_prepared hprepared
    rw [keep_absent hoffered rfl hfinal, bind_of_ok hensure,
      bind_of_error (stage_exists (by rwa [hfile]))] at hkeep
    cases hkeep
  · intro hfree version content hoffered
    cases hfinal : d.file (.final version) with
    | none =>
      obtain ⟨d', hkeep⟩ := keep_healthy hoffered hfinal (hfree version content hoffered hfinal)
      exact ⟨_, d', hkeep, rfl, rfl, content, rfl, hoffered.hashed⟩
    | some bytes =>
      refine ⟨_, d, keep_found hoffered rfl (by rw [hfinal]; simp), ?_⟩
      rw [found_sound h hfinal]
      exact ⟨rfl, rfl, bytes, rfl, h version bytes hfinal⟩

/-- Behind a call that strands its temporary, the same bytes cannot be kept. -/
theorem Strands.unrecoverable (hsound : Sound py d) (hstrands : Strands py d call) :
    ¬Recoverable py (step py d call) := by
  intro hrecoverable
  have hfree := (recoverable_iff (sound_step hsound call)).1 hrecoverable
    call.version call.content hstrands.creates.offered
  rcases step_cases py d call with ⟨hnot, -⟩ | ⟨-, part, hstaged⟩ | ⟨-, hnot, -⟩
  · exact hnot hstrands.creates
  · have hnone := hfree (hstaged.final.trans hstrands.creates.absent)
    exact absurd (hstaged.temporary.symm.trans hnone) (by simp)
  · exact hnot hstrands

/-! ## Runs -/

/-- An archive as `recover` leaves it: what is present hashes to its version, and there is no
temporary. -/
structure Recovered (py : Interpreter) (d : Directory) : Prop where
  sound : Sound py d
  free : ∀ version, d.file (.temporary version) = none

theorem sound_after (h : Sound py d) (calls : List Kept) : Sound py (after py d calls) := by
  induction calls generalizing d with
  | nil => exact h
  | cons call calls ih => exact ih (sound_step h call)

theorem final_after {kept : Bytes} (h : d.file (.final version) = some kept) (calls : List Kept) :
    (after py d calls).file (.final version) = some kept := by
  induction calls generalizing d with
  | nil => exact h
  | cons call calls ih => exact ih (final_step h)

theorem after_append (before behind : List Kept) :
    after py d (before ++ behind) = after py (after py d before) behind := List.foldl_append

theorem after_singleton : after py d [call] = step py d call := rfl

/-- While no call strands a temporary, none stands alone. -/
theorem ready_after (h : Ready d) {calls : List Kept}
    (hcalls : ∀ before call behind, calls = before ++ call :: behind →
      ¬Strands py (after py d before) call) : Ready (after py d calls) := by
  induction calls using List.reverseRecOn with
  | nil => exact h
  | append_singleton calls call ih =>
    rw [after_append]
    refine (ready_step_iff (ih fun before earlier behind hsplit => ?_) call).2
      (hcalls calls call [] rfl)
    exact hcalls before earlier (behind ++ [call]) (by rw [hsplit]; simp)

/-- What a run of calls owes whatever fails: versions that hash to their bytes, never rewritten. -/
structure Addressed (py : Interpreter) (d : Directory) (calls : List Kept) : Prop where
  sound : ∀ before, before <+: calls → Sound py (after py d before)
  kept : ∀ before behind version bytes, calls = before ++ behind →
    (after py d before).file (.final version) = some bytes →
    (after py d calls).file (.final version) = some bytes

/-- **An archive is content addressed whatever fails, and a later call of `keep` succeeds behind
every call of a run exactly when none of them created a temporary and failed before linking it.** -/
theorem archive_recovers_iff (py : Interpreter) (d : Directory) (hd : Recovered py d)
    (calls : List Kept) : Addressed py d calls ∧
      ((∀ before, before <+: calls → Recoverable py (after py d before)) ↔
        ∀ before call behind, calls = before ++ call :: behind →
          ¬Strands py (after py d before) call) := by
  refine ⟨⟨fun before _ => sound_after hd.sound before, ?_⟩, ?_, ?_⟩
  · rintro before behind version bytes rfl hkept
    rw [after_append]
    exact final_after hkept behind
  · rintro hrecoverable before call behind rfl hstrands
    have hprefix : before ++ [call] <+: before ++ call :: behind := ⟨behind, by simp⟩
    have hlater := hrecoverable _ hprefix
    rw [after_append, after_singleton] at hlater
    exact hstrands.unrecoverable (sound_after hd.sound before) hlater
  · rintro hcalls before ⟨behind, rfl⟩
    refine (recoverable_iff (sound_after hd.sound _)).2 fun version content _ hfinal => ?_
    refine ready_after (fun version _ => hd.free version) (fun earlier call rest hsplit => ?_)
      version hfinal
    exact hcalls earlier call (rest ++ behind) (by rw [hsplit]; simp)

/-- A directory nobody has made. -/
def empty : Directory := ⟨false, fun _ => none⟩

theorem recovered_empty : Recovered py empty :=
  ⟨fun _ _ h => (by cases h), fun _ => rfl⟩

def emptyVersion : Str := versionOf reference []

/-- A disk that is full at the first sync of the file. -/
def fullHost : Host := ⟨fun operation => if operation = .fsync then .failed else .done, []⟩

theorem archive_recovers_iff_sample : Addressed reference empty [⟨emptyVersion, [], .healthy⟩] ∧
    ((∀ before, before <+: [⟨emptyVersion, [], .healthy⟩] →
        Recoverable reference (after reference empty before)) ↔
      ∀ before call behind, [⟨emptyVersion, [], .healthy⟩] = before ++ call :: behind →
        ¬Strands reference (after reference empty before) call) :=
  archive_recovers_iff reference empty recovered_empty [⟨emptyVersion, [], .healthy⟩]

/-- The call that meets it. -/
def fullCall : Kept := ⟨emptyVersion, [], fullHost⟩

theorem fullCall_strands : Strands reference empty fullCall :=
  ⟨⟨⟨by decide +kernel, rfl⟩, rfl, rfl, rfl, ⟨rfl, fun _ => ⟨rfl, rfl, rfl⟩⟩, by decide⟩,
    fun hfilled => (by cases hfilled.1.fsync)⟩

/-- Behind a sync that failed, the same bytes cannot be kept any more. -/
theorem failed_sync_strands : ¬∀ calls before, before <+: calls →
    Recoverable reference (after reference empty before) := by
  intro h
  have hlater := h [fullCall] [fullCall] List.prefix_rfl
  rw [after_singleton] at hlater
  exact fullCall_strands.unrecoverable recovered_empty.sound hlater

end SayFirst.Plane.FilePolicyArchive
