import AideepWebsocket.FileAttachment.Service

/-!
# No attached file is collectable

Any number of syncs and releases run on one database, one repository call at a
time.  The step that takes a file away counts its rows and marks it `ORPHAN` in two
calls; a row that another node adds in between, and has marked `ACTIVE` by then, is
overlooked.

`noneCollectable` says that at rest no attached file is `ORPHAN`, and none is
returned by `findStaleFiles`, in every run in which no `markFilesOrphan` hits such a
file (`OrphansUnattached`).  The invariant is that an attached file is `ACTIVE`, or
that a call is about to mark it so.
-/

namespace AideepWebsocket.FileAttachment

open Library

/-! ### Concurrent calls -/

/-- A call of `syncNodeAttachments` or `releaseNodeAttachments`. -/
structure Call where
  nodeId : NodeId
  phase : Phase
  deriving DecidableEq

/-- The tables, and the calls so far. -/
structure State where
  db : Tables
  calls : List Call
  deriving DecidableEq

inductive Event
  | syncNodeAttachments (nodeId : NodeId) (workspaceId : WorkspaceId) (content : Json)
  | releaseNodeAttachments (nodeId : NodeId)
  | resume (call : ℕ) (now : ℕ)

def step (s3 : S3Service) (s : State) : Event → Option State
  | .syncNodeAttachments nodeId workspaceId content =>
      some { s with
        calls := s.calls ++ [⟨nodeId, syncNodeAttachments s3 workspaceId content⟩] }
  | .releaseNodeAttachments nodeId =>
      some { s with calls := s.calls ++ [⟨nodeId, releaseNodeAttachments⟩] }
  | .resume i now =>
      match s.calls[i]? with
      | none => none
      | some call =>
          (call.phase.call s.db now call.nodeId).map fun (db, phase) =>
            ⟨db, s.calls.set i { call with phase }⟩

/-- Nothing is running. -/
def State.init (db : Tables) : State := ⟨db, []⟩

/-- Every file with an attachment row is `ACTIVE`. -/
def Tables.AttachedActive (db : Tables) : Prop :=
  ∀ file ∈ db.files, db.Attached file.fileId → file.status = .ACTIVE

instance (db : Tables) : Decidable db.AttachedActive := by
  unfold Tables.AttachedActive
  infer_instance

/-- **Once no call is pending, no file that is attached is `ORPHAN`**, and none is
returned for collection. -/
def State.NoneCollectable (s : State) : Prop :=
  (∀ call ∈ s.calls, call.phase.over = true) →
    (∀ file ∈ s.db.files, s.db.Attached file.fileId → file.status ≠ .ORPHAN) ∧
      ∀ threshold, ∀ file ∈ s.db.findStaleFiles threshold, ¬ s.db.Attached file.fileId

/-- The call is about to mark the file `ACTIVE`. -/
def Call.Activates (call : Call) (fileId : FileId) : Prop :=
  match call.phase with
  | .markFilesActive toAdd _ => fileId ∈ toAdd
  | _ => False

instance (call : Call) (fileId : FileId) : Decidable (call.Activates fileId) := by
  unfold Call.Activates
  split <;> infer_instance

/-- Some call is about to mark the file `ACTIVE`. -/
def State.Activating (s : State) (fileId : FileId) : Prop :=
  ∃ call ∈ s.calls, call.Activates fileId

instance (s : State) (fileId : FileId) : Decidable (s.Activating fileId) := by
  unfold State.Activating
  infer_instance

/-- **A file that is marked `ORPHAN` has not been attached again**, or is still to be
marked `ACTIVE` for it. -/
def OrphansUnattached (s : State) (e : Event) (_ : State) : Prop :=
  match e with
  | .resume i _ =>
      ∀ call ∈ s.calls[i]?,
        match call.phase with
        | .markFilesOrphan orphanIds =>
            ∀ fileId ∈ orphanIds, s.db.Attached fileId → s.Activating fileId
        | _ => True
  | _ => True

instance (s : State) (e : Event) (s' : State) : Decidable (OrphansUnattached s e s') := by
  have hcall : ∀ call : Call, Decidable (match call.phase with
      | .markFilesOrphan orphanIds =>
          ∀ fileId ∈ orphanIds, s.db.Attached fileId → s.Activating fileId
      | _ => True) := fun call => by split <;> infer_instance
  unfold OrphansUnattached
  split <;> infer_instance

/-! ### The invariant -/

/-- An attached file is `ACTIVE`, or about to be. -/
def State.Covered (s : State) : Prop :=
  ∀ file ∈ s.db.files, s.db.Attached file.fileId →
    file.status = .ACTIVE ∨ s.Activating file.fileId

variable {s3 : S3Service} {s s' : State} {e : Event}

/-- The files that a step has marked, and those that it has left alone. -/
private theorem file_of_updateMany {db : Tables} {fileIds : Finset FileId}
    {data : FileRow → FileRow} {file : FileRow} (h : file ∈ (db.updateMany fileIds data).files)
    (hdata : ∀ file, (data file).fileId = file.fileId) :
    (∃ old ∈ db.files, file = data old ∧ file.fileId ∈ fileIds) ∨
      file ∈ db.files ∧ file.fileId ∉ fileIds := by
  obtain ⟨old, hold, rfl⟩ := List.mem_map.mp h
  by_cases hid : old.fileId ∈ fileIds
  · rw [if_pos hid]
    exact Or.inl ⟨old, hold, rfl, by rwa [hdata]⟩
  · rw [if_neg hid]
    exact Or.inr ⟨hold, hid⟩

theorem State.Covered.atRest (hC : s.Covered) : s.NoneCollectable := by
  intro hover
  -- at rest nothing is about to be activated
  have hactive : ∀ file ∈ s.db.files, s.db.Attached file.fileId → file.status = .ACTIVE := by
    intro file hfile hattached
    rcases hC file hfile hattached with hactive | ⟨call, hcall, hactivates⟩
    · exact hactive
    · have hend := hover call hcall
      unfold Call.Activates at hactivates
      split at hactivates
      · next hphase =>
          rw [hphase] at hend
          cases hend
      · exact hactivates.elim
  refine ⟨fun file hfile hattached => by simp [hactive file hfile hattached], ?_⟩
  intro threshold file hstale hattached
  obtain ⟨hfile, hcond⟩ := List.mem_filter.mp hstale
  simp [hactive file hfile hattached] at hcond

/-- A call that was about to mark a file still is, or it is the one that goes on. -/
private theorem activating_set {call call' : Call} {i : ℕ} (hcall : s.calls[i]? = some call)
    (hcalls : s'.calls = s.calls.set i call') {fileId : FileId} (h : s.Activating fileId) :
    call.Activates fileId ∨ s'.Activating fileId := by
  obtain ⟨c, hc, hactivates⟩ := h
  obtain ⟨j, hj⟩ := List.mem_iff_getElem?.mp hc
  by_cases hij : i = j
  · subst hij
    rw [hcall] at hj
    obtain rfl := Option.some.inj hj
    exact Or.inl hactivates
  · refine Or.inr ⟨c, ?_, hactivates⟩
    rw [hcalls]
    exact List.mem_of_getElem? (by rwa [List.getElem?_set_ne hij])

private theorem mem_set {call call' : Call} {i : ℕ} (hcall : s.calls[i]? = some call)
    (hcalls : s'.calls = s.calls.set i call') : call' ∈ s'.calls := by
  obtain ⟨hlt, -⟩ := List.getElem?_eq_some_iff.mp hcall
  rw [hcalls]
  exact List.mem_set hlt call'

/-- **One repository call** keeps the invariant. -/
private theorem covered_of_resume (hC : s.Covered) {i now : ℕ} {call : Call} {phase : Phase}
    (hcall : s.calls[i]? = some call)
    (hstep : call.phase.call s.db now call.nodeId = some (s'.db, phase))
    (hguard : OrphansUnattached s (.resume i now) s')
    (hcalls : s'.calls = s.calls.set i { call with phase }) : s'.Covered := by
  have hset : ∀ {fileId}, s.Activating fileId → call.Activates fileId ∨ s'.Activating fileId :=
    fun h => activating_set hcall hcalls h
  have hnew := mem_set hcall hcalls
  have hg := hguard call hcall
  -- what was covered still is, if the file is as it was and the call has not been to mark it
  have hkeep : ∀ {file : FileRow}, file ∈ s.db.files → s.db.Attached file.fileId →
      ¬ call.Activates file.fileId → file.status = .ACTIVE ∨ s'.Activating file.fileId := by
    intro file hfile hattached hnot
    rcases hC file hfile hattached with hactive | hactivating
    · exact Or.inl hactive
    · exact Or.inr ((hset hactivating).resolve_left hnot)
  generalize hdb : s'.db = db at hstep
  rw [State.Covered, hdb]
  intro file hfile hattached
  cases hphase : call.phase with
  | findFileIdsByS3Keys workspaceId s3Keys =>
      rw [hphase] at hstep
      cases hstep
      exact hkeep hfile hattached (by simp [Call.Activates, hphase])
  | findAttachedFileIdsByNodeId referencedIds =>
      rw [hphase] at hstep
      cases hstep
      exact hkeep hfile hattached (by simp [Call.Activates, hphase])
  | createAttachments toAdd toRemove =>
      rw [hphase] at hstep
      cases hstep
      rcases Tables.attached_createAttachments.mp hattached with hold | hadded
      · exact hkeep hfile hold (by simp [Call.Activates, hphase])
      · exact Or.inr ⟨_, hnew, hadded⟩
  | markFilesActive toAdd toRemove =>
      rw [hphase] at hstep
      cases hstep
      rcases file_of_updateMany hfile fun _ => rfl with ⟨old, -, rfl, -⟩ | ⟨hold, hnot⟩
      · exact Or.inl rfl
      · exact hkeep hold hattached (by simpa [Call.Activates, hphase] using hnot)
  | deleteAttachments fileIds =>
      rw [hphase] at hstep
      cases hstep
      exact hkeep hfile hattached.of_deleteAttachments (by simp [Call.Activates, hphase])
  | countAttachmentsByFileIds fileIds =>
      rw [hphase] at hstep
      cases hstep
      exact hkeep hfile hattached (by simp [Call.Activates, hphase])
  | markFilesOrphan orphanIds =>
      rw [hphase] at hstep hg
      cases hstep
      rcases file_of_updateMany hfile fun _ => rfl with ⟨old, -, rfl, hmarked⟩ | ⟨hold, -⟩
      · -- the file is attached again: it is still to be marked for that
        refine Or.inr ((hset (hg _ hmarked hattached)).resolve_left ?_)
        simp [Call.Activates, hphase]
      · exact hkeep hold hattached (by simp [Call.Activates, hphase])
  | ended =>
      rw [hphase] at hstep
      cases hstep
  | rejected =>
      rw [hphase] at hstep
      cases hstep

theorem State.Covered.step (hC : s.Covered) (h : FileAttachment.step s3 s e = some s')
    (hguard : OrphansUnattached s e s') : s'.Covered := by
  -- a new call is not about to mark a file
  have hstart : ∀ nodeId phase, s' = { s with calls := s.calls ++ [⟨nodeId, phase⟩] } →
      s'.Covered := by
    rintro nodeId phase rfl file hfile hattached
    rcases hC file hfile hattached with hactive | ⟨call, hcall, hactivates⟩
    · exact Or.inl hactive
    · exact Or.inr ⟨call, List.mem_append_left _ hcall, hactivates⟩
  cases e with
  | syncNodeAttachments nodeId workspaceId content =>
      exact hstart nodeId _ (Option.some.inj h).symm
  | releaseNodeAttachments nodeId => exact hstart nodeId _ (Option.some.inj h).symm
  | resume i now =>
      simp only [FileAttachment.step] at h
      split at h
      · cases h
      · next call hcall =>
          obtain ⟨⟨db, phase⟩, hstep, rfl⟩ := Option.map_eq_some_iff.mp h
          exact covered_of_resume hC hcall hstep hguard rfl

/-- **No attached file is collectable**, in the runs in which no file is marked
`ORPHAN` that has been attached again. -/
theorem noneCollectable (s3 : S3Service) {db : Tables} (hdb : db.AttachedActive) {es : List Event}
    (hguard : Along (step s3) OrphansUnattached (State.init db) es) :
    Along (step s3) (fun _ _ s' => s'.NoneCollectable) (State.init db) es := by
  refine along_of_invariant (I := State.Covered) ?_ (fun file hfile hattached =>
    Or.inl (hdb file hfile hattached)) hguard
  intro s e s' hstep hC hg
  have hC' := hC.step hstep hg
  exact ⟨hC', hC'.atRest⟩

/-- Node `1` stops showing the image, node `2` starts to show it, one after the
other. -/
def movedImage : List Event :=
  [.syncNodeAttachments 1 7 noImage, .resume 0 10, .resume 0 10, .resume 0 10, .resume 0 10,
    .syncNodeAttachments 2 7 showsImage, .resume 1 20, .resume 1 20, .resume 1 20, .resume 1 20]

theorem movedImage_noneCollectable :
    ((exec (step oneBucket) (State.init (oneImage {1})) movedImage).any fun s =>
      ∀ call ∈ s.calls, call.phase.over = true) = true ∧
      Along (step oneBucket) (fun _ _ s' => s'.NoneCollectable) (State.init (oneImage {1}))
        movedImage :=
  have hactive : (oneImage {1}).AttachedActive := by decide
  ⟨by decide +kernel, noneCollectable oneBucket hactive (by decide +kernel)⟩

/-- The same two syncs; node `2` is done before node `1` marks the file that it has
found without a row. -/
def movedAtOnce : List Event :=
  [.syncNodeAttachments 1 7 noImage, .resume 0 10, .resume 0 10, .resume 0 10,
    .syncNodeAttachments 2 7 showsImage, .resume 1 20, .resume 1 20, .resume 1 20, .resume 1 20,
    .resume 0 30]

theorem movedAtOnce_collectable :
    (oneImage {1}).AttachedActive ∧
      ¬ Along (step oneBucket) (fun _ _ s' => s'.NoneCollectable) (State.init (oneImage {1}))
        movedAtOnce := by
  refine ⟨by decide, fun h => ?_⟩
  have hrun : (exec (step oneBucket) (State.init (oneImage {1})) movedAtOnce).any (fun s =>
      (∀ call ∈ s.calls, call.phase.over = true) ∧
        ∃ file ∈ s.db.files, s.db.Attached file.fileId ∧ file.status = .ORPHAN) = true := by
    decide +kernel
  obtain ⟨s, hs, hrun⟩ := (Option.any_eq_true _ _).mp hrun
  obtain ⟨hover, file, hfile, hattached, horphan⟩ := of_decide_eq_true hrun
  have hnone : s.NoneCollectable := by
    refine h.state (fun _ => ⟨?_, fun threshold => ?_⟩) hs
    · decide
    · simp [State.init, oneImage, Tables.findStaleFiles]
  exact (hnone hover).1 file hfile hattached horphan
end AideepWebsocket.FileAttachment
