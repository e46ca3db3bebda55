import AideepWebsocket.FileAttachment.Service

/-!
# Retrying a sync

A sync changes the attachments before the statuses that it derives from the change.
If it stops in between, a second run finds the attachments as they should be and has
nothing to derive.

A first run is any run of `attempt` from the original tables; it stops before the
call that fails, or after it if the call has been executed and only its answer is
lost.  `finish` says what the tables become if a run goes on from where it is, and
`Stopped` what they are wherever it has stopped.  `heals_iff` compares two ways to go
on: finishing, and starting again.  They agree exactly if no file is `Stranded`.
-/

namespace AideepWebsocket.FileAttachment

open Library

/-- One repository call of a run on behalf of the node. -/
def attempt (nodeId : NodeId) (run : Tables × Phase) (now : ℕ) : Option (Tables × Phase) :=
  run.2.call run.1 now nodeId

/-- A file is `ACTIVE` exactly if it has an attachment row. -/
def Tables.ActiveIffAttached (db : Tables) : Prop :=
  ∀ file ∈ db.files, file.status = .ACTIVE ↔ db.Attached file.fileId

instance (db : Tables) : Decidable db.ActiveIffAttached := by
  unfold Tables.ActiveIffAttached
  infer_instance

/-- The attachment rows, and the statuses of the files. -/
structure View where
  attachments : Finset (FileId × NodeId)
  statuses : List (FileId × FileStatus)
  deriving DecidableEq

def Tables.view (db : Tables) : View :=
  ⟨db.attachments, db.files.map fun file => (file.fileId, file.status)⟩

/-- A file whose status a second run does not mend: it has been attached and has no
other row, and was not yet marked `ACTIVE`; or it has been detached and has no row
left, and was not yet marked `ORPHAN`. -/
def Stranded (db : Tables) (nodeId : NodeId) (phase : Phase) (fileId : FileId) : Prop :=
  match phase with
  | .markFilesActive toAdd _ =>
      fileId ∈ toAdd ∧ ¬ ∃ row ∈ db.attachments, row.1 = fileId ∧ row.2 ≠ nodeId
  | .countAttachmentsByFileIds fileIds => fileId ∈ fileIds ∧ ¬ db.Attached fileId
  | .markFilesOrphan orphanIds => fileId ∈ orphanIds
  | _ => False

instance (db : Tables) (nodeId : NodeId) (phase : Phase) (fileId : FileId) :
    Decidable (Stranded db nodeId phase fileId) := by
  unfold Stranded
  induction phase using Phase.casesOn <;> infer_instance

/-! ### Going on to the end -/

variable {db db' : Tables} {nodeId : NodeId} {phase phase' : Phase}

namespace Tables

@[simp] theorem createAttachments_empty : db.createAttachments nodeId ∅ = db := by
  simp [createAttachments]

@[simp] theorem deleteAttachments_empty : db.deleteAttachments nodeId ∅ = db := by
  simp [deleteAttachments]

@[simp] theorem updateMany_empty (data : FileRow → FileRow) : db.updateMany ∅ data = db := by
  simp [updateMany]

/-- `orphanUnreferencedFiles`, as one change of the tables. -/
def orphaned (db : Tables) (fileIds : Finset FileId) (now : ℕ) : Tables :=
  db.markFilesOrphan (fileIds.filter fun fileId => ¬ db.Attached fileId) now

def toAdd (db : Tables) (nodeId : NodeId) (referencedIds : Finset FileId) : Finset FileId :=
  referencedIds \ db.findAttachedFileIdsByNodeId nodeId

def toRemove (db : Tables) (nodeId : NodeId) (referencedIds : Finset FileId) : Finset FileId :=
  db.findAttachedFileIdsByNodeId nodeId \ referencedIds

/-- The first half of a sync. -/
def added (db : Tables) (nodeId : NodeId) (referencedIds : Finset FileId) : Tables :=
  (db.createAttachments nodeId (db.toAdd nodeId referencedIds)).markFilesActive
    (db.toAdd nodeId referencedIds)

/-- The second half, up to the statuses. -/
def removed (db : Tables) (nodeId : NodeId) (referencedIds : Finset FileId) : Tables :=
  (db.added nodeId referencedIds).deleteAttachments nodeId (db.toRemove nodeId referencedIds)

/-- What a sync changes, in one piece. -/
def synced (db : Tables) (nodeId : NodeId) (referencedIds : Finset FileId) : Tables :=
  (db.removed nodeId referencedIds).orphaned (db.toRemove nodeId referencedIds) 0

end Tables

/-- What the tables become from here. -/
def finish (nodeId : NodeId) (db : Tables) : Phase → Tables
  | .findFileIdsByS3Keys workspaceId s3Keys =>
      db.synced nodeId (db.findFileIdsByS3Keys s3Keys workspaceId)
  | .findAttachedFileIdsByNodeId referencedIds => db.synced nodeId referencedIds
  | .createAttachments toAdd toRemove =>
      (((db.createAttachments nodeId toAdd).markFilesActive toAdd).deleteAttachments nodeId
        toRemove).orphaned toRemove 0
  | .markFilesActive toAdd toRemove =>
      ((db.markFilesActive toAdd).deleteAttachments nodeId toRemove).orphaned toRemove 0
  | .deleteAttachments fileIds => (db.deleteAttachments nodeId fileIds).orphaned fileIds 0
  | .countAttachmentsByFileIds fileIds => db.orphaned fileIds 0
  | .markFilesOrphan orphanIds => db.markFilesOrphan orphanIds 0
  | .ended | .rejected => db

@[simp] theorem finish_removeAttachments (toRemove : Finset FileId) :
    finish nodeId db (removeAttachments toRemove) =
      (db.deleteAttachments nodeId toRemove).orphaned toRemove 0 := by
  unfold removeAttachments
  split
  · next hnone =>
      subst hnone
      simp [finish, Tables.orphaned, Tables.markFilesOrphan]
  · rfl

@[simp] theorem finish_diffAttachments (referencedIds : Finset FileId) :
    finish nodeId db (diffAttachments referencedIds (db.findAttachedFileIdsByNodeId nodeId)) =
      db.synced nodeId referencedIds := by
  unfold diffAttachments
  dsimp only
  split
  · next hnone =>
      simp [Tables.synced, Tables.removed, Tables.added, Tables.toAdd, Tables.toRemove,
        Tables.markFilesActive, hnone]
  · rfl

@[simp] theorem finish_orphanUnreferencedFiles (fileIds : Finset FileId) :
    finish nodeId db (orphanUnreferencedFiles fileIds (db.countAttachmentsByFileIds fileIds)) =
      db.orphaned fileIds 0 := by
  have hsame : fileIds.filter (fun fileId => db.countAttachmentsByFileIds fileIds fileId = none) =
      fileIds.filter fun fileId => ¬ db.Attached fileId :=
    Finset.filter_congr fun fileId hmem => Tables.countAttachmentsByFileIds_eq_none hmem
  unfold orphanUnreferencedFiles
  dsimp only
  rw [hsame]
  split
  · next hnone => simp [finish, Tables.orphaned, Tables.markFilesOrphan, hnone]
  · rfl

/-- **Each repository call leaves what the tables will become**, up to the time at
which a file is orphaned. -/
theorem view_finish_of_call {now : ℕ} (h : phase.call db now nodeId = some (db', phase')) :
    (finish nodeId db' phase').view = (finish nodeId db phase).view := by
  cases phase with
  | findFileIdsByS3Keys workspaceId s3Keys =>
      cases h
      rfl
  | findAttachedFileIdsByNodeId referencedIds =>
      cases h
      rw [finish_diffAttachments]
      rfl
  | createAttachments toAdd toRemove =>
      cases h
      rfl
  | markFilesActive toAdd toRemove =>
      cases h
      rw [finish_removeAttachments]
      rfl
  | deleteAttachments fileIds =>
      cases h
      rfl
  | countAttachmentsByFileIds fileIds =>
      cases h
      rw [finish_orphanUnreferencedFiles]
      rfl
  | markFilesOrphan orphanIds =>
      cases h
      simp only [finish, Tables.view, Tables.markFilesOrphan, Tables.updateMany, List.map_map]
      congr 1
      refine List.map_congr_left fun file _ => ?_
      simp only [Function.comp_apply]
      split <;> rfl
  | ended => cases h
  | rejected => cases h

theorem view_finish_of_exec {times : List ℕ}
    (h : exec (attempt nodeId) (db, phase) times = some (db', phase')) :
    (finish nodeId db' phase').view = (finish nodeId db phase).view := by
  induction times generalizing db phase with
  | nil =>
      cases h
      rfl
  | cons now times ih =>
      rw [exec_cons, Option.bind_eq_some_iff] at h
      obtain ⟨⟨db₁, phase₁⟩, hstep, hrest⟩ := h
      exact (ih hrest).trans (view_finish_of_call hstep)

/-! ### Where a run can have stopped -/

/-- What the code looks at in a file is not what it changes. -/
theorem findFileIdsByS3Keys_updateMany {fileIds : Finset FileId} {data : FileRow → FileRow}
    (hdata : ∀ file, (data file).fileId = file.fileId ∧ (data file).s3Key = file.s3Key ∧
      (data file).workspaceId = file.workspaceId ∧ (data file).deletedAt = file.deletedAt)
    (s3Keys : List String) (workspaceId : WorkspaceId) :
    (db.updateMany fileIds data).findFileIdsByS3Keys s3Keys workspaceId =
      db.findFileIdsByS3Keys s3Keys workspaceId := by
  unfold Tables.findFileIdsByS3Keys Tables.updateMany
  rw [List.filter_map, List.map_map]
  congr 1
  have hfilter : ∀ file : FileRow,
      ((fun file : FileRow => decide (file.s3Key ∈ s3Keys ∧ file.workspaceId = workspaceId ∧
        file.deletedAt = none)) ∘ fun file => if file.fileId ∈ fileIds then data file else file)
          file = decide (file.s3Key ∈ s3Keys ∧ file.workspaceId = workspaceId ∧
            file.deletedAt = none) := by
    intro file
    obtain ⟨-, hkey, hworkspace, hdeleted⟩ := hdata file
    simp only [Function.comp_apply]
    split
    · rw [hkey, hworkspace, hdeleted]
    · rfl
  rw [List.filter_congr fun file _ => hfilter file]
  refine List.map_congr_left fun file _ => ?_
  simp only [Function.comp_apply]
  split
  · exact (hdata file).1
  · rfl

theorem findFileIdsByS3Keys_added (referencedIds : Finset FileId) (s3Keys : List String)
    (workspaceId : WorkspaceId) :
    (db.added nodeId referencedIds).findFileIdsByS3Keys s3Keys workspaceId =
      db.findFileIdsByS3Keys s3Keys workspaceId := by
  unfold Tables.added Tables.markFilesActive
  rw [findFileIdsByS3Keys_updateMany]
  · rfl
  · exact fun file => ⟨rfl, rfl, rfl, rfl⟩

theorem findFileIdsByS3Keys_orphaned (fileIds : Finset FileId) (now : ℕ) (s3Keys : List String)
    (workspaceId : WorkspaceId) :
    (db.orphaned fileIds now).findFileIdsByS3Keys s3Keys workspaceId =
      db.findFileIdsByS3Keys s3Keys workspaceId := by
  unfold Tables.orphaned Tables.markFilesOrphan
  rw [findFileIdsByS3Keys_updateMany]
  exact fun file => ⟨rfl, rfl, rfl, rfl⟩

/-- The files that a run refers to, when it starts on these tables. -/
def Phase.references (db : Tables) : Phase → Finset FileId
  | .findFileIdsByS3Keys workspaceId s3Keys => db.findFileIdsByS3Keys s3Keys workspaceId
  | .findAttachedFileIdsByNodeId referencedIds => referencedIds
  | _ => ∅

/-- The first repository call of a sync. -/
def Phase.First (phase : Phase) : Prop :=
  (∃ workspaceId s3Keys, phase = .findFileIdsByS3Keys workspaceId s3Keys) ∨
    ∃ referencedIds, phase = .findAttachedFileIdsByNodeId referencedIds

theorem Phase.First.finish_eq (h : phase.First) :
    finish nodeId db phase = db.synced nodeId (phase.references db) := by
  obtain ⟨workspaceId, s3Keys, rfl⟩ | ⟨referencedIds, rfl⟩ := h <;> rfl

theorem syncNodeAttachments_first (s3 : S3Service) (workspaceId : WorkspaceId) (content : Json) :
    (syncNodeAttachments s3 workspaceId content).First := by
  have hkeys := referencedKeys_isSome s3 content
  unfold syncNodeAttachments
  split
  · next hnone =>
      rw [hnone] at hkeys
      cases hkeys
  · exact Or.inr ⟨_, rfl⟩
  · exact Or.inl ⟨_, _, rfl⟩

/-- The tables and the next call of a run that has started with `start` and refers to
`referencedIds`. -/
inductive Stopped (db : Tables) (nodeId : NodeId) (start : Phase) (referencedIds : Finset FileId) :
    Tables → Phase → Prop
  | start : Stopped db nodeId start referencedIds db start
  | found : Stopped db nodeId start referencedIds db (.findAttachedFileIdsByNodeId referencedIds)
  | create : Stopped db nodeId start referencedIds db
      (.createAttachments (db.toAdd nodeId referencedIds) (db.toRemove nodeId referencedIds))
  | activate : Stopped db nodeId start referencedIds
      (db.createAttachments nodeId (db.toAdd nodeId referencedIds))
      (.markFilesActive (db.toAdd nodeId referencedIds) (db.toRemove nodeId referencedIds))
  | delete : Stopped db nodeId start referencedIds (db.added nodeId referencedIds)
      (.deleteAttachments (db.toRemove nodeId referencedIds))
  | count : Stopped db nodeId start referencedIds (db.removed nodeId referencedIds)
      (.countAttachmentsByFileIds (db.toRemove nodeId referencedIds))
  | orphan : Stopped db nodeId start referencedIds (db.removed nodeId referencedIds)
      (.markFilesOrphan ((db.toRemove nodeId referencedIds).filter fun fileId =>
        ¬ (db.removed nodeId referencedIds).Attached fileId))
  | ended (now : ℕ) : Stopped db nodeId start referencedIds
      ((db.removed nodeId referencedIds).orphaned (db.toRemove nodeId referencedIds) now) .ended

variable {start : Phase} {referencedIds : Finset FileId}

private theorem stopped_removeAttachments :
    Stopped db nodeId start referencedIds (db.added nodeId referencedIds)
      (removeAttachments (db.toRemove nodeId referencedIds)) := by
  unfold removeAttachments
  split
  · next hnone =>
      have hended : Stopped db nodeId start referencedIds
          ((db.removed nodeId referencedIds).orphaned (db.toRemove nodeId referencedIds) 0)
          .ended := .ended 0
      rw [Tables.removed, hnone] at hended
      simpa [Tables.orphaned, Tables.markFilesOrphan] using hended
  · exact .delete

private theorem stopped_diffAttachments :
    Stopped db nodeId start referencedIds db
      (diffAttachments referencedIds (db.findAttachedFileIdsByNodeId nodeId)) := by
  unfold diffAttachments
  dsimp only
  split
  · next hnone =>
      have hnone' : db.toAdd nodeId referencedIds = ∅ := hnone
      have hadded : db.added nodeId referencedIds = db := by
        simp [Tables.added, Tables.markFilesActive, hnone']
      have hremove : Stopped db nodeId start referencedIds (db.added nodeId referencedIds)
          (removeAttachments (db.toRemove nodeId referencedIds)) := stopped_removeAttachments
      rwa [hadded] at hremove
  · exact .create

private theorem stopped_orphanUnreferencedFiles :
    Stopped db nodeId start referencedIds (db.removed nodeId referencedIds)
      (orphanUnreferencedFiles (db.toRemove nodeId referencedIds)
        ((db.removed nodeId referencedIds).countAttachmentsByFileIds
          (db.toRemove nodeId referencedIds))) := by
  have hsame : (db.toRemove nodeId referencedIds).filter (fun fileId =>
      (db.removed nodeId referencedIds).countAttachmentsByFileIds (db.toRemove nodeId referencedIds)
        fileId = none) = (db.toRemove nodeId referencedIds).filter fun fileId =>
          ¬ (db.removed nodeId referencedIds).Attached fileId :=
    Finset.filter_congr fun fileId hmem => Tables.countAttachmentsByFileIds_eq_none hmem
  unfold orphanUnreferencedFiles
  dsimp only
  rw [hsame]
  split
  · next hnone =>
      have hended : Stopped db nodeId start referencedIds
          ((db.removed nodeId referencedIds).orphaned (db.toRemove nodeId referencedIds) 0)
          .ended := .ended 0
      rw [Tables.orphaned, hnone] at hended
      simpa [Tables.markFilesOrphan] using hended
  · exact .orphan

/-- **One repository call** leads from one of these states to the next. -/
theorem Stopped.call (h : Stopped db nodeId start referencedIds db' phase) (hfirst : start.First)
    (hrefs : start.references db = referencedIds) {now : ℕ} {db₁ : Tables} {phase₁ : Phase}
    (hcall : phase.call db' now nodeId = some (db₁, phase₁)) :
    Stopped db nodeId start referencedIds db₁ phase₁ := by
  cases h with
  | start =>
      subst hrefs
      obtain ⟨workspaceId, s3Keys, rfl⟩ | ⟨R, rfl⟩ := hfirst
      · cases hcall
        exact .found
      · cases hcall
        exact stopped_diffAttachments
  | found =>
      cases hcall
      exact stopped_diffAttachments
  | create =>
      cases hcall
      exact .activate
  | activate =>
      cases hcall
      exact stopped_removeAttachments
  | delete =>
      cases hcall
      exact .count
  | count =>
      cases hcall
      exact stopped_orphanUnreferencedFiles
  | orphan =>
      cases hcall
      exact .ended now
  | ended now => cases hcall

theorem stopped_of_exec (hfirst : start.First) (hrefs : start.references db = referencedIds)
    {times : List ℕ} (h : exec (attempt nodeId) (db, start) times = some (db', phase')) :
    Stopped db nodeId start referencedIds db' phase' := by
  have hreachable : Reachable (attempt nodeId) (db, start) (db', phase') := ⟨times, h⟩
  refine hreachable.invariant (I := fun run : Tables × Phase =>
    Stopped db nodeId start referencedIds run.1 run.2) .start ?_
  intro run now run' hstep hstopped
  exact hstopped.call hfirst hrefs hstep

/-! ### Starting again -/

namespace Tables

theorem mem_toAdd {fileId : FileId} : fileId ∈ db.toAdd nodeId referencedIds ↔
    fileId ∈ referencedIds ∧ (fileId, nodeId) ∉ db.attachments := by
  rw [toAdd, Finset.mem_sdiff, mem_findAttachedFileIdsByNodeId]

theorem mem_toRemove {fileId : FileId} : fileId ∈ db.toRemove nodeId referencedIds ↔
    (fileId, nodeId) ∈ db.attachments ∧ fileId ∉ referencedIds := by
  rw [toRemove, Finset.mem_sdiff, mem_findAttachedFileIdsByNodeId]

/-- After the rows have been added there is nothing to add. -/
theorem toAdd_of_created
    (h : db'.attachments = (db.createAttachments nodeId (db.toAdd nodeId referencedIds)).attachments) :
    db'.toAdd nodeId referencedIds = ∅ ∧
      db'.toRemove nodeId referencedIds = db.toRemove nodeId referencedIds := by
  have hmem : ∀ {fileId}, (fileId, nodeId) ∈ db'.attachments ↔
      (fileId, nodeId) ∈ db.attachments ∨ fileId ∈ db.toAdd nodeId referencedIds := by
    intro fileId
    rw [h]
    simp [createAttachments]
  constructor
  · ext fileId
    rw [mem_toAdd, hmem, mem_toAdd]
    simp only [Finset.notMem_empty, iff_false]
    tauto
  · ext fileId
    rw [mem_toRemove, mem_toRemove, hmem, mem_toAdd]
    tauto

/-- The rows of the node are those of the files that it refers to. -/
theorem mem_attachments_removed {fileId : FileId} :
    (fileId, nodeId) ∈ (db.removed nodeId referencedIds).attachments ↔ fileId ∈ referencedIds := by
  have hadded : (fileId, nodeId) ∈ (db.added nodeId referencedIds).attachments ↔
      (fileId, nodeId) ∈ db.attachments ∨ fileId ∈ db.toAdd nodeId referencedIds := by
    simp [added, markFilesActive, updateMany, createAttachments]
  rw [removed, deleteAttachments, Finset.mem_filter, hadded, mem_toAdd, mem_toRemove]
  tauto

/-- The rows of the other nodes stay. -/
theorem mem_attachments_removed_of_ne {fileId : FileId} {nodeId' : NodeId}
    (hne : nodeId' ≠ nodeId) :
    (fileId, nodeId') ∈ (db.removed nodeId referencedIds).attachments ↔
      (fileId, nodeId') ∈ db.attachments := by
  simp [removed, added, markFilesActive, updateMany, createAttachments, deleteAttachments, hne,
    hne.symm]

/-- After rows have been removed too there is nothing to do. -/
theorem toAdd_of_removed (h : db'.attachments = (db.removed nodeId referencedIds).attachments) :
    db'.toAdd nodeId referencedIds = ∅ ∧ db'.toRemove nodeId referencedIds = ∅ := by
  have hmem : ∀ {fileId}, (fileId, nodeId) ∈ db'.attachments ↔ fileId ∈ referencedIds := by
    intro fileId
    rw [h]
    exact mem_attachments_removed
  constructor
  · ext fileId
    rw [mem_toAdd, hmem]
    simp
  · ext fileId
    rw [mem_toRemove, hmem]
    simp

theorem synced_of_toAdd (h : db.toAdd nodeId referencedIds = ∅) :
    db.synced nodeId referencedIds =
      (db.deleteAttachments nodeId (db.toRemove nodeId referencedIds)).orphaned
        (db.toRemove nodeId referencedIds) 0 := by
  simp [synced, removed, added, markFilesActive, h]

theorem synced_of_done
    (h : db.toAdd nodeId referencedIds = ∅ ∧ db.toRemove nodeId referencedIds = ∅) :
    db.synced nodeId referencedIds = db := by
  rw [synced_of_toAdd h.1, h.2]
  simp [orphaned, markFilesOrphan]

/-- Nothing is left to be marked `ORPHAN`. -/
theorem view_markFilesOrphan {fileIds : Finset FileId} {now : ℕ} :
    db.view = (db.markFilesOrphan fileIds now).view ↔
      ∀ file ∈ db.files, file.fileId ∈ fileIds → file.status = .ORPHAN := by
  simp only [view, markFilesOrphan, updateMany, View.mk.injEq, List.map_map, true_and,
    List.map_inj_left, Function.comp_apply]
  refine forall₂_congr fun file _ => ?_
  by_cases hmem : file.fileId ∈ fileIds <;> simp [hmem]

/-- Nothing is left to be marked `ACTIVE`, of files that are not orphaned
afterwards. -/
theorem view_markFilesActive {toAdd toRemove : Finset FileId} {now : ℕ}
    (hdisjoint : ∀ fileId ∈ toAdd, fileId ∉ toRemove) :
    ((db.deleteAttachments nodeId toRemove).orphaned toRemove now).view =
        (((db.markFilesActive toAdd).deleteAttachments nodeId toRemove).orphaned toRemove now).view ↔
      ∀ file ∈ db.files, file.fileId ∈ toAdd → file.status = .ACTIVE := by
  have hsame : ∀ fileId, ((db.markFilesActive toAdd).deleteAttachments nodeId toRemove).Attached
      fileId ↔ (db.deleteAttachments nodeId toRemove).Attached fileId := fun _ => Iff.rfl
  simp only [view, orphaned, markFilesOrphan, updateMany, View.mk.injEq, List.map_map, hsame]
  simp only [deleteAttachments, markFilesActive, updateMany, List.map_map, true_and,
    List.map_inj_left, Function.comp_apply]
  refine forall₂_congr fun file _ => ?_
  by_cases hmem : file.fileId ∈ toAdd
  · have hnot := hdisjoint _ hmem
    simp [hmem, hnot]
  · simp [hmem]

end Tables

theorem Stopped.references_eq (h : Stopped db nodeId start referencedIds db' phase)
    (hrefs : start.references db = referencedIds) : start.references db' = referencedIds := by
  rw [← hrefs]
  unfold Phase.references
  split
  · -- the columns that are asked for stay as they are
    cases h with
    | delete => exact findFileIdsByS3Keys_added ..
    | count => exact findFileIdsByS3Keys_added ..
    | orphan => exact findFileIdsByS3Keys_added ..
    | ended now =>
        exact (findFileIdsByS3Keys_orphaned ..).trans (findFileIdsByS3Keys_added ..)
    | _ => rfl
  · rfl
  · rfl

/-- A file that is to be detached is `ACTIVE` until then. -/
private theorem active_of_toRemove (hdb : db.ActiveIffAttached) {file : FileRow}
    (hfile : file ∈ (db.removed nodeId referencedIds).files)
    (hremove : file.fileId ∈ db.toRemove nodeId referencedIds) : file.status = .ACTIVE := by
  obtain ⟨old, hold, rfl⟩ := List.mem_map.mp hfile
  split
  · rfl
  · next hnot =>
      rw [if_neg hnot] at hremove
      exact (hdb old hold).mpr ⟨_, (Tables.mem_toRemove.mp hremove).1, rfl⟩

/-- A file to be added has another row if it had one before. -/
private theorem attached_iff_not_stranded {toRemove : Finset FileId} {fileId : FileId} :
    (fileId ∈ db.toAdd nodeId referencedIds → db.Attached fileId) ↔
      ¬ Stranded (db.createAttachments nodeId (db.toAdd nodeId referencedIds)) nodeId
        (.markFilesActive (db.toAdd nodeId referencedIds) toRemove) fileId := by
  have hother : fileId ∈ db.toAdd nodeId referencedIds → (db.Attached fileId ↔
      ∃ row ∈ (db.createAttachments nodeId (db.toAdd nodeId referencedIds)).attachments,
        row.1 = fileId ∧ row.2 ≠ nodeId) := by
    intro hadd
    have hnone := (Tables.mem_toAdd.mp hadd).2
    constructor
    · rintro ⟨⟨_, n⟩, hrow, rfl⟩
      refine ⟨(_, n), Finset.mem_union_left _ hrow, rfl, ?_⟩
      rintro rfl
      exact hnone hrow
    · rintro ⟨row, hrow, heq, hne⟩
      rcases Finset.mem_union.mp hrow with hold | hnew
      · exact ⟨row, hold, heq⟩
      · obtain ⟨id, -, rfl⟩ := Finset.mem_image.mp hnew
        exact absurd rfl hne
  constructor
  · rintro hattached ⟨hadd, hnot⟩
    exact hnot ((hother hadd).mp (hattached hadd))
  · intro hnot hadd
    by_contra hunattached
    exact hnot ⟨hadd, fun hrow => hunattached ((hother hadd).mpr hrow)⟩

/-- The files of the tables keep their ids. -/
private theorem forall_removed (db : Tables) (nodeId : NodeId) (referencedIds : Finset FileId)
    (P : FileId → Prop) :
    (∀ file ∈ (db.removed nodeId referencedIds).files, P file.fileId) ↔
      ∀ file ∈ db.files, P file.fileId := by
  have hmap : (db.removed nodeId referencedIds).files = db.files.map fun file =>
      if file.fileId ∈ db.toAdd nodeId referencedIds then
        { file with status := .ACTIVE, orphanedAt := none } else file := rfl
  rw [hmap, List.forall_mem_map]
  refine forall₂_congr fun file _ => ?_
  split <;> rfl

/-- **Starting again does what finishing does** exactly if no file is stranded. -/
theorem Stopped.finish_eq_iff (h : Stopped db nodeId start referencedIds db' phase)
    (hfirst : start.First) (hrefs : start.references db = referencedIds)
    (hdb : db.ActiveIffAttached) :
    (finish nodeId db' start).view = (finish nodeId db' phase).view ↔
      ∀ file ∈ db.files, ¬ Stranded db' nodeId phase file.fileId := by
  have hstart : finish nodeId db' start = db'.synced nodeId referencedIds := by
    rw [hfirst.finish_eq, h.references_eq hrefs]
  -- where nothing is stranded, both are the same
  have hsame : (finish nodeId db' start).view = (finish nodeId db' phase).view →
      (∀ fileId, ¬ Stranded db' nodeId phase fileId) →
      ((finish nodeId db' start).view = (finish nodeId db' phase).view ↔
        ∀ file ∈ db.files, ¬ Stranded db' nodeId phase file.fileId) :=
    fun heq hnot => iff_of_true heq fun file _ => hnot file.fileId
  cases h with
  | start =>
      refine hsame rfl ?_
      obtain ⟨workspaceId, s3Keys, rfl⟩ | ⟨R, rfl⟩ := hfirst <;> exact fun _ => id
  | found => exact hsame (congrArg Tables.view hstart) fun _ => id
  | create => exact hsame (congrArg Tables.view hstart) fun _ => id
  | activate =>
      obtain ⟨hadd, hremove⟩ : (db.createAttachments nodeId (db.toAdd nodeId referencedIds)).toAdd
          nodeId referencedIds = ∅ ∧ (db.createAttachments nodeId (db.toAdd nodeId
            referencedIds)).toRemove nodeId referencedIds = db.toRemove nodeId referencedIds :=
        Tables.toAdd_of_created rfl
      rw [hstart, Tables.synced_of_toAdd hadd, hremove]
      refine (Tables.view_markFilesActive fun fileId hadd hremove =>
        (Tables.mem_toRemove.mp hremove).2 (Tables.mem_toAdd.mp hadd).1).trans ?_
      refine forall₂_congr fun file hfile => ?_
      rw [hdb file hfile]
      exact attached_iff_not_stranded
  | delete =>
      obtain ⟨hadd, hremove⟩ : (db.added nodeId referencedIds).toAdd nodeId referencedIds = ∅ ∧
          (db.added nodeId referencedIds).toRemove nodeId referencedIds =
            db.toRemove nodeId referencedIds := Tables.toAdd_of_created rfl
      refine hsame ?_ fun _ => id
      rw [hstart, Tables.synced_of_toAdd hadd, hremove]
      rfl
  | count =>
      rw [hstart, Tables.synced_of_done (Tables.toAdd_of_removed rfl)]
      refine Tables.view_markFilesOrphan.trans (Iff.trans ?_
        (forall_removed db nodeId referencedIds fun fileId => ¬ Stranded _ _ _ fileId))
      refine forall₂_congr fun file hfile => ?_
      constructor
      · rintro hmarked ⟨hremove, hnot⟩
        have horphan := hmarked (Finset.mem_filter.mpr ⟨hremove, hnot⟩)
        rw [active_of_toRemove hdb hfile hremove] at horphan
        cases horphan
      · intro hnot hmem
        obtain ⟨hremove, hunattached⟩ := Finset.mem_filter.mp hmem
        exact absurd ⟨hremove, hunattached⟩ hnot
  | orphan =>
      rw [hstart, Tables.synced_of_done (Tables.toAdd_of_removed rfl)]
      refine Tables.view_markFilesOrphan.trans (Iff.trans ?_
        (forall_removed db nodeId referencedIds fun fileId => ¬ Stranded _ _ _ fileId))
      refine forall₂_congr fun file hfile => ?_
      constructor
      · intro hmarked hmem
        have horphan := hmarked hmem
        rw [active_of_toRemove hdb hfile (Finset.mem_filter.mp hmem).1] at horphan
        cases horphan
      · intro hnot hmem
        exact absurd hmem hnot
  | ended now =>
      refine hsame ?_ fun _ => id
      have hrows : ((db.removed nodeId referencedIds).orphaned (db.toRemove nodeId referencedIds)
          now).attachments = (db.removed nodeId referencedIds).attachments := rfl
      rw [hstart, Tables.synced_of_done (Tables.toAdd_of_removed hrows)]
      rfl

/-! ### A run comes to its end -/

/-- How many repository calls may be left. -/
def Phase.rank : Phase → ℕ
  | .findFileIdsByS3Keys _ _ => 7
  | .findAttachedFileIdsByNodeId _ => 6
  | .createAttachments _ _ => 5
  | .markFilesActive _ _ => 4
  | .deleteAttachments _ => 3
  | .countAttachmentsByFileIds _ => 2
  | .markFilesOrphan _ => 1
  | .ended | .rejected => 0

private theorem rank_removeAttachments (toRemove : Finset FileId) :
    (removeAttachments toRemove).rank ≤ 3 ∧ removeAttachments toRemove ≠ .rejected := by
  unfold removeAttachments
  split <;> simp [Phase.rank]

/-- A run that has not ended goes on, and comes nearer to its end. -/
theorem exists_call (db : Tables) (nodeId : NodeId) (now : ℕ) (hended : phase ≠ .ended)
    (hrejected : phase ≠ .rejected) :
    ∃ db' phase', phase.call db now nodeId = some (db', phase') ∧ phase'.rank < phase.rank ∧
      phase' ≠ .rejected := by
  cases phase with
  | ended => exact absurd rfl hended
  | rejected => exact absurd rfl hrejected
  | findAttachedFileIdsByNodeId referencedIds =>
      refine ⟨_, _, rfl, ?_⟩
      unfold diffAttachments
      dsimp only
      split
      · have hrank := rank_removeAttachments
          (db.findAttachedFileIdsByNodeId nodeId \ referencedIds)
        exact ⟨hrank.1.trans_lt (by simp [Phase.rank]), hrank.2⟩
      · simp [Phase.rank]
  | markFilesActive toAdd toRemove =>
      have hrank := rank_removeAttachments toRemove
      exact ⟨_, _, rfl, hrank.1.trans_lt (by simp [Phase.rank]), hrank.2⟩
  | countAttachmentsByFileIds fileIds =>
      refine ⟨_, _, rfl, ?_⟩
      unfold orphanUnreferencedFiles
      dsimp only
      split <;> simp [Phase.rank]
  | _ => exact ⟨_, _, rfl, by simp [Phase.rank], by simp⟩

theorem completes (nodeId : NodeId) (db : Tables) (hrejected : phase ≠ .rejected) :
    ∃ times fin, exec (attempt nodeId) (db, phase) times = some (fin, .ended) := by
  induction hrank : phase.rank using Nat.strong_induction_on generalizing db phase with
  | _ n ih =>
      by_cases hended : phase = .ended
      · subst hended
        exact ⟨[], db, rfl⟩
      · obtain ⟨db', phase', hcall, hlt, hrejected'⟩ :=
          exists_call db nodeId 0 hended hrejected
        obtain ⟨times, fin, hfin⟩ := ih phase'.rank (hrank ▸ hlt) db' hrejected' rfl
        refine ⟨0 :: times, fin, ?_⟩
        rw [exec_cons, show attempt nodeId (db, phase) 0 = some (db', phase') from hcall]
        exact hfin

/-! ### The retry -/

/-- **A second run heals a first one** that has stopped anywhere, exactly if no file
is stranded where it has stopped. -/
theorem heals_iff (s3 : S3Service) {db : Tables} (hdb : db.ActiveIffAttached) (nodeId : NodeId)
    (workspaceId : WorkspaceId) (content : Json) {times : List ℕ} {stopped : Tables} {phase : Phase}
    (hstopped : exec (attempt nodeId) (db, syncNodeAttachments s3 workspaceId content) times =
      some (stopped, phase)) :
    (∃ times retried, exec (attempt nodeId)
        (stopped, syncNodeAttachments s3 workspaceId content) times = some (retried, .ended)) ∧
    (∃ times alone, exec (attempt nodeId)
        (db, syncNodeAttachments s3 workspaceId content) times = some (alone, .ended)) ∧
    ((∀ times times' retried alone,
        exec (attempt nodeId) (stopped, syncNodeAttachments s3 workspaceId content) times =
          some (retried, .ended) →
        exec (attempt nodeId) (db, syncNodeAttachments s3 workspaceId content) times' =
          some (alone, .ended) → retried.view = alone.view) ↔
      ∀ file ∈ db.files, ¬ Stranded stopped nodeId phase file.fileId) := by
  have hfirst := syncNodeAttachments_first s3 workspaceId content
  generalize syncNodeAttachments s3 workspaceId content = start at hstopped hfirst ⊢
  have hrejected : start ≠ .rejected := by
    obtain ⟨_, _, rfl⟩ | ⟨_, rfl⟩ := hfirst <;> simp
  have hretry := completes nodeId stopped hrejected
  have halone := completes nodeId db hrejected
  have hheals := (stopped_of_exec hfirst rfl hstopped).finish_eq_iff hfirst rfl hdb
  rw [view_finish_of_exec hstopped] at hheals
  refine ⟨hretry, halone, ?_⟩
  rw [← hheals]
  constructor
  · intro hsame
    obtain ⟨times₁, retried, hretried⟩ := hretry
    obtain ⟨times₂, alone, hdone⟩ := halone
    calc (finish nodeId stopped start).view = retried.view := (view_finish_of_exec hretried).symm
      _ = alone.view := hsame times₁ times₂ retried alone hretried hdone
      _ = (finish nodeId db start).view := view_finish_of_exec hdone
  · intro heq times₁ times₂ retried alone hretried hdone
    calc retried.view = (finish nodeId stopped start).view := view_finish_of_exec hretried
      _ = (finish nodeId db start).view := heq
      _ = alone.view := (view_finish_of_exec hdone).symm

/-- Node `1` stops showing the image, and the deletion of its row fails. -/
theorem stoppedEarly_heals :
    (oneImage {1}).ActiveIffAttached ∧
      exec (attempt 1) (oneImage {1}, syncNodeAttachments oneBucket 7 noImage) [10] =
        some (oneImage {1}, .deleteAttachments {4}) ∧
      ∀ times times' retried alone,
        exec (attempt 1) (oneImage {1}, syncNodeAttachments oneBucket 7 noImage) times =
          some (retried, .ended) →
        exec (attempt 1) (oneImage {1}, syncNodeAttachments oneBucket 7 noImage) times' =
          some (alone, .ended) → retried.view = alone.view := by
  have hdb : (oneImage {1}).ActiveIffAttached := by decide
  have hstopped : exec (attempt 1) (oneImage {1}, syncNodeAttachments oneBucket 7 noImage) [10] =
      some (oneImage {1}, .deleteAttachments {4}) := by decide +kernel
  exact ⟨hdb, hstopped, (heals_iff oneBucket hdb 1 7 noImage hstopped).2.2.mpr
    fun file _ => id⟩

/-- Its row is deleted, and then the count fails. -/
theorem stoppedBeforeCount_not_healed :
    (oneImage {1}).ActiveIffAttached ∧
      ¬ ∀ times₀ stopped phase times times' retried alone,
        exec (attempt 1) (oneImage {1}, syncNodeAttachments oneBucket 7 noImage) times₀ =
          some (stopped, phase) →
        exec (attempt 1) (stopped, syncNodeAttachments oneBucket 7 noImage) times =
          some (retried, .ended) →
        exec (attempt 1) (oneImage {1}, syncNodeAttachments oneBucket 7 noImage) times' =
          some (alone, .ended) → retried.view = alone.view := by
  refine ⟨by decide, fun h => ?_⟩
  -- the second run finds no row and has nothing to do
  have hstopped : exec (attempt 1) (oneImage {1}, syncNodeAttachments oneBucket 7 noImage)
      [10, 10] = some (oneImage ∅, .countAttachmentsByFileIds {4}) := by decide +kernel
  have hretried : exec (attempt 1) (oneImage ∅, syncNodeAttachments oneBucket 7 noImage) [20] =
      some (oneImage ∅, .ended) := by decide +kernel
  have halone : exec (attempt 1) (oneImage {1}, syncNodeAttachments oneBucket 7 noImage)
      [30, 30, 30, 30] = some ((oneImage ∅).markFilesOrphan {4} 30, .ended) := by decide +kernel
  have hsame := h _ _ _ _ _ _ _ hstopped hretried halone
  exact absurd hsame (by decide +kernel)

end AideepWebsocket.FileAttachment
