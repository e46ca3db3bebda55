import AideepWebsocket.FileAttachment.References
import AideepWebsocket.FileAttachment.Retry

/-!
# What a sync does

A call that nobody interferes with makes the attachments of its node those files that
the content refers to.  Of the rows of `files` it changes two kinds: those that the
node has come to refer to (`Attaches`), and those that it no longer refers to and that
no other node has attached (`Releases`).

Where a call ends is the last of the states of `Stopped`; `Synced` spells out what
has become of the tables there, and that a file is `ACTIVE` exactly if it is attached
follows from it row by row (`Synced.activeIffAttached`).  `undisturbed_calls` puts
this together, for one call and for any number of them one after the other.
-/

namespace AideepWebsocket.FileAttachment

open Library

/-! ### Definitions -/

/-- The node has come to refer to the file. -/
def Tables.Attaches (db : Tables) (nodeId : NodeId) (referencedIds : Finset FileId)
    (fileId : FileId) : Prop :=
  fileId ∈ referencedIds ∧ (fileId, nodeId) ∉ db.attachments

/-- The node no longer refers to the file, and no other node does. -/
def Tables.Releases (db : Tables) (nodeId : NodeId) (referencedIds : Finset FileId)
    (fileId : FileId) : Prop :=
  (fileId, nodeId) ∈ db.attachments ∧ fileId ∉ referencedIds ∧
    ∀ row ∈ db.attachments, row.1 = fileId → row.2 = nodeId

instance (db : Tables) (nodeId : NodeId) (referencedIds : Finset FileId) (fileId : FileId) :
    Decidable (db.Attaches nodeId referencedIds fileId) := by
  unfold Tables.Attaches
  infer_instance

instance (db : Tables) (nodeId : NodeId) (referencedIds : Finset FileId) (fileId : FileId) :
    Decidable (db.Releases nodeId referencedIds fileId) := by
  unfold Tables.Releases
  infer_instance

/-- What becomes of a row of `files`. -/
def FileRow.synced (db : Tables) (nodeId : NodeId) (referencedIds : Finset FileId) (now : ℕ)
    (file : FileRow) : FileRow :=
  if db.Attaches nodeId referencedIds file.fileId then
    { file with status := .ACTIVE, orphanedAt := none }
  else if db.Releases nodeId referencedIds file.fileId then
    { file with status := .ORPHAN, orphanedAt := some now }
  else file

/-- The node has these files attached, the other nodes have what they had, and the
rows of `files` are changed accordingly. -/
structure Synced (db db' : Tables) (nodeId : NodeId) (referencedIds : Finset FileId) : Prop where
  attached : db'.findAttachedFileIdsByNodeId nodeId = referencedIds
  others : ∀ nodeId', nodeId' ≠ nodeId →
    db'.findAttachedFileIdsByNodeId nodeId' = db.findAttachedFileIdsByNodeId nodeId'
  files : ∃ now, db'.files = db.files.map (FileRow.synced db nodeId referencedIds now)

/-- A call of the service. -/
inductive Request
  | syncNodeAttachments (nodeId : NodeId) (workspaceId : WorkspaceId) (content : Json)
  | releaseNodeAttachments (nodeId : NodeId)

namespace Request

def nodeId : Request → NodeId
  | syncNodeAttachments nodeId _ _ | releaseNodeAttachments nodeId => nodeId

/-- Its first repository call. -/
def start (s3 : S3Service) : Request → Phase
  | syncNodeAttachments _ workspaceId content =>
      FileAttachment.syncNodeAttachments s3 workspaceId content
  | releaseNodeAttachments _ => FileAttachment.releaseNodeAttachments

/-- The files that the node is to have attached; a release leaves none. -/
def references (s3 : S3Service) (db : Tables) : Request → Option (Finset FileId)
  | syncNodeAttachments _ workspaceId content => extractReferencedFileIds s3 db content workspaceId
  | releaseNodeAttachments _ => some ∅

/-- The tables after the call, if it has succeeded; `times` has the time of each of
its repository calls, between which nobody else makes one. -/
def alone (s3 : S3Service) (db : Tables) (call : Request × List ℕ) : Option Tables :=
  ((exec (attempt call.1.nodeId) (db, call.1.start s3) call.2).filter
    fun run => run.2 = .ended).map Prod.fst

end Request

/-! ### The tables at the end -/

variable {db db' : Tables} {nodeId : NodeId} {referencedIds : Finset FileId} {fileId : FileId}

/-- The files that are marked `ORPHAN`. -/
private theorem mem_filter_removed :
    (fileId ∈ (db.toRemove nodeId referencedIds).filter fun fileId =>
      ¬ (db.removed nodeId referencedIds).Attached fileId) ↔
      db.Releases nodeId referencedIds fileId := by
  rw [Finset.mem_filter, Tables.mem_toRemove, Tables.Releases, and_assoc]
  refine and_congr_right fun _ => and_congr_right fun href => ?_
  constructor
  · rintro hnone ⟨id, nodeId'⟩ hrow rfl
    by_contra hne
    exact hnone ⟨_, (Tables.mem_attachments_removed_of_ne hne).mpr hrow, rfl⟩
  · rintro hall ⟨⟨id, nodeId'⟩, hrow, rfl⟩
    by_cases hne : nodeId' = nodeId
    · subst hne
      exact href (Tables.mem_attachments_removed.mp hrow)
    · exact hne (hall _ ((Tables.mem_attachments_removed_of_ne hne).mp hrow) rfl)

/-- The two updates of the statuses, as one. -/
private theorem files_orphaned (now : ℕ) :
    ((db.removed nodeId referencedIds).orphaned (db.toRemove nodeId referencedIds) now).files =
      db.files.map (FileRow.synced db nodeId referencedIds now) := by
  have hremoved : (db.removed nodeId referencedIds).files = db.files.map fun file =>
      if file.fileId ∈ db.toAdd nodeId referencedIds then
        { file with status := .ACTIVE, orphanedAt := none }
      else file := rfl
  rw [Tables.orphaned, Tables.markFilesOrphan, Tables.updateMany, hremoved, List.map_map]
  refine List.map_congr_left fun file _ => ?_
  rw [Function.comp_apply, FileRow.synced]
  by_cases hadd : db.Attaches nodeId referencedIds file.fileId
  · have hkeeps : ¬ db.Releases nodeId referencedIds file.fileId := fun h => h.2.1 hadd.1
    rw [if_pos (Tables.mem_toAdd.mpr hadd), if_pos hadd]
    exact if_neg (mem_filter_removed.not.mpr hkeeps)
  · rw [if_neg (Tables.mem_toAdd.not.mpr hadd), if_neg hadd]
    by_cases hrelease : db.Releases nodeId referencedIds file.fileId
    · rw [if_pos (mem_filter_removed.mpr hrelease), if_pos hrelease]
    · rw [if_neg (mem_filter_removed.not.mpr hrelease), if_neg hrelease]

/-- At its end a call has done what `Synced` says. -/
theorem synced_of_stopped {start : Phase} (h : Stopped db nodeId start referencedIds db' .ended)
    (hfirst : start.First) : Synced db db' nodeId referencedIds := by
  cases h with
  | start => obtain ⟨_, _, hstart⟩ | ⟨_, hstart⟩ := hfirst <;> cases hstart
  | ended now =>
      refine ⟨?_, fun nodeId' hne => ?_, now, ?_⟩
      · ext fileId
        rw [Tables.mem_findAttachedFileIdsByNodeId]
        exact Tables.mem_attachments_removed
      · ext fileId
        rw [Tables.mem_findAttachedFileIdsByNodeId, Tables.mem_findAttachedFileIdsByNodeId]
        exact Tables.mem_attachments_removed_of_ne hne
      · exact files_orphaned now

/-- A file is attached if the node refers to it, or another node did and does. -/
theorem Synced.attached_iff (h : Synced db db' nodeId referencedIds) :
    db'.Attached fileId ↔
      fileId ∈ referencedIds ∨ ∃ nodeId', nodeId' ≠ nodeId ∧ (fileId, nodeId') ∈ db.attachments := by
  have hother {nodeId' : NodeId} (hne : nodeId' ≠ nodeId) :
      (fileId, nodeId') ∈ db'.attachments ↔ (fileId, nodeId') ∈ db.attachments := by
    rw [← Tables.mem_findAttachedFileIdsByNodeId, h.others nodeId' hne,
      Tables.mem_findAttachedFileIdsByNodeId]
  have hself : (fileId, nodeId) ∈ db'.attachments ↔ fileId ∈ referencedIds := by
    rw [← h.attached, Tables.mem_findAttachedFileIdsByNodeId]
  constructor
  · rintro ⟨⟨id, nodeId'⟩, hrow, rfl⟩
    by_cases hne : nodeId' = nodeId
    · subst hne
      exact Or.inl (hself.mp hrow)
    · exact Or.inr ⟨nodeId', hne, (hother hne).mp hrow⟩
  · rintro (href | ⟨nodeId', hne, hrow⟩)
    · exact ⟨_, hself.mpr href, rfl⟩
    · exact ⟨_, (hother hne).mpr hrow, rfl⟩

/-- Row by row, a file is `ACTIVE` exactly if it is attached. -/
theorem Synced.activeIffAttached (h : Synced db db' nodeId referencedIds)
    (hdb : db.ActiveIffAttached) : db'.ActiveIffAttached := by
  obtain ⟨now, hfiles⟩ := h.files
  intro file' hfile'
  rw [hfiles] at hfile'
  obtain ⟨file, hfile, rfl⟩ := List.mem_map.mp hfile'
  rw [FileRow.synced]
  split
  · rename_i hattach
    exact iff_of_true rfl (h.attached_iff.mpr (Or.inl hattach.1))
  · rename_i hattach
    split
    · rename_i hrelease
      refine iff_of_false (by simp) fun hattached => ?_
      rcases h.attached_iff.mp hattached with href | ⟨nodeId', hne, hrow⟩
      · exact hrelease.2.1 href
      · exact hne (hrelease.2.2 _ hrow rfl)
    · -- the file is left alone: it is attached now if and only if it was before
      rename_i hrelease
      rw [hdb file hfile, h.attached_iff]
      constructor
      · rintro ⟨⟨id, nodeId'⟩, hrow, rfl⟩
        by_cases href : file.fileId ∈ referencedIds
        · exact Or.inl href
        · right
          by_contra hnone
          have hall : ∀ row ∈ db.attachments, row.1 = file.fileId → row.2 = nodeId := by
            intro row hmem hid
            by_contra hne
            exact hnone ⟨row.2, hne, hid ▸ hmem⟩
          obtain rfl : nodeId' = nodeId := hall _ hrow rfl
          exact hrelease ⟨hrow, href, hall⟩
      · rintro (href | ⟨nodeId', -, hrow⟩)
        · exact ⟨_, not_not.mp fun hnot => hattach ⟨href, hnot⟩, rfl⟩
        · exact ⟨_, hrow, rfl⟩

/-! ### The calls -/

variable {s3 : S3Service}

theorem Request.start_first (s3 : S3Service) (request : Request) : (request.start s3).First := by
  cases request with
  | syncNodeAttachments nodeId workspaceId content =>
      exact syncNodeAttachments_first s3 workspaceId content
  | releaseNodeAttachments nodeId => exact Or.inr ⟨_, rfl⟩

/-- What a run compares with is what the extraction answers. -/
theorem Request.references_start (s3 : S3Service) (db : Tables) (request : Request) :
    request.references s3 db = some ((request.start s3).references db) := by
  cases request with
  | syncNodeAttachments nodeId workspaceId content =>
      obtain ⟨s3Keys, hkeys⟩ := Option.isSome_iff_exists.mp (referencedKeys_isSome s3 content)
      rw [references, extractReferencedFileIds, start, FileAttachment.syncNodeAttachments, hkeys]
      cases s3Keys with
      | nil => simp [Tables.findFileIdsByS3Keys, Phase.references]
      | cons s3Key s3Keys => rfl
  | releaseNodeAttachments nodeId => rfl

private theorem alone_eq_some_iff {request : Request} {times : List ℕ} :
    Request.alone s3 db (request, times) = some db' ↔
      exec (attempt request.nodeId) (db, request.start s3) times = some (db', .ended) := by
  simp [Request.alone, Option.map_eq_some_iff, Option.filter_eq_some_iff]

/-- A call that is alone has a way to its end. -/
theorem Request.exists_alone (s3 : S3Service) (db : Tables) (request : Request) :
    ∃ times db', Request.alone s3 db (request, times) = some db' := by
  have hrejected : request.start s3 ≠ .rejected := by
    obtain ⟨_, _, hstart⟩ | ⟨_, hstart⟩ := request.start_first s3 <;> simp [hstart]
  obtain ⟨times, db', hend⟩ := completes request.nodeId db hrejected
  exact ⟨times, db', alone_eq_some_iff.mpr hend⟩

theorem synced_of_alone {request : Request} {times : List ℕ}
    (h : Request.alone s3 db (request, times) = some db') :
    Synced db db' request.nodeId ((request.start s3).references db) :=
  synced_of_stopped (stopped_of_exec (request.start_first s3) rfl (alone_eq_some_iff.mp h))
    (request.start_first s3)

/-- **Every call that is alone does what `Synced` says**, and after any number of
them, one after the other, a file is `ACTIVE` exactly if it is attached. -/
theorem undisturbed_calls (s3 : S3Service) {db : Tables} (hdb : db.ActiveIffAttached) :
    (∀ request : Request, ∃ referencedIds, request.references s3 db = some referencedIds ∧
      (∃ times db', Request.alone s3 db (request, times) = some db') ∧
      ∀ times db', Request.alone s3 db (request, times) = some db' →
        Synced db db' request.nodeId referencedIds ∧ db'.ActiveIffAttached) ∧
    ∀ calls db', exec (Request.alone s3) db calls = some db' → db'.ActiveIffAttached := by
  constructor
  · intro request
    refine ⟨_, request.references_start s3 db, request.exists_alone s3 db, ?_⟩
    intro times db' h
    exact ⟨synced_of_alone h, (synced_of_alone h).activeIffAttached hdb⟩
  · intro calls db' hcalls
    have hreachable : Reachable (Request.alone s3) db db' := ⟨calls, hcalls⟩
    refine hreachable.invariant hdb ?_
    rintro db ⟨request, times⟩ db' h hdb
    exact (synced_of_alone h).activeIffAttached hdb

/-- Node `2` comes to show an image that node `1` shows, and then node `1` is
deleted. -/
theorem sharedImage_undisturbed :
    (oneImage {1}).ActiveIffAttached ∧
      exec (Request.alone oneBucket) (oneImage {1})
          [(.syncNodeAttachments 2 7 showsImage, [10, 10, 10, 10]),
            (.releaseNodeAttachments 1, [20, 20, 20])] =
        some (oneImage {2}) ∧
      (oneImage {2}).ActiveIffAttached := by
  have hdb : (oneImage {1}).ActiveIffAttached := by decide
  have hcalls : exec (Request.alone oneBucket) (oneImage {1})
      [(.syncNodeAttachments 2 7 showsImage, [10, 10, 10, 10]),
        (.releaseNodeAttachments 1, [20, 20, 20])] = some (oneImage {2}) := by
    decide +kernel
  exact ⟨hdb, hcalls, (undisturbed_calls oneBucket hdb).2 _ _ hcalls⟩

end AideepWebsocket.FileAttachment
