import AideepWebsocket.CrdtService.SaveToDb
import AideepWebsocket.DocManager.Cleanup
import AideepWebsocket.DocManager.Skips

/-!
# Is a deleted node written again?

The API server deletes a node by setting `deleted_at`, and releases its attachments.
The row stays.  `updateNodeRow` throws `NodeGoneError` if there is no row, and does not
look at `deleted_at`; so a flush of the deleted node goes through, writes the row, and
attaches the files of the document again.

`Untouched` is what should hold of every step, and `untouched_iff` says in terms of the
statements that reach the database when a step is such.

Over a run it is `NODE_DELETE` that keeps the node as it is (`along_untouched`).  The
API server must set `deleted_at` while nothing of the node is being saved, and the
event must have removed the document before the next flush of the node starts; no load
may then have brought it back.  `idleOnceDeleted_step` is the invariant: while the node
is deleted nothing of it is being saved.  In particular a node that is closed, and is
not opened again, is untouched (`along_untouched_of_closed`).
-/

namespace AideepWebsocket.CrdtService

open Library
open DocManager (NodeRow NodeContent SaveId SaveCall Reply TaskId)
open FileAttachment (Tables S3Service FileId oneBucket showsImage oneImage)

variable {lex : Lexical} {s3 : S3Service} {spread : NodeContent → String → Json}
variable {s s' : State} {e : Event} {n : NodeId}

/-- `deleted_at` of the node is set. -/
def State.Deleted (s : State) (n : NodeId) : Prop :=
  ∃ row ∈ s.manager.nodes n, row.deletedAt ≠ none

instance (s : State) (n : NodeId) : Decidable (s.Deleted n) := by
  unfold State.Deleted
  infer_instance

/-- The file is `ACTIVE`. -/
def Active (db : Tables) (fileId : FileId) : Prop :=
  ∃ file ∈ db.files, file.fileId = fileId ∧ file.status = .ACTIVE

instance (db : Tables) (fileId : FileId) : Decidable (Active db fileId) := by
  unfold Active
  infer_instance

/-- The row of the node is written by the API server. -/
def Event.WritesRow (n : NodeId) : Event → Prop
  | .manager (.writeNode m _) => m = n
  | .manager (.deleteNode m) => m = n
  | _ => False

/-- The node for which a flush makes the repository call of this step. -/
def State.syncedNode (s : State) : Event → Option NodeId
  | .repositoryReply save _ _ => (s.manager.saves save).map SaveCall.nodeId
  | _ => none

/-- **A deleted node is not written again** in this step, and its document goes once a
flush has found out. -/
structure Untouched (n : NodeId) (s : State) (e : Event) (s' : State) : Prop where
  row : s.Deleted n → ¬ e.WritesRow n → s'.manager.nodes n = s.manager.nodes n
  attachments : s.Deleted n → s.syncedNode e = some n → ∀ fileId,
    (fileId, n) ∈ s'.files.db.attachments → (fileId, n) ∈ s.files.db.attachments
  active : s.Deleted n → s.syncedNode e = some n → ∀ fileId,
    Active s'.files.db fileId → Active s.files.db fileId
  /-- A flush that gets to the database rejects with `NodeGoneError`… -/
  gone : s.Deleted n → ∀ save reply now c, e = .manager (.updateNodeRow save reply now) →
    reply.executed = true → s.manager.saves save = some c → c.phase = .updateNodeRow →
    c.nodeId = n → s'.manager = s.manager.rejectSave save c false (.nodeGone n)
  /-- …and none resolves without getting there. -/
  asked : s.Deleted n → ∀ t, s'.manager.Refreshing n t → s.manager.Refreshing n t
  /-- Whoever has called the flush drops the document. -/
  dropped : ∀ t entry caller m, e = .manager (.resumeTask t) →
    s.manager.queue.task t = some entry → entry.key = n → entry.payload.kind = .flushDoc caller →
    entry.payload.phase = .settled (.error (.nodeGone m)) → s'.manager.mem.docs n = none

/-- The repository call attaches no file to the node and marks none `ACTIVE`. -/
def AddsNothing (db : Tables) (n : NodeId) : FileAttachment.Phase → Prop
  | .createAttachments toAdd _ => ∀ fileId ∈ toAdd, (fileId, n) ∈ db.attachments
  | .markFilesActive toAdd _ => ∀ file ∈ db.files, file.fileId ∈ toAdd → Active db file.fileId
  | _ => True

instance (db : Tables) (n : NodeId) : DecidablePred (AddsNothing db n) := by
  intro phase
  unfold AddsNothing
  split <;> infer_instance

/-- While the node is deleted, no transaction of it is executed, no sync of it adds
anything, and no flush of it has nothing to save. -/
def Spares (lex : Lexical) (n : NodeId) (s : State) (e : Event) (_ : State) : Prop :=
  s.Deleted n →
    match e with
    | .manager (.updateNodeRow save reply _) => reply.executed = true →
        ∀ c ∈ s.manager.saves save, c.nodeId = n → c.phase ≠ .updateNodeRow
    | .manager x => ¬ s.manager.Skips lex x n
    | .repositoryReply save reply _ => reply.executed = true →
        ∀ c ∈ s.manager.saves save, c.nodeId = n →
          ∀ phase ∈ s.syncs save, AddsNothing s.files.db n phase
    | _ => True

instance (lex : Lexical) (n : NodeId) (s : State) (e : Event) (s' : State) :
    Decidable (Spares lex n s e s') := by
  unfold Spares
  split <;> infer_instance

/-! ### The parts -/

/-- A transaction that is executed writes the row that it finds. -/
private theorem row_written {m m' : DocManager.State} {save : SaveId} {reply : Reply} {now : ℕ}
    {c : SaveCall} {row : NodeRow}
    (h : DocManager.step lex m (.updateNodeRow save reply now) = some m')
    (hexecuted : reply.executed = true) (hsave : m.saves save = some c)
    (hphase : c.phase = .updateNodeRow) (hrow : m.nodes c.nodeId = some row) :
    m'.nodes c.nodeId = some (DocManager.State.writtenRow row c now) := by
  simp only [DocManager.step, DocManager.State.updateNodeRow, hsave, hphase, hexecuted, if_true,
    hrow] at h
  have hself : Function.update m.nodes c.nodeId (some (DocManager.State.writtenRow row c now))
      c.nodeId = some (DocManager.State.writtenRow row c now) := Function.update_self ..
  split at h <;> cases h
  · exact hself
  · simp

/-- A background flush that has failed with `NodeGoneError` drops the document. -/
private theorem docs_resumeTask {m m' : DocManager.State} {t : TaskId}
    {entry : ChainTask NodeId DocManager.Task} {caller : DocManager.FlushCaller} {k : NodeId}
    (h : m.resumeTask t = some m') (htask : m.queue.task t = some entry)
    (hkind : entry.payload.kind = .flushDoc caller)
    (hphase : entry.payload.phase = .settled (.error (.nodeGone k))) :
    m'.mem.docs entry.key = none := by
  unfold DocManager.State.resumeTask at h
  simp only [htask, hphase, hkind] at h
  have hclean : ∀ m₁ : DocManager.State,
      (m₁.handleFlushError entry.key (.nodeGone k)).mem.docs entry.key = none := fun m₁ =>
    (DocManager.cleanedUp_cleanupNode m₁ entry.key).docs
  split at h <;> cases h
  · rw [(DocManager.State.submits_nextFlush _ _).mem]
    exact hclean _
  · exact hclean _

/-- What a repository call adds, it has had nothing against. -/
private theorem addsNothing_of_call {db db' : Tables} {now : ℕ}
    {phase phase' : FileAttachment.Phase} (h : phase.call db now n = some (db', phase'))
    (hattached : ∀ fileId, (fileId, n) ∈ db'.attachments → (fileId, n) ∈ db.attachments)
    (hactive : ∀ fileId, Active db' fileId → Active db fileId) : AddsNothing db n phase := by
  cases phase with
  | createAttachments toAdd toRemove =>
      cases h
      intro fileId hadd
      exact hattached fileId (Finset.mem_union_right _ (Finset.mem_image_of_mem _ hadd))
  | markFilesActive toAdd toRemove =>
      cases h
      intro file hfile hadd
      refine hactive file.fileId ⟨{ file with status := .ACTIVE, orphanedAt := none }, ?_, rfl, rfl⟩
      exact List.mem_map.mpr ⟨file, hfile, if_pos hadd⟩
  | _ => trivial

/-- The files that a statement has marked, and those that it has left alone. -/
private theorem active_updateMany {db : Tables} {fileIds : Finset FileId}
    {data : FileAttachment.FileRow → FileAttachment.FileRow} {fileId : FileId}
    (h : Active (db.updateMany fileIds data) fileId)
    (hdata : ∀ file ∈ db.files, file.fileId ∈ fileIds → (data file).status = .ACTIVE →
      (data file).fileId = file.fileId ∧ Active db file.fileId) : Active db fileId := by
  obtain ⟨file', hfile', hid, hstatus⟩ := h
  obtain ⟨file, hfile, rfl⟩ := List.mem_map.mp hfile'
  split at hid
  · next hmem =>
      rw [if_pos hmem] at hstatus
      obtain ⟨hsame, hactive⟩ := hdata file hfile hmem hstatus
      rwa [← hid, hsame]
  · next hmem =>
      rw [if_neg hmem] at hstatus
      exact ⟨file, hfile, hid, hstatus⟩

private theorem call_of_addsNothing {db db' : Tables} {now : ℕ}
    {phase phase' : FileAttachment.Phase} (h : phase.call db now n = some (db', phase'))
    (hadds : AddsNothing db n phase) :
    (∀ fileId, (fileId, n) ∈ db'.attachments → (fileId, n) ∈ db.attachments) ∧
      ∀ fileId, Active db' fileId → Active db fileId := by
  cases phase with
  | createAttachments toAdd toRemove =>
      cases h
      refine ⟨fun fileId hmem => ?_, fun _ => id⟩
      rcases Finset.mem_union.mp hmem with hold | hnew
      · exact hold
      · obtain ⟨fileId', hadd, heq⟩ := Finset.mem_image.mp hnew
        obtain rfl : fileId' = fileId := congrArg Prod.fst heq
        exact hadds fileId' hadd
  | markFilesActive toAdd toRemove =>
      cases h
      refine ⟨fun _ => id, fun fileId hactive => active_updateMany hactive ?_⟩
      exact fun file hfile hadd _ => ⟨rfl, hadds file hfile hadd⟩
  | deleteAttachments fileIds =>
      cases h
      exact ⟨fun _ hmem => (Finset.mem_filter.mp hmem).1, fun _ => id⟩
  | markFilesOrphan orphanIds =>
      cases h
      refine ⟨fun _ => id, fun fileId hactive => active_updateMany hactive ?_⟩
      intro file _ _ hstatus
      cases hstatus
  | findFileIdsByS3Keys workspaceId s3Keys =>
      cases h
      exact ⟨fun _ => id, fun _ => id⟩
  | findAttachedFileIdsByNodeId referencedIds =>
      cases h
      exact ⟨fun _ => id, fun _ => id⟩
  | countAttachmentsByFileIds fileIds =>
      cases h
      exact ⟨fun _ => id, fun _ => id⟩
  | ended => cases h
  | rejected => cases h

/-! ### One step -/

/-- A step that leaves a deleted node untouched does nothing to it. -/
private theorem spares_of_untouched (h : step lex s3 spread s e = some s')
    (hU : Untouched n s e s') : Spares lex n s e s' := by
  intro hdeleted
  cases step_parts h with
  | manager x he hstep hfiles =>
      subst he
      -- a flush that starts to refresh is one that skips
      have hskip : ¬ s.manager.Skips lex x n := by
        intro hskips
        obtain ⟨t, hnow, hnot⟩ := (DocManager.skips_iff hstep).mpr hskips
        exact hnot (hU.asked hdeleted t hnow)
      cases x with
      | updateNodeRow save reply now =>
          rintro hexecuted c hsave rfl hphase
          obtain ⟨row, hrow, -⟩ := id hdeleted
          have hwritten := row_written hstep hexecuted hsave hphase hrow
          rw [hU.row hdeleted id, show s.manager.nodes c.nodeId = some row from hrow] at hwritten
          -- the version of the row has grown
          have hversion := congrArg NodeRow.version (Option.some.inj hwritten)
          exact absurd hversion (Nat.lt_succ_self row.version).ne
      | _ => exact hskip
  | files _ he hreply =>
      cases e with
      | manager x => exact absurd rfl (he x)
      | repositoryReply save reply now => exact absurd rfl (hreply save reply now)
      | _ => trivial
  | repository save reply now c persisted phase phase' db he _ hsave hphase hsync hcall hfiles =>
      subst he
      intro hexecuted c' hsave' hnode phase₁ hsync'
      obtain rfl : c = c' := Option.some.inj (hsave.symm.trans hsave')
      obtain rfl : phase = phase₁ := Option.some.inj (hsync.symm.trans hsync')
      rw [if_pos hexecuted] at hfiles
      have hsynced : s.syncedNode (.repositoryReply save reply now) = some n := by
        simp [State.syncedNode, hsave, hnode]
      subst hnode
      refine addsNothing_of_call hcall (fun fileId hmem => ?_) fun fileId hactive => ?_
      · exact hU.attachments hdeleted hsynced fileId (hfiles ▸ hmem)
      · exact hU.active hdeleted hsynced fileId (hfiles ▸ hactive)

private theorem untouched_of_spares (h : step lex s3 spread s e = some s')
    (hS : Spares lex n s e s') : Untouched n s e s' := by
  cases step_parts h with
  | manager x he hstep hfiles =>
      subst he
      refine ⟨fun hdeleted hother => ?_, fun _ hsynced => (by cases hsynced),
        fun _ hsynced => (by cases hsynced), ?_, fun hdeleted t hnow => ?_, ?_⟩
      · rcases DocManager.row_cases hstep n with hsame | ⟨row, rfl, -⟩ | ⟨rfl, -⟩ |
          ⟨save, reply, now, c, row, hupdated⟩
        · exact hsame
        · exact absurd rfl hother
        · exact absurd rfl hother
        · obtain rfl := hupdated.event
          exact absurd hupdated.phase
            (hS hdeleted hupdated.executed c hupdated.save hupdated.node)
      · rintro hdeleted save reply now c he hexecuted hsave hphase hnode
        obtain rfl := Event.manager.inj he
        exact absurd hphase (hS hdeleted hexecuted c hsave hnode)
      · by_contra hnot
        have hskips := (DocManager.skips_iff hstep).mp ⟨t, hnow, hnot⟩
        cases x with
        | updateNodeRow save reply now =>
            obtain ⟨p, hflushed, -⟩ := hskips
            cases hflushed
        | _ => exact hS hdeleted hskips
      · rintro t entry caller m he htask rfl hkind hphase
        obtain rfl := Event.manager.inj he
        exact docs_resumeTask hstep htask hkind hphase
  | files hmanager he hreply =>
      refine ⟨fun _ _ => by rw [hmanager], fun _ hsynced => ?_, fun _ hsynced => ?_,
        fun _ _ _ _ _ hx => absurd hx (he _), fun _ t hnow => hmanager ▸ hnow,
        fun _ _ _ _ hx => absurd hx (he _)⟩
      · cases e with
        | repositoryReply save reply now => exact absurd rfl (hreply save reply now)
        | _ => cases hsynced
      · cases e with
        | repositoryReply save reply now => exact absurd rfl (hreply save reply now)
        | _ => cases hsynced
  | repository save reply now c persisted phase phase' db he hmanager hsave hphase hsync hcall
      hfiles =>
      subst he
      have hadds : s.Deleted n → s.syncedNode (.repositoryReply save reply now) = some n →
          (∀ fileId, (fileId, n) ∈ s'.files.db.attachments → (fileId, n) ∈ s.files.db.attachments) ∧
            ∀ fileId, Active s'.files.db fileId → Active s.files.db fileId := by
        intro hdeleted hsynced
        obtain rfl : c.nodeId = n := by simpa [State.syncedNode, hsave] using hsynced
        rw [hfiles]
        split
        · next hexecuted =>
            exact call_of_addsNothing hcall (hS hdeleted hexecuted c hsave rfl phase hsync)
        · exact ⟨fun _ => id, fun _ => id⟩
      exact ⟨fun _ _ => by rw [hmanager], fun hdeleted hsynced => (hadds hdeleted hsynced).1,
        fun hdeleted hsynced => (hadds hdeleted hsynced).2,
        fun _ _ _ _ _ hx => (by cases hx), fun _ t hnow => hmanager ▸ hnow,
        fun _ _ _ _ hx => (by cases hx)⟩

/-- **When a step leaves a deleted node untouched.** -/
theorem untouched_iff (h : step lex s3 spread s e = some s') :
    Untouched n s e s' ↔ Spares lex n s e s' :=
  ⟨spares_of_untouched h, untouched_of_spares h⟩

/-! ### Runs -/

/-- Something of the node is being saved. -/
def State.Saving (s : State) (n : NodeId) : Prop :=
  ∃ save < s.manager.nextSave, ∃ c ∈ s.manager.saves save,
    c.nodeId = n ∧ c.phase.pending = true

instance (s : State) (n : NodeId) : Decidable (s.Saving n) := by
  unfold State.Saving
  infer_instance

/-- The API server sets `deleted_at` while nothing of the node is being saved, and a
flush that starts once it is set finds the node no longer managed. -/
def RemovedOnceDeleted (lex : Lexical) (n : NodeId) (s : State) (e : Event) (_ : State) : Prop :=
  match e with
  | .manager (.writeNode m row) => m = n → row.deletedAt ≠ none → ¬ s.Saving n
  | .manager x => s.Deleted n → ∀ p ∈ s.manager.flushed lex x, p.1 = n →
      s.manager.mem.docs n = none
  | _ => True

instance (lex : Lexical) (n : NodeId) (s : State) (e : Event) (s' : State) :
    Decidable (RemovedOnceDeleted lex n s e s') := by
  unfold RemovedOnceDeleted
  split <;> infer_instance

/-- While the node is deleted, nothing of it is being saved. -/
def IdleOnceDeleted (n : NodeId) (s : State) : Prop :=
  s.Deleted n → ∀ save c, s.manager.saves save = some c → c.nodeId = n → c.phase.pending = false

/-- Under the condition a flush of a deleted node finds no document. -/
private theorem RemovedOnceDeleted.not_flushes {x : DocManager.Event}
    (hG : RemovedOnceDeleted lex n s (.manager x) s') (hdeleted : s.Deleted n) :
    ¬ s.manager.Flushes lex x n := by
  intro hflushes
  have hdocs := hflushes.docs
  obtain ⟨p, hflushed, hn, -⟩ := hflushes
  cases x with
  | writeNode m row => cases hflushed
  | _ => exact hdocs (hG hdeleted p hflushed hn)

/-- A node is deleted by a writer of its row, and by nobody else. -/
private theorem deleted_of_step {m m' : DocManager.State} {x : DocManager.Event}
    (h : DocManager.step lex m x = some m') {row' : NodeRow} (hrow' : m'.nodes n = some row')
    (hdeleted : row'.deletedAt ≠ none) :
    (∃ row ∈ m.nodes n, row.deletedAt ≠ none) ∨ x = .writeNode n row' := by
  rcases DocManager.row_cases h n with hsame | ⟨row, rfl, hwritten⟩ | ⟨-, hgone⟩ |
    ⟨save, reply, now, c, row, hupdated⟩
  · exact Or.inl ⟨row', hsame ▸ hrow', hdeleted⟩
  · obtain rfl : row = row' := Option.some.inj (hwritten.symm.trans hrow')
    exact Or.inr rfl
  · rw [hgone] at hrow'
    cases hrow'
  · -- a save writes the row and leaves `deleted_at` as it is
    have hwritten := hupdated.after.symm.trans hrow'
    obtain rfl := Option.some.inj hwritten
    exact Or.inl ⟨row, hupdated.before, hdeleted⟩

private theorem idleOnceDeleted_step (hI : DocManager.Inv s.manager) (hD : IdleOnceDeleted n s)
    (h : step lex s3 spread s e = some s') (hG : RemovedOnceDeleted lex n s e s') :
    IdleOnceDeleted n s' := by
  have hframe : s'.manager = s.manager → IdleOnceDeleted n s' := by
    intro hmanager
    unfold IdleOnceDeleted State.Deleted
    rw [hmanager]
    exact hD
  cases step_parts h with
  | manager x he hstep _ =>
      subst he
      rintro ⟨row', hrow', hdeleted'⟩ save c' hsave' rfl
      by_contra hpending
      have hdeleted := deleted_of_step hstep hrow' hdeleted'
      rcases DocManager.save_of_step hstep hsave' with ⟨c, hc, hsame, -, hbefore⟩ | ⟨-, hcall⟩
      · -- the call was under way before, and so `deleted_at` is not set now either
        have hnode : c.nodeId = c'.nodeId := by rw [hsame]
        have hwas : c.phase.pending = true := hbefore (by simpa using hpending)
        rcases hdeleted with hdeleted | rfl
        · exact absurd (hD hdeleted save c hc hnode) (by simp [hwas])
        · exact hG rfl hdeleted' ⟨save, hI.save_lt hc, c, hc, hnode, hwas⟩
      · -- the flush has just started, on a document
        have hflushes := hcall.flushes hstep
        rcases hdeleted with hdeleted | rfl
        · exact hG.not_flushes hdeleted hflushes
        · obtain ⟨p, hflushed, -⟩ := hflushes
          cases hflushed
  | files hmanager _ _ => exact hframe hmanager
  | repository _ _ _ _ _ _ _ _ _ hmanager _ _ _ _ _ => exact hframe hmanager

/-- Nothing is written for a deleted node that is not being saved. -/
private theorem spares_of_idle (hD : IdleOnceDeleted n s)
    (h : step lex s3 spread s e = some s') (hG : RemovedOnceDeleted lex n s e s') :
    Spares lex n s e s' := by
  intro hdeleted
  cases step_parts h with
  | manager x he _ _ =>
      subst he
      cases x with
      | updateNodeRow save reply now =>
          rintro - c hsave hnode hphase
          have hover := hD hdeleted save c hsave hnode
          rw [hphase] at hover
          cases hover
      | _ => exact fun hskips => hG.not_flushes hdeleted hskips.flushes
  | files _ he hreply =>
      cases e with
      | manager x => exact absurd rfl (he x)
      | repositoryReply save reply now => exact absurd rfl (hreply save reply now)
      | _ => trivial
  | repository save reply now c persisted _ _ _ he _ hsave hphase _ _ _ =>
      subst he
      rintro - c' hsave' hnode
      obtain rfl : c = c' := Option.some.inj (hsave.symm.trans hsave')
      have hover := hD hdeleted save c hsave hnode
      rw [hphase] at hover
      cases hover

private theorem inv_step (hI : DocManager.Inv s.manager)
    (h : step lex s3 spread s e = some s') : DocManager.Inv s'.manager := by
  cases step_parts h with
  | manager x _ hstep _ => exact hI.step hstep
  | files hmanager _ _ => exact hmanager ▸ hI
  | repository _ _ _ _ _ _ _ _ _ hmanager _ _ _ _ _ => exact hmanager ▸ hI

/-- **A deleted node is left untouched** in every run in which `deleted_at` is set while
nothing of the node is being saved, and in which a flush that starts afterwards finds
the node no longer managed. -/
theorem along_untouched (lex : Lexical) (s3 : S3Service)
    (spread : NodeContent → String → Json) (nodes : NodeId → Option NodeRow) (db : Tables)
    (n : NodeId) (es : List Event)
    (h : Along (step lex s3 spread) (RemovedOnceDeleted lex n) (State.init nodes db) es) :
    Along (step lex s3 spread) (Untouched n) (State.init nodes db) es := by
  refine along_of_invariant
    (I := fun s => DocManager.Inv s.manager ∧ IdleOnceDeleted n s) ?_
    ⟨DocManager.inv_init nodes, ?_⟩ h
  · rintro s e s' hstep ⟨hI, hD⟩ hG
    exact ⟨⟨inv_step hI hstep, idleOnceDeleted_step hI hD hstep hG⟩,
      (untouched_iff hstep).mpr (spares_of_idle hD hstep hG)⟩
  · intro _ save c hsave
    cases hsave

/-- The node is edited, and its flush waits in the queue while the API server deletes
it; `NODE_DELETE` arrives, and the flush starts. -/
def removedBeforeFlush : List Event :=
  DocManager.openNode.map .manager ++
    [.manager (.applyToDoc 1 ⟨{(5, 0)}, ∅⟩), .manager (.scheduleSave 1 (some 9)),
      .manager (.fireTimer 0)] ++
    [.manager (.writeNode 1 ⟨none, none, 0, 0, 7, some 5⟩), .service (.releaseNodeAttachments 1),
      .service (.resume 0 6), .service (.resume 0 6), .service (.resume 0 6),
      .service (.resume 0 6), .manager (.cleanupNode 1), .manager (.startTask 0)]

theorem removedBeforeFlush_untouched :
    (exec (step .plain oneBucket fun _ _ => showsImage)
        (State.init DocManager.oneNode (oneImage {1})) removedBeforeFlush).any (fun s =>
          s.Deleted 1 ∧ (s.manager.queue.task 0).any fun entry =>
            entry.payload.stage = .settled) = true ∧
      Along (step .plain oneBucket fun _ _ => showsImage) (Untouched 1)
        (State.init DocManager.oneNode (oneImage {1})) removedBeforeFlush :=
  ⟨by decide +kernel, along_untouched .plain oneBucket (fun _ _ => showsImage) DocManager.oneNode
    (oneImage {1}) 1 removedBeforeFlush (by decide +kernel)⟩

/-- The node is open.  The API server deletes it and releases its attachments, the
event is lost, and a user goes on editing. -/
def flushedAfterDeletion : List Event :=
  DocManager.openNode.map .manager ++
    [.manager (.writeNode 1 ⟨none, none, 0, 0, 7, some 5⟩), .service (.releaseNodeAttachments 1),
      .service (.resume 0 6), .service (.resume 0 6), .service (.resume 0 6),
      .service (.resume 0 6)] ++
    (DocManager.editAndFlush ⟨{(5, 0)}, ∅⟩ 0 0).map .manager ++
    [.manager (.redisReply .ok), .manager (.updateNodeRow 0 .ok 10), .repositoryReply 0 .ok 11,
      .repositoryReply 0 .ok 12, .repositoryReply 0 .ok 13, .repositoryReply 0 .ok 14,
      .manager (.attachmentsSynced 0 true)]

theorem flushedAfterDeletion_written :
    (exec (step .plain oneBucket fun _ _ => showsImage)
        (State.init DocManager.oneNode (oneImage {1})) flushedAfterDeletion).any (fun s =>
          s.Deleted 1 ∧ (s.manager.nodes 1).map NodeRow.version = some 1 ∧
            (4, 1) ∈ s.files.db.attachments ∧ Active s.files.db 4) = true ∧
      ¬ Along (step .plain oneBucket fun _ _ => showsImage) (Untouched 1)
        (State.init DocManager.oneNode (oneImage {1})) flushedAfterDeletion := by
  refine ⟨by decide +kernel, fun h => ?_⟩
  have hspares := h.mono_step fun _ _ _ hstep => (untouched_iff hstep).mp
  exact absurd hspares (by decide +kernel)

/-! ### Nodes that are closed -/

/-- The node is not managed, and nothing of it is being saved. -/
structure Closed (n : NodeId) (s : State) : Prop where
  docs : s.manager.mem.docs n = none
  saves : ∀ save c, s.manager.saves save = some c → c.nodeId = n → c.phase.pending = false

/-- No load of the node ends with a document. -/
def NotLoaded (n : NodeId) (s : State) (e : Event) (_ : State) : Prop :=
  ∀ l, e = .manager (.continueLoad l) →
    ∀ x ∈ s.manager.loader.loads l, x.nodeId = n → x.phase.document = none

namespace Closed

/-- A node that is not loaded again stays closed: a flush of it finds no document. -/
theorem step (hC : Closed n s) (h : CrdtService.step lex s3 spread s e = some s')
    (hloaded : NotLoaded n s e s') : Closed n s' := by
  cases step_parts h with
  | manager x he hstep hfiles =>
      have hdocs : s'.manager.mem.docs n = none :=
        DocManager.docs_eq_none_of_step hC.docs hstep fun l hx => hloaded l (by rw [he, hx])
      refine ⟨hdocs, fun save c' hsave hnode => ?_⟩
      rcases DocManager.save_of_step hstep hsave with ⟨c, hc, hsame, -, hpending⟩ | ⟨-, hcall⟩
      · have hover := hC.saves save c hc (by rw [← hnode, hsame])
        by_contra hagain
        rw [hpending (by simpa using hagain)] at hover
        cases hover
      · have hmanaged := hcall.docs
        rw [hnode, hdocs] at hmanaged
        cases hmanaged
  | files hmanager _ _ => exact ⟨by rw [hmanager, hC.docs], by rw [hmanager]; exact hC.saves⟩
  | repository _ _ _ _ _ _ _ _ _ hmanager _ _ _ _ _ =>
      exact ⟨by rw [hmanager, hC.docs], by rw [hmanager]; exact hC.saves⟩

/-- A flush of a node that is closed finds it no longer managed. -/
theorem removedOnceDeleted (hC : Closed n s) : RemovedOnceDeleted lex n s e s' := by
  cases e with
  | manager x =>
      cases x with
      | writeNode m row =>
          rintro - - ⟨save, -, c, hsave, hnode, hpending⟩
          rw [hC.saves save c hsave hnode] at hpending
          cases hpending
      | _ => exact fun _ _ _ _ => hC.docs
  | _ => trivial

theorem spares (hC : Closed n s) (h : CrdtService.step lex s3 spread s e = some s') :
    Spares lex n s e s' :=
  spares_of_idle (fun _ => hC.saves) h hC.removedOnceDeleted

end Closed

/-- **A node that is closed is left untouched** until it is loaded again. -/
theorem along_untouched_of_closed {es : List Event} (hC : Closed n s)
    (hloaded : Along (step lex s3 spread) (NotLoaded n) s es) :
    Along (step lex s3 spread) (Untouched n) s es := by
  refine along_of_invariant (I := Closed n) ?_ hC hloaded
  intro s e s' hstep hC hloaded
  exact ⟨hC.step hstep hloaded, (untouched_iff hstep).mpr (hC.spares hstep)⟩

end AideepWebsocket.CrdtService
