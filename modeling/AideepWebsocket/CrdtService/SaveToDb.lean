import AideepWebsocket.DocManager.Commits
import AideepWebsocket.FileAttachment.Interleaving

/-!
# YjsCrdtService.saveToDb

`saveToDb` is one transaction on the row of the node, and then a
`syncNodeAttachments` outside of it.  `YjsDocManager` knows of the second part only
that it ends; here it is carried out, one repository call at a time.

* `syncs` — the syncs that calls of `saveToDb` await;
* `files` — the two tables, and the calls of `FileAttachmentService` that the API
  server makes: it releases the attachments of a node that it deletes.

A repository call may fail like any call to a store, and the sync rejects.  What is
synced is `{ ...updatedContent, ...attachmentContent }`; both are kept serialised, and
`spread` is the object made of them.
-/

namespace AideepWebsocket.CrdtService

open Library
open DocManager (NodeRow NodeContent SaveId SaveCall Reply)
open FileAttachment (Tables S3Service)

/-- The manager with its saves, and the tables of the attachments. -/
structure State where
  manager : DocManager.State
  files : FileAttachment.State
  syncs : SaveId → Option FileAttachment.Phase

inductive Event
  | manager (e : DocManager.Event)
  /-- The API server calls `FileAttachmentService`, or such a call goes on. -/
  | service (e : FileAttachment.Event)
  /-- A repository call that is made for a save ends. -/
  | repositoryReply (save : SaveId) (reply : Reply) (now : ℕ)
  /-- Another writer of `files` and `file_attachments`. -/
  | writeFiles (db : Tables)

namespace State

/-- At the start there are rows and attachments, and nothing is managed. -/
def init (nodes : NodeId → Option NodeRow) (db : Tables) : State where
  manager := .init nodes
  files := .init db
  syncs _ := none

/-- `saveToDb` goes on after its transaction. -/
def syncNodeAttachments (s3 : S3Service) (spread : NodeContent → String → Json) (s : State)
    (save : SaveId) : State :=
  match s.manager.saves save with
  | none => s
  | some c =>
      match c.phase with
      | .syncNodeAttachments _ =>
          let updatedContent :=
            ((s.manager.nodes c.nodeId).bind NodeRow.content).getD ⟨none, none, []⟩
          { s with
            syncs := Function.update s.syncs save (some (FileAttachment.syncNodeAttachments s3
              c.workspaceId (spread updatedContent c.attachmentContent))) }
      | _ => s

/-- A repository call that `save` awaits ends with `reply`. -/
def repositoryReply (s : State) (save : SaveId) (reply : Reply) (now : ℕ) : Option State :=
  match s.manager.saves save, s.syncs save with
  | some c, some phase =>
      match c.phase with
      | .syncNodeAttachments _ =>
          (phase.call s.files.db now c.nodeId).map fun (db, phase') =>
            { s with
              files := { s.files with db := if reply.executed then db else s.files.db }
              syncs := Function.update s.syncs save
                (some (if reply = .ok then phase' else .rejected)) }
      | _ => none
  | _, _ => none

end State

variable (lex : Lexical) (s3 : S3Service) (spread : NodeContent → String → Json)

/-- One step of the server and of those who share its tables. -/
def step (s : State) : Event → Option State
  | .manager (.updateNodeRow save reply now) =>
      (DocManager.step lex s.manager (.updateNodeRow save reply now)).map fun manager =>
        State.syncNodeAttachments s3 spread { s with manager := manager } save
  | .manager (.attachmentsSynced save ok) =>
      if s.syncs save = some (if ok then .ended else .rejected) then
        (DocManager.step lex s.manager (.attachmentsSynced save ok)).map fun manager =>
          { s with manager := manager, syncs := Function.update s.syncs save none }
      else none
  | .manager .restart => some { s with manager := s.manager.restart, syncs := fun _ => none }
  | .manager e => (DocManager.step lex s.manager e).map fun manager =>
      { s with manager := manager }
  | .service e => (FileAttachment.step s3 s.files e).map fun files => { s with files := files }
  | .repositoryReply save reply now => s.repositoryReply save reply now
  | .writeFiles db => some { s with files := { s.files with db := db } }

variable {lex s3 spread} {s s' : State} {e : Event}

/-- The call is bookkeeping of this module. -/
private theorem syncNodeAttachments_frame (s : State) (save : SaveId) :
    (s.syncNodeAttachments s3 spread save).manager = s.manager ∧
      (s.syncNodeAttachments s3 spread save).files = s.files := by
  unfold State.syncNodeAttachments
  split
  · exact ⟨rfl, rfl⟩
  · split <;> exact ⟨rfl, rfl⟩

/-- **The parts of a step.**  The manager takes a step of its own, or the tables of the
attachments change, for the API server or for a save. -/
inductive Step (lex : Lexical) (s : State) (e : Event) (s' : State) : Prop
  | manager (x : DocManager.Event) (he : e = .manager x)
      (hstep : DocManager.step lex s.manager x = some s'.manager) (hfiles : s'.files = s.files)
  | files (hmanager : s'.manager = s.manager) (he : ∀ x, e ≠ .manager x)
      (hreply : ∀ save reply now, e ≠ .repositoryReply save reply now)
  | repository (save : SaveId) (reply : Reply) (now : ℕ) (c : SaveCall)
      (persisted : DocManager.Persisted) (phase phase' : FileAttachment.Phase) (db : Tables)
      (he : e = .repositoryReply save reply now) (hmanager : s'.manager = s.manager)
      (hsave : s.manager.saves save = some c) (hphase : c.phase = .syncNodeAttachments persisted)
      (hsync : s.syncs save = some phase)
      (hcall : phase.call s.files.db now c.nodeId = some (db, phase'))
      (hfiles : s'.files.db = if reply.executed then db else s.files.db)

/-- **What a step can do**: the manager moves, the service moves, or both. -/
theorem step_parts (h : step lex s3 spread s e = some s') : Step lex s e s' := by
  cases e with
  | manager x =>
      have hmap : ∀ f : DocManager.State → State,
          (DocManager.step lex s.manager x).map f = some s' →
          (∀ manager, (f manager).manager = manager ∧ (f manager).files = s.files) →
          Step lex s (.manager x) s' := by
        intro f hf hframe
        obtain ⟨manager, hstep, rfl⟩ := Option.map_eq_some_iff.mp hf
        exact .manager x rfl (by rw [(hframe manager).1]; exact hstep) (hframe manager).2
      cases x with
      | updateNodeRow save reply now =>
          exact hmap _ h fun manager =>
            syncNodeAttachments_frame { s with manager := manager } save
      | attachmentsSynced save ok =>
          by_cases hsync : s.syncs save = some (if ok then .ended else .rejected)
          · rw [step, if_pos hsync] at h
            exact hmap _ h fun _ => ⟨rfl, rfl⟩
          · rw [step, if_neg hsync] at h
            cases h
      | restart =>
          cases h
          exact .manager .restart rfl rfl rfl
      | _ => exact hmap (fun manager => { s with manager := manager }) h fun _ => ⟨rfl, rfl⟩
  | service x =>
      obtain ⟨files, -, rfl⟩ := Option.map_eq_some_iff.mp h
      exact .files rfl (fun _ => Event.noConfusion) fun _ _ _ => Event.noConfusion
  | repositoryReply save reply now =>
      simp only [step, State.repositoryReply] at h
      split at h
      · next c phase hsave hsync =>
          split at h
          · next persisted hphase =>
              obtain ⟨⟨db, phase'⟩, hcall, rfl⟩ := Option.map_eq_some_iff.mp h
              exact .repository save reply now c persisted phase phase' db rfl rfl hsave hphase
                hsync hcall rfl
          · cases h
      · cases h
  | writeFiles db =>
      cases h
      exact .files rfl (fun _ => Event.noConfusion) fun _ _ _ => Event.noConfusion

end AideepWebsocket.CrdtService
