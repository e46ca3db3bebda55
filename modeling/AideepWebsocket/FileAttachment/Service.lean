import AideepWebsocket.DocManager.State
import AideepWebsocket.Library.Javascript
import AideepWebsocket.Library.Json
import AideepWebsocket.Library.Run

/-!
# FileAttachmentService

Two tables say which files are in use: `file_attachments` has a row for each file
that the content of a node refers to, and the status of a row of `files` is
derived from it.  `syncNodeAttachments` brings the attachments of one node in line
with its content, `releaseNodeAttachments` removes them; both go on to mark the
files that have been attached `ACTIVE`, and those that nothing refers to any more
`ORPHAN`, which is what `findStaleFiles` collects.

The service awaits one repository call after the other, outside of any
transaction.  A repository call is one statement, which is atomic; a `Phase` is the
call that is made next, with what the code keeps for what follows.

The database does not promise an order of the rows that it returns and the code
uses none, so lists of file ids are sets.  Rows of `files` are never removed by this
program, and `nodes` are deleted by a flag, so the foreign keys of
`file_attachments` hold.  The columns that nothing here reads (`updated_at`,
`file_url`, ...) are left out, as is the log.
-/

namespace AideepWebsocket.FileAttachment

open Library (Json isWhitespace)

abbrev FileId := ℕ

/-! ### The tables -/

/-- `enum file_status_enum`. -/
inductive FileStatus
  | PENDING
  | ACTIVE
  | ORPHAN
  | DELETED
  deriving DecidableEq

/-- `model files`. -/
structure FileRow where
  fileId : FileId
  s3Key : String
  workspaceId : WorkspaceId
  status : FileStatus
  orphanedAt : Option ℕ
  createdAt : ℕ
  deletedAt : Option ℕ
  deriving DecidableEq

/-- `files`, and `file_attachments` by its primary key. -/
structure Tables where
  files : List FileRow
  attachments : Finset (FileId × NodeId)
  deriving DecidableEq

namespace Tables

/-- Some node has the file attached. -/
def Attached (db : Tables) (fileId : FileId) : Prop :=
  ∃ row ∈ db.attachments, row.1 = fileId

instance (db : Tables) (fileId : FileId) : Decidable (db.Attached fileId) := by
  unfold Attached
  infer_instance

/-! ### FileAttachmentRepository -/

def findFileIdsByS3Keys (db : Tables) (s3Keys : List String) (workspaceId : WorkspaceId) :
    Finset FileId :=
  ((db.files.filter fun file => file.s3Key ∈ s3Keys ∧ file.workspaceId = workspaceId ∧
    file.deletedAt = none).map FileRow.fileId).toFinset

def findAttachedFileIdsByNodeId (db : Tables) (nodeId : NodeId) : Finset FileId :=
  (db.attachments.filter fun row => row.2 = nodeId).image Prod.fst

def createAttachments (db : Tables) (nodeId : NodeId) (fileIds : Finset FileId) : Tables :=
  { db with attachments := db.attachments ∪ fileIds.image fun fileId => (fileId, nodeId) }

def deleteAttachments (db : Tables) (nodeId : NodeId) (fileIds : Finset FileId) : Tables :=
  { db with attachments := db.attachments.filter fun row => ¬ (row.2 = nodeId ∧ row.1 ∈ fileIds) }

/-- The number of rows of each file that has one. -/
def countAttachmentsByFileIds (db : Tables) (fileIds : Finset FileId) : FileId → Option ℕ :=
  fun fileId =>
    let count := (db.attachments.filter fun row => row.1 = fileId).card
    if fileId ∈ fileIds ∧ 0 < count then some count else none

/-- `files.updateMany`. -/
def updateMany (db : Tables) (fileIds : Finset FileId) (data : FileRow → FileRow) : Tables :=
  { db with files := db.files.map fun file => if file.fileId ∈ fileIds then data file else file }

def markFilesActive (db : Tables) (fileIds : Finset FileId) : Tables :=
  db.updateMany fileIds fun file => { file with status := .ACTIVE, orphanedAt := none }

def markFilesOrphan (db : Tables) (fileIds : Finset FileId) (now : ℕ) : Tables :=
  db.updateMany fileIds fun file => { file with status := .ORPHAN, orphanedAt := some now }

/-- The files that the garbage collection may take. -/
def findStaleFiles (db : Tables) (threshold : ℕ) : List FileRow :=
  db.files.filter fun file => file.deletedAt = none ∧
    ((file.status = .ORPHAN ∧ ∃ orphanedAt ∈ file.orphanedAt, orphanedAt < threshold) ∨
      (file.status = .PENDING ∧ file.createdAt < threshold))

/-! How the statements change the tables. -/

variable {db : Tables} {nodeId : NodeId} {fileIds : Finset FileId} {fileId : FileId}

theorem mem_findAttachedFileIdsByNodeId :
    fileId ∈ db.findAttachedFileIdsByNodeId nodeId ↔ (fileId, nodeId) ∈ db.attachments := by
  simp [findAttachedFileIdsByNodeId]

@[simp] theorem attached_createAttachments :
    (db.createAttachments nodeId fileIds).Attached fileId ↔
      db.Attached fileId ∨ fileId ∈ fileIds := by
  simp only [Attached, createAttachments, Finset.mem_union, Finset.mem_image]
  constructor
  · rintro ⟨row, hold | ⟨id, hid, rfl⟩, rfl⟩
    · exact Or.inl ⟨row, hold, rfl⟩
    · exact Or.inr hid
  · rintro (⟨row, hold, rfl⟩ | hid)
    · exact ⟨row, Or.inl hold, rfl⟩
    · exact ⟨(fileId, nodeId), Or.inr ⟨fileId, hid, rfl⟩, rfl⟩

theorem Attached.of_deleteAttachments
    (h : (db.deleteAttachments nodeId fileIds).Attached fileId) : db.Attached fileId := by
  obtain ⟨row, hrow, heq⟩ := h
  exact ⟨row, (Finset.mem_filter.mp hrow).1, heq⟩

@[simp] theorem attached_updateMany (data : FileRow → FileRow) :
    (db.updateMany fileIds data).Attached fileId ↔ db.Attached fileId := Iff.rfl

/-- A file is counted exactly if it is asked for and attached. -/
theorem countAttachmentsByFileIds_eq_none (hmem : fileId ∈ fileIds) :
    db.countAttachmentsByFileIds fileIds fileId = none ↔ ¬ db.Attached fileId := by
  have hpos : 0 < (db.attachments.filter fun row => row.1 = fileId).card ↔ db.Attached fileId := by
    simp only [Finset.card_pos, Finset.Nonempty, Finset.mem_filter, Attached]
  simp [countAttachmentsByFileIds, hmem, hpos]

end Tables

/-! ### The files that a content refers to -/

/-- The configuration of `S3Service`. -/
structure S3Service where
  bucket : String
  region : String

namespace S3Service

def getPublicUrl (s3 : S3Service) (key : String) : String :=
  "https://" ++ s3.bucket ++ ".s3." ++ s3.region ++ ".amazonaws.com/" ++ key

/-- `none` if it throws. -/
def extractKeyFromUrl (s3 : S3Service) (url : List Char) : Option String :=
  let bucketUrl := (s3.getPublicUrl "").toList
  if bucketUrl <+: url then some (String.ofList (url.drop bucketUrl.length)) else none

end S3Service

/-- What the class of the pattern matches: neither a quote, nor whitespace, nor a
closing parenthesis, nor a backslash. -/
def urlChar (c : Char) : Bool := !([0x22, 0x27, 0x29, 0x5C].contains c.toNat || isWhitespace c)

/-- `text.match(urlPattern)`: the prefix and at least one more character, from left
to right; the next `skip` characters belong to the last match. -/
def matchUrls (bucketUrl : List Char) : ℕ → List Char → List (List Char)
  | _, [] => []
  | skip + 1, _ :: text => matchUrls bucketUrl skip text
  | 0, c :: text =>
      let tail := ((c :: text).drop bucketUrl.length).takeWhile urlChar
      if bucketUrl <+: c :: text ∧ tail ≠ [] then
        (bucketUrl ++ tail) :: matchUrls bucketUrl (bucketUrl.length + tail.length - 1) text
      else matchUrls bucketUrl 0 text

/-- The keys that `extractReferencedFileIds` looks up, without repetitions; `none` if
a URL is refused. -/
def referencedKeys (s3 : S3Service) (content : Json) : Option (List String) :=
  if content.falsy then some []
  else ((matchUrls (s3.getPublicUrl "").toList 0 content.stringify).mapM
    s3.extractKeyFromUrl).map List.eraseDups

/-- A match is the URL of the bucket with a tail that the pattern includes, and it
stands in the text. -/
theorem exists_of_mem_matchUrls {skip : ℕ} {text url : List Char}
    (h : url ∈ matchUrls bucketUrl skip text) :
    ∃ key, url = bucketUrl ++ key ∧ (∀ c ∈ key, urlChar c = true) ∧ url <:+: text := by
  induction text generalizing skip with
  | nil => cases skip <;> simp [matchUrls] at h
  | cons c text ih =>
      have hcons : ∀ skip, url ∈ matchUrls bucketUrl skip text →
          ∃ key, url = bucketUrl ++ key ∧ (∀ c ∈ key, urlChar c = true) ∧ url <:+: c :: text := by
        intro skip hrest
        obtain ⟨key, hurl, hkey, hstands⟩ := ih hrest
        exact ⟨key, hurl, hkey, hstands.trans (List.suffix_cons c text).isInfix⟩
      cases skip with
      | succ skip => exact hcons skip h
      | zero =>
          rw [matchUrls] at h
          split at h
          · rename_i hmatch
            rcases List.mem_cons.mp h with rfl | hrest
            · refine ⟨_, rfl, fun d hd => List.mem_takeWhile_imp hd, ?_⟩
              obtain ⟨after, hafter⟩ := hmatch.1
              rw [← hafter, List.drop_left]
              exact ((List.prefix_append_right_inj _).mpr (List.takeWhile_prefix _)).isInfix
            · exact hcons _ hrest
          · exact hcons _ h

/-- No URL is refused, since each match begins with the URL of the bucket. -/
theorem referencedKeys_eq (s3 : S3Service) (content : Json) :
    referencedKeys s3 content = some (if content.falsy then [] else
      ((matchUrls (s3.getPublicUrl "").toList 0 content.stringify).map fun url =>
        String.ofList (url.drop (s3.getPublicUrl "").toList.length)).eraseDups) := by
  have hall : ∀ urls : List (List Char), (∀ url ∈ urls, (s3.getPublicUrl "").toList <+: url) →
      urls.mapM s3.extractKeyFromUrl =
        some (urls.map fun url => String.ofList (url.drop (s3.getPublicUrl "").toList.length)) := by
    intro urls
    induction urls with
    | nil => simp
    | cons url urls ih =>
        intro hurls
        obtain ⟨hurl, hrest⟩ := List.forall_mem_cons.mp hurls
        simp [List.mapM_cons, S3Service.extractKeyFromUrl, hurl, ih hrest]
  unfold referencedKeys
  split
  · rfl
  · rw [hall _ fun url hurl => ?_]
    · rfl
    · obtain ⟨key, rfl, -⟩ := exists_of_mem_matchUrls hurl
      exact List.prefix_append ..

theorem referencedKeys_isSome (s3 : S3Service) (content : Json) :
    (referencedKeys s3 content).isSome = true := by
  rw [referencedKeys_eq]
  rfl

/-! ### FileAttachmentService -/

/-- The repository call that a call of the service makes next, with what it needs
for it and afterwards. -/
inductive Phase
  | findFileIdsByS3Keys (workspaceId : WorkspaceId) (s3Keys : List String)
  | findAttachedFileIdsByNodeId (referencedIds : Finset FileId)
  | createAttachments (toAdd toRemove : Finset FileId)
  | markFilesActive (toAdd toRemove : Finset FileId)
  | deleteAttachments (fileIds : Finset FileId)
  | countAttachmentsByFileIds (fileIds : Finset FileId)
  | markFilesOrphan (orphanIds : Finset FileId)
  | ended
  | rejected
  deriving DecidableEq

/-- `syncNodeAttachments`, up to its first repository call. -/
def syncNodeAttachments (s3 : S3Service) (workspaceId : WorkspaceId) (content : Json) : Phase :=
  match referencedKeys s3 content with
  | none => .rejected
  | some [] => .findAttachedFileIdsByNodeId ∅
  | some s3Keys => .findFileIdsByS3Keys workspaceId s3Keys

/-- `releaseNodeAttachments`: it goes on as the sync of a content that refers to
nothing. -/
def releaseNodeAttachments : Phase := .findAttachedFileIdsByNodeId ∅

/-- The second half of a sync, and all of a release. -/
def removeAttachments (toRemove : Finset FileId) : Phase :=
  if toRemove = ∅ then .ended else .deleteAttachments toRemove

/-- The rest of a sync, once the attachments are known. -/
def diffAttachments (referencedIds currentIds : Finset FileId) : Phase :=
  let toAdd := referencedIds \ currentIds
  let toRemove := currentIds \ referencedIds
  if toAdd = ∅ then removeAttachments toRemove else .createAttachments toAdd toRemove

/-- `orphanUnreferencedFiles`, once the files are counted. -/
def orphanUnreferencedFiles (fileIds : Finset FileId) (remainingCounts : FileId → Option ℕ) :
    Phase :=
  let orphanIds := fileIds.filter fun fileId => remainingCounts fileId = none
  if orphanIds = ∅ then .ended else .markFilesOrphan orphanIds

/-- A repository call on behalf of the node, and where the service goes on. -/
def Phase.call (db : Tables) (now : ℕ) (nodeId : NodeId) : Phase → Option (Tables × Phase)
  | .findFileIdsByS3Keys workspaceId s3Keys =>
      some (db, .findAttachedFileIdsByNodeId (db.findFileIdsByS3Keys s3Keys workspaceId))
  | .findAttachedFileIdsByNodeId referencedIds =>
      some (db, diffAttachments referencedIds (db.findAttachedFileIdsByNodeId nodeId))
  | .createAttachments toAdd toRemove =>
      some (db.createAttachments nodeId toAdd, .markFilesActive toAdd toRemove)
  | .markFilesActive toAdd toRemove =>
      some (db.markFilesActive toAdd, removeAttachments toRemove)
  | .deleteAttachments fileIds =>
      some (db.deleteAttachments nodeId fileIds, .countAttachmentsByFileIds fileIds)
  | .countAttachmentsByFileIds fileIds =>
      some (db, orphanUnreferencedFiles fileIds (db.countAttachmentsByFileIds fileIds))
  | .markFilesOrphan orphanIds => some (db.markFilesOrphan orphanIds now, .ended)
  | .ended | .rejected => none

/-- No repository call is left to be made. -/
def Phase.over : Phase → Bool
  | .ended | .rejected => true
  | _ => false

/-! ### Pieces of runs

One image is the file `4`, in workspace `7`. -/

/-- The bucket of the server. -/
def oneBucket : S3Service := ⟨"b", "r"⟩

/-- A body that shows the image under the key `k`. -/
def showsImage : Json :=
  .object [("urls", .array [.string (oneBucket.getPublicUrl "k")])]

/-- A body without images. -/
def noImage : Json := .object [("urls", .array [])]

/-- The image is the file `4`, and the nodes `nodeIds` show it. -/
def oneImage (nodeIds : Finset NodeId) : Tables :=
  ⟨[⟨4, "k", 7, .ACTIVE, none, 0, none⟩], nodeIds.image fun nodeId => (4, nodeId)⟩

end AideepWebsocket.FileAttachment
