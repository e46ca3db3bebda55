import AideepWebsocket.FileAttachment.Service

/-!
# The files that a content refers to

`extractReferencedFileIds` does not walk through the content: it searches the text
that `JSON.stringify` makes of it for the URL of the bucket, and takes what follows
up to the first character that its pattern excludes.

A string value stands in that text between its quotes.  No match reaches over a
quote, so whatever is matched before it ends before it (`mem_matchUrls_append`), and
a URL that begins right after the quote is matched on its own.  It is matched up to
the closing quote if its key has only characters that the pattern includes and that
`JSON.stringify` leaves as they are (`PlainKey`); the key of any other file is cut,
or is not to be found in the text at all, and the file counts as not referred to.
`s3_key` may have such characters: a blank, a parenthesis, an apostrophe.

`extractReferencedFileIds_complete_iff` says that the files of a content are found
exactly if their keys are plain.
-/

namespace AideepWebsocket.FileAttachment

open Library (Json)

/-! ### Definitions -/

/-- `extractReferencedFileIds`; `none` if it throws. -/
def extractReferencedFileIds (s3 : S3Service) (db : Tables) (content : Json)
    (workspaceId : WorkspaceId) : Option (Finset FileId) :=
  (referencedKeys s3 content).map fun s3Keys => db.findFileIdsByS3Keys s3Keys workspaceId

/-- Nothing in the names of the bucket and of the region is escaped in JSON: they are
made of letters, digits, dots and hyphens. -/
def S3Service.Plain (s3 : S3Service) : Prop :=
  ∀ c ∈ s3.bucket.toList ++ s3.region.toList, Json.escape c = [c]

/-- A key that the pattern matches as it is: without quotes, apostrophes, closing
parentheses, backslashes, whitespace and control characters. -/
def PlainKey (s3Key : String) : Prop :=
  ∀ c ∈ s3Key.toList, urlChar c = true ∧ 0x20 ≤ c.toNat

/-- `file_id` is the primary key of `files`. -/
def Tables.PrimaryKey (db : Tables) : Prop :=
  (db.files.map FileRow.fileId).Nodup

/-- A file of the workspace whose URL is a string value of the content. -/
structure Shown (s3 : S3Service) (db : Tables) (content : Json) (workspaceId : WorkspaceId)
    (file : FileRow) : Prop where
  mem : file ∈ db.files
  workspaceId : file.workspaceId = workspaceId
  deletedAt : file.deletedAt = none
  s3Key : file.s3Key ≠ ""
  url : s3.getPublicUrl file.s3Key ∈ content.strings

/-- The extraction answers with every file that is shown, and with no file whose URL
the text of the content does not have. -/
def CompleteExtraction (s3 : S3Service) (db : Tables) (content : Json)
    (workspaceId : WorkspaceId) : Prop :=
  ∃ fileIds, extractReferencedFileIds s3 db content workspaceId = some fileIds ∧
    (∀ file, Shown s3 db content workspaceId file → file.fileId ∈ fileIds) ∧
    ∀ fileId ∈ fileIds, ∃ file ∈ db.files, file.fileId = fileId ∧
      (s3.getPublicUrl file.s3Key).toList <:+: content.stringify

/-! ### What is matched -/

variable {bucketUrl : List Char}

private theorem takeWhile_urlChar_append (key after : List Char) :
    (key ++ '"' :: after).takeWhile urlChar = key.takeWhile urlChar := by
  induction key with
  | nil => exact List.takeWhile_cons_of_neg (by decide)
  | cons c key ih =>
      rw [List.cons_append, List.takeWhile_cons, List.takeWhile_cons, ih]

private theorem prefix_of_append_quote (hquote : '"' ∉ bucketUrl) {before after : List Char}
    (h : bucketUrl <+: before ++ '"' :: after) : bucketUrl <+: before := by
  have hfirst : before ++ ['"'] <+: before ++ '"' :: after :=
    List.prefix_append_right_inj before |>.mpr ⟨after, rfl⟩
  rcases List.prefix_or_prefix_of_prefix h hfirst with hshort | hlong
  · rcases List.prefix_concat_iff.mp hshort with rfl | hbefore
    · exact absurd (by simp) hquote
    · exact hbefore
  · exact absurd (hlong.subset (by simp)) hquote

/-- A match does not reach over a quote, so it does not take anything away from what
is matched behind it. -/
theorem mem_matchUrls_append (hne : bucketUrl ≠ []) (hquote : '"' ∉ bucketUrl) {skip : ℕ}
    {before after url : List Char} (hskip : skip ≤ before.length)
    (h : url ∈ matchUrls bucketUrl 0 after) :
    url ∈ matchUrls bucketUrl skip (before ++ '"' :: after) := by
  induction before generalizing skip with
  | nil =>
      obtain rfl : skip = 0 := by simpa using hskip
      have hno : ¬ bucketUrl <+: '"' :: after := fun hprefix =>
        hne (List.prefix_nil.mp (prefix_of_append_quote hquote hprefix))
      show url ∈ matchUrls bucketUrl 0 ('"' :: after)
      rw [matchUrls, if_neg fun hmatch => hno hmatch.1]
      exact h
  | cons c before ih =>
      cases skip with
      | succ skip => exact ih (Nat.le_of_succ_le_succ hskip)
      | zero =>
          rw [List.cons_append, matchUrls]
          split
          · rename_i hmatch
            obtain ⟨key, hkey⟩ : bucketUrl <+: c :: before :=
              prefix_of_append_quote hquote hmatch.1
            refine List.mem_cons_of_mem _ (ih ?_)
            have hlen := congrArg List.length hkey
            rw [← List.cons_append, ← hkey, List.append_assoc, List.drop_left,
              takeWhile_urlChar_append]
            have htail := (List.takeWhile_prefix (l := key) urlChar).length_le
            simp only [List.length_append, List.length_cons] at hlen
            omega
          · exact ih (Nat.zero_le _)

/-- A URL is matched up to the quote behind it. -/
theorem url_mem_matchUrls (hne : bucketUrl ≠ []) {key after : List Char} (hkey : key ≠ [])
    (hplain : ∀ c ∈ key, urlChar c = true) :
    bucketUrl ++ key ∈ matchUrls bucketUrl 0 (bucketUrl ++ key ++ '"' :: after) := by
  have htail : ((bucketUrl ++ key ++ '"' :: after).drop bucketUrl.length).takeWhile urlChar =
      key := by
    rw [List.append_assoc, List.drop_left, takeWhile_urlChar_append]
    exact List.takeWhile_eq_self_iff.mpr hplain
  obtain ⟨c, bucketUrl', rfl⟩ := List.exists_cons_of_ne_nil hne
  rw [List.append_assoc, List.cons_append, matchUrls]
  rw [List.append_assoc, List.cons_append] at htail
  rw [htail, if_pos ⟨⟨key ++ '"' :: after, rfl⟩, hkey⟩]
  exact List.mem_cons_self

/-! ### The keys -/

variable {s3 : S3Service} {db : Tables} {content : Json} {workspaceId : WorkspaceId}
  {s3Key : String} {s3Keys : List String}

private theorem toList_getPublicUrl (s3 : S3Service) (s3Key : String) :
    (s3.getPublicUrl s3Key).toList = (s3.getPublicUrl "").toList ++ s3Key.toList := by
  simp [S3Service.getPublicUrl]

/-- The keys that are looked up are those of the URLs that are matched. -/
theorem mem_referencedKeys_iff (h : referencedKeys s3 content = some s3Keys) :
    s3Key ∈ s3Keys ↔ content.falsy = false ∧
      (s3.getPublicUrl s3Key).toList ∈
        matchUrls (s3.getPublicUrl "").toList 0 content.stringify := by
  rw [referencedKeys_eq] at h
  obtain rfl := Option.some.inj h
  by_cases hfalsy : content.falsy = true
  · simp [hfalsy]
  · have hfalsy : content.falsy = false := Bool.eq_false_iff.mpr hfalsy
    simp only [hfalsy, Bool.false_eq_true, if_false, true_and, List.mem_eraseDups, List.mem_map]
    constructor
    · rintro ⟨url, hurl, rfl⟩
      obtain ⟨key, rfl, -⟩ := exists_of_mem_matchUrls hurl
      rwa [List.drop_left, toList_getPublicUrl s3 (String.ofList key), String.toList_ofList]
    · intro hurl
      refine ⟨_, hurl, ?_⟩
      rw [toList_getPublicUrl s3 s3Key, List.drop_left, String.ofList_toList]

/-- A key that is looked up is one that the pattern includes, and its URL stands in the
text. -/
theorem getPublicUrl_infix_stringify (h : referencedKeys s3 content = some s3Keys)
    (hmem : s3Key ∈ s3Keys) :
    (∀ c ∈ s3Key.toList, urlChar c = true) ∧
      (s3.getPublicUrl s3Key).toList <:+: content.stringify := by
  obtain ⟨key, hurl, hkey, hstands⟩ := exists_of_mem_matchUrls ((mem_referencedKeys_iff h).mp hmem).2
  obtain rfl : s3Key.toList = key := by
    rw [toList_getPublicUrl] at hurl
    exact List.append_cancel_left hurl
  exact ⟨hkey, hstands⟩

/-- Only plain keys are looked up. -/
theorem plainKey_of_mem_referencedKeys (hnumbers : content.NumbersPrinted)
    (h : referencedKeys s3 content = some s3Keys) (hmem : s3Key ∈ s3Keys) : PlainKey s3Key := by
  obtain ⟨hkey, hstands⟩ := getPublicUrl_infix_stringify h hmem
  refine fun c hc => ⟨hkey c hc, ?_⟩
  refine Json.le_of_mem_stringify content hnumbers (hstands.subset ?_)
  rw [toList_getPublicUrl]
  exact List.mem_append_right _ hc

private theorem escape_bucketUrl (hs3 : s3.Plain) :
    ∀ c ∈ (s3.getPublicUrl "").toList, Json.escape c = [c] := by
  intro c hc
  have hfixed : ∀ c ∈ "https://".toList ++ ".s3.".toList ++ ".amazonaws.com/".toList,
      Json.escape c = [c] := List.all_iff_forall_prop.mp (by decide)
  simp only [S3Service.getPublicUrl, String.toList_append, List.mem_append] at hc
  simp only [S3Service.Plain, List.mem_append] at hs3 hfixed
  rcases hc with ((((hc | hc) | hc) | hc) | hc) | hc
  · exact hfixed c (Or.inl (Or.inl hc))
  · exact hs3 c (Or.inl hc)
  · exact hfixed c (Or.inl (Or.inr hc))
  · exact hs3 c (Or.inr hc)
  · exact hfixed c (Or.inr hc)
  · cases hc

private theorem PlainKey.escape (hplain : PlainKey s3Key) {c : Char} (hc : c ∈ s3Key.toList) :
    Json.escape c = [c] := by
  obtain ⟨hurl, hcontrol⟩ := hplain c hc
  refine Json.escape_eq_self hcontrol ?_ ?_ <;> rintro rfl <;> exact absurd hurl (by decide)

private theorem falsy_of_mem_strings {url : String} (h : url ∈ content.strings) (hne : url ≠ "") :
    content.falsy = false := by
  cases content with
  | string s =>
      obtain rfl := List.mem_singleton.mp h
      exact beq_eq_false_iff_ne.mpr hne
  | null | bool | number => cases h
  | array | object => rfl

/-- The plain keys whose URLs are string values are looked up. -/
theorem mem_referencedKeys_of_plainKey (hs3 : s3.Plain) (hplain : PlainKey s3Key)
    (hne : s3Key ≠ "") (h : referencedKeys s3 content = some s3Keys)
    (hurl : s3.getPublicUrl s3Key ∈ content.strings) : s3Key ∈ s3Keys := by
  have hlong : (s3.getPublicUrl "").toList ≠ [] := by simp [S3Service.getPublicUrl]
  have hquote : '"' ∉ (s3.getPublicUrl "").toList := fun hmem =>
    absurd (escape_bucketUrl hs3 _ hmem) (by decide)
  have hescape : ∀ c ∈ (s3.getPublicUrl s3Key).toList, Json.escape c = [c] := by
    rw [toList_getPublicUrl]
    exact List.forall_mem_append.mpr ⟨escape_bucketUrl hs3, fun c => hplain.escape⟩
  obtain ⟨before, after, htext⟩ := Json.quote_infix_stringify content hurl
  refine (mem_referencedKeys_iff h).mpr ⟨falsy_of_mem_strings hurl ?_, ?_⟩
  · simp [S3Service.getPublicUrl]
  · rw [← htext, Json.quote_of_escape hescape, toList_getPublicUrl s3 s3Key]
    have hurl' : (s3.getPublicUrl "").toList ++ s3Key.toList ∈ matchUrls (s3.getPublicUrl "").toList
        0 ((s3.getPublicUrl "").toList ++ s3Key.toList ++ '"' :: after) :=
      url_mem_matchUrls hlong (String.toList_eq_nil_iff.not.mpr hne) fun c hc => (hplain c hc).1
    simpa using mem_matchUrls_append hlong hquote (Nat.zero_le before.length) hurl'

/-! ### The files -/

theorem mem_findFileIdsByS3Keys {fileId : FileId} :
    fileId ∈ db.findFileIdsByS3Keys s3Keys workspaceId ↔ ∃ file ∈ db.files,
      (file.s3Key ∈ s3Keys ∧ file.workspaceId = workspaceId ∧ file.deletedAt = none) ∧
        file.fileId = fileId := by
  simp [Tables.findFileIdsByS3Keys, and_assoc]

/-- A row is the only one with its id. -/
theorem Tables.PrimaryKey.eq (hdb : db.PrimaryKey) {file file' : FileRow} (h : file ∈ db.files)
    (h' : file' ∈ db.files) (hid : file.fileId = file'.fileId) : file = file' :=
  List.inj_on_of_nodup_map hdb h h' hid

/-- A file that is shown is found exactly if its key is plain. -/
theorem mem_extractReferencedFileIds_iff (hs3 : s3.Plain) (hnumbers : content.NumbersPrinted)
    (hdb : db.PrimaryKey) {file : FileRow} (hshown : Shown s3 db content workspaceId file)
    {fileIds : Finset FileId}
    (h : extractReferencedFileIds s3 db content workspaceId = some fileIds) :
    file.fileId ∈ fileIds ↔ PlainKey file.s3Key := by
  obtain ⟨s3Keys, hkeys, rfl⟩ := Option.map_eq_some_iff.mp h
  rw [mem_findFileIdsByS3Keys]
  constructor
  · rintro ⟨file', hfile', ⟨hkey, -, -⟩, hid⟩
    obtain rfl := hdb.eq hfile' hshown.mem hid
    exact plainKey_of_mem_referencedKeys hnumbers hkeys hkey
  · intro hplain
    have hkey := mem_referencedKeys_of_plainKey hs3 hplain hshown.s3Key hkeys hshown.url
    exact ⟨file, hshown.mem, ⟨hkey, hshown.workspaceId, hshown.deletedAt⟩, rfl⟩

/-- **The extraction is complete exactly if the keys of the files that are shown are
plain.**  It never throws, and it never answers with a file whose URL the text does
not have. -/
theorem extractReferencedFileIds_complete_iff (hs3 : s3.Plain) (hnumbers : content.NumbersPrinted)
    (hdb : db.PrimaryKey) :
    CompleteExtraction s3 db content workspaceId ↔
      ∀ file, Shown s3 db content workspaceId file → PlainKey file.s3Key := by
  obtain ⟨s3Keys, hkeys⟩ := Option.isSome_iff_exists.mp (referencedKeys_isSome s3 content)
  have hextract : extractReferencedFileIds s3 db content workspaceId =
      some (db.findFileIdsByS3Keys s3Keys workspaceId) := by
    rw [extractReferencedFileIds, hkeys]
    rfl
  constructor
  · rintro ⟨fileIds, h, hcomplete, -⟩ file hshown
    exact (mem_extractReferencedFileIds_iff hs3 hnumbers hdb hshown h).mp (hcomplete file hshown)
  · intro hplain
    refine ⟨_, hextract, fun file hshown => ?_, fun fileId hmem => ?_⟩
    · exact (mem_extractReferencedFileIds_iff hs3 hnumbers hdb hshown hextract).mpr
        (hplain file hshown)
    · obtain ⟨file, hfile, ⟨hkey, -, -⟩, hid⟩ := mem_findFileIdsByS3Keys.mp hmem
      exact ⟨file, hfile, hid, (getPublicUrl_infix_stringify hkeys hkey).2⟩

theorem showsImage_complete : CompleteExtraction oneBucket (oneImage ∅) showsImage 7 := by
  refine (extractReferencedFileIds_complete_iff ?_ ?_ ?_).mpr fun file hshown => ?_
  · exact List.all_iff_forall_prop.mp (by decide +kernel)
  · exact fun literal h => absurd h List.not_mem_nil
  · exact List.nodup_singleton 4
  · obtain rfl := List.mem_singleton.mp hshown.mem
    exact List.all_iff_forall_prop.mp (by decide)

/-- A file whose key has a blank. -/
def photo : FileRow := ⟨4, "my photo.png", 7, .PENDING, none, 0, none⟩

/-- A body that shows it. -/
def showsPhoto : Json := .object [("urls", .array [.string (oneBucket.getPublicUrl photo.s3Key)])]

/-- The key is cut at the blank, and the file is not found. -/
theorem showsPhoto_incomplete :
    oneBucket.Plain ∧ showsPhoto.NumbersPrinted ∧ Tables.PrimaryKey ⟨[photo], ∅⟩ ∧
      Shown oneBucket ⟨[photo], ∅⟩ showsPhoto 7 photo ∧
      ¬ CompleteExtraction oneBucket ⟨[photo], ∅⟩ showsPhoto 7 := by
  have hshown : Shown oneBucket ⟨[photo], ∅⟩ showsPhoto 7 photo :=
    ⟨List.mem_singleton_self _, rfl, rfl, by decide, List.mem_singleton_self _⟩
  have hextract : extractReferencedFileIds oneBucket ⟨[photo], ∅⟩ showsPhoto 7 = some ∅ := by
    decide +kernel
  refine ⟨?_, fun literal h => absurd h List.not_mem_nil, List.nodup_singleton _, hshown, ?_⟩
  · exact List.all_iff_forall_prop.mp (by decide +kernel)
  · rintro ⟨fileIds, h, hcomplete, -⟩
    obtain rfl := Option.some.inj (hextract.symm.trans h)
    exact absurd (hcomplete photo hshown) (Finset.notMem_empty _)

end AideepWebsocket.FileAttachment
