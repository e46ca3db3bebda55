import AideepWebsocket.Library.Javascript
import AideepWebsocket.Library.Reader

/-!
# Markdown and the Lexical document

A node's body is a tree of Lexical nodes, kept in the `Y.Doc` under `root`.  The
server reads it as markdown and appends markdown to it, through a headless
editor that is bound to the document.

Both packages behind this are third-party.

* `@lexical/yjs` is a `Collab`: what a binding reads of a document and what its
  listener writes back.  Bindings leave marks in the document, so that it may
  read differently the next time, and the listener need not write what the
  editor shows: that a document reads and writes as it should is a property of
  this document (`Reads`, `Writes`).
* `@lexical/markdown` is a `Converter`, its two functions.  The import is that of
  an `Importer`: a reader of lines, of which an empty one ends the open block
  unless a code fence is open; empty paragraphs are taken out, and lists that
  are neighbours and of the same type are merged.

`appendMarkdownToYjsDoc` exports the whole document, glues the new markdown to
the text and imports the result.  So it keeps **exactly the documents that
survive their own export**, if the new markdown does not begin with a list that
their last one is merged with (`kept_iff`), and none that has an image or a file
in it: these have no markdown form.
-/

namespace AideepWebsocket.MarkdownYjs

open Library

/-! ### Nodes -/

inductive FieldValue
  | string (value : String)
  | number (value : ℕ)
  deriving DecidableEq

/-- A node of the editor state: its type, the fields that differ from their
defaults, and its children. -/
inductive LexicalNode
  | mk (type : String) (fields : List (String × FieldValue)) (children : List LexicalNode)

namespace LexicalNode

/-- `new ImageNode(src, caption)`. -/
def imageNode (src : String) (caption : String := "") : LexicalNode :=
  mk "image" [("src", .string src), ("caption", .string caption)] []

/-- A paragraph of plain text. -/
def paragraph (text : String) : LexicalNode :=
  mk "paragraph" [] [mk "text" [("text", .string text)] []]

/-- `$createParagraphNode()`: what is left of a line without text. -/
def emptyParagraph : LexicalNode := mk "paragraph" [] []

/-- `isEmptyParagraph` of the package: no child, or a text of at most three white spaces. -/
def isEmptyParagraph : LexicalNode → Bool
  | mk "paragraph" _ [] => true
  | mk "paragraph" _ [mk "text" [("text", .string text)] _] =>
      blank text && text.toList.length ≤ 3
  | _ => false

/-- The type of a list: bullets, numbers. -/
def listType : LexicalNode → Option (Option FieldValue)
  | mk type fields _ => if type = "list" then some (fields.lookup "listType") else none

end LexicalNode

/-- The types of the nodes that every editor registers. -/
def builtinNodes : List String := ["root", "text", "linebreak", "tab", "paragraph"]

/-- The types of `NODES`. -/
def NODES : List String :=
  ["heading", "quote", "list", "listitem", "code", "code-highlight", "link", "autolink",
    "image", "file"]

mutual

/-- Whether the editor knows the type of a node and of all below it. -/
def LexicalNode.registered : LexicalNode → Bool
  | .mk type _ children => (builtinNodes ++ NODES).contains type && allRegistered children

def allRegistered : List LexicalNode → Bool
  | [] => true
  | node :: nodes => node.registered && allRegistered nodes

end

mutual

/-- Whether a node, or one below it, is an image or a file. -/
def LexicalNode.hasDecorator : LexicalNode → Bool
  | .mk type _ children => ["image", "file"].contains type || anyDecorator children

def anyDecorator : List LexicalNode → Bool
  | [] => false
  | node :: nodes => node.hasDecorator || anyDecorator nodes

end

mutual

/-- The number of nodes of a tree. -/
def LexicalNode.size : LexicalNode → ℕ
  | .mk _ _ children => 1 + sizes children

def sizes : List LexicalNode → ℕ
  | [] => 0
  | node :: nodes => node.size + sizes nodes

end

@[simp] theorem sizes_append (ms ns : List LexicalNode) :
    sizes (ms ++ ns) = sizes ms + sizes ns := by
  induction ms with
  | nil => rw [List.nil_append, sizes, Nat.zero_add]
  | cons m ms ih => rw [List.cons_append, sizes, ih, sizes, Nat.add_assoc]

@[simp] theorem anyDecorator_append (ms ns : List LexicalNode) :
    anyDecorator (ms ++ ns) = (anyDecorator ms || anyDecorator ns) := by
  induction ms with
  | nil => rw [List.nil_append, anyDecorator, Bool.false_or]
  | cons m ms ih => rw [List.cons_append, anyDecorator, ih, anyDecorator, Bool.or_assoc]

/-! ### The packages -/

/-- `$convertToMarkdownString(TRANSFORMERS)`, of the blocks of the root, and
`$convertFromMarkdownString(markdown, TRANSFORMERS)`. -/
structure Converter where
  convertToMarkdownString : List LexicalNode → String
  convertFromMarkdownString : String → List LexicalNode

/-- How `@lexical/markdown` imports a text; what is open while it reads is a state
of `σ`. -/
structure Importer (σ : Type) where
  /-- `$importMultiline` and `$importBlocks`, line by line. -/
  reader : Reader σ String LexicalNode
  /-- A code fence is open. -/
  fenced : σ → Bool
  /-- The empty paragraph that the root keeps when a text has no block. -/
  leftover : String → LexicalNode
  /-- `mergeLists`. -/
  mergeLists : LexicalNode → LexicalNode → LexicalNode
  /-- The merged list has the type of the two. -/
  listType_mergeLists : ∀ {a b t}, a.listType = some t → b.listType = some t →
    (mergeLists a b).listType = some t

/-- What `@lexical/yjs` does to documents of `D`. -/
structure Collab (D : Type) where
  /-- The blocks under `doc.get('root', Y.XmlText)`. -/
  root : D → List LexicalNode
  /-- `applyChildrenYjsDelta` and `syncChildrenFromYjs`: the blocks that the editor
  shows, and the document with what the binding has left in it. -/
  bind : D → List LexicalNode × D
  /-- `syncLexicalUpdateToYjs`, of an editor that shows the given blocks. -/
  sync : D → List LexicalNode → D
  /-- A binding changes no block. -/
  root_bind : ∀ doc, root (bind doc).2 = root doc

namespace Importer

variable {σ : Type} (I : Importer σ)

/-- The lists of an import. -/
def lists : Merger LexicalNode (Option FieldValue) where
  kind := LexicalNode.listType
  join := I.mergeLists
  kind_join := I.listType_mergeLists

/-- The blocks of a text before lists are merged. -/
def read (markdown : String) : List LexicalNode :=
  (I.reader.read (lines markdown)).filter fun node => !node.isEmptyParagraph

/-- The blocks of a text. -/
def blocks (markdown : String) : List LexicalNode := I.lists.merge (I.read markdown)

def convertFromMarkdownString (markdown : String) : List LexicalNode :=
  if I.blocks markdown = [] then [I.leftover markdown] else I.blocks markdown

/-- No code fence is open at the end of the text. -/
def Closes (markdown : String) : Prop :=
  I.fenced (I.reader.opened I.reader.start (lines markdown)) = false

end Importer

/-- **What is relied on of `@lexical/markdown`.**

* `imports` — the import is that of `I`;
* `start`, `nothing`, `empty` — at first no fence is open, and nothing else is; an
  empty line outside a fence ends what is open and opens nothing;
* `nextGrows`, `finishGrows` — a list that has been read has an item, which is in
  front of the items of the next list once the two are merged;
* `leftover` — what the root keeps of a text without a block is an empty paragraph;
* `noDecorators` — none of `TRANSFORMERS` creates an image or a file. -/
structure Converter.Documented {σ : Type} (c : Converter) (I : Importer σ) : Prop where
  imports : c.convertFromMarkdownString = I.convertFromMarkdownString
  start : I.fenced I.reader.start = false
  nothing : I.reader.finish I.reader.start = []
  empty : ∀ o, I.fenced o = false → I.reader.Separates o ""
  nextGrows : ∀ o line, ∀ node ∈ (I.reader.next o line).2, I.lists.Grows LexicalNode.size node
  finishGrows : ∀ o, ∀ node ∈ I.reader.finish o, I.lists.Grows LexicalNode.size node
  leftover : ∀ markdown, (I.leftover markdown).isEmptyParagraph = true
  noDecorators : ∀ markdown, anyDecorator (c.convertFromMarkdownString markdown) = false

namespace Collab

variable {D : Type} (b : Collab D)

/-- A binding shows the document: nothing that an earlier one has left is in the
way. -/
def Reads (doc : D) : Prop := (b.bind doc).1 = b.root doc

/-- The listener of a second binding writes into the document what the editor
shows. -/
def Writes (doc : D) : Prop :=
  ∀ blocks, b.root (b.sync (b.bind (b.bind doc).2).2 blocks) = blocks

end Collab

/-! ### The conversions -/

/-- What an append leaves behind: the document, and the markdown that is
returned. -/
structure Appended (D : Type) where
  doc : D
  markdown : String

section Conversions

variable {D : Type} (b : Collab D)

/-- The blocks of an editor that is bound to the document, and the document then:
creating a node of a type that is not registered throws. -/
def createDocBinding (doc : D) : Option (List LexicalNode × D) :=
  if allRegistered (b.root doc) then some (b.bind doc) else none

/-- The editor state as JSON, from which the attachments are read. -/
def yjsDocToAttachmentContent (toJSON : List LexicalNode → String) (doc : D) :
    Option (String × D) :=
  (createDocBinding b doc).map fun (editor, doc) => (toJSON editor, doc)

end Conversions

namespace Converter

variable (c : Converter)

/-- The blocks of a fresh document with the given markdown. -/
def markdownToYjsUpdate (markdown : String) : List LexicalNode :=
  c.convertFromMarkdownString markdown

def nextMarkdown (previousMarkdown markdown : String) : String :=
  if previousMarkdown ≠ "" then trimEnd previousMarkdown ++ "\n\n" ++ markdown else markdown

section Documents

variable {D : Type} (b : Collab D)

def yjsDocToMarkdown (doc : D) : Option (String × D) :=
  (createDocBinding b doc).map fun (editor, doc) => (c.convertToMarkdownString editor, doc)

def appendMarkdownToYjsDoc (doc : D) (markdown : String) : Option (Appended D) := do
  let (previousMarkdown, doc) ← c.yjsDocToMarkdown b doc
  -- The second binding finds what the first one has left; its blocks are cleared.
  let (_, doc) ← createDocBinding b doc
  let root := c.convertFromMarkdownString (nextMarkdown previousMarkdown markdown)
  return ⟨b.sync doc root, c.convertToMarkdownString root⟩

end Documents

/-- **The blocks of a text**: what its import builds, less the empty paragraph
that is there when it builds nothing. -/
def blocks (markdown : String) : List LexicalNode :=
  (c.convertFromMarkdownString markdown).filter fun node => !node.isEmptyParagraph

/-! ### Append -/

/-- **An append has only added**: the blocks of the document are there, unchanged
and in their order, and those of the markdown follow. -/
def Kept (doc : List LexicalNode) (markdown : String) (doc' : List LexicalNode) : Prop :=
  ∃ rest, doc' = doc ++ rest ∧
    (rest.filter fun node => !node.isEmptyParagraph) = c.blocks markdown

/-- **The document survives its own export**: importing the markdown it is
exported to, less the white space at its end, builds it again. -/
def Survives (doc : List LexicalNode) : Prop :=
  c.blocks (trimEnd (c.convertToMarkdownString doc)) = doc

end Converter

/-! ### What an import brings -/

theorem LexicalNode.isEmptyParagraph_of_listType {node : LexicalNode} {t : Option FieldValue}
    (h : node.listType = some t) : node.isEmptyParagraph = false := by
  obtain ⟨type, fields, children⟩ := node
  have htype : type = "list" := by
    by_contra htype
    exact absurd ((if_neg htype).symm.trans h) (by simp)
  rw [htype]
  rfl

section Imports

variable {σ : Type} {I : Importer σ} {c : Converter}

theorem Importer.isEmptyParagraph_of_mem_blocks {markdown : String} {node : LexicalNode}
    (h : node ∈ I.blocks markdown) : node.isEmptyParagraph = false := by
  refine Merger.forall_mem_merge (P := fun node => node.isEmptyParagraph = false) ?_ ?_ node h
  · -- A list is no paragraph.
    rintro a b hmeets - -
    obtain ⟨t, ha, hb⟩ := hmeets
    exact LexicalNode.isEmptyParagraph_of_listType (I.listType_mergeLists ha hb)
  · intro node hnode
    simpa using (List.mem_filter.mp hnode).2

namespace Converter.Documented

/-- Without a block, the root keeps an empty paragraph. -/
theorem convert_of_nil (hc : c.Documented I) {markdown : String} (h : I.blocks markdown = []) :
    c.convertFromMarkdownString markdown = [I.leftover markdown] := by
  rw [hc.imports, Importer.convertFromMarkdownString, if_pos h]

theorem convert_of_ne_nil (hc : c.Documented I) {markdown : String}
    (h : I.blocks markdown ≠ []) : c.convertFromMarkdownString markdown = I.blocks markdown := by
  rw [hc.imports, Importer.convertFromMarkdownString, if_neg h]

theorem blocks_eq (hc : c.Documented I) (markdown : String) :
    c.blocks markdown = I.blocks markdown := by
  rw [blocks]
  by_cases h : I.blocks markdown = []
  · rw [hc.convert_of_nil h, h]
    exact List.filter_eq_nil_iff.mpr (by simp [hc.leftover])
  · rw [hc.convert_of_ne_nil h]
    refine List.filter_eq_self.mpr fun node hnode => ?_
    rw [Importer.isEmptyParagraph_of_mem_blocks hnode]
    rfl

theorem read_empty (hc : c.Documented I) : I.read "" = [] := by
  have hread : I.reader.read (lines "") = [] := by
    have hseparates : I.reader.Separates (I.reader.opened I.reader.start []) "" :=
      hc.empty _ hc.start
    rw [lines_empty, ← List.nil_append [""], Reader.read_separated hseparates]
    show I.reader.finish I.reader.start ++ I.reader.finish I.reader.start = []
    rw [hc.nothing, List.nil_append]
  rw [Importer.read, hread, List.filter_nil]

/-- **The glued text brings what the old text and the new one bring**, unless a
fence of the old one is open. -/
theorem read_nextMarkdown (hc : c.Documented I) {previous : String}
    (hcloses : I.Closes (trimEnd previous)) (markdown : String) :
    I.read (nextMarkdown previous markdown) = I.read (trimEnd previous) ++ I.read markdown := by
  by_cases hprevious : previous = ""
  · rw [nextMarkdown, if_neg (not_not.mpr hprevious), hprevious, trimEnd_empty, hc.read_empty,
      List.nil_append]
  · have hlines : lines (nextMarkdown previous markdown) =
        lines (trimEnd previous) ++ "" :: lines markdown := by
      have hglue : nextMarkdown previous markdown =
          trimEnd previous ++ "\n" ++ ("" ++ "\n" ++ markdown) := by
        rw [nextMarkdown, if_pos hprevious]
        simp [← String.toList_inj]
      rw [hglue, lines_append, lines_append, lines_empty]
      rfl
    rw [Importer.read, hlines, Reader.read_separated (hc.empty _ hcloses), List.filter_append]
    rfl

theorem grows_of_mem_read (hc : c.Documented I) {markdown : String} {node : LexicalNode}
    (h : node ∈ I.read markdown) : I.lists.Grows LexicalNode.size node :=
  Reader.forall_mem_readFrom hc.nextGrows hc.finishGrows _ _ node (List.mem_filter.mp h).1

/-- The blocks of the glued text are those of the old text and of the new, or the
two lists at the seam are now one. -/
theorem blocks_nextMarkdown (hc : c.Documented I) {previous : String}
    (hcloses : I.Closes (trimEnd previous)) (markdown : String) :
    I.lists.Apart (I.blocks (trimEnd previous)) (I.blocks markdown) ∧
        I.blocks (nextMarkdown previous markdown) =
          I.blocks (trimEnd previous) ++ I.blocks markdown ∨
      ¬ I.lists.Apart (I.blocks (trimEnd previous)) (I.blocks markdown) ∧
        ∃ list lists joined, I.blocks markdown = list :: lists ∧ list ≠ joined ∧
          I.blocks (nextMarkdown previous markdown) =
            (I.blocks (trimEnd previous)).dropLast ++ joined :: lists := by
  rw [Importer.blocks, Importer.blocks, Importer.blocks, hc.read_nextMarkdown hcloses]
  by_cases hapart : I.lists.Apart (I.lists.merge (I.read (trimEnd previous)))
      (I.lists.merge (I.read markdown))
  · exact .inl ⟨hapart, Merger.merge_append_of_apart hapart⟩
  · obtain ⟨last, hlast, first, hfirst, hmeets⟩ : ∃ a ∈ _, ∃ b ∈ _, I.lists.Meets a b := by
      simpa only [Merger.Apart, not_forall, not_not, exists_prop] using hapart
    obtain ⟨rest, hrest⟩ := List.head?_eq_some_iff.mp hfirst
    obtain ⟨joined, hjoined, hsize⟩ := Merger.merge_append_of_meets
      (fun node => hc.grows_of_mem_read) hlast hrest hmeets
    refine .inr ⟨hapart, first, rest, joined, hrest, ?_, hjoined⟩
    rintro rfl
    exact Nat.lt_irrefl _ hsize

end Converter.Documented

end Imports

/-! ### What an append keeps -/

namespace Converter

variable {σ : Type} {I : Importer σ} {c : Converter}

/-- Removing empty paragraphs from the blocks of a text removes nothing. -/
theorem Documented.kept_iff_of_ne_nil (hc : c.Documented I) {doc : List LexicalNode}
    {next markdown : String} (hnext : I.blocks next ≠ []) :
    c.Kept doc markdown (c.convertFromMarkdownString next) ↔
      I.blocks next = doc ++ I.blocks markdown := by
  rw [hc.convert_of_ne_nil hnext, Kept, hc.blocks_eq]
  constructor
  · rintro ⟨rest, hrest, hblocks⟩
    have hfilter : (rest.filter fun node => !node.isEmptyParagraph) = rest := by
      refine List.filter_eq_self.mpr fun node hnode => ?_
      have hmem : node ∈ I.blocks next := by rw [hrest]; exact List.mem_append_right _ hnode
      rw [Importer.isEmptyParagraph_of_mem_blocks hmem]
      rfl
    rw [hrest, ← hblocks, hfilter]
  · intro hdoc
    refine ⟨I.blocks markdown, hdoc, List.filter_eq_self.mpr fun node hnode => ?_⟩
    rw [Importer.isEmptyParagraph_of_mem_blocks hnode]
    rfl

/-- When neither text has a block, one empty paragraph is all there is. -/
theorem Documented.kept_iff_of_nil (hc : c.Documented I) {doc : List LexicalNode}
    {next markdown : String} (hnext : I.blocks next = []) (hmarkdown : I.blocks markdown = []) :
    c.Kept doc markdown (c.convertFromMarkdownString next) ↔
      doc = [] ∨ doc = [I.leftover next] := by
  rw [hc.convert_of_nil hnext, Kept, hc.blocks_eq, hmarkdown]
  constructor
  · rintro ⟨rest, hrest, -⟩
    rcases List.append_eq_singleton_iff.mp hrest.symm with ⟨hdoc, -⟩ | ⟨hdoc, -⟩
    · exact .inl hdoc
    · exact .inr hdoc
  · rintro (rfl | rfl)
    · exact ⟨[I.leftover next], rfl, List.filter_eq_nil_iff.mpr (by simp [hc.leftover])⟩
    · exact ⟨[], rfl, rfl⟩

/-- An append to a registered document succeeds, and imports the glued text. -/
theorem appendMarkdownToYjsDoc_eq {D : Type} {b : Collab D} {doc : D} (hreads : b.Reads doc)
    (hwrites : b.Writes doc) (hdoc : allRegistered (b.root doc) = true) (markdown : String) :
    ∃ result, c.appendMarkdownToYjsDoc b doc markdown = some result ∧
      b.root result.doc = c.convertFromMarkdownString
        (nextMarkdown (c.convertToMarkdownString (b.root doc)) markdown) := by
  have hbind : createDocBinding b doc = some (b.bind doc) := if_pos hdoc
  have hagain : createDocBinding b (b.bind doc).2 = some (b.bind (b.bind doc).2) :=
    if_pos (by rw [b.root_bind, hdoc])
  have happend : c.appendMarkdownToYjsDoc b doc markdown =
      (let root := c.convertFromMarkdownString
        (nextMarkdown (c.convertToMarkdownString (b.bind doc).1) markdown)
      some ⟨b.sync (b.bind (b.bind doc).2).2 root, c.convertToMarkdownString root⟩) := by
    rw [appendMarkdownToYjsDoc, yjsDocToMarkdown, hbind]
    show (createDocBinding b (b.bind doc).2).bind _ = _
    rw [hagain]
    rfl
  refine ⟨_, happend, ?_⟩
  rw [hreads]
  exact hwrites _

/-- An image or a file in the document is lost. -/
theorem Documented.not_kept_of_anyDecorator (hc : c.Documented I) {doc : List LexicalNode}
    (hdoc : anyDecorator doc = true) (markdown next : String) :
    ¬ c.Kept doc markdown (c.convertFromMarkdownString next) := by
  rintro ⟨rest, hrest, -⟩
  have hnone := hc.noDecorators next
  rw [hrest, anyDecorator_append, hdoc, Bool.true_or] at hnone
  exact absurd hnone (by decide)

/-- What an append keeps, of the blocks alone. -/
theorem Documented.kept_iff_survives (hc : c.Documented I) {doc : List LexicalNode}
    (hcloses : I.Closes (trimEnd (c.convertToMarkdownString doc))) (markdown : String) :
    c.Kept doc markdown (c.convertFromMarkdownString
        (nextMarkdown (c.convertToMarkdownString doc) markdown)) ↔
      c.Survives doc ∧ I.lists.Apart doc (c.blocks markdown) ∨
        c.blocks (trimEnd (c.convertToMarkdownString doc)) = [] ∧ c.blocks markdown = [] ∧
          doc = [I.leftover (nextMarkdown (c.convertToMarkdownString doc) markdown)] := by
  rw [Survives, hc.blocks_eq, hc.blocks_eq]
  rcases hc.blocks_nextMarkdown hcloses markdown with
    ⟨hapart, hblocks⟩ | ⟨hmeet, list, lists, joined, hlists, hne, hblocks⟩
  · by_cases hnil : I.blocks (trimEnd (c.convertToMarkdownString doc)) = [] ∧
        I.blocks markdown = []
    · rw [hc.kept_iff_of_nil (by rw [hblocks, hnil.1, hnil.2, List.append_nil]) hnil.2, hnil.1,
        hnil.2]
      constructor
      · rintro (hdoc | hdoc)
        · exact .inl ⟨hdoc.symm, by rw [hdoc]; exact fun _ h => absurd h (Option.not_mem_none _)⟩
        · exact .inr ⟨rfl, rfl, hdoc⟩
      · rintro (⟨hdoc, -⟩ | ⟨-, -, hdoc⟩)
        · exact .inl hdoc.symm
        · exact .inr hdoc
    · rw [hc.kept_iff_of_ne_nil (by rwa [hblocks, Ne, List.append_eq_nil_iff]), hblocks,
        List.append_cancel_right_eq]
      constructor
      · intro hdoc
        exact .inl ⟨hdoc, hdoc ▸ hapart⟩
      · rintro (⟨hdoc, -⟩ | ⟨hold, hnew, -⟩)
        · exact hdoc
        · exact absurd ⟨hold, hnew⟩ hnil
  · -- At the seam there is one list, which is neither of the two that met.
    have hnext : I.blocks (nextMarkdown (c.convertToMarkdownString doc) markdown) ≠ [] := by
      rw [hblocks]
      exact List.append_ne_nil_of_right_ne_nil _ (List.cons_ne_nil _ _)
    rw [hc.kept_iff_of_ne_nil hnext, hblocks, hlists]
    constructor
    · intro hdoc
      have hsplit : (I.blocks (trimEnd (c.convertToMarkdownString doc))).dropLast ++ [joined] =
          doc ++ [list] := List.append_cancel_right (by
        rw [List.append_assoc, List.append_assoc, List.singleton_append, List.singleton_append,
          hdoc])
      exact absurd (List.append_inj_right' hsplit rfl) (by simpa using hne.symm)
    · rintro (⟨hdoc, hapart⟩ | ⟨-, hnew, -⟩)
      · exact absurd (by rw [hdoc, hlists]; exact hapart) hmeet
      · exact absurd hnew (List.cons_ne_nil _ _)

end Converter

/-! ### A converter -/

/-- Lines of text in one block. -/
def textLines : List String → List LexicalNode
  | [] => []
  | [line] => [.mk "text" [("text", .string line)] []]
  | line :: lines =>
      .mk "text" [("text", .string line)] [] :: .mk "linebreak" [] [] :: textLines lines

def paragraphOf (lines : List String) : LexicalNode := .mk "paragraph" [] (textLines lines)

def headingOf (line : String) : LexicalNode :=
  .mk "heading" [("tag", .string "h1")] (textLines [line])

/-- A list with bullets, of an item for each group of lines. -/
def listOf (items : List (List String)) : LexicalNode :=
  .mk "list" [("listType", .string "bullet")] (items.map fun lines =>
    .mk "listitem" [] (textLines lines))

def codeOf (lines : List String) : LexicalNode := .mk "code" [] (textLines lines)

/-- What is open while a text is read. -/
inductive OpenBlock
  | none
  | paragraph (lines : List String)
  /-- The items before the last, and the last. -/
  | list (items : List (List String)) (last : List String)
  | fence (lines : List String)

namespace OpenBlock

def finish : OpenBlock → List LexicalNode
  | none => []
  | paragraph lines => [paragraphOf lines]
  | list items last => [listOf (items ++ [last])]
  | fence lines => [codeOf lines]

def fenced : OpenBlock → Bool
  | fence _ => true
  | _ => false

/-- A line outside a fence that begins no heading, item or fence: it goes on with
the paragraph or the item before it. -/
def goOn (line : String) : OpenBlock → OpenBlock × List LexicalNode
  | paragraph lines => (paragraph (lines ++ [line]), [])
  | list items last => (list items (last ++ [line]), [])
  | open_ => (paragraph [line], open_.finish)

/-- A line outside a fence. -/
def line (open_ : OpenBlock) (line : String) : OpenBlock × List LexicalNode :=
  match line.toList with
  | [] => (none, open_.finish)
  | '`' :: '`' :: '`' :: _ => (fence [], open_.finish)
  | '#' :: ' ' :: text => (none, open_.finish ++ [headingOf (String.ofList text)])
  | '-' :: ' ' :: text =>
      match open_ with
      | list items last => (list (items ++ [last]) [String.ofList text], [])
      | _ => (list [] [String.ofList text], open_.finish)
  | _ => goOn line open_

def next : OpenBlock → String → OpenBlock × List LexicalNode
  | fence lines, "```" => (none, [codeOf lines])
  | fence lines, line => (fence (lines ++ [line]), [])
  | open_, line => open_.line line

end OpenBlock

/-- Headings, bullets, fences and paragraphs. -/
def plainImporter : Importer OpenBlock where
  reader := ⟨.none, OpenBlock.next, OpenBlock.finish⟩
  fenced := OpenBlock.fenced
  leftover _ := .emptyParagraph
  mergeLists
    | .mk type fields items, .mk _ _ items' => .mk type fields (items ++ items')
  listType_mergeLists {a b _} ha _ := by
    cases a
    cases b
    exact ha

/-- The text of a block's lines. -/
def textOf : List LexicalNode → String
  | [] => ""
  | .mk "text" [("text", .string text)] _ :: nodes => text ++ textOf nodes
  | .mk "linebreak" _ _ :: nodes => "\n" ++ textOf nodes
  | _ :: nodes => textOf nodes

/-- The markdown of a block; an image or a file has none. -/
def exportBlock : LexicalNode → String
  | .mk "paragraph" _ children => textOf children
  | .mk "heading" _ children => "# " ++ textOf children
  | .mk "list" _ items => "\n".intercalate (items.map fun
      | .mk _ _ children => "- " ++ textOf children)
  | .mk "code" _ children => "```\n" ++ textOf children ++ "\n```"
  | _ => ""

/-- The conversions of texts of these blocks: an export puts a blank line between two blocks. -/
def Converter.plain : Converter where
  convertToMarkdownString doc := "\n\n".intercalate (doc.map exportBlock)
  convertFromMarkdownString := plainImporter.convertFromMarkdownString

/-- Every second block, from the second on. -/
def everySecond : List LexicalNode → List LexicalNode
  | _ :: node :: nodes => node :: everySecond nodes
  | _ => []

/-- A document as its blocks.  The listener inserts the new blocks at the front and
takes out the old ones one at a time, at positions that the editor counts as if none
had gone before: every second one stays. -/
def liveDoc : Collab (List LexicalNode) where
  root doc := doc
  bind doc := (doc, doc)
  sync doc blocks := blocks ++ everySecond doc
  root_bind _ := rfl

/-- What holds of the blocks that may be open holds of those that are closed. -/
theorem OpenBlock.forall_mem_finish {P : LexicalNode → Prop}
    (hparagraph : ∀ lines, P (paragraphOf lines))
    (hlist : ∀ items last, P (listOf (items ++ [last]))) (hcode : ∀ lines, P (codeOf lines))
    (o : OpenBlock) : ∀ node ∈ o.finish, P node := by
  intro node hnode
  cases o with
  | none => exact absurd hnode List.not_mem_nil
  | paragraph lines => exact List.mem_singleton.mp hnode ▸ hparagraph lines
  | list items last => exact List.mem_singleton.mp hnode ▸ hlist items last
  | fence lines => exact List.mem_singleton.mp hnode ▸ hcode lines

/-- A line closes what was open, and may bring a heading. -/
theorem OpenBlock.forall_mem_next {P : LexicalNode → Prop}
    (hfinish : ∀ o : OpenBlock, ∀ node ∈ o.finish, P node) (hheading : ∀ text, P (headingOf text))
    (o : OpenBlock) (text : String) : ∀ node ∈ (o.next text).2, P node := by
  have hnone : ∀ node ∈ ([] : List LexicalNode), P node := fun _ h => absurd h List.not_mem_nil
  rw [next.eq_def]
  split
  next lines => exact hfinish (.fence lines)
  next => exact hnone
  next =>
    rw [line]
    split
    next => exact hfinish o
    next => exact hfinish o
    next => exact List.forall_mem_append.mpr ⟨hfinish o, List.forall_mem_singleton.mpr (hheading _)⟩
    next =>
      split
      next => exact hnone
      next => exact hfinish o
    next =>
      rw [goOn.eq_def]
      split
      next => exact hnone
      next => exact hnone
      next => exact hfinish o

/-- Only lists are merged. -/
theorem grows_of_listType {node : LexicalNode} (h : node.listType = none) :
    plainImporter.lists.Grows LexicalNode.size node := by
  rintro b ⟨t, ht, -⟩
  exact absurd (h.symm.trans ht) (by simp)

/-- A list that is merged with the next one has an item. -/
theorem listOf_grows (items : List (List String)) (last : List String) :
    plainImporter.lists.Grows LexicalNode.size (listOf (items ++ [last])) := by
  rintro ⟨type, fields, children⟩ -
  have hlast : 0 < sizes [LexicalNode.mk "listitem" [] (textLines last)] := by
    rw [sizes, LexicalNode.size]
    omega
  show 1 + sizes children < 1 + sizes ((items ++ [last]).map _ ++ children)
  rw [List.map_append, sizes_append, sizes_append]
  exact Nat.add_lt_add_left (Nat.lt_add_of_pos_left (Nat.add_pos_right _ hlast)) 1

theorem anyDecorator_textLines (lines : List String) : anyDecorator (textLines lines) = false := by
  fun_induction textLines lines with
  | case1 => rfl
  | case2 => rfl
  | case3 line lines _ ih =>
    rw [anyDecorator, anyDecorator, ih]
    rfl

theorem hasDecorator_listOf (items : List (List String)) : (listOf items).hasDecorator = false := by
  rw [listOf, LexicalNode.hasDecorator]
  induction items with
  | nil => rfl
  | cons lines items ih =>
    rw [List.map_cons, anyDecorator, LexicalNode.hasDecorator, anyDecorator_textLines]
    exact ih

theorem plain_hasDecorator {markdown : String} {node : LexicalNode}
    (h : node ∈ plainImporter.blocks markdown) : node.hasDecorator = false := by
  have hfinish := OpenBlock.forall_mem_finish (P := fun node => node.hasDecorator = false)
    anyDecorator_textLines (fun _ _ => hasDecorator_listOf _) anyDecorator_textLines
  refine Merger.forall_mem_merge (P := fun node => node.hasDecorator = false) ?_ ?_ node h
  · rintro ⟨type, fields, items⟩ ⟨type', fields', items'⟩ - ha hb
    show (_ || anyDecorator (items ++ items')) = false
    rw [LexicalNode.hasDecorator, Bool.or_eq_false_iff] at ha hb
    rw [anyDecorator_append, ha.1, ha.2, hb.2]
    rfl
  · intro node hnode
    exact Reader.forall_mem_readFrom (OpenBlock.forall_mem_next hfinish fun _ => rfl) hfinish _ _
      node (List.mem_filter.mp hnode).1

theorem Converter.plain_documented : Converter.plain.Documented plainImporter where
  imports := rfl
  start := rfl
  nothing := rfl
  empty o ho := by
    cases o with
    | fence => exact absurd ho Bool.true_eq_false.mp
    | none => rfl
    | paragraph => rfl
    | list => rfl
  nextGrows := OpenBlock.forall_mem_next
    (OpenBlock.forall_mem_finish (fun _ => grows_of_listType rfl) listOf_grows
      fun _ => grows_of_listType rfl) fun _ => grows_of_listType rfl
  finishGrows := OpenBlock.forall_mem_finish (fun _ => grows_of_listType rfl) listOf_grows
    fun _ => grows_of_listType rfl
  leftover _ := rfl
  noDecorators markdown := by
    have hall : ∀ nodes, (∀ node ∈ nodes, node.hasDecorator = false) →
        anyDecorator nodes = false := by
      intro nodes hnodes
      induction nodes with
      | nil => rfl
      | cons node nodes ih =>
        rw [List.forall_mem_cons] at hnodes
        rw [anyDecorator, hnodes.1, ih hnodes.2]
        rfl
    show anyDecorator (plainImporter.convertFromMarkdownString markdown) = false
    rw [Importer.convertFromMarkdownString]
    split
    next => rfl
    next => exact hall _ fun node => plain_hasDecorator

namespace Converter

variable {σ : Type} {I : Importer σ} {c : Converter}

/-- **What an append only adds to.**  Of a document that is read and written as it is:

* if its export leaves no code fence open, the append keeps it exactly if it
  survives the export, and does not end with a list where the markdown begins with
  one of that type, or if it is the empty paragraph of two texts without a block;
* an image or a file in it is never kept. -/
theorem kept_iff (hc : c.Documented I) {D : Type} {b : Collab D} {doc : D}
    (hreads : b.Reads doc) (hwrites : b.Writes doc)
    (hdoc : allRegistered (b.root doc) = true) (markdown : String) :
    ∃ result, c.appendMarkdownToYjsDoc b doc markdown = some result ∧
      (I.Closes (trimEnd (c.convertToMarkdownString (b.root doc))) →
        (c.Kept (b.root doc) markdown (b.root result.doc) ↔
          c.Survives (b.root doc) ∧ I.lists.Apart (b.root doc) (c.blocks markdown) ∨
            c.blocks (trimEnd (c.convertToMarkdownString (b.root doc))) = [] ∧
              c.blocks markdown = [] ∧ b.root doc =
                [I.leftover (nextMarkdown (c.convertToMarkdownString (b.root doc)) markdown)])) ∧
      (anyDecorator (b.root doc) = true →
        ¬ c.Kept (b.root doc) markdown (b.root result.doc)) := by
  obtain ⟨result, happend, hresult⟩ :=
    appendMarkdownToYjsDoc_eq (c := c) hreads hwrites hdoc markdown
  refine ⟨result, happend, ?_, ?_⟩
  · intro hcloses
    rw [hresult]
    exact hc.kept_iff_survives hcloses markdown
  · intro hany
    rw [hresult]
    exact hc.not_kept_of_anyDecorator hany markdown _

/-- A list is kept, and a paragraph and another list follow. -/
theorem list_kept :
    ∃ result,
      plain.appendMarkdownToYjsDoc liveDoc [listOf [["a"]]] "Tail\n\n- b" = some result ∧
      plain.Kept [listOf [["a"]]] "Tail\n\n- b" result.doc := by
  have hreads : liveDoc.Reads [listOf [["a"]]] := rfl
  obtain ⟨result, happend, hkept, -⟩ := kept_iff plain_documented hreads
    (fun blocks => List.append_nil blocks) (by decide) "Tail\n\n- b"
  refine ⟨result, happend, (hkept rfl).mpr (.inl ⟨rfl, ?_⟩)⟩
  intro a ha first hfirst
  obtain rfl : listOf [["a"]] = a := Option.some.inj ha
  obtain rfl : LexicalNode.paragraph "Tail" = first := Option.some.inj hfirst
  decide

/-- An image is not: it is gone once `Body` has been appended. -/
theorem image_lost :
    plain.Documented plainImporter ∧ liveDoc.Reads [.imageNode "uploads/img-1.png"] ∧
      liveDoc.Writes [.imageNode "uploads/img-1.png"] ∧
      plain.appendMarkdownToYjsDoc liveDoc [.imageNode "uploads/img-1.png"] "Body" =
        some ⟨[.paragraph "Body"], "Body"⟩ ∧
      ¬ plain.Kept [.imageNode "uploads/img-1.png"] "Body" [.paragraph "Body"] := by
  refine ⟨plain_documented, rfl, fun blocks => List.append_nil blocks, rfl, ?_⟩
  rintro ⟨rest, hrest, -⟩
  have hfirst : LexicalNode.paragraph "Body" = .imageNode "uploads/img-1.png" :=
    (List.cons.inj hrest).1
  exact absurd (LexicalNode.mk.inj hfirst).1 (by decide)

-- Two lists meet.
example : plain.appendMarkdownToYjsDoc liveDoc [listOf [["a"]]] "- b" =
    some ⟨[listOf [["a"], ["b"]]], "- a\n- b"⟩ := by
  rfl

-- The listener leaves the second of two blocks behind.
example : plain.appendMarkdownToYjsDoc liveDoc [.paragraph "Title", .paragraph "Body"] "Tail" =
    some ⟨[.paragraph "Title", .paragraph "Body", .paragraph "Tail", .paragraph "Body"],
      "Title\n\nBody\n\nTail"⟩ := by
  rfl

end Converter

end AideepWebsocket.MarkdownYjs
