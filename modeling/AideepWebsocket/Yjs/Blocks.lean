import AideepWebsocket.Library.Arrangement
import AideepWebsocket.Yjs.Doc
import AideepWebsocket.Yjs.MarkdownYjs

/-!
# The blocks of a Y.Doc

`doc.get('root', Y.XmlText)` is a replicated sequence: each block is a struct, inserted
by one client, and `yjs` orders the structs of a document in the same way on every
replica.  A `Reading` is that order, with the block that each struct brings; structs that
wait for a predecessor, and deleted ones, are not read.

A client id names a writer, so documents of different writers have no struct in common,
and their merge has the blocks of both (`blocks_sup_perm`).  That the blocks say the same
does not matter: the merge reads as before **exactly if the other document is empty**
(`blocks_sup_eq_iff`).
-/

namespace AideepWebsocket

open Library

namespace YDoc

variable {d e : YDoc} {a b : ClientId}

/-- Everything in the document, or the update, is of one client. -/
def WrittenBy (d : YDoc) (clientId : ClientId) : Prop :=
  (∀ id ∈ d.structs, id.1 = clientId) ∧ ∀ id ∈ d.deletes, id.1 = clientId

/-- The structs that are read: they have been integrated and not been deleted. -/
def visible (d : YDoc) : Finset StructId := VersionVector.integrated d.structs \ d.deletes

theorem WrittenBy.of_mem_visible (h : d.WrittenBy a) {id : StructId} (hid : id ∈ d.visible) :
    id.1 = a :=
  h.1 id (VersionVector.integrated_subset _ (Finset.mem_sdiff.mp hid).1)

/-- Two writers have no struct in common. -/
theorem WrittenBy.disjoint (hd : d.WrittenBy a) (he : e.WrittenBy b) (hab : a ≠ b) :
    Disjoint d.visible e.visible := by
  refine Finset.disjoint_left.mpr fun id hid hid' => hab ?_
  rw [← hd.of_mem_visible hid, he.of_mem_visible hid']

/-- Two writers do not touch each other's structs. -/
theorem WrittenBy.visible_sup (hd : d.WrittenBy a) (he : e.WrittenBy b) (hab : a ≠ b) :
    (d ⊔ e).visible = d.visible ∪ e.visible := by
  unfold visible
  rw [structs_sup, deletes_sup, VersionVector.integrated_union fun x hx y hy heq =>
    hab (by rw [← hd.1 x hx, ← he.1 y hy, heq])]
  ext id
  simp only [Finset.mem_sdiff, Finset.mem_union]
  constructor
  · rintro ⟨hid | hid, hnot⟩
    · exact Or.inl ⟨hid, fun h => hnot (Or.inl h)⟩
    · exact Or.inr ⟨hid, fun h => hnot (Or.inr h)⟩
  · rintro (⟨hid, hnot⟩ | ⟨hid, hnot⟩)
    · refine ⟨Or.inl hid, fun h => h.elim hnot fun hdeleted => hab ?_⟩
      rw [← hd.1 id (VersionVector.integrated_subset _ hid), he.2 id hdeleted]
    · refine ⟨Or.inr hid, fun h => h.elim (fun hdeleted => hab ?_) hnot⟩
      rw [← hd.2 id hdeleted, he.1 id (VersionVector.integrated_subset _ hid)]

end YDoc

/-- **How a document is read**: the order of its structs, and the block that a struct
brings, if it is one of the root. -/
structure Reading where
  order : Arrangement StructId
  block : StructId → Option MarkdownYjs.LexicalNode

namespace Reading

variable (R : Reading) {d e : YDoc} {a b : ClientId}

/-- The blocks of the root, in their order. -/
def blocks (d : YDoc) : List MarkdownYjs.LexicalNode := R.order.read R.block d.visible

/-- **The documents of two writers**: their merge has the blocks of both. -/
theorem blocks_sup_perm (hd : d.WrittenBy a) (he : e.WrittenBy b) (hab : a ≠ b) :
    (R.blocks (d ⊔ e)).Perm (R.blocks d ++ R.blocks e) := by
  unfold blocks
  rw [hd.visible_sup he hab]
  exact R.order.read_union_perm R.block (hd.disjoint he hab)

theorem blocks_sup_eq_iff (hd : d.WrittenBy a) (he : e.WrittenBy b) (hab : a ≠ b) :
    R.blocks (d ⊔ e) = R.blocks d ↔ R.blocks e = [] := by
  unfold blocks
  rw [hd.visible_sup he hab]
  exact R.order.read_union_eq_iff R.block (hd.disjoint he hab)

end Reading

end AideepWebsocket
