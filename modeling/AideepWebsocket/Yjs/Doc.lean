import AideepWebsocket.Library.VersionVector
import Mathlib.Order.Lattice
import Mathlib.Order.BoundedOrder.Basic

/-!
# Y.Doc, updates and the sync protocol

`yjs` and `y-protocols` are third-party packages; this module records the
behaviour the server relies on, at the level of *changes*.  An insertion is a
struct, named by its client and clock; a deletion names the struct it deletes.
The content of a struct is fixed by its name, so a document is the set of
structs and the set of deletions it holds, and so is an update.

* `Y.applyUpdate` adds the changes of an update;
* `Y.encodeStateAsUpdate` carries every struct at or above the given state
  vector — all of them when none is given — and the whole delete set;
* `Y.encodeStateVector` carries the next clock of each client, and nothing of
  the delete set.  Structs that still wait for a predecessor are held by the
  document, and written by `encodeStateAsUpdate`, but do not advance a clock.

Documents are ordered by inclusion, with `⊔` as the merge.
-/

namespace AideepWebsocket

open Library

abbrev ClientId := ℕ

/-- The name of a struct: the client that created it, and its clock. -/
abbrev StructId := ClientId × ℕ

/-- A single change of a document. -/
inductive Change
  | insert (id : StructId)
  | delete (id : StructId)
  deriving DecidableEq

/-- A `Y.Doc`, or an update: the structs it holds and the deletions it holds. -/
@[ext]
structure YDoc where
  structs : Finset StructId
  deletes : Finset StructId
  deriving DecidableEq

namespace YDoc

/-- The changes a document holds. -/
def Holds (d : YDoc) : Change → Prop
  | .insert id => id ∈ d.structs
  | .delete id => id ∈ d.deletes

instance (d : YDoc) (x : Change) : Decidable (d.Holds x) := by
  cases x <;> unfold Holds <;> infer_instance

instance : LE YDoc := ⟨fun d e => d.structs ⊆ e.structs ∧ d.deletes ⊆ e.deletes⟩

instance (d e : YDoc) : Decidable (d ≤ e) :=
  inferInstanceAs (Decidable (_ ∧ _))

instance : SemilatticeSup YDoc where
  le_refl _ := ⟨subset_rfl, subset_rfl⟩
  le_trans _ _ _ h k := ⟨h.1.trans k.1, h.2.trans k.2⟩
  le_antisymm _ _ h k :=
    YDoc.ext (subset_antisymm h.1 k.1) (subset_antisymm h.2 k.2)
  sup d e := ⟨d.structs ∪ e.structs, d.deletes ∪ e.deletes⟩
  le_sup_left _ _ := ⟨Finset.subset_union_left, Finset.subset_union_left⟩
  le_sup_right _ _ := ⟨Finset.subset_union_right, Finset.subset_union_right⟩
  sup_le _ _ _ h k := ⟨Finset.union_subset h.1 k.1, Finset.union_subset h.2 k.2⟩

/-- `new Y.Doc()`. -/
instance : OrderBot YDoc where
  bot := ⟨∅, ∅⟩
  bot_le _ := ⟨Finset.empty_subset _, Finset.empty_subset _⟩

instance : Inhabited YDoc := ⟨⊥⟩

@[simp] theorem structs_sup (d e : YDoc) : (d ⊔ e).structs = d.structs ∪ e.structs := rfl
@[simp] theorem deletes_sup (d e : YDoc) : (d ⊔ e).deletes = d.deletes ∪ e.deletes := rfl
@[simp] theorem structs_bot : (⊥ : YDoc).structs = ∅ := rfl
@[simp] theorem deletes_bot : (⊥ : YDoc).deletes = ∅ := rfl

/-- Inclusion is inclusion change by change. -/
theorem le_iff_holds {d e : YDoc} : d ≤ e ↔ ∀ x, d.Holds x → e.Holds x := by
  constructor
  · rintro ⟨hs, hd⟩ (id | id) h
    · exact hs h
    · exact hd h
  · intro h
    exact ⟨fun id hid => h (.insert id) hid, fun id hid => h (.delete id) hid⟩

theorem holds_sup {d e : YDoc} {x : Change} : (d ⊔ e).Holds x ↔ d.Holds x ∨ e.Holds x := by
  cases x <;> exact Finset.mem_union

end YDoc

/-- `Y.applyUpdate(doc, update)`. -/
def applyUpdate (doc update : YDoc) : YDoc := doc ⊔ update

/-- The encoded state vector: the clients that have integrated structs, each
with its next clock.  Two encoded vectors are equal as byte strings exactly when
they are equal here. -/
abbrev StateVector := Finset (ClientId × ℕ)

/-- `Y.encodeStateVector(doc)`. -/
def encodeStateVector (doc : YDoc) : StateVector := VersionVector.vector doc.structs

/-- `Y.encodeStateAsUpdate(doc, stateVector)`; the empty vector stands for the
omitted argument. -/
def encodeStateAsUpdate (doc : YDoc) (stateVector : StateVector := ∅) : YDoc :=
  ⟨VersionVector.missing doc.structs stateVector, doc.deletes⟩

@[simp] theorem encodeStateAsUpdate_empty (doc : YDoc) : encodeStateAsUpdate doc = doc := by
  simp [encodeStateAsUpdate]

theorem encodeStateAsUpdate_le (doc : YDoc) (stateVector : StateVector) :
    encodeStateAsUpdate doc stateVector ≤ doc :=
  ⟨VersionVector.missing_subset _ _, subset_rfl⟩

/-- A peer that applies the update encoded against its own state vector has the
whole document. -/
theorem le_apply_encodeStateAsUpdate (doc peer : YDoc) :
    doc ≤ applyUpdate peer (encodeStateAsUpdate doc (encodeStateVector peer)) :=
  ⟨VersionVector.subset_union_missing _ _, Finset.subset_union_right⟩

/-- The changes of a document that its state vector does not show: the
deletions, and the structs that wait for a predecessor. -/
def invisible (doc : YDoc) : YDoc :=
  ⟨VersionVector.pending doc.structs, doc.deletes⟩

/-- **Equal state vectors leave only the invisible changes to compare**: `d` is
contained in whatever contains its invisible changes and a document with its
state vector. -/
theorem le_of_encodeStateVector_eq {d e f : YDoc}
    (h : encodeStateVector d = encodeStateVector e) (hef : e ≤ f) (hinv : invisible d ≤ f) :
    d ≤ f :=
  ⟨VersionVector.subset_of_vector_eq h hef.1 hinv.1, hinv.2⟩

/-- A deletion is invisible to the state vector: here one struct is deleted and
the vector stays what it was. -/
example :
    encodeStateVector ⟨{(1, 0)}, ∅⟩ = encodeStateVector ⟨{(1, 0)}, {(1, 0)}⟩ := by
  decide

/-! ### y-protocols/sync -/

/-- The messages of the sync protocol: SyncStep1 (type `0`) carries a state
vector, SyncStep2 (type `1`) and Update (type `2`) an update. -/
inductive SyncMessage
  | syncStep1 (stateVector : StateVector)
  | syncStep2 (update : YDoc)
  | update (update : YDoc)
  deriving DecidableEq

/-- The type that `readSyncMessage` returns. -/
def SyncMessage.messageType : SyncMessage → ℕ
  | .syncStep1 _ => 0
  | .syncStep2 _ => 1
  | .update _ => 2

/-- The changes a message carries. -/
def SyncMessage.changes : SyncMessage → YDoc
  | .syncStep1 _ => ⊥
  | .syncStep2 u => u
  | .update u => u

/-- What `syncProtocol.readSyncMessage` leaves behind: the document, what it
wrote to the encoder, and the message type. -/
structure ReadResult where
  doc : YDoc
  reply : Option SyncMessage
  messageType : ℕ
  deriving DecidableEq

/-- `syncProtocol.readSyncMessage(decoder, encoder, doc, null)`: SyncStep1 is
answered through the encoder, the other two are applied to the document. -/
def readSyncMessage (doc : YDoc) : SyncMessage → ReadResult
  | .syncStep1 sv => ⟨doc, some (.syncStep2 (encodeStateAsUpdate doc sv)), 0⟩
  | .syncStep2 u => ⟨applyUpdate doc u, none, 1⟩
  | .update u => ⟨applyUpdate doc u, none, 2⟩

@[simp] theorem readSyncMessage_messageType (doc : YDoc) (msg : SyncMessage) :
    (readSyncMessage doc msg).messageType = msg.messageType := by
  cases msg <;> rfl

/-- Reading a message merges the changes it carries. -/
@[simp] theorem readSyncMessage_doc (doc : YDoc) (msg : SyncMessage) :
    (readSyncMessage doc msg).doc = doc ⊔ msg.changes := by
  cases msg with
  | syncStep1 sv => simp [readSyncMessage, SyncMessage.changes]
  | syncStep2 u => rfl
  | update u => rfl

end AideepWebsocket
