import AideepWebsocket.DocManager.Operations
import AideepWebsocket.Yjs.Blocks
import Mathlib.Data.Prod.Lex

/-!
# Can a body be migrated twice?

A row without `yjs_state` is migrated when it is loaded: `loadFromDb` makes a `Y.Doc` of
its `markdownBody`.  What it makes is handed to the clients and not written back; the row
stays as it is until the first flush.  So a load after a restart, or after a flush that
has failed, migrates the same body again, into a `Y.Doc` of another random client id.

* `Bootstraps` — what is relied on of the packages: the conversion writes with the id of
  its own `Y.Doc`, and what it writes reads as the import of the body;
* `MigratedAt` — the load of a run in which a row is migrated;
* `migrated_twice` — a client that holds the state of one such load and brings it to the
  document of another **always leaves every block twice**, whatever the body is, so long as
  its import has a block.

Neither load is wrong in itself: each document reads as the body.  But the blocks of two
documents are different structs, and the merge keeps both.
-/

namespace AideepWebsocket.DocManager

open Library MarkdownYjs

variable {lex : Lexical} {R : Reading} {c : Converter} {nodes : NodeId → Option NodeRow}
  {s s' : State} {e : Event} {es : List Event} {n : NodeId} {body : String} {d d₁ d₂ : YDoc}

/-- **What is relied on of `yjs` and `@lexical/yjs`**: an update that is made of the body
is written by the `Y.Doc` that it is made with, and its blocks are those of the import. -/
structure Bootstraps (lex : Lexical) (R : Reading) (c : Converter) (body : String) : Prop where
  own : ∀ clientId, (lex.bootstrap clientId body).WrittenBy clientId
  blocks : ∀ clientId, R.blocks (lex.bootstrap clientId body) = c.markdownToYjsUpdate body

/-- In this step `loadFromDb` answers a load of the node: the row has no `yjs_state`, and
the answer is made of its body by the `Y.Doc` of `clientId`. -/
structure Migrates (lex : Lexical) (s : State) (e : Event) (n : NodeId) (body : String)
    (clientId : ClientId) (d : YDoc) : Prop where
  event : ∃ l workspaceId, e = .dbReply l true clientId ∧
    s.loader.loads l = some ⟨n, workspaceId, .loadFromDb⟩
  row : ∃ row, s.nodes n = some row ∧ row.yjsState = none ∧
    row.content.bind NodeContent.markdownBody = some body
  nonempty : body ≠ ""
  answer : (s.loadFromDb lex n clientId).bind DbResult.state = some d

/-- At position `i` of the run a load of the node migrates its row. -/
def MigratedAt (lex : Lexical) (nodes : NodeId → Option NodeRow) (es : List Event) (i : ℕ)
    (n : NodeId) (body : String) (d : YDoc) : Prop :=
  ∃ s e clientId, exec (step lex) (State.init nodes) (es.take i) = some s ∧
    es[i]? = some e ∧ Migrates lex s e n body clientId d

/-- The client id of the `Y.Doc` that a load would migrate with. -/
def Event.bootstrapClient : Event → Option ClientId
  | .dbReply _ _ clientId => some clientId
  | _ => none

/-- Every `new Y.Doc()` takes a client id of its own. -/
def FreshClients (es : List Event) : Prop :=
  es.Pairwise fun e e' => ∀ a ∈ e.bootstrapClient, ∀ b ∈ e'.bootstrapClient, a ≠ b

instance (es : List Event) : Decidable (FreshClients es) := by
  unfold FreshClients
  infer_instance

/-- A migrated row gives the document that is made of its body. -/
theorem Migrates.eq_bootstrap {clientId : ClientId} (h : Migrates lex s e n body clientId d) :
    d = lex.bootstrap clientId body := by
  obtain ⟨row, hrow, hstate, hbody⟩ := h.row
  have hanswer := h.answer
  rw [State.loadFromDb, hrow, Option.map_some] at hanswer
  simp only [hstate, hbody, if_neg h.nonempty, Option.bind_some, Option.some.injEq] at hanswer
  exact hanswer.symm

/-- Two migrations of a run are made by different clients. -/
private theorem clients_ne (hfresh : FreshClients es) {i j : ℕ} (hij : i ≠ j) {e₁ e₂ : Event}
    (h₁ : es[i]? = some e₁) (h₂ : es[j]? = some e₂) {a b : ClientId}
    (ha : e₁.bootstrapClient = some a) (hb : e₂.bootstrapClient = some b) : a ≠ b := by
  obtain ⟨hi, rfl⟩ := List.getElem?_eq_some_iff.mp h₁
  obtain ⟨hj, rfl⟩ := List.getElem?_eq_some_iff.mp h₂
  have hpairs := List.pairwise_iff_getElem.mp hfresh
  rcases Nat.lt_or_gt_of_ne hij with hlt | hgt
  · exact hpairs i j hi hj hlt a ha b hb
  · exact (hpairs j i hj hi hgt b hb a ha).symm

/-- **A body that is migrated twice is there twice.**  Let two loads of a run migrate the
same body, whose import has a block.  The state of the one, merged into the document of the
other, changes what is read there: each block of the body is read once more.  This is what
the manager does when a client that has kept the one state sends it to the other document. -/
theorem migrated_twice (hbody : c.markdownToYjsUpdate body ≠ []) (hlex : Bootstraps lex R c body)
    (hfresh : FreshClients es) {i j : ℕ} (hij : i ≠ j) (h₁ : MigratedAt lex nodes es i n body d₁)
    (h₂ : MigratedAt lex nodes es j n body d₂) :
    R.blocks (applyUpdate d₂ d₁) ≠ R.blocks d₂ ∧
      (R.blocks (applyUpdate d₂ d₁)).Perm
        (c.markdownToYjsUpdate body ++ c.markdownToYjsUpdate body) ∧
      ∀ s s' r, s.mem.docs n = some r → (s.mem.heap r).doc = d₂ →
        step lex s (.applyToDoc n d₁) = some s' →
          R.blocks (s'.mem.heap r).doc = R.blocks (applyUpdate d₂ d₁) := by
  obtain ⟨s₁, e₁, a, -, he₁, hm₁⟩ := h₁
  obtain ⟨s₂, e₂, b, -, he₂, hm₂⟩ := h₂
  have hab : b ≠ a := by
    obtain ⟨l₁, ws₁, rfl, -⟩ := hm₁.event
    obtain ⟨l₂, ws₂, rfl, -⟩ := hm₂.event
    exact clients_ne hfresh hij.symm he₂ he₁ rfl rfl
  obtain rfl := hm₁.eq_bootstrap
  obtain rfl := hm₂.eq_bootstrap
  refine ⟨fun hsame => ?_, ?_, fun s s' r hdocs hdoc hstep => ?_⟩
  · have hnone := (R.blocks_sup_eq_iff (hlex.own b) (hlex.own a) hab).mp hsame
    rw [hlex.blocks a] at hnone
    exact hbody hnone
  · have hperm := R.blocks_sup_perm (hlex.own b) (hlex.own a) hab
    rw [hlex.blocks a, hlex.blocks b] at hperm
    exact hperm
  · obtain rfl := Option.some.inj hstep
    simp only [Memory.applyToDoc, hdocs, Memory.modify, Function.update_self, hdoc]

/-! ### A title -/

/-- The structs of a client in the order of their clocks, and client by client; the first
struct of each brings the title. -/
def titleReading : Reading where
  order := @Arrangement.ofLinearOrder StructId
    (LinearOrder.lift' (toLex : ℕ × ℕ → ℕ ×ₗ ℕ) toLex.injective)
  block id := if id.2 = 0 then some (.paragraph "Title") else none

theorem titleReading_bootstraps : Bootstraps .plain titleReading Converter.plain "Title" where
  own clientId := by
    refine ⟨fun id hid => ?_, fun id hid => ?_⟩
    · rw [Finset.mem_singleton.mp hid]
    · cases hid
  blocks clientId := by
    have hvisible : (Lexical.plain.bootstrap clientId "Title").visible = {(clientId, 0)} := by
      ext ⟨a, k⟩
      simp only [YDoc.visible, Lexical.plain, Finset.sdiff_empty, VersionVector.mem_integrated,
        VersionVector.lt_clock_iff, Finset.mem_singleton, Prod.mk.injEq]
      constructor
      · exact fun hall => hall k le_rfl
      · rintro ⟨rfl, rfl⟩ j hj
        exact ⟨rfl, Nat.le_zero.mp hj⟩
    rw [Reading.blocks, hvisible, Arrangement.read_singleton]
    rfl

/-- A row that has a body and no `yjs_state`. -/
def titleRow : NodeRow := ⟨none, some ⟨none, some "Title", []⟩, 0, 0, 7, none⟩

def titleNode (n : NodeId) : Option NodeRow := if n = 1 then some titleRow else none

/-- The node is loaded, by the `Y.Doc` of client `clientId`, and a socket joins. -/
def migrate (get : ℕ) (clientId : ClientId) : List Event :=
  [.getOrCreateDoc 1 7, .redisReply .ok, .continueLoad get, .dbReply get true clientId,
    .continueLoad get, .resumeGet get, .addClient 1 5]

/-- The process restarts before the first flush, and the client brings back the state that
it has got from the first load. -/
def restartedBeforeFlush : List Event :=
  migrate 0 21 ++ .restart :: migrate 1 22 ++ [.applyToDoc 1 ⟨{(21, 0)}, ∅⟩]

/-- A load that waits for the answer of the database is about to migrate its row. -/
private theorem migratedAt_of_any (row : NodeRow) {i : ℕ} {l : LoadId} {clientId : ClientId}
    (hstate : row.yjsState = none)
    (hbody : row.content.bind NodeContent.markdownBody = some body) (hne : body ≠ "")
    (hevent : es[i]? = some (.dbReply l true clientId))
    (h : (exec (step lex) (State.init nodes) (es.take i)).any (fun s =>
      decide (s.loader.loads l = some ⟨n, 7, .loadFromDb⟩ ∧ s.nodes n = some row)) = true) :
    MigratedAt lex nodes es i n body (lex.bootstrap clientId body) := by
  obtain ⟨s, hs, h⟩ := (Option.any_eq_true _ _).mp h
  obtain ⟨hload, hrow⟩ := of_decide_eq_true h
  refine ⟨s, _, clientId, hs, hevent, ⟨l, 7, rfl, hload⟩, ⟨row, hrow, hstate, hbody⟩, hne, ?_⟩
  simp [State.loadFromDb, hrow, hstate, hbody, hne]

private theorem migratedAt_first :
    MigratedAt .plain titleNode restartedBeforeFlush 3 1 "Title" ⟨{(21, 0)}, ∅⟩ :=
  migratedAt_of_any titleRow rfl rfl (by decide) rfl (by decide +kernel)

private theorem migratedAt_second :
    MigratedAt .plain titleNode restartedBeforeFlush 11 1 "Title" ⟨{(22, 0)}, ∅⟩ :=
  migratedAt_of_any titleRow rfl rfl (by decide) rfl (by decide +kernel)

theorem restartedBeforeFlush_changes :
    MigratedAt .plain titleNode restartedBeforeFlush 3 1 "Title" ⟨{(21, 0)}, ∅⟩ ∧
      MigratedAt .plain titleNode restartedBeforeFlush 11 1 "Title" ⟨{(22, 0)}, ∅⟩ ∧
      titleReading.blocks (applyUpdate ⟨{(22, 0)}, ∅⟩ ⟨{(21, 0)}, ∅⟩) ≠
        titleReading.blocks ⟨{(22, 0)}, ∅⟩ :=
  ⟨migratedAt_first, migratedAt_second,
    (migrated_twice (by decide) titleReading_bootstraps (by decide +kernel)
      (by decide) migratedAt_first migratedAt_second).1⟩

/-- The document that is managed at the end has the title twice. -/
theorem restartedBeforeFlush_titleTwice :
    MigratedAt .plain titleNode restartedBeforeFlush 3 1 "Title" ⟨{(21, 0)}, ∅⟩ ∧
      MigratedAt .plain titleNode restartedBeforeFlush 11 1 "Title" ⟨{(22, 0)}, ∅⟩ ∧
      titleReading.blocks ⟨{(22, 0)}, ∅⟩ = [.paragraph "Title"] ∧
      ∃ s d, exec (step .plain) (State.init titleNode) restartedBeforeFlush = some s ∧
        s.mem.getDoc 1 = some d ∧
        titleReading.blocks d = [.paragraph "Title", .paragraph "Title"] := by
  have hrun : (exec (step .plain) (State.init titleNode) restartedBeforeFlush).any (fun s =>
      decide (s.mem.getDoc 1 = some (⟨{(22, 0)}, ∅⟩ ⊔ ⟨{(21, 0)}, ∅⟩))) = true := by
    decide +kernel
  obtain ⟨s, hs, hrun⟩ := (Option.any_eq_true _ _).mp hrun
  refine ⟨migratedAt_first, migratedAt_second, titleReading_bootstraps.blocks 22, s, _, hs,
    of_decide_eq_true hrun, ?_⟩
  have hperm := titleReading.blocks_sup_perm (titleReading_bootstraps.own 22)
    (titleReading_bootstraps.own 21) (by decide)
  rw [titleReading_bootstraps.blocks, titleReading_bootstraps.blocks] at hperm
  -- two blocks that are alike have one order
  have htitles : Converter.plain.markdownToYjsUpdate "Title" ++
      Converter.plain.markdownToYjsUpdate "Title" =
        List.replicate 2 (LexicalNode.paragraph "Title") := rfl
  rw [htitles] at hperm
  exact List.perm_replicate.mp hperm

end AideepWebsocket.DocManager
