import AideepWebsocket.Gateway.Outputs
import AideepWebsocket.Gateway.Sessions

/-!
# Do documents stay in their workspace?

A socket is checked against the workspace it last joined, and then opens whatever
node it names: `yjs:join` never asks which workspace the node belongs to (the HTTP
path does, in `selectNodeById`), and `yjs:sync` answers a SyncStep1 without any
check.  So documents stay in their workspace as long as the clients do not try:
every `yjs:join` names a node of the workspace the socket is in, and only sockets
that have joined a node ask for its content.

`isolated` proves this for all runs.  `SessionInv` is used with the node's own
workspace as the only one in which it may be joined.
-/

namespace AideepWebsocket.Gateway

open Library

variable {lex : Lexical} {verify : String → Option UserId} {s s' : State} {e : Event}

/-- After the step, every socket that has been admitted to a node, and everyone to
whom the step sends the content of a node, is cleared for the workspace in the
node's row. -/
def Isolated (lex : Lexical) (verify : String → Option UserId) (s : State) (e : Event)
    (s' : State) : Prop :=
  ∀ n row, s'.manager.nodes n = some row → ∀ socket,
    (socket ∈ s'.rooms (.yjsRoom n) ∨ (s'.data socket).yjsReadOnly n ≠ none →
      s'.Cleared socket n row.workspaceId) ∧
    ((∃ recipients u, .emit recipients (.yjsSync n (.syncStep2 u)) ∈ outputs lex verify s e ∧
        socket ∈ recipients) → s'.Cleared socket n row.workspaceId)

/-- The clients keep to their workspace: a join names a node of the workspace the
socket is in, only who has joined a managed node asks for its content, and no
other writer moves a node to another workspace. -/
def KeepsToWorkspace (owner : NodeId → WorkspaceId) (s : State) (e : Event) (_ : State) : Prop :=
  match e with
  | .yjsJoin socket n => ∀ ws ∈ (s.data socket).workspaceId, ws = owner n
  | .yjsSync socket n (.syncStep1 _) =>
      s.manager.mem.docs n ≠ none → (s.data socket).yjsReadOnly n ≠ none
  | .manager (.writeNode n row) => row.workspaceId = owner n
  | _ => True

instance (owner : NodeId → WorkspaceId) (s : State) (e : Event) (s' : State) :
    Decidable (KeepsToWorkspace owner s e s') := by
  unfold KeepsToWorkspace
  split <;> infer_instance

/-! ### Rows -/

/-- The rows of the table are in the workspaces of their nodes. -/
def Owns (owner : NodeId → WorkspaceId) (nodes : NodeId → Option DocManager.NodeRow) : Prop :=
  ∀ n row, nodes n = some row → row.workspaceId = owner n

private theorem owns_of_exec {owner : NodeId → WorkspaceId} {m m' : DocManager.State}
    {es : List DocManager.Event} (hes : exec (DocManager.step lex) m es = some m')
    (hwrites : ∀ {n row}, .writeNode n row ∈ es → row.workspaceId = owner n)
    (hm : Owns owner m.nodes) : Owns owner m'.nodes := by
  induction es generalizing m with
  | nil =>
      cases hes
      exact hm
  | cons e es ih =>
      rw [exec_cons, Option.bind_eq_some_iff] at hes
      obtain ⟨m₁, hstep, hes⟩ := hes
      refine ih hes (fun hmem => hwrites (List.mem_cons_of_mem _ hmem)) fun n row hrow => ?_
      rcases DocManager.workspace_of_step hstep hrow with ⟨row₀, hrow₀, hws⟩ | rfl
      · exact hws ▸ hm n row₀ hrow₀
      · exact hwrites List.mem_cons_self

/-- The gateway itself writes no row. -/
private theorem writeNode_mem {n : NodeId} {row : DocManager.NodeRow}
    (h : .writeNode n row ∈ s.managerEvents e) : e = .manager (.writeNode n row) := by
  cases managerCall_of_mem h with
  | manager _ he => exact he

private theorem owns_of_step {owner : NodeId → WorkspaceId} (h : step lex verify s e = some s')
    (hguard : KeepsToWorkspace owner s e s') (hs : Owns owner s.manager.nodes) :
    Owns owner s'.manager.nodes := by
  refine owns_of_exec (exec_manager h) (fun hmem => ?_) hs
  obtain rfl := writeNode_mem hmem
  exact hguard

/-- A sync message changes no record. -/
private theorem data_of_yjsSync {socket : SocketId} {n : NodeId} {data : SyncMessage}
    (h : step lex verify s (.yjsSync socket n data) = some s') : s'.data = s.data := by
  have hs' := congrArg (fun p : State × List Output => p.1.data) (handleYjsSync_of_step h)
  rw [← hs']
  unfold State.handleYjsSync
  split
  · rfl
  · dsimp only
    split
    · split <;> rfl
    · rfl

/-! ### Runs -/

/-- **Documents stay in their workspace** in every run whose clients keep to
theirs. -/
theorem isolated (lex : Lexical) (verify : String → Option UserId) (owner : NodeId → WorkspaceId)
    (nodes : NodeId → Option DocManager.NodeRow)
    (memberships : UserId → WorkspaceId → Option Role) (es : List Event)
    (hnodes : ∀ n row, nodes n = some row → row.workspaceId = owner n)
    (hguard : Along (step lex verify) (KeepsToWorkspace owner) (State.init nodes memberships)
      es) :
    Along (step lex verify) (Isolated lex verify) (State.init nodes memberships) es := by
  refine along_of_invariant
    (I := fun s => SessionInv (fun n ws => ws = owner n) s ∧ Owns owner s.manager.nodes) ?_
    ⟨sessionInv_init _ nodes memberships, hnodes⟩ hguard
  rintro s e s' hstep ⟨hS, hrows⟩ hkeeps
  have hS' : SessionInv (fun n ws => ws = owner n) s' := by
    refine hS.step hstep ?_
    rintro socket n ws rfl hws
    exact hkeeps ws hws
  have hrows' := owns_of_step hstep hkeeps hrows
  refine ⟨⟨hS', hrows'⟩, ?_⟩
  intro n row hrow socket
  have hcleared : (s'.data socket).yjsReadOnly n ≠ none → s'.Cleared socket n row.workspaceId := by
    intro hflag
    obtain ⟨ws, rfl, hcleared⟩ := hS'.recorded hflag
    rwa [hrows' n row hrow]
  refine ⟨fun hadmitted => hcleared (hadmitted.elim hS'.room id), ?_⟩
  rintro ⟨recipients, u, hout, hmem⟩
  cases sync_of_outputs hout with
  | answer sender sv r he hdocs hrecipients =>
      subst he
      obtain rfl : socket = sender := by
        rw [hrecipients] at hmem
        exact Finset.mem_singleton.mp (Finset.mem_of_mem_inter_left hmem)
      refine hcleared ?_
      rw [data_of_yjsSync hstep]
      exact hkeeps (by simp [hdocs])

/-- User `9` is an EDITOR of workspace `7`, where node `1` is, and user `8` is one
of workspace `6`. -/
def editors : UserId → WorkspaceId → Option Role :=
  members [(9, 7, .EDITOR), (8, 6, .EDITOR)]

private theorem oneNode_workspace (n : NodeId) (row : DocManager.NodeRow)
    (h : DocManager.oneNode n = some row) : row.workspaceId = 7 := by
  unfold DocManager.oneNode at h
  split at h <;> cases h
  rfl

/-- User `9` opens the node and asks for its content. -/
def memberReads : List Event :=
  joinSession 0 "token of 9" 7 0 ++ openNode 0 1 ++ [.yjsSync 0 1 (.syncStep1 ∅)]

theorem memberReads_isolated :
    Along (step .plain plainToken) (KeepsToWorkspace fun _ => 7)
        (State.init DocManager.oneNode editors) memberReads ∧
      Along (step .plain plainToken) (Isolated .plain plainToken)
        (State.init DocManager.oneNode editors) memberReads :=
  ⟨by decide +kernel, isolated .plain plainToken (fun _ => 7) DocManager.oneNode editors
    memberReads oneNode_workspace (by decide +kernel)⟩

/-- User `8` joins workspace `6`, opens the node of workspace `7` and asks for its
content. -/
def strangerReads : List Event :=
  (joinSession 0 "token of 8" 6 0 ++ loadNode 0 1) ++
    .resumeYjsJoin 2 :: [.yjsSync 0 1 (.syncStep1 ∅)]

/-- The stranger is admitted to the node, as one who may write. -/
theorem strangerReads_not_isolated :
    ¬ Along (step .plain plainToken) (Isolated .plain plainToken)
        (State.init DocManager.oneNode editors) strangerReads := by
  intro h
  have hrun : (exec (step .plain plainToken) (State.init DocManager.oneNode editors)
      (joinSession 0 "token of 8" 6 0 ++ loadNode 0 1)).any (fun s =>
        (step .plain plainToken s (.resumeYjsJoin 2)).any fun s' =>
          (s'.manager.nodes 1).any (fun row => row.workspaceId = 7) ∧
            (s'.data 0).yjsReadOnly 1 = some false ∧
            s'.passed.all fun check => check.2.1 = 6) = true := by
    decide +kernel
  obtain ⟨s, hs, hrun⟩ := (Option.any_eq_true _ _).mp hrun
  obtain ⟨s', hs', hrun⟩ := (Option.any_eq_true _ _).mp hrun
  obtain ⟨hrow, hflag, hpassed⟩ := of_decide_eq_true hrun
  obtain ⟨row, hrow, hws⟩ := (Option.any_eq_true _ _).mp hrow
  have hisolated : Isolated .plain plainToken s (.resumeYjsJoin 2) s' := h.at_step hs hs'
  obtain ⟨role, ⟨userId, -, hmem⟩, -⟩ := (hisolated 1 row hrow 0).1 (Or.inr (by simp [hflag]))
  -- the only checks that have been passed are for workspace `6`
  have hsix := of_decide_eq_true (List.all_eq_true.mp hpassed _ hmem)
  rw [of_decide_eq_true hws] at hsix
  cases hsix

end AideepWebsocket.Gateway
