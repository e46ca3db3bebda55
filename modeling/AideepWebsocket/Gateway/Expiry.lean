import AideepWebsocket.DocManager.Stranded
import AideepWebsocket.Gateway.Cases
import AideepWebsocket.Gateway.Refinement

/-!
# Do idle documents expire?

The idle timer of a document is cancelled by every `getOrCreateDoc` and set by
`removeClient` only.  A `yjs:join` makes up for the timer that it cancels, for it
registers a client when it resumes.  `appendMarkdown` does not: it loads documents
that nobody has opened, and touches documents that are waiting for their eviction,
and leaves when it is done.

* `Busy` — a call on the node is running;
* `IdleExpires` — when no call is, a document without clients has a live idle
  timer;
* `Attended` — the last call on a node to end registers a client, or leaves the
  node with a client, with a live idle timer, or unmanaged.

`along_idleExpires_iff` says that the runs whose steps are all attended are exactly
the ones in which idle documents expire.
-/

namespace AideepWebsocket.Gateway

open Library

variable {lex : Lexical} {verify : String → Option UserId} {s s' : State} {e : Event}
  {n : NodeId}

/-- A `yjs:join` of the node. -/
def Pending.Joins (n : NodeId) : Pending → Prop
  | .yjsCheckWorkspace _ _ m => m = n
  | .yjsGetOrCreateDoc _ _ m _ => m = n
  | _ => False

namespace State

/-- A call of `getOrCreateDoc` or of `appendMarkdown`, or a join, is running on the
node. -/
def Busy (s : State) (n : NodeId) : Prop :=
  s.manager.Called n ∨ s.Suspended fun x => x.pending.Joins n

/-- The step registers a client of the node. -/
def Registers (s : State) (e : Event) (n : NodeId) : Prop :=
  ∃ k, .addClient n k ∈ s.managerEvents e

end State

/-- **Idle documents are on their way out.**  A managed document without clients,
on which no call is running, has a live timer that will evict it. -/
def IdleExpires (s : State) : Prop :=
  ∀ n r, ¬ s.Busy n → s.manager.mem.docs n = some r → (s.manager.mem.heap r).clients = ∅ →
    ∃ timer, s.manager.mem.timers timer = some (.idle n)

/-- When the last call on a node ends, and registers no client, the node is
unmanaged, has a client, or has a live idle timer. -/
def Attended (s : State) (e : Event) (s' : State) : Prop :=
  e ≠ .restart → ∀ n, s.Busy n → ¬ s'.Busy n → ¬ s.Registers e n →
    ∀ r, s.manager.mem.docs n = some r → (s.manager.mem.heap r).clients = ∅ →
      ∃ timer, s.manager.mem.timers timer = some (.idle n)

private theorem not_stranded_iff {m : DocManager.State} :
    ¬ m.Stranded n ↔ ∀ r, m.mem.docs n = some r → (m.mem.heap r).clients = ∅ →
      ∃ timer, m.mem.timers timer = some (.idle n) := by
  constructor
  · intro h r hr hclients
    by_contra hnone
    exact h ⟨r, hr, hclients, fun timer ht => hnone ⟨timer, ht⟩⟩
  · rintro h ⟨r, hr, hclients, hnone⟩
    obtain ⟨timer, ht⟩ := h r hr hclients
    exact hnone timer ht

theorem idleExpires_iff : IdleExpires s ↔ ∀ n, ¬ s.Busy n → ¬ s.manager.Stranded n :=
  ⟨fun h n hbusy => not_stranded_iff.mpr fun r => h n r hbusy,
    fun h n r hbusy => not_stranded_iff.mp (h n hbusy) r⟩

theorem attended_iff : Attended s e s' ↔ (e ≠ .restart → ∀ n, s.Busy n → ¬ s'.Busy n →
    ¬ s.Registers e n → ¬ s.manager.Stranded n) := by
  unfold Attended
  simp only [not_stranded_iff]

/-! ### The calls of a step -/

/-- What a step calls opens nothing, unless it is a single call. -/
private theorem managerEvents_quiet (s : State) (e : Event) :
    (∀ x ∈ s.managerEvents e, ¬ x.Opens) ∨ ∃ x, s.managerEvents e = [x] := by
  have hleaves : ∀ k, ∀ x ∈ s.leaveEvents k, ¬ x.Opens := by
    intro k x hx
    obtain ⟨m, -, rfl⟩ := List.mem_map.mp hx
    exact id
  have hloads : ∀ ws m membership, (∀ x ∈ State.loadEvents ws m membership, ¬ x.Opens) ∨
      ∃ x, State.loadEvents ws m membership = [x] := by
    intro ws m membership
    cases membership with
    | none => exact Or.inl (by simp [State.loadEvents])
    | some role => exact Or.inr ⟨_, rfl⟩
  cases e with
  | disconnect k =>
      refine Or.inl ?_
      simp only [State.managerEvents]
      split
      · simp
      · exact hleaves k
  | yjsJoin k m =>
      simp only [State.managerEvents]
      split
      · split
        · exact Or.inl (by simp)
        · exact hloads _ _ _
      · exact Or.inl (by simp)
  | yjsSync k m data =>
      refine Or.inl fun x hx => ?_
      simp only [State.managerEvents, State.syncEvents] at hx
      split at hx
      · cases hx
      · rcases List.mem_cons.mp hx with rfl | hx
        · exact id
        · split at hx
          · rw [List.mem_singleton.mp hx]
            exact id
          · cases hx
  | membershipReply h ok =>
      simp only [State.managerEvents]
      split
      · split
        · exact hloads _ _ _
        · exact Or.inl (by simp)
      · exact Or.inl (by simp)
  | resumeYjsJoin h =>
      refine Or.inl fun x hx => ?_
      simp only [State.managerEvents, State.resumeEvents] at hx
      split at hx
      · rcases List.mem_cons.mp hx with rfl | hx
        · exact id
        · split at hx
          · rw [List.mem_singleton.mp hx]
            exact id
          · cases hx
      · cases hx
  | redisReply reply =>
      refine Or.inl ?_
      simp only [State.managerEvents]
      split
      · split
        · exact hleaves _
        · simp
      · simp
  | broadcast event =>
      simp only [State.managerEvents]
      split
      · exact Or.inr ⟨_, rfl⟩
      · exact Or.inl (by simp)
  | yjsLeave k m => exact Or.inr ⟨_, rfl⟩
  | manager x => exact Or.inr ⟨x, rfl⟩
  | restart => exact Or.inr ⟨_, rfl⟩
  | _ => exact Or.inl (by simp [State.managerEvents])

/-- A registration is the last call of its step. -/
private theorem registers_last (h : s.Registers e n) :
    ∃ es k, s.managerEvents e = es ++ [.addClient n k] := by
  obtain ⟨k, hk⟩ := h
  have hleaves : ∀ j, .addClient n k ∉ s.leaveEvents j := by
    intro j hj
    obtain ⟨m, -, hm⟩ := List.mem_map.mp hj
    cases hm
  have hloads : ∀ ws m membership, .addClient n k ∉ State.loadEvents ws m membership := by
    intro ws m membership hm
    cases membership with
    | none => cases hm
    | some role => simp [State.loadEvents] at hm
  cases e with
  | disconnect j =>
      simp only [State.managerEvents] at hk
      split at hk
      · cases hk
      · exact absurd hk (hleaves j)
  | yjsJoin j m =>
      simp only [State.managerEvents] at hk
      split at hk
      · split at hk
        · cases hk
        · exact absurd hk (hloads _ _ _)
      · cases hk
  | yjsSync j m data =>
      simp only [State.managerEvents, State.syncEvents] at hk
      split at hk
      · cases hk
      · simp only [List.mem_cons, reduceCtorEq, false_or] at hk
        split at hk <;> simp at hk
  | membershipReply h ok =>
      simp only [State.managerEvents] at hk
      split at hk
      · split at hk
        · exact absurd hk (hloads _ _ _)
        · cases hk
      · cases hk
  | resumeYjsJoin h =>
      simp only [State.managerEvents, State.resumeEvents] at hk
      split at hk
      · next socket ws role m get hhandler =>
          simp only [List.mem_cons, reduceCtorEq, false_or] at hk
          split at hk
          · next r hr =>
              rw [List.mem_singleton] at hk
              cases hk
              exact ⟨[.resumeGet get], k, by
                simp [State.managerEvents, State.resumeEvents, hhandler, hr]⟩
          · cases hk
      · cases hk
  | redisReply reply =>
      simp only [State.managerEvents] at hk
      split at hk
      · split at hk
        · exact absurd hk (hleaves _)
        · cases hk
      · cases hk
  | broadcast event =>
      simp only [State.managerEvents] at hk
      split at hk <;> simp at hk
  | yjsLeave j m => simp [State.managerEvents] at hk
  | manager x =>
      rw [State.managerEvents, List.mem_singleton] at hk
      exact ⟨[], k, by rw [State.managerEvents, hk]; rfl⟩
  | restart => simp [State.managerEvents] at hk
  | _ => cases hk

/-! ### Joins go on -/

private theorem joins_disconnect (k : SocketId)
    (hjoin : s.Suspended fun x => x.pending.Joins n) :
    (s.handleDisconnect k).Suspended fun x => x.pending.Joins n := by
  rcases s.handleDisconnect_cases k with ⟨ws, userId, -, -, heq⟩ | ⟨-, heq, _, _, hclean⟩
  · rw [heq]
    exact suspended_of_suspend rfl rfl hjoin
  · rw [heq, hclean]
    exact suspended_of_eq rfl rfl hjoin

private theorem joins_redisReply {reply : DocManager.Reply} {out : List Output}
    (hs' : s.redisReply reply = some (s', out)) (hjoin : s.Suspended fun x => x.pending.Joins n) :
    s'.Suspended fun x => x.pending.Joins n := by
  obtain ⟨h, rest, -, ⟨rfl, -⟩ | ⟨socket, pending, hhandler, hawaits, hcase⟩⟩ :=
    s.redisReply_cases hs'
  · exact suspended_of_eq rfl rfl hjoin
  · -- the handler that goes on is no join
    have hother : ∀ {s₁ : State} {y : Option Handler},
        s₁.handlers = Function.update s.handlers h y →
        s₁.nextHandler = s.nextHandler → s₁.Suspended fun x => x.pending.Joins n := by
      intro s₁ y hhandlers hnext
      refine suspended_of_update hhandlers hnext (fun x hx hjoins => ?_) hjoin
      rw [hhandler] at hx
      obtain rfl := Option.some.inj hx
      cases pending with
      | yjsCheckWorkspace | yjsGetOrCreateDoc => cases hawaits
      | _ => exact hjoins.elim
    rcases hcase with ⟨next, -, rfl⟩ | ⟨-, -, rfl, _, _, hclean⟩ | ⟨-, rfl⟩
    · exact hother (y := some ⟨socket, next⟩) rfl rfl
    · rw [hclean]
      exact hother (y := none) rfl rfl
    · exact hother (y := none) rfl rfl

/-! ### One step -/

/-- The invariants of the manager. -/
private structure ManagerInv (m : DocManager.State) : Prop where
  inv : DocManager.Inv m
  flight : DocManager.FlightInv m
  timers : m.mem.TimerInv

private theorem managerInv_init (nodes : NodeId → Option DocManager.NodeRow) :
    ManagerInv (DocManager.State.init nodes) :=
  ⟨DocManager.inv_init nodes, DocManager.flightInv_init nodes,
    DocManager.Memory.timerInv_of_none (fun _ => rfl) fun _ => rfl⟩

private theorem ManagerInv.exec {m m' : DocManager.State} {es : List DocManager.Event}
    (hM : ManagerInv m) (hes : Library.exec (DocManager.step lex) m es = some m') :
    ManagerInv m' := by
  have hreach : Reachable (DocManager.step lex) m m' := ⟨es, hes⟩
  refine hreach.invariant hM ?_
  intro m e m' h hM
  exact ⟨hM.inv.step h, hM.flight.step h, DocManager.timerInv_of_step hM.inv hM.timers h⟩

/-- A document that is stranded while no call on it is running was so before, unless
the step registers a client. -/
private theorem stranded_back (hM : ManagerInv s.manager) (h : step lex verify s e = some s')
    (hbusy : ¬ s'.Busy n) (hstranded : s'.manager.Stranded n) :
    s.manager.Stranded n ∧ ¬ s.Registers e n := by
  have hes := exec_manager h
  constructor
  · rcases managerEvents_quiet s e with hquiet | ⟨x, hx⟩
    · exact DocManager.stranded_of_exec hM.inv hM.flight hM.timers hes hquiet hstranded
    · rw [hx, exec_cons, Option.bind_eq_some_iff] at hes
      obtain ⟨m, hstep, hm⟩ := hes
      cases hm
      rcases DocManager.stranded_of_step hM.inv hM.flight hM.timers hstep hstranded with
        hold | ⟨-, hcalled⟩
      · exact hold
      · exact absurd (Or.inl hcalled) hbusy
  · intro hregisters
    obtain ⟨es, k, hevents⟩ := registers_last hregisters
    rw [hevents, exec_concat, Option.bind_eq_some_iff] at hes
    obtain ⟨m, -, hstep⟩ := hes
    exact DocManager.not_stranded_of_addClient hstep hstranded

/-- A document on which the last call ends stays stranded. -/
private theorem stranded_forth (hM : ManagerInv s.manager) (h : step lex verify s e = some s')
    (hrestart : e ≠ .restart) (hbusy : s.Busy n) (hbusy' : ¬ s'.Busy n)
    (hregisters : ¬ s.Registers e n) (hstranded : s.manager.Stranded n) :
    s'.manager.Stranded n := by
  have hes := exec_manager h
  have hstays : (∀ x ∈ s.managerEvents e, ¬ x.Frees n) → s'.manager.Stranded n := fun hfrees =>
    DocManager.stranded_stays_exec hM.inv hM.flight.toLoadInv hM.timers hes hfrees hstranded
  -- while clients leave and entries are dropped, every call goes on
  have hgoes : (s.manager.Called n → s'.manager.Called n) →
      ((s.Suspended fun x => x.pending.Joins n) → s'.Suspended fun x => x.pending.Joins n) →
      s'.manager.Stranded n := by
    intro hcalled hjoins
    exact absurd (hbusy.imp hcalled hjoins) hbusy'
  have hleaves : ∀ k, s.managerEvents e = s.leaveEvents k ∨ s.managerEvents e = [] →
      s.manager.Called n → s'.manager.Called n := by
    rintro k (hk | hk) hcalled
    · refine DocManager.called_of_leaves hM.flight hes ?_ hcalled
      rw [hk]
      intro x hx
      obtain ⟨m, -, rfl⟩ := List.mem_map.mp hx
      exact ⟨m, k, rfl⟩
    · rw [hk] at hes
      exact Option.some.inj hes ▸ hcalled
  have hloads : ∀ ws m membership, ∀ x ∈ State.loadEvents ws m membership, ¬ x.Frees n := by
    intro ws m membership x hx
    cases membership with
    | none => cases hx
    | some role =>
        rw [List.mem_singleton.mp hx]
        exact id
  have hhandle := step_eq_some.mp h
  cases e with
  | disconnect k =>
      rw [handle] at hhandle
      split at hhandle
      · refine hgoes (hleaves k ?_) fun hjoin => ?_
        · simp only [State.managerEvents]
          split
          · exact Or.inr rfl
          · exact Or.inl rfl
        · obtain rfl := congrArg Prod.fst (Option.some.inj hhandle)
          exact joins_disconnect k hjoin
      · cases hhandle
  | yjsLeave k m =>
      rw [handle] at hhandle
      split at hhandle
      · refine hgoes (fun hcalled => ?_) fun hjoin => ?_
        · rw [State.managerEvents] at hes
          exact DocManager.called_of_leaves hM.flight hes
            (fun x hx => ⟨m, k, List.mem_singleton.mp hx⟩) hcalled
        · obtain rfl := congrArg Prod.fst (Option.some.inj hhandle)
          refine suspended_of_eq ?_ ?_ hjoin <;> unfold State.handleYjsLeave <;> dsimp only <;>
            split <;> rfl
      · cases hhandle
  | redisReply reply =>
      refine hgoes (fun hcalled => ?_) (joins_redisReply hhandle)
      simp only [State.managerEvents] at hes hleaves
      split at hes
      · next k ws hcommand =>
          split at hes
          · refine DocManager.called_of_leaves hM.flight hes (fun x hx => ?_) hcalled
            obtain ⟨m, -, rfl⟩ := List.mem_map.mp hx
            exact ⟨m, k, rfl⟩
          · exact Option.some.inj hes ▸ hcalled
      · exact Option.some.inj hes ▸ hcalled
  | broadcast event =>
      refine hgoes (fun hcalled => ?_) fun hjoin => ?_
      · simp only [State.managerEvents] at hes
        split at hes
        · rw [exec_cons, Option.bind_eq_some_iff] at hes
          obtain ⟨m, hstep, hm⟩ := hes
          rw [← Option.some.inj hm]
          exact DocManager.called_of_endsNone hM.flight hstep trivial hcalled
        · exact Option.some.inj hes ▸ hcalled
      · obtain rfl : (s.broadcast event).1 = s' := congrArg Prod.fst (Option.some.inj hhandle)
        refine suspended_of_eq ?_ ?_ hjoin <;> unfold State.broadcast <;> dsimp only <;>
          split <;> rfl
  | manager x =>
      rw [State.managerEvents, exec_cons, Option.bind_eq_some_iff] at hes
      obtain ⟨m, hstep, hm⟩ := hes
      rw [Option.some.inj hm] at hstep
      have hhandlers : s'.handlers = s.handlers ∧ s'.nextHandler = s.nextHandler ∧
          internal x = true := by
        rw [handle] at hhandle
        split at hhandle
        · next hinternal =>
            obtain ⟨m, -, hm⟩ := Option.map_eq_some_iff.mp hhandle
            obtain rfl := congrArg Prod.fst hm
            exact ⟨rfl, rfl, hinternal⟩
        · cases hhandle
      obtain ⟨hhandlers, hnext, hinternal⟩ := hhandlers
      have hendsNone : x.EndsNone s.manager → s'.manager.Stranded n := fun hx =>
        hgoes (DocManager.called_of_endsNone hM.flight hstep hx)
          (suspended_of_eq hhandlers hnext)
      have hother : ¬ x.Frees n → s'.manager.Stranded n := fun hx =>
        hstays (by simpa [State.managerEvents] using hx)
      cases x with
      | fireTimer timer => exact hendsNone trivial
      | finishDestroy => exact hendsNone trivial
      | resumeTask t =>
          by_cases hflush : ∀ entry ∈ s.manager.queue.task t, entry.payload.appending = false
          · exact hendsNone hflush
          · -- an append returns
            obtain ⟨entry, hentry, happending⟩ : ∃ entry, s.manager.queue.task t = some entry ∧
                entry.payload.appending = true := by
              simpa using hflush
            obtain ⟨r, hr⟩ := hstranded
            have hmem := DocManager.mem_of_appendReturned hstep hentry happending
            exact ⟨r, by rw [hmem]; exact hr⟩
      | addClient m k => cases hinternal
      | removeClient m k => cases hinternal
      | cleanupNode m => cases hinternal
      | restart => cases hinternal
      | _ => exact hother id
  | resumeYjsJoin i =>
      refine hstays fun x hx => ?_
      have hx' := hx
      simp only [State.managerEvents, State.resumeEvents] at hx'
      split at hx'
      · rcases List.mem_cons.mp hx' with rfl | hx'
        · exact id
        · split at hx'
          · rw [List.mem_singleton] at hx'
            subst hx'
            rintro rfl
            exact hregisters ⟨_, hx⟩
          · cases hx'
      · cases hx'
  | membershipReply i ok =>
      refine hstays fun x hx => ?_
      simp only [State.managerEvents] at hx
      split at hx
      · split at hx
        · exact hloads _ _ _ x hx
        · cases hx
      · cases hx
  | yjsJoin k m =>
      refine hstays fun x hx => ?_
      simp only [State.managerEvents] at hx
      split at hx
      · split at hx
        · cases hx
        · exact hloads _ _ _ x hx
      · cases hx
  | yjsSync k m data =>
      refine hstays fun x hx => ?_
      simp only [State.managerEvents, State.syncEvents] at hx
      split at hx
      · cases hx
      · rcases List.mem_cons.mp hx with rfl | hx
        · exact id
        · split at hx
          · rw [List.mem_singleton.mp hx]
            exact id
          · cases hx
  | restart => exact absurd rfl hrestart
  | _ => exact hstays fun x hx => by cases hx

/-! ### Runs -/

/-- **Idle documents expire, exactly.**  In every run, idle documents expire after
every step if and only if every step is attended. -/
theorem along_idleExpires_iff (lex : Lexical) (verify : String → Option UserId)
    (nodes : NodeId → Option DocManager.NodeRow)
    (memberships : UserId → WorkspaceId → Option Role) (es : List Event) :
    Along (step lex verify) (fun _ _ s' => IdleExpires s') (State.init nodes memberships) es ↔
      Along (step lex verify) Attended (State.init nodes memberships) es := by
  constructor
  · refine along_of_invariant (I := fun s => ManagerInv s.manager) ?_ (managerInv_init nodes)
    intro s e s' h hM hidle
    refine ⟨hM.exec (exec_manager h), attended_iff.mpr fun hrestart n hbusy hbusy' hregisters
      hstranded => ?_⟩
    exact idleExpires_iff.mp hidle n hbusy'
      (stranded_forth hM h hrestart hbusy hbusy' hregisters hstranded)
  · refine along_of_invariant (I := fun s => ManagerInv s.manager ∧ IdleExpires s) ?_
      ⟨managerInv_init nodes, fun n r _ hr => by cases hr⟩
    rintro s e s' h ⟨hM, hidle⟩ hattended
    have hidle' : IdleExpires s' := by
      refine idleExpires_iff.mpr fun n hbusy' hstranded' => ?_
      obtain ⟨hstranded, hregisters⟩ := stranded_back hM h hbusy' hstranded'
      by_cases hbusy : s.Busy n
      · have hrestart : e ≠ .restart := by
          rintro rfl
          cases h
          obtain ⟨r, hr, -⟩ := hstranded'
          cases hr
        exact attended_iff.mp hattended hrestart n hbusy hbusy' hregisters hstranded
      · exact idleExpires_iff.mp hidle n hbusy hstranded
    exact ⟨⟨hM.exec (exec_manager h), hidle'⟩, hidle'⟩

/-- The server appends to a document that nobody has opened. -/
def appendUnopened : List Event :=
  [.manager (.appendMarkdown 1 7 "x" 9), .manager (.startTask 0), .manager (.redisReply .ok),
    .manager (.continueLoad 0), .manager (.dbReply 0 true 0), .manager (.continueLoad 0),
    .manager (.resumeAppend 0 1), .manager (.redisReply .ok), .manager (.updateNodeRow 0 .ok 10),
    .manager (.attachmentsSynced 0 true), .manager (.continueFlush 0),
    .manager (.enqueued 0 true), .manager (.resumeTask 0)]

/-- The append has returned, and the document that it loaded stays for good. -/
theorem appendUnopened_stays :
    ¬ Along (step Lexical.plain plainToken) (fun _ _ s' => IdleExpires s')
      (State.init DocManager.oneNode (members [])) appendUnopened := by
  intro hidle
  have hrun : (exec (step Lexical.plain plainToken) (State.init DocManager.oneNode (members []))
      appendUnopened).any (fun s => decide (s.manager.Resting ∧ s.Idle ∧
        s.manager.mem.docs 1 = some 0 ∧ (s.manager.mem.heap 0).clients = ∅ ∧
        s.manager.mem.nextTimer = 0)) = true := by decide +kernel
  obtain ⟨s, hs, hstate⟩ := (Option.any_eq_true _ _).mp hrun
  obtain ⟨hrest, hnone, hdocs, hclients, htimer⟩ := of_decide_eq_true hstate
  have hM : ManagerInv s.manager := by
    obtain ⟨es, hes⟩ := manager_reachable ⟨_, hs⟩
    exact (managerInv_init _).exec hes
  have hbusy : ¬ s.Busy 1 := by
    rintro (hcalled | hjoin)
    · exact DocManager.not_called_of_resting hM.flight hrest hcalled
    · exact not_suspended_of_idle hnone hjoin
  have hlast := hidle.state (fun n r _ hr => by cases hr) hs
  obtain ⟨timer, ht⟩ := hlast 1 0 hbusy hdocs hclients
  have hlt := hM.timers.live ht
  rw [htimer] at hlt
  exact absurd hlt (Nat.not_lt_zero _)

end AideepWebsocket.Gateway
