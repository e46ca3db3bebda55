import AideepWebsocket.DocManager.Loading

/-!
# Is the cleanup of a node final?

`cleanupNode` takes the document out of `docs` and hands a `DEL` to Redis.  It looks
neither at `loading` nor at the queue of the node, so it does not stop what has begun
before.  A flush in progress does no harm: its `SET` was issued before the `DEL`, and a
flush that starts later finds no document.  A load does: it ends with `docs.set`, for
whoever asked, and the next flush writes the snapshot back.

* `RedisStep` — what a step does to Redis: a flush sends a snapshot only of a node that
  is in `docs`;
* `CleanedUp` — the invariant: the node is not in `docs`, and what Redis has of it, or is
  going to have, is about to be deleted;
* `along_cleanupFinal` — the runs in which every load of the node that is still in
  flight fails.
-/

namespace AideepWebsocket.DocManager

open Library

variable {lex : Lexical} {s s' : State} {e : Event}

/-! ### Redis, one step at a time -/

/-- What the execution of a command leaves in Redis. -/
def RedisCommand.run (store : NodeId → Option Cached) : RedisCommand → NodeId → Option Cached
  | .get _ => store
  | .set n state t => Function.update store n (some ⟨state, t⟩)
  | .del n => Function.update store n none

/-- How an event can change Redis and the commands on their way to it. -/
inductive RedisStep (s : State) (e : Event) (s' : State) : Prop
  /-- Commands are issued, and a snapshot only of a document that is managed. -/
  | issued (cmds : List RedisCommand) (hstore : s'.redis.store = s.redis.store)
      (hcommands : s'.redis.commands = s.redis.commands ++ cmds)
      (hset : ∀ {n state t}, .set n state t ∈ cmds → s.mem.docs n ≠ none)
  | replied (reply : Reply) (cmd : RedisCommand) (rest : List RedisCommand)
      (he : e = .redisReply reply) (hcmds : s.redis.commands = cmd :: rest)
      (hstore : s'.redis.store =
        if reply.executed then cmd.run s.redis.store else s.redis.store)
      (hcommands : s'.redis.commands = rest)
  | expired (n : NodeId) (hstore : s'.redis.store = Function.update s.redis.store n none)
      (hcommands : s'.redis.commands = s.redis.commands)
  | restart (he : e = .restart)

private theorem RedisStep.of_eq (h : s'.redis = s.redis) : RedisStep s e s' :=
  .issued [] (by rw [h]) (by rw [h, List.append_nil]) fun hset => by cases hset

private theorem getOrCreateDoc_redis (s : State) (n : NodeId) (ws : WorkspaceId) :
    (s.getOrCreateDoc n ws).1.redis = s.redis ∨ ∃ l, (s.getOrCreateDoc n ws).1.redis =
      ⟨s.redis.store, s.redis.commands ++ [.get l]⟩ := by
  unfold State.getOrCreateDoc
  split
  · exact Or.inl rfl
  · split
    · exact Or.inl rfl
    · exact Or.inr ⟨s.loader.nextLoad, rfl⟩

private theorem RedisStep.of_getOrCreateDoc (n : NodeId) (ws : WorkspaceId)
    (h : s'.redis = (s.getOrCreateDoc n ws).1.redis) : RedisStep s e s' := by
  rcases getOrCreateDoc_redis s n ws with hsame | ⟨l, hget⟩
  · exact .of_eq (h.trans hsame)
  · refine .issued [.get l] (by rw [h, hget]) (by rw [h, hget]) fun hset => ?_
    cases List.mem_singleton.mp hset

private theorem RedisStep.of_flush {s₁ : State} {t : TaskId} {x : Task} {n : NodeId}
    (hredis : s₁.redis = s.redis) (hdocs : s₁.mem.docs n ≠ none → s.mem.docs n ≠ none)
    (h : s₁.FlushStep t x n s') : RedisStep s e s' := by
  -- every command is the `SET` of the document that is flushed
  have hsent : ∀ {r : DocRef} {state : YDoc} {cmds : List RedisCommand},
      s₁.mem.docs n = some r → (∀ cmd ∈ cmds, cmd = .set n state t) →
      s'.redis = ⟨s₁.redis.store, s₁.redis.commands ++ cmds⟩ → RedisStep s e s' := by
    intro r state cmds hr hcmds hs'
    refine .issued cmds (by rw [hs', hredis]) (by rw [hs', hredis]) fun hset => ?_
    cases hcmds _ hset
    exact hdocs (by simp [hr])
  cases h with
  | notLoaded _ => exact .of_eq hredis
  | skip r mem hr _ _ => exact hsent hr (fun cmd hcmd => List.mem_singleton.mp hcmd) rfl
  | throws r mem cmds hr _ hcmds => exact hsent hr hcmds rfl
  | save r mem c hr _ => exact hsent hr (fun cmd hcmd => List.mem_singleton.mp hcmd) rfl

private theorem redis_resumeAppend {t : TaskId} {clientId : ClientId}
    (h : s.resumeAppend lex t clientId = some s') : RedisStep s e s' := by
  obtain ⟨entry, await, ws, markdown, userId, -, -, -, hcase⟩ := State.resumeAppend_step s h
  rcases hcase with ⟨failure, -, rfl⟩ | ⟨r, result, mem, -, -, hedit, hflush⟩
  · exact .of_eq (by simp)
  · rcases hflush with ⟨-, rfl⟩ | ⟨hdocs, hflush⟩
    · exact .of_eq (by simp)
    · exact .of_flush (by simp) (fun _ => hdocs) hflush

private theorem redis_redisReply {reply : Reply} (h : s.redisReply reply = some s') :
    RedisStep s (.redisReply reply) s' := by
  obtain ⟨cmd, rest, hcmds, hcase⟩ := State.redisReply_cases s h
  rcases hcase with ⟨l, rfl, ⟨n, ws, -, rfl⟩ | rfl⟩ | ⟨n, state, t, rfl, rfl⟩ | ⟨n, rfl, rfl⟩
  · exact .replied reply _ rest rfl hcmds (by simp [RedisCommand.run]) rfl
  · exact .replied reply _ rest rfl hcmds (by simp [RedisCommand.run]) rfl
  · exact .replied reply _ rest rfl hcmds (by simp [RedisCommand.run]) (by simp)
  · exact .replied reply _ rest rfl hcmds (by simp [RedisCommand.run]) rfl

/-- **Redis**, one step at a time. -/
theorem step_redis (h : step lex s e = some s') : RedisStep s e s' := by
  cases e with
  | getOrCreateDoc n ws =>
      cases h
      exact .of_getOrCreateDoc n ws rfl
  | cleanupNode n =>
      cases h
      refine .issued [.del n] rfl rfl fun hset => ?_
      cases List.mem_singleton.mp hset
  | startTask t =>
      obtain ⟨entry, -, -, -, hcase⟩ := State.startTask_step s h
      rcases hcase with ⟨-, hflush⟩ | ⟨ws, markdown, userId, -, rfl⟩
      · exact .of_flush rfl id hflush
      · exact .of_getOrCreateDoc entry.key ws rfl
  | resumeAppend t clientId => exact redis_resumeAppend h
  | resumeTask t =>
      obtain ⟨entry, result, s₁, -, -, -, -, -, -, -, -, hstore, hcmds, hsub⟩ :=
        State.resumeTask_step s h
      rcases hcmds with hcmds | hcmds
      · refine .issued [] (by rw [hsub.redis, hstore]) ?_ fun hset => by cases hset
        rw [hsub.redis, hcmds, List.append_nil]
      · refine .issued [.del entry.key] (by rw [hsub.redis, hstore])
          (by rw [hsub.redis, hcmds]) fun hset => ?_
        cases List.mem_singleton.mp hset
  | redisReply reply => exact redis_redisReply h
  | redisExpire n =>
      cases h
      exact .expired n rfl rfl
  | updateNodeRow save reply now =>
      obtain ⟨c, -, -, ⟨-, rfl⟩ | ⟨-, -, rfl⟩ | ⟨row, -, -, ⟨-, rfl⟩ | ⟨-, rfl⟩⟩⟩ :=
        State.updateNodeRow_cases s h
      · exact .of_eq (by simp)
      · exact .of_eq (by simp)
      · exact .of_eq rfl
      · exact .of_eq (by simp)
  | writeNode n row =>
      simp only [step] at h
      split at h <;> cases h
      exact .of_eq rfl
  | deleteNode n =>
      cases h
      exact .of_eq rfl
  | restart => exact .restart rfl
  | _ => exact .of_eq (stores_of_local h trivial).2

/-! ### Commands on their way -/

/-- Every snapshot of the node among the commands is deleted by a later one. -/
def Deletes (n : NodeId) : List RedisCommand → Prop
  | [] => True
  | .set m _ _ :: rest => (m = n → .del n ∈ rest) ∧ Deletes n rest
  | _ :: rest => Deletes n rest

theorem Deletes.tail {n : NodeId} {cmd : RedisCommand} {rest : List RedisCommand}
    (h : Deletes n (cmd :: rest)) : Deletes n rest := by
  cases cmd with
  | set m state t => exact h.2
  | get l => exact h
  | del m => exact h

theorem Deletes.append {n : NodeId} {cmds cmds' : List RedisCommand} (h : Deletes n cmds)
    (hset : ∀ state t, .set n state t ∉ cmds') : Deletes n (cmds ++ cmds') := by
  induction cmds with
  | nil =>
      show Deletes n cmds'
      induction cmds' with
      | nil => trivial
      | cons cmd rest ih =>
          have hrest := ih fun state t hmem => hset state t (List.mem_cons_of_mem _ hmem)
          cases cmd with
          | set m state t =>
              refine ⟨fun hm => ?_, hrest⟩
              exact absurd (hm ▸ List.mem_cons_self) (hset state t)
          | get l => exact hrest
          | del m => exact hrest
  | cons cmd rest ih =>
      cases cmd with
      | set m state t => exact ⟨fun hm => List.mem_append_left _ (h.1 hm), ih h.2⟩
      | get l => exact ih h
      | del m => exact ih h

/-- A `DEL` deletes whatever was to be set before it. -/
theorem deletes_concat (n : NodeId) (cmds : List RedisCommand) :
    Deletes n (cmds ++ [.del n]) := by
  induction cmds with
  | nil => trivial
  | cons cmd rest ih =>
      cases cmd with
      | set m state t => exact ⟨fun _ => List.mem_append_right _ List.mem_cons_self, ih⟩
      | get l => exact ih
      | del m => exact ih

/-! ### The calls on a node -/

/-- No call of `getOrCreateDoc` or `appendMarkdown` on the node starts, and the process
goes on. -/
def NotCalled (n : NodeId) : Event → Prop
  | .getOrCreateDoc m _ => m ≠ n
  | .appendMarkdown m _ _ _ => m ≠ n
  | .restart => False
  | _ => True

instance (n : NodeId) : DecidablePred (NotCalled n) := by
  intro e
  unfold NotCalled
  split <;> infer_instance

/-- A load of the node does not end with a document, and a `DEL` of it is executed. -/
def LoadsFail (n : NodeId) (s : State) (e : Event) (_ : State) : Prop :=
  match e with
  | .continueLoad l => ∀ x ∈ s.loader.loads l, x.nodeId = n → x.phase.document = none
  | .redisReply .failed => s.redis.commands.head? ≠ some (.del n)
  | _ => True

instance (n : NodeId) (s : State) (e : Event) (s' : State) : Decidable (LoadsFail n s e s') := by
  unfold LoadsFail
  split <;> infer_instance

namespace State

/-- All calls on the node have ended, the cleanup included. -/
def Over (s : State) (n : NodeId) : Prop :=
  (∀ get < s.loader.nextGet, ∀ c ∈ s.loader.gets get, c.nodeId ≠ n) ∧
    (∀ l < s.loader.nextLoad, ∀ x ∈ s.loader.loads l, x.nodeId = n → x.phase.inFlight = false) ∧
    (∀ t < s.queue.next, ∀ entry ∈ s.queue.task t, entry.key = n →
      entry.payload.stage = .settled) ∧
    .del n ∉ s.redis.commands

instance (s : State) (n : NodeId) : Decidable (s.Over n) := by
  unfold Over
  infer_instance

end State

/-- **The cleanup is final** once all calls have ended: nothing is left of the document
in memory or in Redis. -/
def CleanupFinal (n : NodeId) (s : State) : Prop :=
  s.Over n → s.mem.docs n = none ∧ s.redis.store n = none

/-! ### The invariant -/

/-- **The invariant.** -/
structure CleanedUp (n : NodeId) (s : State) : Prop where
  docs : s.mem.docs n = none
  /-- A snapshot in Redis is about to be deleted… -/
  store : s.redis.store n ≠ none → .del n ∈ s.redis.commands
  /-- …and so is one on its way there. -/
  commands : Deletes n s.redis.commands

theorem cleanedUp_cleanupNode (s : State) (n : NodeId) : CleanedUp n (s.cleanupNode n) where
  docs := by
    show (s.mem.drop n).docs n = none
    unfold Memory.drop
    split
    · assumption
    · exact Function.update_self ..
  store _ := List.mem_append_right _ List.mem_cons_self
  commands := deletes_concat n _

/-- Only a load that ends with a document puts the node into `docs`. -/
theorem docs_eq_none_of_step {n : NodeId} (hdocs : s.mem.docs n = none)
    (h : step lex s e = some s')
    (hload : ∀ l, e = .continueLoad l →
      ∀ x ∈ s.loader.loads l, x.nodeId = n → x.phase.document = none) :
    s'.mem.docs n = none := by
  cases step_mem h with
  | same hmem => rw [hmem.docs, hdocs]
  | edit r u _ hmem => rw [hmem.docs, hdocs]
  | put l x doc ws he hl hdoc hmem =>
      have hne : n ≠ x.nodeId := by
        rintro rfl
        rw [hload l he x hl rfl] at hdoc
        cases hdoc
      rw [hmem]
      exact (Function.update_of_ne hne ..).trans hdocs
  | remove hmem => exact (hmem.docs n).elim (fun hn => hn.trans hdocs) id
  | saved t entry r save sv p _ _ _ hmem => rw [hmem.docs, hdocs]

namespace CleanedUp

variable {n : NodeId}

/-- Every step keeps the invariant if no load ends with a document. -/
theorem step (hC : CleanedUp n s) (h : DocManager.step lex s e = some s')
    (hcalled : NotCalled n e) (hfail : LoadsFail n s e s') : CleanedUp n s' := by
  have hdocs : s'.mem.docs n = none := by
    refine docs_eq_none_of_step hC.docs h fun l he => ?_
    subst he
    exact hfail
  cases step_redis h with
  | issued cmds hstore hcommands hset =>
      refine ⟨hdocs, fun hsome => ?_, ?_⟩
      · rw [hstore] at hsome
        rw [hcommands]
        exact List.mem_append_left _ (hC.store hsome)
      · rw [hcommands]
        exact hC.commands.append fun state t hmem => hset hmem hC.docs
  | replied reply cmd rest he hcmds hstore hcommands =>
      subst he
      have hdeletes : Deletes n (cmd :: rest) := hcmds ▸ hC.commands
      refine ⟨hdocs, fun hsome => ?_, hcommands ▸ hdeletes.tail⟩
      rw [hcommands]
      -- if the `DEL` is not the command executed, it is still to come
      have hlater : cmd ≠ .del n → s.redis.store n ≠ none → .del n ∈ rest := by
        intro hne hold
        have hmem := hC.store hold
        rw [hcmds] at hmem
        exact (List.mem_cons.mp hmem).resolve_left hne.symm
      cases cmd with
      | get l =>
          refine hlater (by simp) ?_
          simpa [hstore, RedisCommand.run] using hsome
      | set m state t =>
          by_cases hm : m = n
          · exact hdeletes.1 hm
          · refine hlater (by simp) ?_
            rw [hstore] at hsome
            split at hsome
            · rwa [RedisCommand.run, Function.update_of_ne (Ne.symm hm)] at hsome
            · exact hsome
      | del m =>
          by_cases hm : m = n
          · subst hm
            have hexecuted : reply.executed = true := by
              cases reply with
              | failed => exact absurd (by rw [hcmds]; rfl) hfail
              | _ => rfl
            rw [hstore, if_pos hexecuted, RedisCommand.run, Function.update_self] at hsome
            exact absurd rfl hsome
          · refine hlater (by simpa using hm) ?_
            rw [hstore] at hsome
            split at hsome
            · rwa [RedisCommand.run, Function.update_of_ne (Ne.symm hm)] at hsome
            · exact hsome
  | expired m hstore hcommands =>
      refine ⟨hdocs, fun hsome => ?_, hcommands ▸ hC.commands⟩
      rw [hstore] at hsome
      rw [hcommands]
      refine hC.store fun hnone => hsome ?_
      by_cases hm : n = m
      · rw [hm, Function.update_self]
      · rw [Function.update_of_ne hm, hnone]
  | restart he =>
      subst he
      exact hcalled.elim

theorem cleanupFinal (hC : CleanedUp n s) : CleanupFinal n s := by
  rintro ⟨-, -, -, hdel⟩
  refine ⟨hC.docs, ?_⟩
  by_contra hsome
  exact hdel (hC.store hsome)

end CleanedUp

/-! ### Runs -/

/-- **The cleanup of a node is final** in the runs in which no load of it that is still
in flight ends with a document. -/
theorem along_cleanupFinal (lex : Lexical) (nodes : NodeId → Option NodeRow) (n : NodeId)
    (before after : List Event)
    (hguard : ∀ s ∈ exec (step lex) (State.init nodes) before,
      Along (step lex) (fun s e s' => NotCalled n e ∧ LoadsFail n s e s') (s.cleanupNode n)
        after) :
    ∀ s ∈ exec (step lex) (State.init nodes) before,
      Along (step lex) (fun _ _ s' => CleanupFinal n s') (s.cleanupNode n) after := by
  intro s hs
  refine along_of_invariant (I := CleanedUp n) ?_ (cleanedUp_cleanupNode s n) (hguard s hs)
  intro s e s' hstep hC hguard
  have hC' := hC.step hstep hguard.1 hguard.2
  exact ⟨hC', hC'.cleanupFinal⟩

/-- The node is open, and a flush of it is under way. -/
def flushUnderWay : List Event := openNode ++ editAndFlush ⟨{(5, 0)}, ∅⟩ 0 0

/-- The flush ends after the cleanup. -/
def flushGoesOn : List Event :=
  [.redisReply .ok, .redisReply .ok, .updateNodeRow 0 .ok 10, .attachmentsSynced 0 true,
    .continueFlush 0, .enqueued 0 true, .resumeTask 0]

theorem flushGoesOn_cleanupFinal :
    (exec (step .plain) (State.init oneNode) flushUnderWay).any (fun s =>
        (exec (step .plain) (s.cleanupNode 1) flushGoesOn).any fun s' => s'.Over 1) = true ∧
    (∀ s ∈ exec (step .plain) (State.init oneNode) flushUnderWay,
      Along (step .plain) (fun s e s' => NotCalled 1 e ∧ LoadsFail 1 s e s') (s.cleanupNode 1)
        flushGoesOn) ∧
      ∀ s ∈ exec (step .plain) (State.init oneNode) flushUnderWay,
        Along (step .plain) (fun _ _ s' => CleanupFinal 1 s') (s.cleanupNode 1) flushGoesOn :=
  ⟨by decide +kernel, by decide +kernel,
    along_cleanupFinal .plain oneNode 1 flushUnderWay flushGoesOn (by decide +kernel)⟩

/-- The node is being loaded: Redis has nothing, and the database is asked. -/
def loadUnderWay : List Event := [.getOrCreateDoc 1 7, .redisReply .ok, .continueLoad 0]

/-- The load ends after the cleanup. -/
def loadGoesOn : List Event :=
  [.redisReply .ok, .dbReply 0 true 0, .continueLoad 0, .resumeGet 0]

theorem loadGoesOn_comesBack :
    (∀ s ∈ exec (step .plain) (State.init oneNode) loadUnderWay,
      Along (step .plain) (fun _ e _ => NotCalled 1 e) (s.cleanupNode 1) loadGoesOn) ∧
      ¬ ∀ s ∈ exec (step .plain) (State.init oneNode) loadUnderWay,
        Along (step .plain) (fun _ _ s' => CleanupFinal 1 s') (s.cleanupNode 1)
          loadGoesOn := by
  refine ⟨by decide +kernel, fun h => ?_⟩
  have hrun : (exec (step .plain) (State.init oneNode) loadUnderWay).any (fun s =>
      (exec (step .plain) (s.cleanupNode 1) loadGoesOn).any fun s' =>
        s'.Over 1 ∧ s'.mem.docs 1 = some 0) = true := by
    decide +kernel
  obtain ⟨s, hs, hrest⟩ := (Option.any_eq_true _ _).mp hrun
  obtain ⟨s', hs', hstate⟩ := (Option.any_eq_true _ _).mp hrest
  obtain ⟨hover, hdocs⟩ := of_decide_eq_true hstate
  have hfinal : CleanupFinal 1 s' :=
    (h s hs).state (cleanedUp_cleanupNode s 1).cleanupFinal hs'
  rw [(hfinal hover).1] at hdocs
  cases hdocs

end AideepWebsocket.DocManager
