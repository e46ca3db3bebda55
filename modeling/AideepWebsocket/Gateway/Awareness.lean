import AideepWebsocket.Gateway.Commands

/-!
# The awareness that a late joiner sees

The key `yjs:ws:awareness` of a workspace holds one message, the last that was
published; `join_workspace` sends it to the socket that joins.  A message has the
entries of the clients that it is about, and that is usually one: its own.  It may carry
copies of the others' entries as well, and these may be out of date; the clock of an entry
tells, since a client raises it with each state that it publishes.

`upcoming` is what the key will hold when the commands under way have been executed.
Publishing a message makes it that message, and nothing else changes it
(`upcoming_of_step`), so a join reads the last message that was published before it.
It sees everyone exactly if that message has everyone's newest entry (`seesEveryone_iff`).
-/

namespace AideepWebsocket.Gateway

open Library
open DocManager (Reply)

variable {lex : Lexical} {verify : String → Option UserId} {ws : WorkspaceId} {s s' : State}
  {e : Event}

/-! ### Messages -/

/-- An entry of an awareness message, as y-protocols encodes it. -/
structure AwarenessEntry where
  clientId : ℕ
  clock : ℕ
  state : String
  deriving DecidableEq

/-- Nothing newer has been said of the client of the entry. -/
def Newest (entries : List AwarenessEntry) (entry : AwarenessEntry) : Prop :=
  entry ∈ entries ∧ ∀ entry' ∈ entries, entry'.clientId = entry.clientId →
    entry'.clock ≤ entry.clock

/-- The message that an event publishes in the workspace, and the socket that it comes from,
which has joined the workspace. -/
def State.publishes (s : State) (ws : WorkspaceId) : Event → Option (SocketId × Bytes)
  | .wsAwareness socket workspaceId data =>
      if workspaceId = ws ∧ (s.data socket).workspaceId = some ws then some (socket, data) else none
  | _ => none

/-- The messages that are published in a run. -/
def published (lex : Lexical) (verify : String → Option UserId) (ws : WorkspaceId) (s₀ : State)
    (es : List Event) : List (SocketId × Bytes) :=
  (path (step lex verify) s₀ es).filterMap fun x => x.1.publishes ws x.2

/-- The messages of the workspace that a step sends. -/
def awarenessSent (lex : Lexical) (verify : String → Option UserId) (ws : WorkspaceId) (s : State)
    (e : Event) : List Bytes :=
  (outputs lex verify s e).filterMap fun
    | .emit _ (.yjsWsAwareness workspaceId data) => if workspaceId = ws then some data else none
    | _ => none

/-- What the clients have published of themselves; `owns` says which clients a socket speaks
for. -/
def ownEntries (decode : Bytes → List AwarenessEntry) (owns : SocketId → ℕ → Bool)
    (published : List (SocketId × Bytes)) : List AwarenessEntry :=
  published.flatMap fun m => (decode m.2).filter fun entry => owns m.1 entry.clientId

/-- The messages that are sent have the last entry of each client that has published one:
the one with the greatest clock that it has published itself. -/
def SeesEveryone (decode : Bytes → List AwarenessEntry) (owns : SocketId → ℕ → Bool)
    (published : List (SocketId × Bytes)) (sent : List Bytes) : Prop :=
  ∀ entry, Newest (ownEntries decode owns published) entry → entry ∈ sent.flatMap decode

/-! ### Runs with a late joiner -/

/-- No command of Redis fails, the key does not expire, and the server keeps running. -/
def KeepsAwareness (ws : WorkspaceId) : Event → Prop
  | .redisReply reply => reply = .ok
  | .awarenessExpire workspaceId => workspaceId ≠ ws
  | .restart => False
  | _ => True

instance (ws : WorkspaceId) : DecidablePred (KeepsAwareness ws) := by
  intro e
  unfold KeepsAwareness
  induction e using Event.casesOn <;> infer_instance

/-- After `window`, the membership of a user who joins is confirmed, and in `s` the
answer of Redis to the read of that join is the next. -/
def JoinsLate (lex : Lexical) (verify : String → Option UserId) (ws : WorkspaceId) (s₀ : State)
    (window : List Event) (s : State) : Prop :=
  ∃ s₁ s₂ h socket member rest,
    exec (step lex verify) s₀ window = some s₁ ∧
    s₁.handlers h = some ⟨socket, .joinCheckWorkspace ws member⟩ ∧
    s₁.memberships member.userId ws ≠ none ∧
    step lex verify s₁ (.membershipReply h true) = some s₂ ∧
    exec (step lex verify) s₂ rest = some s ∧ s.commands.head? = some h ∧
    (∀ e ∈ window ++ rest, KeepsAwareness ws e) ∧
    Along (step lex verify) (fun t e _ => e = .redisReply .ok → t.commands.head? ≠ some h) s₂ rest

/-! ### What the key will hold -/

/-- The message that a handler is about to cache. -/
def Pending.caches (ws : WorkspaceId) : Pending → Option Bytes
  | .cacheAwareness workspaceId data => if workspaceId = ws then some data else none
  | _ => none

/-- What the key holds after these commands. -/
def afterCaching (ws : WorkspaceId) (held : Option Bytes) (queue : List (HandlerId × Handler)) :
    Option Bytes :=
  queue.foldl (fun held p => (p.2.pending.caches ws).or held) held

/-- What the key will hold when the commands under way have been executed. -/
def State.upcoming (s : State) (ws : WorkspaceId) : Option Bytes :=
  afterCaching ws (s.awareness ws) s.queue

theorem afterCaching_append (held : Option Bytes) (queue queue' : List (HandlerId × Handler)) :
    afterCaching ws held (queue ++ queue') = afterCaching ws (afterCaching ws held queue) queue' :=
  List.foldl_append

theorem afterCaching_toList (held : Option Bytes) (p : Option (HandlerId × Handler)) :
    afterCaching ws held p.toList = (p.bind fun p => p.2.pending.caches ws).or held := by
  cases p <;> rfl

/-- The next command of a handler caches nothing. -/
theorem caches_next (pending : Pending) :
    (pending.next.bind fun pending' => pending'.caches ws) = none := by
  cases pending <;> rfl

/-- Of the commands that an event issues, only that of a message caches one. -/
theorem caches_issues (s : State) (ws : WorkspaceId) (e : Event) :
    ((s.issues e).bind fun p => p.2.pending.caches ws) = (s.publishes ws e).map Prod.snd := by
  cases e with
  | disconnect socket =>
      simp only [State.issues]
      cases (s.data socket).workspaceId <;> cases (s.data socket).userId <;> rfl
  | membershipReply h ok =>
      cases ok with
      | false => rfl
      | true =>
          simp only [State.issues]
          split
          · next socket workspaceId member _ =>
              cases s.memberships member.userId workspaceId <;> rfl
          · rfl
  | wsAwareness socket workspaceId data =>
      simp only [State.issues, State.publishes]
      by_cases hws : workspaceId = ws
      · subst hws
        by_cases hin : (s.data socket).workspaceId = some workspaceId <;> simp [hin, Pending.caches]
      · by_cases hin : (s.data socket).workspaceId = some workspaceId <;>
          simp [hws, hin, Pending.caches]
  | _ => rfl

/-! ### Steps and runs -/

/-- The reply to the oldest command. -/
theorem awareness_of_reply {h : HandlerId} {socket : SocketId} {pending : Pending}
    (hcommand : s.commands.head? = some h) (hx : s.handlers h = some ⟨socket, pending⟩)
    (hstep : step lex verify s (.redisReply .ok) = some s') :
    s'.awareness ws = (pending.caches ws).or (s.awareness ws) := by
  obtain ⟨out, hs'⟩ : ∃ out, s.redisReply .ok = some (s', out) := ⟨_, step_eq_some.mp hstep⟩
  obtain ⟨rest, hcommands⟩ := List.head?_eq_some_iff.mp hcommand
  unfold State.redisReply at hs'
  simp only [hcommands, hx] at hs'
  cases pending with
  | leaveListPresence workspaceId =>
      cases hs'
      obtain ⟨_, _, hend⟩ := cleanupYjs_eq (({ s with commands := rest } : State).finish h) socket
      rw [hend]
      rfl
  | cacheAwareness workspaceId data =>
      cases hs'
      show Function.update s.awareness workspaceId (some data) ws =
        (if workspaceId = ws then some data else none).or (s.awareness ws)
      by_cases hws : workspaceId = ws
      · subst hws
        rw [Function.update_self, if_pos rfl]
        rfl
      · rw [Function.update_of_ne (Ne.symm hws), if_neg hws]
        rfl
  | _ =>
      cases hs'
      rfl

/-- A step other than a reply leaves the key alone. -/
private theorem queue_of_keeps (hI : CommandsInv s) (hstep : step lex verify s e = some s')
    (hkeeps : KeepsAwareness ws e) (hreply : ∀ reply, e ≠ .redisReply reply) :
    s'.queue = s.queue ++ (s.issues e).toList ∧ s'.awareness ws = s.awareness ws := by
  have hrestart : e ≠ .restart := fun he => by
    rw [he] at hkeeps
    exact hkeeps
  have hexpire : e ≠ .awarenessExpire ws := fun he => by
    rw [he] at hkeeps
    exact hkeeps rfl
  exact ⟨(queue_of_step hI hstep hreply hrestart).2, (store_of_step hstep hreply).2 ws hexpire⟩

/-- **One step** makes the message that it publishes the one that is upcoming. -/
theorem upcoming_of_step (hI : CommandsInv s) (hstep : step lex verify s e = some s')
    (hkeeps : KeepsAwareness ws e) :
    s'.upcoming ws = ((s.publishes ws e).map Prod.snd).or (s.upcoming ws) := by
  by_cases hreply : ∃ reply, e = .redisReply reply
  · obtain ⟨reply, rfl⟩ := hreply
    obtain rfl : reply = .ok := hkeeps
    obtain ⟨-, h, socket, pending, waiting, hcommand, hx, hqueue, hqueue'⟩ :=
      queue_of_reply hI hstep
    have hnext : ((pending.next.map fun pending' => (h, (⟨socket, pending'⟩ : Handler))).bind
        fun p => p.2.pending.caches ws) = none := by
      rw [Option.bind_map]
      exact caches_next pending
    calc s'.upcoming ws = afterCaching ws (s'.awareness ws) waiting := by
          rw [State.upcoming, hqueue' rfl, afterCaching_append, afterCaching_toList, hnext,
            Option.none_or]
      _ = s.upcoming ws := by
          rw [awareness_of_reply hcommand hx hstep, State.upcoming, hqueue]
          rfl
      _ = (none : Option Bytes).or (s.upcoming ws) := Option.none_or.symm
  · obtain ⟨hqueue, hsame⟩ := queue_of_keeps hI hstep hkeeps fun reply he => hreply ⟨reply, he⟩
    rw [State.upcoming, hqueue, afterCaching_append, afterCaching_toList, caches_issues, hsame]
    rfl

/-- **The last message of a run** is what is upcoming at its end. -/
theorem upcoming_of_exec {es : List Event} (hI : CommandsInv s)
    (hes : exec (step lex verify) s es = some s') (hkeeps : ∀ e ∈ es, KeepsAwareness ws e) :
    s'.upcoming ws =
      ((published lex verify ws s es).getLast?.map Prod.snd).or (s.upcoming ws) := by
  induction es generalizing s with
  | nil =>
      cases hes
      rfl
  | cons e es ih =>
      rw [exec_cons, Option.bind_eq_some_iff] at hes
      obtain ⟨t, hstep, hes⟩ := hes
      obtain ⟨he, hrest⟩ := List.forall_mem_cons.mp hkeeps
      rw [ih (commandsInv_of_step hI hstep) hes hrest, upcoming_of_step hI hstep he, published,
        published, path_cons es hstep, List.filterMap_cons, ← Option.or_assoc]
      cases s.publishes ws e with
      | none => rw [Option.map_none, Option.or_none]
      | some m =>
          dsimp only
          rw [List.getLast?_cons]
          cases (List.filterMap (fun x => x.1.publishes ws x.2)
            (path (step lex verify) t es)).getLast? <;> rfl

/-! ### What a join reads -/

variable {h : HandlerId} {x : Handler} {held : Option Bytes}

/-- When the command of the handler is executed, the key holds this. -/
def State.WillHold (s : State) (ws : WorkspaceId) (h : HandlerId) (x : Handler)
    (held : Option Bytes) : Prop :=
  ∃ before after, s.queue = before ++ (h, x) :: after ∧
    afterCaching ws (s.awareness ws) before = held

/-- What is published behind a command does not reach it. -/
theorem willHold_of_step (hI : CommandsInv s) (hstep : step lex verify s e = some s')
    (hkeeps : KeepsAwareness ws e)
    (hopen : e = .redisReply .ok → s.commands.head? ≠ some h)
    (hreads : s.WillHold ws h x held) : s'.WillHold ws h x held := by
  obtain ⟨before, after, hqueue, hheld⟩ := hreads
  by_cases hreply : ∃ reply, e = .redisReply reply
  · obtain ⟨reply, rfl⟩ := hreply
    obtain rfl : reply = .ok := hkeeps
    obtain ⟨-, i, socket, pending, waiting, hcommand, hx, holdest, hqueue'⟩ :=
      queue_of_reply hI hstep
    rw [holdest] at hqueue
    cases before with
    | nil =>
        obtain ⟨heq, -⟩ := List.cons.inj hqueue
        cases heq
        exact absurd hcommand (hopen rfl)
    | cons p before =>
        obtain ⟨rfl, rfl⟩ := List.cons.inj hqueue
        refine ⟨before, _, (hqueue' rfl).trans (List.append_assoc ..), ?_⟩
        rw [awareness_of_reply hcommand hx hstep]
        exact hheld
  · obtain ⟨hqueue', hsame⟩ := queue_of_keeps hI hstep hkeeps fun reply he => hreply ⟨reply, he⟩
    refine ⟨before, after ++ (s.issues e).toList, ?_, hsame ▸ hheld⟩
    rw [hqueue', hqueue, List.append_assoc, List.cons_append]

/-- The command is the oldest, so it is executed next. -/
theorem awareness_of_willHold (hI : CommandsInv s) (hcommand : s.commands.head? = some h)
    (hreads : s.WillHold ws h x held) : s.awareness ws = held ∧ s.handlers h = some x := by
  obtain ⟨before, after, hqueue, hheld⟩ := hreads
  have hx : s.handlers h = some x := by
    refine CommandsInv.handler_of_mem_queue ?_
    exact hqueue ▸ List.mem_append_right _ List.mem_cons_self
  cases before with
  | nil => exact ⟨hheld, hx⟩
  | cons p before =>
      have hcommands : s.commands = p.1 :: (before.map Prod.fst ++ h :: after.map Prod.fst) := by
        rw [← hI.map_fst_queue, hqueue]
        simp
      have hnodup := hI.nodup
      rw [hcommands] at hcommand hnodup
      obtain rfl := Option.some.inj hcommand
      exact absurd (List.mem_append_right _ List.mem_cons_self) (List.nodup_cons.mp hnodup).1

/-- **A late joiner reads the last message** that was published before it joined. -/
theorem awareness_of_joinsLate {s₀ : State} {window : List Event} (hI : CommandsInv s₀)
    (hjoin : JoinsLate lex verify ws s₀ window s) :
    s.awareness ws =
        ((published lex verify ws s₀ window).getLast?.map Prod.snd).or (s₀.upcoming ws) ∧
      ∃ h socket member, s.commands.head? = some h ∧
        s.handlers h = some ⟨socket, .joinGetCachedAwareness ws member⟩ := by
  obtain ⟨s₁, s₂, h, socket, member, rest, hwindow, hhandler, hmember, hstep, hrest, hcommand,
    hkeeps, hopen⟩ := hjoin
  obtain ⟨hkeeps₁, hkeeps₂⟩ := List.forall_mem_append.mp hkeeps
  have hI₁ : CommandsInv s₁ := Reachable.invariant ⟨window, hwindow⟩ hI fun _ _ _ hstep hI =>
    commandsInv_of_step hI hstep
  have hissues : s₁.issues (.membershipReply h true) =
      some (h, ⟨socket, .joinGetCachedAwareness ws member⟩) := by
    obtain ⟨role, hrole⟩ := Option.ne_none_iff_exists'.mp hmember
    simp only [State.issues, hhandler, hrole, Option.map_some]
  have hasks : s₂.WillHold ws h ⟨socket, .joinGetCachedAwareness ws member⟩ (s₁.upcoming ws) := by
    have hkept : KeepsAwareness ws (.membershipReply h true) := trivial
    obtain ⟨hqueue, hsame⟩ := queue_of_keeps hI₁ hstep hkept
      fun _ heq => (by cases heq)
    rw [hissues] at hqueue
    refine ⟨s₁.queue, [], hqueue, ?_⟩
    rw [hsame]
    rfl
  have hopen' : Along (step lex verify) (fun t e _ => KeepsAwareness ws e ∧
      (e = .redisReply .ok → t.commands.head? ≠ some h)) s₂ rest :=
    (along_of_mem (P := fun _ e _ => KeepsAwareness ws e)
      (fun _ e _ he _ => hkeeps₂ e he) s₂).and hopen
  have hreads : CommandsInv s ∧
      s.WillHold ws h ⟨socket, .joinGetCachedAwareness ws member⟩ (s₁.upcoming ws) := by
    refine exec_invariant (I := fun t => CommandsInv t ∧
      t.WillHold ws h ⟨socket, .joinGetCachedAwareness ws member⟩ (s₁.upcoming ws)) ?_ hrest
      ⟨commandsInv_of_step hI₁ hstep, hasks⟩ hopen'
    rintro t e t' hstep ⟨hI, hreads⟩ ⟨hkeeps, hopen⟩
    exact ⟨commandsInv_of_step hI hstep, willHold_of_step hI hstep hkeeps hopen hreads⟩
  obtain ⟨hheld, hx⟩ := awareness_of_willHold hreads.1 hcommand hreads.2
  exact ⟨hheld.trans (upcoming_of_exec hI hwindow hkeeps₁), h, socket, member, hcommand, hx⟩

/-! ### What the joiner sees -/

variable {decode : Bytes → List AwarenessEntry} {owns : SocketId → ℕ → Bool}

/-- Who has published an entry has published a message. -/
private theorem ne_nil_of_newest {messages : List (SocketId × Bytes)} {entry : AwarenessEntry}
    (h : Newest (ownEntries decode owns messages) entry) : messages ≠ [] := by
  rintro rfl
  cases h.1

/-- The message that the join sends, if there is one. -/
theorem awarenessSent_of_command {h : HandlerId} {socket : SocketId} {member : PresenceMember}
    (hcommand : s.commands.head? = some h)
    (hx : s.handlers h = some ⟨socket, .joinGetCachedAwareness ws member⟩) :
    awarenessSent lex verify ws s (.redisReply .ok) =
      ((s.awareness ws).filter (· ≠ [])).toList := by
  obtain ⟨rest, hcommands⟩ := List.head?_eq_some_iff.mp hcommand
  have hout : outputs lex verify s (.redisReply .ok) =
      ((s.awareness ws).filter (· ≠ [])).toList.map fun data =>
        s.emit socket (.yjsWsAwareness ws data) := by
    simp only [outputs, handle, State.redisReply, hcommands, hx]
    rfl
  rw [awarenessSent, hout]
  cases (s.awareness ws).filter (· ≠ []) with
  | none => rfl
  | some data => simp [State.emit]

/-- **A late joiner sees everyone** who has published in the window exactly if the last
message of the window has the newest entry of each. -/
theorem seesEveryone_iff (lex : Lexical) (verify : String → Option UserId)
    (decode : Bytes → List AwarenessEntry) (owns : SocketId → ℕ → Bool) (hdecode : decode [] = [])
    {nodes : NodeId → Option DocManager.NodeRow}
    {memberships : UserId → WorkspaceId → Option Role} {ws : WorkspaceId} {s₀ s : State}
    {window : List Event}
    (hs₀ : Reachable (step lex verify) (State.init nodes memberships) s₀)
    (hjoin : JoinsLate lex verify ws s₀ window s) :
    SeesEveryone decode owns (published lex verify ws s₀ window)
        (awarenessSent lex verify ws s (.redisReply .ok)) ↔
      ∀ entry, Newest (ownEntries decode owns (published lex verify ws s₀ window)) entry →
        ∃ m ∈ (published lex verify ws s₀ window).getLast?, entry ∈ decode m.2 := by
  obtain ⟨hheld, h, socket, member, hcommand, hx⟩ :=
    awareness_of_joinsLate (commandsInv_of_reachable hs₀) hjoin
  rw [SeesEveryone, awarenessSent_of_command hcommand hx, hheld]
  refine forall_congr' fun entry => imp_congr_right fun hnewest => ?_
  obtain ⟨m, hlast⟩ := Option.ne_none_iff_exists'.mp
    (mt List.getLast?_eq_none_iff.mp (ne_nil_of_newest hnewest))
  rw [hlast, Option.map_some, Option.some_or]
  simp only [Option.mem_def, Option.some.injEq, exists_eq_left']
  -- an empty message is not sent, and it is about nobody
  by_cases hempty : m.2 = []
  · simp [hempty, hdecode]
  · have hkept : (some m.2).filter (· ≠ []) = some m.2 :=
      Option.filter_eq_some_iff.mpr ⟨rfl, decide_eq_true hempty⟩
    rw [hkept, Option.toList_some, List.flatMap_singleton]

/-- Messages of bytes: a client and its clock, and so on. -/
def clocks : Bytes → List AwarenessEntry
  | client :: clock :: data => ⟨client.toNat, clock.toNat, ""⟩ :: clocks data
  | _ => []

/-- Socket `0` is that of client `9`, socket `1` that of client `8`. -/
def ownsOne (socket : SocketId) (clientId : ℕ) : Bool :=
  (socket, clientId) ∈ [(0, 9), (1, 8)]

/-- Two users are in workspace `7`. -/
def twoMembers : State :=
  State.init DocManager.oneNode (members [(9, 7, .EDITOR), (8, 7, .VIEWER)])

/-- They publish messages, and one of them joins with another socket. -/
def publishAndJoin (messages : List (SocketId × Bytes)) : List Event :=
  joinSession 0 "token of 9" 7 0 ++ joinSession 1 "token of 8" 7 1 ++
    messages.map (fun m => .wsAwareness m.1 7 m.2) ++
    [.connect (some "token of 8"), .joinWorkspace 2 7 "" "" none]

/-- The membership is confirmed, and the messages are cached. -/
private theorem exists_joinsLate (window rest : List Event) (h : HandlerId) (Q : State → Bool)
    (hkeeps : ∀ e ∈ window ++ rest, KeepsAwareness 7 e)
    (hrun : ((exec (step .plain plainToken) twoMembers window).any fun s₁ =>
      decide (s₁.handlers h = some ⟨2, .joinCheckWorkspace 7 ⟨8, "", "", none⟩⟩ ∧
        s₁.memberships 8 7 ≠ none) &&
      (step .plain plainToken s₁ (.membershipReply h true)).any fun s₂ =>
        decide (Along (step .plain plainToken)
          (fun t e _ => e = .redisReply .ok → t.commands.head? ≠ some h) s₂ rest) &&
        (exec (step .plain plainToken) s₂ rest).any fun s =>
          decide (s.commands.head? = some h) && Q s) = true) :
    ∃ s, JoinsLate .plain plainToken 7 twoMembers window s ∧ Q s = true := by
  simp only [Option.any_eq_true, Bool.and_eq_true, decide_eq_true_eq] at hrun
  obtain ⟨s₁, hwindow, ⟨hhandler, hmember⟩, s₂, hstep, hopen, s, hrest, hcommand, hQ⟩ := hrun
  exact ⟨s, ⟨s₁, s₂, h, 2, ⟨8, "", "", none⟩, rest, hwindow, hhandler, hmember, hstep, hrest,
    hcommand, hkeeps, hopen⟩, hQ⟩

/-- The last message has what either client has published last. -/
theorem newestOfBoth_seesEveryone :
    clocks [] = [] ∧ ∃ s, JoinsLate .plain plainToken 7 twoMembers
        (publishAndJoin [(0, [9, 1]), (0, [9, 2]), (1, [9, 2, 8, 1])]) s ∧
      SeesEveryone clocks ownsOne (published .plain plainToken 7 twoMembers
          (publishAndJoin [(0, [9, 1]), (0, [9, 2]), (1, [9, 2, 8, 1])]))
        (awarenessSent .plain plainToken 7 s (.redisReply .ok)) := by
  obtain ⟨s, hjoin, -⟩ := exists_joinsLate
    (publishAndJoin [(0, [9, 1]), (0, [9, 2]), (1, [9, 2, 8, 1])])
    [.redisReply .ok, .redisReply .ok, .redisReply .ok] 5 (fun _ => true) (by decide +kernel)
    (by decide +kernel)
  refine ⟨rfl, s, hjoin, ?_⟩
  have hpublished : published .plain plainToken 7 twoMembers
      (publishAndJoin [(0, [9, 1]), (0, [9, 2]), (1, [9, 2, 8, 1])]) =
        [(0, [9, 1]), (0, [9, 2]), (1, [9, 2, 8, 1])] := by
    decide +kernel
  have hown : ownEntries clocks ownsOne [(0, [9, 1]), (0, [9, 2]), (1, [9, 2, 8, 1])] =
      [⟨9, 1, ""⟩, ⟨9, 2, ""⟩, ⟨8, 1, ""⟩] := by
    decide
  have hshown : clocks [9, 2, 8, 1] = [⟨9, 2, ""⟩, ⟨8, 1, ""⟩] := by decide
  refine (seesEveryone_iff .plain plainToken clocks ownsOne rfl (.refl _ _) hjoin).mpr ?_
  show ∀ entry, Newest (ownEntries clocks ownsOne (published .plain plainToken 7 twoMembers
      (publishAndJoin [(0, [9, 1]), (0, [9, 2]), (1, [9, 2, 8, 1])]))) entry →
    ∃ m ∈ (published .plain plainToken 7 twoMembers
      (publishAndJoin [(0, [9, 1]), (0, [9, 2]), (1, [9, 2, 8, 1])])).getLast?, entry ∈ clocks m.2
  rw [hpublished, hown]
  rintro entry ⟨hmem, hnewest⟩
  refine ⟨(1, [9, 2, 8, 1]), rfl, ?_⟩
  -- the first entry of client `9` is not its newest
  have hold : entry ≠ ⟨9, 1, ""⟩ := by
    rintro rfl
    exact absurd (hnewest ⟨9, 2, ""⟩ (by decide) rfl) (by decide)
  rw [hshown]
  exact (List.mem_cons.mp hmem).resolve_left hold

/-- Each publishes its own entry, and the joiner sees the second only. -/
theorem ownEntries_notSeen :
    clocks [] = [] ∧ ∃ s, JoinsLate .plain plainToken 7 twoMembers
        (publishAndJoin [(0, [9, 1]), (1, [8, 1])]) s ∧
      ¬ SeesEveryone clocks ownsOne (published .plain plainToken 7 twoMembers
          (publishAndJoin [(0, [9, 1]), (1, [8, 1])]))
        (awarenessSent .plain plainToken 7 s (.redisReply .ok)) := by
  obtain ⟨s, hjoin, hsent⟩ := exists_joinsLate (publishAndJoin [(0, [9, 1]), (1, [8, 1])])
    [.redisReply .ok, .redisReply .ok] 4
    (fun s => awarenessSent .plain plainToken 7 s (.redisReply .ok) = [[8, 1]])
    (by decide +kernel) (by decide +kernel)
  refine ⟨rfl, s, hjoin, fun hsees => ?_⟩
  have hpublished : published .plain plainToken 7 twoMembers
      (publishAndJoin [(0, [9, 1]), (1, [8, 1])]) = [(0, [9, 1]), (1, [8, 1])] := by
    decide +kernel
  rw [of_decide_eq_true hsent, hpublished] at hsees
  have hown : ownEntries clocks ownsOne [(0, [9, 1]), (1, [8, 1])] =
      [⟨9, 1, ""⟩, ⟨8, 1, ""⟩] := by
    decide
  have hnewest : Newest (ownEntries clocks ownsOne [(0, [9, 1]), (1, [8, 1])]) ⟨9, 1, ""⟩ := by
    rw [hown]
    refine ⟨by decide, fun entry hmem hclient => ?_⟩
    rcases List.mem_cons.mp hmem with rfl | hmem
    · exact le_rfl
    · obtain rfl := List.mem_singleton.mp hmem
      cases hclient
  exact absurd (hsees ⟨9, 1, ""⟩ hnewest) (by decide)

end AideepWebsocket.Gateway
