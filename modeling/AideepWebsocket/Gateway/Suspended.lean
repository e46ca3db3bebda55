import AideepWebsocket.Gateway.Handlers

/-!
# Suspended handlers

A handler has a number below `nextHandler`, and a new one is suspended behind all
others.  `Suspended P` says that some handler with the property `P` has not ended; it
survives what the steps do to other handlers (`suspended_of_update`,
`suspended_of_suspend`).

No handler is suspended or goes on, and no session changes, when a message is only
passed on or the manager works by itself (`sameSessions_of_relayed`); nor does
`cleanupYjs`, with which a disconnect ends, touch more than the documents
(`cleanupYjs_eq`).
-/

namespace AideepWebsocket.Gateway

variable {s s' : State}

namespace State

/-- A handler with the property is suspended. -/
def Suspended (s : State) (P : Handler → Prop) : Prop :=
  ∃ h < s.nextHandler, ∃ x ∈ s.handlers h, P x

instance (s : State) (P : Handler → Prop) [DecidablePred P] : Decidable (s.Suspended P) := by
  unfold Suspended
  infer_instance

/-- All handlers of the socket have ended. -/
def Ended (s : State) (k : SocketId) : Prop := ∀ h < s.nextHandler, ∀ x ∈ s.handlers h, x.socket ≠ k

instance (s : State) (k : SocketId) : Decidable (s.Ended k) := by
  unfold Ended
  infer_instance

/-- No handler is suspended. -/
def Idle (s : State) : Prop := ∀ h < s.nextHandler, s.handlers h = none

instance (s : State) : Decidable s.Idle := by
  unfold Idle
  infer_instance

end State

variable {P : Handler → Prop}

theorem not_suspended_of_idle (h : s.Idle) : ¬ s.Suspended P := by
  rintro ⟨i, hlt, x, hx, -⟩
  rw [h i hlt] at hx
  cases hx

theorem suspended_of_eq (hhandlers : s'.handlers = s.handlers)
    (hnext : s'.nextHandler = s.nextHandler) (h : s.Suspended P) : s'.Suspended P := by
  obtain ⟨i, hlt, x, hx, hP⟩ := h
  exact ⟨i, hnext ▸ hlt, x, by rwa [hhandlers], hP⟩

/-- A handler goes on or ends. -/
theorem suspended_of_update {h : HandlerId} {y : Option Handler}
    (hhandlers : s'.handlers = Function.update s.handlers h y)
    (hnext : s'.nextHandler = s.nextHandler)
    (hkeep : ∀ x, s.handlers h = some x → P x → ∃ x', y = some x' ∧ P x')
    (hs : s.Suspended P) : s'.Suspended P := by
  obtain ⟨i, hlt, x, hx, hP⟩ := hs
  by_cases hi : i = h
  · subst hi
    obtain ⟨x', rfl, hP'⟩ := hkeep x hx hP
    exact ⟨i, hnext ▸ hlt, x', by rw [hhandlers, Function.update_self]; rfl, hP'⟩
  · exact ⟨i, hnext ▸ hlt, x, by rwa [hhandlers, Function.update_of_ne hi], hP⟩

/-- A new handler is suspended behind the others. -/
theorem suspended_of_suspend {y : Option Handler}
    (hhandlers : s'.handlers = Function.update s.handlers s.nextHandler y)
    (hnext : s'.nextHandler = s.nextHandler + 1) (hs : s.Suspended P) : s'.Suspended P := by
  obtain ⟨i, hlt, x, hx, hP⟩ := hs
  refine ⟨i, hnext ▸ Nat.lt_succ_of_lt hlt, x, ?_, hP⟩
  rwa [hhandlers, Function.update_of_ne hlt.ne]

theorem suspended_self {x : Handler}
    (hhandlers : s'.handlers = Function.update s.handlers s.nextHandler (some x))
    (hnext : s'.nextHandler = s.nextHandler + 1) (hP : P x) : s'.Suspended P :=
  ⟨s.nextHandler, hnext ▸ Nat.lt_succ_self _, x, by rw [hhandlers, Function.update_self]; rfl, hP⟩

/-! ### Events that no session takes part in -/

/-- The sessions, the rooms and the handlers are the same. -/
structure State.SameSessions (s s' : State) : Prop where
  connected : s'.connected = s.connected
  nextSocket : s'.nextSocket = s.nextSocket
  data : s'.data = s.data
  passed : s'.passed = s.passed
  rooms : s'.rooms = s.rooms
  yjsRooms : s'.yjsRooms = s.yjsRooms
  handlers : s'.handlers = s.handlers
  nextHandler : s'.nextHandler = s.nextHandler
  presence : s'.presence = s.presence

/-- A message is passed on, or somebody else goes on. -/
def Event.Relayed : Event → Prop
  | .nodePositionLive _ _ | .yjsSync _ _ _ | .yjsAwareness _ _ _ | .broadcast _
  | .broadcastYjsUpdate _ _ | .announce _ | .setMembership _ _ _ | .awarenessExpire _
  | .manager _ => True
  | _ => False

/-- Only the manager, the caches and the tables change. -/
theorem eq_of_relayed {lex : Lexical} {verify : String → Option UserId} {e : Event}
    (h : step lex verify s e = some s') (he : e.Relayed) :
    ∃ manager awareness memberships announced,
      s' = { s with
        manager := manager, awareness := awareness, memberships := memberships,
        announced := announced } ∧
      ((∀ ws, e ≠ .awarenessExpire ws) → awareness = s.awareness) := by
  obtain ⟨out, h⟩ : ∃ out, handle lex verify s e = some (s', out) := ⟨_, step_eq_some.mp h⟩
  cases e with
  | yjsSync k n data =>
      rw [handle] at h
      split at h
      · rw [← show _ = s' from congrArg Prod.fst (Option.some.inj h)]
        unfold State.handleYjsSync
        split
        · exact ⟨_, _, _, _, rfl, fun _ => rfl⟩
        · dsimp only
          split
          · split <;> exact ⟨_, _, _, _, rfl, fun _ => rfl⟩
          · exact ⟨_, _, _, _, rfl, fun _ => rfl⟩
      · cases h
  | broadcast event =>
      cases h
      split <;> exact ⟨_, _, _, _, rfl, fun _ => rfl⟩
  | announce t =>
      rw [handle, State.announce] at h
      split at h
      · cases h
      · split at h
        · cases h
        · split at h <;> cases h
          exact ⟨_, _, _, _, rfl, fun _ => rfl⟩
  | manager x =>
      rw [handle] at h
      split at h
      · obtain ⟨m, -, heq⟩ := Option.map_eq_some_iff.mp h
        cases heq
        exact ⟨_, _, _, _, rfl, fun _ => rfl⟩
      · cases h
  | nodePositionLive k payload =>
      rw [handle] at h
      split at h <;> cases h
      exact ⟨_, _, _, _, rfl, fun _ => rfl⟩
  | yjsAwareness k n data =>
      rw [handle] at h
      split at h <;> cases h
      exact ⟨_, _, _, _, rfl, fun _ => rfl⟩
  | broadcastYjsUpdate n update =>
      cases h
      exact ⟨_, _, _, _, rfl, fun _ => rfl⟩
  | setMembership userId ws role =>
      cases h
      exact ⟨_, _, _, _, rfl, fun _ => rfl⟩
  | awarenessExpire ws =>
      cases h
      exact ⟨_, _, _, _, rfl, fun hne => absurd rfl (hne ws)⟩
  | _ => exact he.elim

theorem sameSessions_of_relayed {lex : Lexical} {verify : String → Option UserId} {e : Event}
    (h : step lex verify s e = some s') (he : e.Relayed) : s.SameSessions s' := by
  obtain ⟨_, _, _, _, rfl, -⟩ := eq_of_relayed h he
  exact ⟨rfl, rfl, rfl, rfl, rfl, rfl, rfl, rfl, rfl⟩

/-- `cleanupYjs` changes nothing but the manager and the nodes of the socket. -/
theorem cleanupYjs_eq (s : State) (socket : SocketId) :
    ∃ manager yjsRooms,
      s.cleanupYjs socket = { s with manager := manager, yjsRooms := yjsRooms } := by
  unfold State.cleanupYjs
  split <;> exact ⟨_, _, rfl⟩

end AideepWebsocket.Gateway
