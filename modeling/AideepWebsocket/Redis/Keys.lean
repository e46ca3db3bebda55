import AideepWebsocket.Library.Codec
import AideepWebsocket.NodeContent.Operation

/-!
# REDIS_KEYS

All services share one Redis, and tell their entries apart by the text of their keys.
Identifiers are UUIDs: they contain no colon, so the parts of a key cannot run into each
other.  One part is different: the actor of a content operation may be `system:ai`.  What is
needed of it is that no actor followed by a colon begins another one (`Naming.user_split`);
the idempotency key, which a client chooses, stands last and may be anything.

Under these conditions the text of a key says which key it is (`REDIS_KEYS_injective`).
-/

namespace AideepWebsocket.Redis

open Library
open NodeContent (CacheKey)

/-- How the identifiers and the dates of the model are written. -/
structure Naming where
  node : Codec NodeId String
  workspace : Codec WorkspaceId String
  user : Codec UserId String
  operation : Codec ℕ String
  date : Codec ℕ String
  node_colon : ∀ nodeId, ':' ∉ (node.write nodeId).toList
  workspace_colon : ∀ workspaceId, ':' ∉ (workspace.write workspaceId).toList
  user_split : ∀ {u u' : UserId} {k k' : List Char},
    (user.write u).toList ++ ':' :: k = (user.write u').toList ++ ':' :: k' → u = u'
  user_ne_empty : ∀ userId, user.write userId ≠ ""

inductive Key
  | BLACKLIST (accessToken : String)
  | MASTER_TOKEN (userId : String)
  | WORKSPACE_SYNC (workspaceId : WorkspaceId)
  | YJS_DOC (nodeId : NodeId)
  | YJS_WS_AWARENESS (workspaceId : WorkspaceId)
  | NODE_CONTENT_OPERATION (key : CacheKey)
  | WS_PRESENCE (workspaceId : WorkspaceId)
  | EMBED_JOBS_QUEUE
  deriving DecidableEq

namespace Key

/-- What the keys of a kind begin with. -/
def head : Key → String
  | BLACKLIST _ => "blacklist:"
  | MASTER_TOKEN _ => "masterToken:"
  | WORKSPACE_SYNC _ => "workspace:sync:"
  | YJS_DOC _ => "yjs:doc:"
  | YJS_WS_AWARENESS _ => "yjs:ws:awareness:"
  | NODE_CONTENT_OPERATION _ => "node:content-op:"
  | WS_PRESENCE _ => "ws:presence:"
  | EMBED_JOBS_QUEUE => "embed_jobs"

/-- What identifies a key among those of its kind. -/
def rest (names : Naming) : Key → String
  | BLACKLIST accessToken => accessToken
  | MASTER_TOKEN userId => userId
  | WORKSPACE_SYNC workspaceId => names.workspace.write workspaceId
  | YJS_DOC nodeId => names.node.write nodeId
  | YJS_WS_AWARENESS workspaceId => names.workspace.write workspaceId
  | NODE_CONTENT_OPERATION key =>
      names.workspace.write key.workspaceId ++ ":" ++ names.node.write key.nodeId ++ ":" ++
        names.user.write key.actorId ++ ":" ++ key.key
  | WS_PRESENCE workspaceId => names.workspace.write workspaceId
  | EMBED_JOBS_QUEUE => ""

/-- A key that the API server alone writes, and this server reads or deletes. -/
def foreign : Key → Bool
  | BLACKLIST _ | MASTER_TOKEN _ | WORKSPACE_SYNC _ => true
  | _ => false

end Key

/-- `REDIS_KEYS`. -/
def REDIS_KEYS (names : Naming) (key : Key) : String := key.head ++ key.rest names

variable {names : Naming} {key key' : Key}

/-- The beginnings of all kinds. -/
private def heads : List String :=
  ["blacklist:", "masterToken:", "workspace:sync:", "yjs:doc:", "yjs:ws:awareness:",
    "node:content-op:", "ws:presence:", "embed_jobs"]

private theorem head_mem (key : Key) : key.head ∈ heads := by
  cases key <;> simp [Key.head, heads]

private theorem heads_apart :
    ∀ p ∈ heads, ∀ q ∈ heads, p ≠ q → ¬ p.toList <+: q.toList := by
  decide

/-- No kind of keys begins like another. -/
private theorem head_of_eq (h : REDIS_KEYS names key = REDIS_KEYS names key') :
    key.head = key'.head := by
  have hlist : key.head.toList ++ (key.rest names).toList =
      key'.head.toList ++ (key'.rest names).toList := by
    rw [← String.toList_append, ← String.toList_append]
    exact congrArg String.toList h
  by_contra hne
  exact append_ne_append (heads_apart _ (head_mem key) _ (head_mem key') hne)
    (heads_apart _ (head_mem key') _ (head_mem key) (Ne.symm hne)) hlist

/-- The four parts of an operation's key. -/
private theorem cacheKey_of_rest {a b : CacheKey}
    (h : (Key.NODE_CONTENT_OPERATION a).rest names = (Key.NODE_CONTENT_OPERATION b).rest names) :
    a = b := by
  have hlist := congrArg String.toList h
  simp only [Key.rest, String.toList_append, List.append_assoc] at hlist
  obtain ⟨hworkspace, hlist⟩ := append_cons_inj (names.workspace_colon a.workspaceId)
    (names.workspace_colon b.workspaceId) hlist
  obtain ⟨hnode, hlist⟩ := append_cons_inj (names.node_colon a.nodeId)
    (names.node_colon b.nodeId) hlist
  have hactor := names.user_split hlist
  rw [hactor] at hlist
  have hkey := (List.cons.inj (List.append_cancel_left hlist)).2
  obtain ⟨workspaceId, nodeId, actorId, key⟩ := a
  obtain ⟨workspaceId', nodeId', actorId', key'⟩ := b
  simp only [CacheKey.mk.injEq]
  exact ⟨names.workspace.write_injective (String.toList_inj.mp hworkspace),
    names.node.write_injective (String.toList_inj.mp hnode), hactor, String.toList_inj.mp hkey⟩

/-- **The text of a key says which key it is.** -/
theorem REDIS_KEYS_injective (names : Naming) : Function.Injective (REDIS_KEYS names) := by
  intro key key' h
  have hhead := head_of_eq h
  have hrest : key.rest names = key'.rest names := by
    have hlist := congrArg String.toList h
    simp only [REDIS_KEYS, String.toList_append, hhead] at hlist
    exact String.toList_inj.mp (List.append_cancel_left hlist)
  cases key <;> cases key' <;> try (simp [Key.head] at hhead; done)
  · exact congrArg Key.BLACKLIST hrest
  · exact congrArg Key.MASTER_TOKEN hrest
  · exact congrArg Key.WORKSPACE_SYNC (names.workspace.write_injective hrest)
  · exact congrArg Key.YJS_DOC (names.node.write_injective hrest)
  · exact congrArg Key.YJS_WS_AWARENESS (names.workspace.write_injective hrest)
  · exact congrArg Key.NODE_CONTENT_OPERATION (cacheKey_of_rest hrest)
  · exact congrArg Key.WS_PRESENCE (names.workspace.write_injective hrest)
  · rfl

end AideepWebsocket.Redis
