import AideepWebsocket.Library.Claim
import AideepWebsocket.NodeContent.Idempotency

/-!
# A claim that means applied

The deliveries of one `NODE_BODY_PATCH` command share a key.  `applyNodeBodyPatch`
claims it for 24 h with the value `APPLIED` before it appends, and deletes it in a
`catch` that covers `appendMarkdown` and the broadcast after it.

The key of a command is a `Claim` (`State.claim`), and each step of the service is an
action on it (`exists_action`): `SET NX` sets the claim, a rejected append fails, an
append that resolves performs the effect and, if the broadcast throws, goes on to the
release, and `DEL` is the release.  What has to be excluded of the actions is what has
to be excluded here (`ClaimKept`), and the two theorems of the library give
`claimMeansApplied`.
-/

namespace AideepWebsocket.NodeContent

open Library
open DocManager (NodeRow Reply)
open Gateway (Role)

variable {hash : NodeContentOperationBody → String} {s s' : State} {e : Event} {K : CacheKey}

/-! ### The key of a command -/

/-- Where a call of `applyNodeBodyPatch` stands with its claim. -/
def Phase.stage : Phase → Option ClaimStage
  | .appendMarkdown _ => some .pending
  | .release .append => some .failed
  | .release .broadcast => some .done
  | _ => none

/-- The phases of `applyNodeBodyPatch`. -/
def Phase.ofPatch : Phase → Bool
  | .selectNodeById | .claim _ | .appendMarkdown _ | .returned _ => true
  | .release .append | .release .broadcast => true
  | _ => false

def Phase.isReturned : Phase → Bool
  | .returned _ => true
  | _ => false

/-- The stages of the calls with the key. -/
def State.stages (s : State) (K : CacheKey) (i : CallId) : Option ClaimStage :=
  (s.calls i).bind fun call => if call.request.cacheKey = K then call.phase.stage else none

/-- The key as a claim. -/
def State.claim (s : State) (K : CacheKey) : Claim CallId :=
  ⟨s.stages K, (s.cache K).isSome, s.applications K⟩

/-- No call with the key is pending. -/
def State.NoPending (s : State) (K : CacheKey) : Prop :=
  ∀ i call, s.calls i = some call → call.request.cacheKey = K → call.phase.isReturned = true

/-- The markdown of the key has been applied at most once and, while no call is pending,
the key is set if and only if it has been applied. -/
def State.ClaimMeansApplied (s : State) (K : CacheKey) : Prop :=
  s.applications K ≤ 1 ∧
    (s.NoPending K → ((s.cache K).isSome = true ↔ s.applications K = 1))

/-- The calls with the key are deliveries of one command, within the life of a claim:
no operation uses its key, and the key does not lapse. -/
def OfCommand (K : CacheKey) (_ : State) (e : Event) (_ : State) : Prop :=
  match e with
  | .execute userId workspaceId nodeId idempotencyKey _ =>
      ¬ (workspaceId = K.workspaceId ∧ nodeId = K.nodeId ∧ userId = K.actorId ∧
        idempotencyKey = some K.key)
  | .responseExpire key => key ≠ K
  | _ => True

/-- The reply to the `SET NX` that sets the key is not lost, and `DEL` is executed if and
only if `appendMarkdown` has rejected. -/
def ClaimKept (K : CacheKey) (s : State) (e : Event) (_ : State) : Prop :=
  match e with
  | .redisReply i reply => ∀ call ∈ s.calls i, call.request.cacheKey = K →
      (call.phase.claiming = true → s.cache K = none → reply.executed = true → reply = .ok) ∧
      (call.phase.stage = some .failed → reply.executed = true) ∧
      (call.phase.stage = some .done → reply.executed = false)
  | _ => True

instance (s : State) (e : Event) (s' : State) : Decidable (OfCommand K s e s') := by
  induction e using Event.casesOn <;> unfold OfCommand <;> infer_instance

instance (s : State) (e : Event) (s' : State) : Decidable (ClaimKept K s e s') := by
  induction e using Event.casesOn <;> unfold ClaimKept <;> infer_instance

/-- What is known of the calls with the key: they are calls of `applyNodeBodyPatch`, and
so is what they store. -/
structure DeliveryInv (K : CacheKey) (s : State) : Prop where
  fresh : ∀ i, s.nextCall ≤ i → s.calls i = none
  known : ∀ i ∈ s.applied, i < s.nextCall
  value : ∀ entry, s.cache K = some entry → entry.value = .applied
  patches : ∀ i call, s.calls i = some call → call.request.cacheKey = K →
    (∃ markdown, call.request = .patch K.workspaceId K.nodeId markdown K.actorId K.key) ∧
      call.phase.ofPatch = true

theorem deliveryInv_init (nodes : NodeId → Option NodeRow)
    (memberships : UserId → WorkspaceId → Option Role) :
    DeliveryInv K (State.init nodes memberships) where
  fresh _ _ := rfl
  known _ hi := by cases hi
  value _ hentry := by cases hentry
  patches _ _ hcall := by cases hcall

/-! ### A call moves -/

variable {i : CallId} {call : Call} {phase : Phase}

theorem stages_setPhase (hcall : s.calls i = some call) (hkey : call.request.cacheKey = K) :
    (s.setPhase i call phase).stages K = Function.update (s.stages K) i phase.stage := by
  funext j
  by_cases hj : j = i
  · subst hj
    simp [State.stages, State.setPhase, hkey]
  · simp [State.stages, State.setPhase, Function.update_of_ne hj]

theorem stages_setPhase_of_ne (hcall : s.calls i = some call)
    (hkey : call.request.cacheKey ≠ K) : (s.setPhase i call phase).stages K = s.stages K := by
  funext j
  by_cases hj : j = i
  · subst hj
    simp [State.stages, State.setPhase, hcall, hkey]
  · simp [State.stages, State.setPhase, Function.update_of_ne hj]

/-- A call keeps its request. -/
theorem applications_setPhase (hcall : s.calls i = some call) :
    (s.setPhase i call phase).applications K = s.applications K := by
  refine congrArg List.length (List.filter_congr fun j _ => ?_)
  by_cases hj : j = i
  · subst hj
    simp [State.setPhase, hcall]
  · simp [State.setPhase, Function.update_of_ne hj]

theorem applications_append (hcall : s.calls i = some call) (broadcasts : List (NodeId × YDoc)) :
    State.applications { s with applied := s.applied ++ [i], broadcasts := broadcasts } K =
      s.applications K + if call.request.cacheKey = K then 1 else 0 := by
  by_cases hkey : call.request.cacheKey = K <;>
    simp [State.applications, List.filter_append, hcall, hkey]

/-- A new call has not applied anything, and has no claim. -/
theorem claim_start (hI : DeliveryInv K s) (request : Request) (hstage : phase.stage = none) :
    (s.start request phase).claim K = s.claim K := by
  have hstages : (s.start request phase).stages K = s.stages K := by
    funext j
    by_cases hj : j = s.nextCall
    · subst hj
      simp [State.stages, State.start, hI.fresh _ le_rfl, hstage]
    · simp [State.stages, State.start, Function.update_of_ne hj]
  have happlications : (s.start request phase).applications K = s.applications K := by
    refine congrArg List.length (List.filter_congr fun j hj => ?_)
    have hne : j ≠ s.nextCall := (hI.known j hj).ne
    simp [State.start, Function.update_of_ne hne]
  unfold State.claim
  rw [hstages, happlications]
  rfl

namespace DeliveryInv

theorem lt_of_call (hI : DeliveryInv K s) (hcall : s.calls i = some call) : i < s.nextCall := by
  by_contra hle
  rw [hI.fresh i (Nat.le_of_not_lt hle)] at hcall
  cases hcall

theorem start (hI : DeliveryInv K s) {request : Request}
    (hrequest : request.cacheKey = K →
      (∃ markdown, request = .patch K.workspaceId K.nodeId markdown K.actorId K.key) ∧
        phase.ofPatch = true) : DeliveryInv K (s.start request phase) where
  fresh j hj := by
    have hlt : s.nextCall < j := hj
    change Function.update s.calls s.nextCall _ j = none
    rw [Function.update_of_ne hlt.ne', hI.fresh j hlt.le]
  known j hj := Nat.lt_succ_of_lt (hI.known j hj)
  value := hI.value
  patches j x hx hkey := by
    change Function.update s.calls s.nextCall _ j = some x at hx
    by_cases hj : j = s.nextCall
    · subst hj
      rw [Function.update_self] at hx
      cases hx
      exact hrequest hkey
    · rw [Function.update_of_ne hj] at hx
      exact hI.patches j x hx hkey

theorem setPhase (hI : DeliveryInv K s) (hcall : s.calls i = some call)
    (hphase : call.request.cacheKey = K → phase.ofPatch = true) :
    DeliveryInv K (s.setPhase i call phase) where
  fresh j hj := by
    have hne : j ≠ i := fun heq => absurd (hI.lt_of_call hcall) (heq ▸ Nat.not_lt.mpr hj)
    change Function.update s.calls i _ j = none
    rw [Function.update_of_ne hne, hI.fresh j hj]
  known := hI.known
  value := hI.value
  patches j x hx hkey := by
    change Function.update s.calls i _ j = some x at hx
    by_cases hj : j = i
    · subst hj
      rw [Function.update_self] at hx
      cases hx
      exact ⟨(hI.patches j call hcall hkey).1, hphase hkey⟩
    · rw [Function.update_of_ne hj] at hx
      exact hI.patches j x hx hkey

theorem setCache (hI : DeliveryInv K s) {key : CacheKey} {entry : Option Entry}
    (hentry : key = K → ∀ x, entry = some x → x.value = .applied) :
    DeliveryInv K (s.setCache key entry) where
  fresh := hI.fresh
  known := hI.known
  value x hx := by
    change Function.update s.cache key entry K = some x at hx
    by_cases hkey : K = key
    · subst hkey
      rw [Function.update_self] at hx
      exact hentry rfl x hx
    · rw [Function.update_of_ne hkey] at hx
      exact hI.value x hx
  patches := hI.patches

theorem append (hI : DeliveryInv K s) (hcall : s.calls i = some call)
    (broadcasts : List (NodeId × YDoc)) :
    DeliveryInv K { s with applied := s.applied ++ [i], broadcasts := broadcasts } where
  fresh := hI.fresh
  known j hj := by
    rcases List.mem_append.mp hj with hj | hj
    · exact hI.known j hj
    · rw [List.mem_singleton.mp hj]
      exact hI.lt_of_call hcall
  value := hI.value
  patches := hI.patches

end DeliveryInv

/-! ### A step is an action on the claim -/

/-- The step keeps what is known of the calls, and is an action on the claim; it keeps
the claim if and only if the action does. -/
structure Acts (K : CacheKey) (s : State) (e : Event) (s' : State) : Prop where
  inv : DeliveryInv K s'
  action : ∃ a, (s.claim K).step a = some (s'.claim K) ∧
    (ClaimKept K s e s' ↔ (s.claim K).Kept a)

/-- The step does not concern the claim. -/
private theorem Acts.skip (hI : DeliveryInv K s') (hclaim : s'.claim K = s.claim K)
    (hkept : ClaimKept K s e s') : Acts K s e s' :=
  ⟨hI, .skip, by rw [hclaim]; rfl, iff_of_true hkept trivial⟩

/-- A call with another key goes on. -/
private theorem acts_setPhase_of_ne (hI : DeliveryInv K s) (hcall : s.calls i = some call)
    (hkey : call.request.cacheKey ≠ K) (hkept : ClaimKept K s e (s.setPhase i call phase)) :
    Acts K s e (s.setPhase i call phase) := by
  refine .skip (hI.setPhase hcall fun heq => absurd heq hkey) ?_ hkept
  unfold State.claim
  rw [stages_setPhase_of_ne hcall hkey, applications_setPhase hcall]
  rfl

private theorem claimKept_of_redisReply {reply : Reply} (hcall : s.calls i = some call)
    (hkept : call.request.cacheKey = K →
      (call.phase.claiming = true → s.cache K = none → reply.executed = true → reply = .ok) ∧
      (call.phase.stage = some .failed → reply.executed = true) ∧
      (call.phase.stage = some .done → reply.executed = false)) :
    ClaimKept K s (.redisReply i reply) s' := by
  intro x hx
  rw [hcall] at hx
  obtain rfl := Option.some.inj hx
  exact hkept

/-- A reply of Redis writes nothing but the key of the call. -/
private theorem shape_of_redisReply {reply : Reply} (hcall : s.calls i = some call)
    (h : s.redisReply hash i reply = some s') :
    ∃ phase, s' = s.setPhase i call phase ∨
      ∃ entry, s' = (s.setCache call.request.cacheKey entry).setPhase i call phase := by
  cases State.redisReply_step h with
  | got x _ hx _ hs' =>
      obtain rfl := Option.some.inj (hcall.symm.trans hx)
      exact ⟨_, Or.inl hs'⟩
  | claimed x _ _ hx _ _ _ _ hs' =>
      obtain rfl := Option.some.inj (hcall.symm.trans hx)
      exact ⟨_, Or.inr ⟨_, hs'⟩⟩
  | unclaimed x _ _ hx _ _ hs' =>
      obtain rfl := Option.some.inj (hcall.symm.trans hx)
      exact ⟨_, Or.inl hs'⟩
  | released x _ phase hx _ _ hs' =>
      obtain rfl := Option.some.inj (hcall.symm.trans hx)
      split at hs'
      · exact ⟨phase, Or.inr ⟨none, hs'⟩⟩
      · exact ⟨phase, Or.inl hs'⟩
  | stored x _ hx _ _ hs' =>
      obtain rfl := Option.some.inj (hcall.symm.trans hx)
      exact ⟨_, Or.inr ⟨_, hs'⟩⟩
  | notStored x _ hx _ hs' =>
      obtain rfl := Option.some.inj (hcall.symm.trans hx)
      exact ⟨_, Or.inl hs'⟩

/-- A call with another key. -/
private theorem acts_of_ne {reply : Reply} (hI : DeliveryInv K s) (hcall : s.calls i = some call)
    (hkey : call.request.cacheKey ≠ K) (h : s.redisReply hash i reply = some s') :
    Acts K s (.redisReply i reply) s' := by
  have hkept : ∀ x, ClaimKept K s (.redisReply i reply) x := fun _ =>
    claimKept_of_redisReply hcall fun heq => absurd heq hkey
  obtain ⟨phase, rfl | ⟨entry, rfl⟩⟩ := shape_of_redisReply hcall h
  · exact acts_setPhase_of_ne hI hcall hkey (hkept _)
  · have hI' : DeliveryInv K (s.setCache call.request.cacheKey entry) :=
      hI.setCache fun heq => absurd heq hkey
    refine .skip (hI'.setPhase hcall fun heq => absurd heq hkey) ?_ (hkept _)
    have hcache : Function.update s.cache call.request.cacheKey entry K = s.cache K :=
      Function.update_of_ne (Ne.symm hkey) ..
    unfold State.claim
    rw [stages_setPhase_of_ne (s := s.setCache call.request.cacheKey entry) hcall hkey,
      applications_setPhase (s := s.setCache call.request.cacheKey entry) hcall]
    exact congrArg (fun x => (⟨s.stages K, x, s.applications K⟩ : Claim CallId))
      (congrArg Option.isSome hcache)

private theorem claim_setPhase (hcall : s.calls i = some call)
    (hkey : call.request.cacheKey = K) : (s.setPhase i call phase).claim K =
      ⟨Function.update (s.stages K) i phase.stage, (s.cache K).isSome, s.applications K⟩ := by
  unfold State.claim
  rw [stages_setPhase hcall hkey, applications_setPhase hcall]
  rfl

private theorem claim_setCache (hcall : s.calls i = some call)
    (hkey : call.request.cacheKey = K) (entry : Option Entry) :
    ((s.setCache K entry).setPhase i call phase).claim K =
      ⟨Function.update (s.stages K) i phase.stage, entry.isSome, s.applications K⟩ := by
  rw [claim_setPhase (s := s.setCache K entry) hcall hkey]
  refine congrArg (fun x => (⟨_, x, s.applications K⟩ : Claim CallId)) ?_
  exact congrArg Option.isSome (Function.update_self ..)

private theorem stages_of_call (hcall : s.calls i = some call)
    (hkey : call.request.cacheKey = K) : s.stages K i = call.phase.stage := by
  simp [State.stages, hcall, hkey]

/-- A call that has no claim before and after. -/
private theorem claim_of_stageless (hcall : s.calls i = some call)
    (hkey : call.request.cacheKey = K) (hbefore : call.phase.stage = none)
    (hafter : phase.stage = none) : (s.setPhase i call phase).claim K = s.claim K := by
  rw [claim_setPhase hcall hkey, hafter, ← hbefore, ← stages_of_call hcall hkey,
    Function.update_eq_self]
  rfl

/-- A delivery that goes on without its claim. -/
private theorem acts_of_stageless {reply : Reply} (hI : DeliveryInv K s)
    (hcall : s.calls i = some call) (hkey : call.request.cacheKey = K)
    (hbefore : call.phase.stage = none) (hafter : phase.stage = none)
    (hpatch : phase.ofPatch = true) (hkept : s.cache K = none → reply = .failed) :
    Acts K s (.redisReply i reply) (s.setPhase i call phase) := by
  refine .skip (hI.setPhase hcall fun _ => hpatch)
    (claim_of_stageless hcall hkey hbefore hafter)
    (claimKept_of_redisReply hcall fun _ => ⟨fun _ hcache hexecuted => ?_, ?_, ?_⟩)
  · rw [hkept hcache] at hexecuted
    cases hexecuted
  · simp [hbefore]
  · simp [hbefore]

/-- A delivery finds its key vacant, and `SET NX` is executed. -/
private theorem acts_of_claimed {reply : Reply} {version : ℕ} {value : CacheValue}
    (hI : DeliveryInv K s) (hcall : s.calls i = some call) (hkey : call.request.cacheKey = K)
    (hphase : call.phase = .claim version) (hcache : s.cache K = none)
    (hvalue : value = .applied) (hexecuted : reply.executed = true) :
    Acts K s (.redisReply i reply) ((s.setCache K (some ⟨value, i⟩)).setPhase i call
      (if reply = .ok then .appendMarkdown version else .returned (.error .redis))) := by
  have hinv : DeliveryInv K (s.setCache K (some ⟨value, i⟩)) := by
    refine hI.setCache fun _ x hx => ?_
    obtain rfl := Option.some.inj hx
    exact hvalue
  have hstage : s.stages K i = none := by
    rw [stages_of_call hcall hkey, hphase]
    rfl
  refine ⟨hinv.setPhase hcall fun _ => by split <;> rfl, .set i (decide (reply = .ok)), ?_, ?_⟩
  · rw [claim_setCache hcall hkey]
    by_cases hreply : reply = .ok
    · simp [Claim.step, State.claim, hcache, hreply, Phase.stage]
    · simp [Claim.step, State.claim, hcache, hreply, Phase.stage, ← hstage]
  · constructor
    · intro hkept
      have hok := (hkept call hcall hkey).1 (by rw [hphase]; rfl) hcache hexecuted
      exact decide_eq_true hok
    · intro hok
      refine claimKept_of_redisReply hcall fun _ => ⟨fun _ _ _ => of_decide_eq_true hok, ?_, ?_⟩
      · simp [hphase, Phase.stage]
      · simp [hphase, Phase.stage]

/-- A delivery releases its key, after the append has failed or the broadcast has. -/
private theorem acts_of_released {reply : Reply} {stage : ClaimStage}
    (hI : DeliveryInv K s) (hcall : s.calls i = some call) (hkey : call.request.cacheKey = K)
    (hstage : call.phase.stage = some stage) (hpending : stage ≠ .pending)
    (hclaiming : call.phase.claiming = false) (hafter : phase.stage = none)
    (hpatch : phase.ofPatch = true) :
    Acts K s (.redisReply i reply)
      ((if reply.executed then s.setCache K none else s).setPhase i call phase) := by
  have hheld : (s.claim K).held i = some stage := (stages_of_call hcall hkey).trans hstage
  have hreleases : (s.claim K).held i = some .failed ∨ (s.claim K).held i = some .done := by
    rw [hheld]
    cases stage
    · exact absurd rfl hpending
    · exact Or.inl rfl
    · exact Or.inr rfl
  refine ⟨?_, .release i reply.executed, ?_, ?_⟩
  · have hinv : DeliveryInv K (s.setCache K none) := hI.setCache fun _ x hx => by cases hx
    split
    · exact hinv.setPhase hcall fun _ => hpatch
    · exact hI.setPhase hcall fun _ => hpatch
  · rw [Claim.step, if_pos hreleases]
    cases hexecuted : reply.executed with
    | true =>
        rw [if_pos rfl, claim_setCache hcall hkey, hafter]
        simp [State.claim]
    | false =>
        rw [if_neg Bool.false_ne_true, claim_setPhase hcall hkey, hafter]
        simp [State.claim]
  · have hkept : ∀ x, ClaimKept K s (.redisReply i reply) x ↔
        (stage = .failed → reply.executed = true) ∧ (stage = .done → reply.executed = false) := by
      refine fun x => ⟨fun hkept => ?_, fun hkept => ?_⟩
      · obtain ⟨-, hfailed, hdone⟩ := hkept call hcall hkey
        rw [hstage] at hfailed hdone
        exact ⟨fun h => hfailed (congrArg some h), fun h => hdone (congrArg some h)⟩
      · refine claimKept_of_redisReply hcall fun _ => ⟨fun h => ?_, fun h => ?_, fun h => ?_⟩
        · rw [hclaiming] at h
          cases h
        · exact hkept.1 (Option.some.inj (hstage.symm.trans h))
        · exact hkept.2 (Option.some.inj (hstage.symm.trans h))
    refine (hkept _).trans ?_
    change _ ↔ (reply.executed = true ↔ (s.claim K).held i = some .failed)
    rw [hheld]
    cases stage <;> cases reply.executed <;> simp at hpending ⊢

/-- A delivery claims its key, or releases it. -/
private theorem acts_of_eq {reply : Reply} (hI : DeliveryInv K s) (hcall : s.calls i = some call)
    (hkey : call.request.cacheKey = K) (h : s.redisReply hash i reply = some s') :
    Acts K s (.redisReply i reply) s' := by
  obtain ⟨⟨markdown, hrequest⟩, hpatch⟩ := hI.patches i call hcall hkey
  rw [State.redisReply, hcall] at h
  dsimp only at h
  rw [hkey] at h
  split at h
  · next version hphase =>
      rw [hphase] at hpatch
      cases hpatch
  · next version hphase =>
      have hbefore : call.phase.stage = none := by rw [hphase]; rfl
      cases hcache : s.cache K with
      | some entry =>
          simp only [hcache, Option.isNone_some, Bool.and_false, Bool.false_eq_true, if_false]
            at h
          obtain rfl := Option.some.inj h
          refine acts_of_stageless hI hcall hkey hbefore ?_ ?_ (by simp [hcache])
          · rw [hrequest]; split <;> rfl
          · rw [hrequest]; split <;> rfl
      | none =>
          simp only [hcache, Option.isNone_none, Bool.and_true, if_true] at h
          obtain rfl := Option.some.inj h
          cases hexecuted : reply.executed with
          | true =>
              rw [if_pos rfl]
              exact acts_of_claimed hI hcall hkey hphase hcache (by rw [hrequest]; rfl) hexecuted
          | false =>
              have hfailed : reply = .failed := by
                cases reply <;> first | rfl | cases hexecuted
              subst hfailed
              exact acts_of_stageless hI hcall hkey hbefore rfl rfl fun _ => rfl
  · next error hphase =>
      obtain rfl := Option.some.inj h
      obtain ⟨stage, hstage, hpending⟩ : ∃ stage, call.phase.stage = some stage ∧
          stage ≠ .pending := by
        rw [hphase] at hpatch ⊢
        cases error with
        | append => exact ⟨.failed, rfl, ClaimStage.noConfusion⟩
        | broadcast => exact ⟨.done, rfl, ClaimStage.noConfusion⟩
        | _ => cases hpatch
      refine acts_of_released hI hcall hkey hstage hpending (by rw [hphase]; rfl) ?_ ?_
      · rw [hrequest]; split <;> rfl
      · rw [hrequest]; split <;> rfl
  · next response hphase =>
      rw [hphase] at hpatch
      cases hpatch
  · cases h

private theorem held_of_append {version : ℕ} (hcall : s.calls i = some call)
    (hkey : call.request.cacheKey = K) (hphase : call.phase = .appendMarkdown version) :
    (s.claim K).held i = some .pending := by
  refine (stages_of_call hcall hkey).trans ?_
  rw [hphase]
  rfl

/-- The append of a call resolves, and the broadcast after it succeeds or throws. -/
private theorem acts_of_applied {version : ℕ} {result : Appended} (hI : DeliveryInv K s)
    (hcall : s.calls i = some call) (hphase : call.phase = .appendMarkdown version)
    (broadcasts : List (NodeId × YDoc)) (releases : Bool)
    (hafter : call.request.cacheKey = K →
      phase.stage = (if releases then some .done else none) ∧ phase.ofPatch = true) :
    Acts K s (.appendReply i result) (State.setPhase
      { s with applied := s.applied ++ [i], broadcasts := broadcasts } i call phase) := by
  have hinv : DeliveryInv K { s with applied := s.applied ++ [i], broadcasts := broadcasts } :=
    hI.append hcall broadcasts
  have hinv' := hinv.setPhase hcall fun hkey => (hafter hkey).2
  have happlications := applications_append (K := K) hcall broadcasts
  by_cases hkey : call.request.cacheKey = K
  · refine ⟨hinv', .perform i releases, ?_, Iff.rfl⟩
    rw [claim_setPhase (s := { s with applied := s.applied ++ [i], broadcasts := broadcasts })
      hcall hkey, happlications, if_pos hkey, (hafter hkey).1]
    exact if_pos (held_of_append hcall hkey hphase)
  · refine .skip hinv' ?_ trivial
    unfold State.claim
    rw [stages_setPhase_of_ne
        (s := { s with applied := s.applied ++ [i], broadcasts := broadcasts }) hcall hkey,
      applications_setPhase
        (s := { s with applied := s.applied ++ [i], broadcasts := broadcasts }) hcall,
      happlications, if_neg hkey]
    rfl

/-- `appendMarkdown` settles for a call, of the key or of another one. -/
private theorem acts_of_appendReply {result : Appended} (hI : DeliveryInv K s)
    (h : AppendStep s i result s') : Acts K s (.appendReply i result) s' := by
  have hpatch : ∀ {call}, s.calls i = some call → call.request.cacheKey = K →
      ∃ markdown, call.request = .patch K.workspaceId K.nodeId markdown K.actorId K.key :=
    fun hcall hkey => (hI.patches i _ hcall hkey).1
  cases h with
  | rejected call version hcall hphase =>
      by_cases hkey : call.request.cacheKey = K
      · refine ⟨hI.setPhase hcall fun _ => rfl, .fail i, ?_, Iff.rfl⟩
        rw [claim_setPhase hcall hkey]
        exact if_pos (held_of_append hcall hkey hphase)
      · exact acts_setPhase_of_ne hI hcall hkey trivial
  | announced call _ _ _ _ _ hcall hphase =>
      refine acts_of_applied hI hcall hphase _ false fun hkey => ?_
      obtain ⟨markdown, hrequest⟩ := hpatch hcall hkey
      rw [hrequest]
      exact ⟨rfl, rfl⟩
  | unannounced call _ _ _ _ _ hcall hphase =>
      refine acts_of_applied hI hcall hphase s.broadcasts true fun hkey => ?_
      obtain ⟨markdown, hrequest⟩ := hpatch hcall hkey
      rw [hrequest]
      exact ⟨rfl, rfl⟩

/-- A node is found, or not: no delivery has its claim yet. -/
private theorem acts_of_nodeReply {ok : Bool} (hI : DeliveryInv K s)
    (hcall : s.calls i = some call) (hphase : call.phase = .selectNodeById)
    (existing : Option NodeRow) :
    Acts K s (.nodeReply i ok) (s.setPhase i call
      (if ok then call.request.withNode existing else .returned (.error .database))) := by
  by_cases hkey : call.request.cacheKey = K
  · obtain ⟨⟨markdown, hrequest⟩, -⟩ := hI.patches i call hcall hkey
    have hafter : (call.request.withNode existing).stage = none ∧
        (call.request.withNode existing).ofPatch = true := by
      rw [hrequest]
      unfold Request.withNode
      cases existing with
      | none => exact ⟨rfl, rfl⟩
      | some row => dsimp only; split <;> exact ⟨rfl, rfl⟩
    have hbefore : call.phase.stage = none := by rw [hphase]; rfl
    refine .skip (hI.setPhase hcall fun _ => ?_)
      (claim_of_stageless hcall hkey hbefore ?_) trivial
    · split
      · exact hafter.2
      · rfl
    · split
      · exact hafter.1
      · rfl
  · exact acts_setPhase_of_ne hI hcall hkey trivial

/-- A key lapses that is not the key of the command. -/
private theorem claim_expire (s : State) {key : CacheKey} (hkey : key ≠ K) :
    (s.setCache key none).claim K = s.claim K := by
  have hcache : Function.update s.cache key none K = s.cache K :=
    Function.update_of_ne (Ne.symm hkey) ..
  exact congrArg (fun x => (⟨s.stages K, x, s.applications K⟩ : Claim CallId))
    (congrArg Option.isSome hcache)

private theorem applyNodeBodyPatch_eq_some {payload : NodeBodyPatchPayload} {request : Request}
    (h : applyNodeBodyPatch payload = some request) :
    ∃ workspaceId nodeId markdown actorId key,
      request = .patch workspaceId nodeId markdown actorId key := by
  unfold applyNodeBodyPatch at h
  split at h
  · split at h
    · cases h
    · exact ⟨_, _, _, _, _, (Option.some.inj h).symm⟩
  · cases h

/-- **Refinement.**  Each step of the service is an action on the claim of the command. -/
theorem acts_of_step (hI : DeliveryInv K s) (h : step hash s e = some s')
    (hcommand : OfCommand K s e s') : Acts K s e s' := by
  cases step_cases h with
  | refused => exact .skip hI rfl trivial
  | execute userId workspaceId nodeId idempotencyKey body request hrequest =>
      refine .skip (hI.start fun hkey => absurd ?_ hcommand) (claim_start hI request rfl) trivial
      obtain ⟨key, rfl, rfl⟩ := executeContentOperation_eq_ok hrequest
      subst hkey
      exact ⟨rfl, rfl, rfl, rfl⟩
  | ignored => exact .skip hI rfl trivial
  | patch payload request hrequest =>
      refine .skip (hI.start fun hkey => ⟨?_, rfl⟩) (claim_start hI request rfl) trivial
      obtain ⟨workspaceId, nodeId, markdown, actorId, key, rfl⟩ :=
        applyNodeBodyPatch_eq_some hrequest
      subst hkey
      exact ⟨markdown, rfl⟩
  | membershipReply i ok call hcall _ userId workspaceId hrequest =>
      refine acts_setPhase_of_ne hI hcall (fun hkey => ?_) trivial
      obtain ⟨⟨markdown, hpatch⟩, -⟩ := hI.patches i call hcall hkey
      obtain ⟨nodeId, key, body, hoperation⟩ := hrequest
      rw [hoperation] at hpatch
      cases hpatch
  | nodeReply i ok call hcall hphase => exact acts_of_nodeReply hI hcall hphase _
  | redisReply i reply s' hstep =>
      obtain ⟨call, hcall⟩ := hstep.call
      by_cases hkey : call.request.cacheKey = K
      · exact acts_of_eq hI hcall hkey h
      · exact acts_of_ne hI hcall hkey h
  | appendReply i result s' hstep => exact acts_of_appendReply hI hstep
  | claimExpire key requestHash owner hentry =>
      have hkey : key ≠ K := by
        rintro rfl
        cases hI.value _ hentry
      exact .skip (hI.setCache fun heq => absurd heq hkey) (claim_expire s hkey) trivial
  | responseExpire key =>
      exact .skip (hI.setCache fun heq => absurd heq hcommand) (claim_expire s hcommand) trivial
  | writeNode => exact .skip ⟨hI.fresh, hI.known, hI.value, hI.patches⟩ rfl trivial
  | setMembership => exact .skip ⟨hI.fresh, hI.known, hI.value, hI.patches⟩ rfl trivial

/-! ### Runs -/

/-- What holds along a run whose steps keep the claim. -/
private def CommandInv (K : CacheKey) (s : State) : Prop := DeliveryInv K s ∧ (s.claim K).Sound

private theorem commandInv_of_step (hI : CommandInv K s) (h : step hash s e = some s')
    (hguard : OfCommand K s e s' ∧ ClaimKept K s e s') : CommandInv K s' := by
  obtain ⟨hinv, a, ha, hkept⟩ := acts_of_step hI.1 h hguard.1
  exact ⟨hinv, hI.2.step ha (hkept.mp hguard.2)⟩

/-- A call that is not pending has no claim. -/
private theorem resting_of_noPending (h : s.NoPending K) : (s.claim K).Resting := by
  intro i
  change s.stages K i = none
  unfold State.stages
  rw [Option.bind_eq_none_iff]
  intro call hcall
  split
  · next hkey =>
      have hreturned := h i call hcall hkey
      cases hphase : call.phase <;> rw [hphase] at hreturned <;> first | rfl | cases hreturned
  · rfl

private theorem means_of_sound (hS : (s.claim K).Sound) : s.ClaimMeansApplied K :=
  ⟨hS.effects_le_one, fun hnone => (hS.means (resting_of_noPending hnone)).2⟩

/-- **The claim means applied.**  In a run of deliveries of a command in which the reply
to the `SET NX` that sets the key is not lost, and `DEL` is executed if and only if
`appendMarkdown` has rejected, the markdown is applied at most once and the key is set
exactly if it has been applied, whenever no call is pending.  After the first step that
is otherwise this fails, if no call is pending then. -/
theorem claimMeansApplied (hash : NodeContentOperationBody → String)
    (nodes : NodeId → Option NodeRow) (memberships : UserId → WorkspaceId → Option Role)
    (K : CacheKey) {es : List Event} {s : State}
    (hes : exec (step hash) (State.init nodes memberships) es = some s)
    (hcommand : Along (step hash) (OfCommand K) (State.init nodes memberships) es)
    (hkept : Along (step hash) (ClaimKept K) (State.init nodes memberships) es) :
    s.ClaimMeansApplied K ∧
      ∀ e s', step hash s e = some s' → OfCommand K s e s' → s'.NoPending K →
        (s'.ClaimMeansApplied K ↔ ClaimKept K s e s') := by
  have hI : CommandInv K s :=
    exec_invariant (fun _ _ _ hstep hI hguard => commandInv_of_step hI hstep hguard) hes
      ⟨deliveryInv_init nodes memberships, Claim.sound_init⟩ (hcommand.and hkept)
  refine ⟨means_of_sound hI.2, fun e s' hstep hcommand hnone => ?_⟩
  obtain ⟨hinv, a, ha, hiff⟩ := acts_of_step hI.1 hstep hcommand
  calc s'.ClaimMeansApplied K
    _ ↔ (s'.claim K).Means := and_congr_right fun _ => ⟨fun h => h hnone, fun h _ => h⟩
    _ ↔ (s.claim K).Kept a := Claim.means_iff_kept hI.2 ha (resting_of_noPending hnone)
    _ ↔ ClaimKept K s e s' := hiff.symm

/-- The command that the deliveries below carry. -/
def command : CacheKey := ⟨7, 1, 9, "command-1"⟩

/-- A delivery gets past its checks and sends `SET NX`. -/
def deliver (i : CallId) : List Event :=
  [.patch ⟨7, 1, some "## b", 9, some "command-1"⟩, .nodeReply i true, .redisReply i .ok]

/-- `appendMarkdown` resolves; the broadcast succeeds, or throws. -/
def patchApplied (i : CallId) (broadcasts : Bool) : Event :=
  .appendReply i (.resolved ⟨{(i, 0)}, ∅⟩ 3 10 i broadcasts)

/-- The first delivery fails, the second applies the markdown, the third is skipped. -/
def redelivered : List Event :=
  deliver 0 ++ [.appendReply 0 .rejected, .redisReply 0 .ok] ++ deliver 1 ++
    [patchApplied 1 true] ++ deliver 2

theorem redelivered_meansApplied :
    ∃ s, exec (step plainHash) (State.init markdownNode editor) redelivered = some s ∧
      s.applications command = 1 ∧ s.ClaimMeansApplied command := by
  obtain ⟨s, hs, happlied⟩ := (Option.any_eq_true _ _).mp
    (show (exec (step plainHash) (State.init markdownNode editor) redelivered).any
      (fun s => decide (s.applications command = 1)) = true by decide +kernel)
  exact ⟨s, hs, of_decide_eq_true happlied,
    (claimMeansApplied plainHash markdownNode editor command hs (by decide +kernel)
      (by decide +kernel)).1⟩

/-- The broadcast throws after the append, the claim is released, and the next delivery
applies the markdown again. -/
def broadcastThrows : List Event :=
  deliver 0 ++ [patchApplied 0 false, .redisReply 0 .ok] ++ deliver 1 ++ [patchApplied 1 true]

theorem broadcastThrows_appliedTwice :
    Along (step plainHash) (OfCommand command) (State.init markdownNode editor)
        broadcastThrows ∧
      ∃ s, exec (step plainHash) (State.init markdownNode editor) broadcastThrows = some s ∧
        s.applications command = 2 ∧ ¬ s.ClaimMeansApplied command := by
  refine ⟨by decide +kernel, ?_⟩
  obtain ⟨s, hs, happlied⟩ := (Option.any_eq_true _ _).mp
    (show (exec (step plainHash) (State.init markdownNode editor) broadcastThrows).any
      (fun s => decide (s.applications command = 2)) = true by decide +kernel)
  have htwice : s.applications command = 2 := of_decide_eq_true happlied
  refine ⟨s, hs, htwice, fun hmeans => ?_⟩
  have hle := hmeans.1
  omega

end AideepWebsocket.NodeContent
