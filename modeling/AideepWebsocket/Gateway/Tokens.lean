import AideepWebsocket.Gateway.Sessions
import AideepWebsocket.Library.Json

/-!
# The two doors

A client enters by the websocket, where `handleConnection` looks at its token, or by
HTTP, where `JwtStrategy` does.  Both have `jsonwebtoken` verify the signature and the
expiry, with the same secret.  The strategy then asks Redis whether the token has been
revoked (`validate`): it may be on the blacklist, and a master token has to be the one
that is stored for its user.

* `authenticate` — what `handleConnection` makes of a token;
* `JwtStrategy.validate` — what the strategy makes of a payload;
* `Revoked` — what the strategy asks for, and the gateway does not.

So a token that the gateway lets in, the guard lets in exactly if it is not revoked
(`doors_agree_iff`).  A token is a string; whatever else a client may send in its place,
the library rejects at either door.
-/

namespace AideepWebsocket.Gateway

open Library

variable {verify : String → Except String Json} {get : String → Option String}

/-! ### The websocket -/

/-- Where a socket may put its token: `handshake.auth.token`, `handshake.query.token`. -/
structure Handshake where
  auth : Option String
  query : Option String

/-- `auth?.token ?? query?.token ?? null`. -/
def Handshake.token (client : Handshake) : Option String := client.auth.or client.query

/-- `payload && typeof payload.user_id === 'string' ? payload.user_id : null`. -/
def userIdOf (payload : Json) : Option String :=
  match payload.get "user_id" with
  | some (.string userId) => some userId
  | _ => none

/-- `handleConnection`, up to the user id or the reason of the rejection; `verify` is
`jwtService.verify`, with the payload or the message of what it throws. -/
def authenticate (verify : String → Except String Json) (token : Option String) :
    Except String String :=
  match token with
  | none => .error "no token"
  | some token =>
      if token = "" then .error "no token"
      else
        match verify token with
        | .error message => .error message
        | .ok payload =>
            match userIdOf payload with
            | none => .error "no user_id in token"
            | some userId =>
                if userId = "" then .error "no user_id in token" else .ok userId

/-- The user of a token, for the gateway; `user` names the users of the model. -/
def identify (verify : String → Except String Json) (user : String → UserId)
    (token : String) : Option UserId :=
  (authenticate verify (some token)).toOption.map user

/-! ### HTTP -/

/-- `REDIS_KEYS.BLACKLIST`. -/
def BLACKLIST (accessToken : Option String) : String :=
  "blacklist:" ++ accessToken.getD "null"

/-- `REDIS_KEYS.MASTER_TOKEN`; the user id is what the payload has in its place. -/
def MASTER_TOKEN (userId : Option Json) : String :=
  "masterToken:" ++ (userId.map Json.text).getD "undefined"

namespace JwtStrategy

/-- What the extractors read of a request. -/
structure Request where
  bearer : Option String
  query : Option String

/-- `fromAuthHeaderAsBearerToken()(req) ?? req.query?.token ?? null`. -/
def Request.token (req : Request) : Option String := req.bearer.or req.query

/-- `payload.isMaster === true`. -/
def isMaster (payload : Json) : Bool :=
  match payload.get "isMaster" with
  | some (.bool true) => true
  | _ => false

/-- `validate`, with the payload of a token that has been verified; `get` is what Redis
holds. -/
def validate (get : String → Option String) (req : Request) (payload : Json) :
    Except String Json :=
  if (get (BLACKLIST req.token)).any (· ≠ "") then .error "만료된 토큰입니다."
  else if isMaster payload then
    match get (MASTER_TOKEN (payload.get "user_id")) with
    | none => .error "만료/폐기된 마스터 토큰입니다."
    | some stored =>
        if stored = "" ∨ some stored ≠ req.token then .error "만료/폐기된 마스터 토큰입니다."
        else .ok payload
  else .ok payload

/-- The guard lets the request in: its token is verified, and `validate` does not throw. -/
def Accepts (verify : String → Except String Json) (get : String → Option String)
    (req : Request) : Prop :=
  ∃ token payload, req.token = some token ∧ verify token = .ok payload ∧
    validate get req payload = .ok payload

end JwtStrategy

open JwtStrategy

/-! ### Their difference -/

/-- The token is on the blacklist, or it is a master token other than the stored one. -/
def Revoked (get : String → Option String) (token : String) (payload : Json) : Prop :=
  (get (BLACKLIST (some token))).any (· ≠ "") = true ∨
    isMaster payload = true ∧ get (MASTER_TOKEN (payload.get "user_id")) ≠ some token

instance (get : String → Option String) (token : String) (payload : Json) :
    Decidable (Revoked get token payload) := by
  unfold Revoked
  infer_instance

/-- The gateway asks for a token, a valid signature and a user. -/
theorem authenticate_eq_ok_iff {token : Option String} {userId : String} :
    authenticate verify token = .ok userId ↔
      ∃ t payload, token = some t ∧ t ≠ "" ∧ verify t = .ok payload ∧
        userIdOf payload = some userId ∧ userId ≠ "" := by
  constructor
  · intro h
    unfold authenticate at h
    split at h
    · cases h
    · next t =>
        split at h
        · cases h
        · next hne =>
            split at h
            · cases h
            · next payload hverify =>
                split at h
                · cases h
                · next userId' huser =>
                    split at h <;> cases h
                    next hne' => exact ⟨t, payload, rfl, hne, hverify, huser, hne'⟩
  · rintro ⟨t, payload, rfl, hne, hverify, huser, hne'⟩
    simp only [authenticate, if_neg hne, hverify, huser, if_neg hne']

/-- The strategy also asks that it is not revoked. -/
theorem validate_eq_ok_iff {req : Request} {token : String} {payload : Json}
    (htoken : req.token = some token) (hne : token ≠ "") :
    validate get req payload = .ok payload ↔ ¬ Revoked get token payload := by
  unfold validate Revoked
  rw [htoken]
  by_cases hblack : (get (BLACKLIST (some token))).any (· ≠ "") = true
  · rw [if_pos hblack]
    exact iff_of_false nofun fun hnot => hnot (Or.inl hblack)
  rw [if_neg hblack]
  by_cases hmaster : isMaster payload = true
  · rw [if_pos hmaster]
    cases hstored : get (MASTER_TOKEN (payload.get "user_id")) with
    | none => exact iff_of_false nofun fun hnot => hnot (Or.inr ⟨hmaster, nofun⟩)
    | some stored =>
        dsimp only
        by_cases hsame : stored = token
        · subst hsame
          rw [if_neg (by simpa using hne)]
          refine iff_of_true rfl ?_
          rintro (hmark | ⟨-, hother⟩)
          · exact hblack hmark
          · exact hother rfl
        · have hother : some stored ≠ some token := fun heq => hsame (Option.some.inj heq)
          rw [if_pos (Or.inr hother)]
          exact iff_of_false nofun fun hnot => hnot (Or.inr ⟨hmaster, hother⟩)
  · rw [if_neg hmaster]
    refine iff_of_true rfl ?_
    rintro (hmark | ⟨his, -⟩)
    · exact hblack hmark
    · exact hmaster his

/-- The user of a new socket is set when its token is accepted. -/
theorem handleConnection_user_iff {s : State} (token : Option String) (user : String → UserId)
    (hfresh : (s.data s.nextSocket).userId = none) :
    ((s.handleConnection (identify verify user) token).data s.nextSocket).userId ≠ none ↔
      ∃ userId, authenticate verify token = .ok userId := by
  have hidentify : token.bind (identify verify user) =
      (authenticate verify token).toOption.map user := by
    cases token <;> rfl
  unfold State.handleConnection
  rw [hidentify]
  cases authenticate verify token with
  | error message => exact iff_of_false (fun hset => hset hfresh) nofun
  | ok userId =>
      refine iff_of_true ?_ ⟨userId, rfl⟩
      simp [Except.toOption, State.join, State.setData]

variable {lex : Lexical} {s : State}

/-- A socket that connects has no user yet. -/
theorem userId_nextSocket {verify : String → Option UserId}
    {nodes : NodeId → Option DocManager.NodeRow} {memberships : UserId → WorkspaceId → Option Role}
    (hs : Reachable (step lex verify) (State.init nodes memberships) s) :
    (s.data s.nextSocket).userId = none := by
  have hS : SessionInv (fun _ _ => True) s :=
    hs.invariant (sessionInv_init _ nodes memberships) fun _ _ _ hstep hS =>
      hS.step hstep fun _ _ => trivial
  exact hS.fresh le_rfl

/-- **The doors agree on a token** exactly if it is not revoked: for every socket and
every request that carry the same one, whatever Redis holds. -/
theorem doors_agree_iff (lex : Lexical) (verify : String → Except String Json)
    (user : String → UserId) (get : String → Option String)
    {nodes : NodeId → Option DocManager.NodeRow} {memberships : UserId → WorkspaceId → Option Role}
    {s : State} (client : Handshake) (req : Request)
    (hs : Reachable (step lex (identify verify user)) (State.init nodes memberships) s)
    (hsame : req.token = client.token) :
    (((s.handleConnection (identify verify user) client.token).data s.nextSocket).userId ≠ none →
        Accepts verify get req) ↔
      ∀ token payload userId, client.token = some token → token ≠ "" →
        verify token = .ok payload → userIdOf payload = some userId → userId ≠ "" →
          ¬ Revoked get token payload := by
  rw [handleConnection_user_iff client.token user (userId_nextSocket hs)]
  constructor
  · intro hagree token payload userId htoken hne hverify huser hne'
    obtain ⟨t, payload', ht, hverify', hvalid⟩ := hagree ⟨userId,
      authenticate_eq_ok_iff.mpr ⟨token, payload, htoken, hne, hverify, huser, hne'⟩⟩
    obtain rfl : token = t := Option.some.inj (htoken.symm.trans (hsame.symm.trans ht))
    obtain rfl : payload = payload' := Except.ok.inj (hverify.symm.trans hverify')
    exact (validate_eq_ok_iff ht hne).mp hvalid
  · rintro hnot ⟨userId, hok⟩
    obtain ⟨token, payload, htoken, hne, hverify, huser, hne'⟩ := authenticate_eq_ok_iff.mp hok
    have ht : req.token = some token := hsame.trans htoken
    exact ⟨token, payload, ht, hverify, (validate_eq_ok_iff ht hne).mpr
      (hnot token payload userId htoken hne hverify huser hne')⟩

/-- A secret under which there are two tokens, one of a user and one of a master. -/
def twoTokens (token : String) : Except String Json :=
  if token = "user" then .ok (.object [("user_id", .string "8")])
  else if token = "master" then
    .ok (.object [("user_id", .string "9"), ("isMaster", .bool true)])
  else .error "invalid signature"

/-- The master token is the one that is stored, and both doors accept it. -/
theorem storedMaster_agrees :
    (((State.init DocManager.oneNode (members [])).handleConnection
        (identify twoTokens String.length) (some "master")).data 0).userId ≠ none ∧
      Accepts twoTokens (fun key => if key = "masterToken:9" then some "master" else none)
        ⟨some "master", none⟩ := by
  have henters : (((State.init DocManager.oneNode (members [])).handleConnection
      (identify twoTokens String.length) (some "master")).data 0).userId ≠ none := by decide
  refine ⟨henters, (doors_agree_iff .plain twoTokens String.length _ ⟨some "master", none⟩ _
    (.refl _ _) rfl).mpr ?_ henters⟩
  rintro token payload userId htoken - hverify - -
  obtain rfl : "master" = token := Option.some.inj htoken
  obtain rfl := Except.ok.inj hverify
  decide

/-- The user has logged out, and the master has been given another token. -/
theorem revokedTokens_enter :
    ¬ ((((State.init DocManager.oneNode (members [])).handleConnection
        (identify twoTokens String.length) (some "user")).data 0).userId ≠ none →
      Accepts twoTokens (fun key => if key = "blacklist:user" then some "1" else none)
        ⟨some "user", none⟩) ∧
    ¬ ((((State.init DocManager.oneNode (members [])).handleConnection
        (identify twoTokens String.length) (some "master")).data 0).userId ≠ none →
      Accepts twoTokens (fun key => if key = "masterToken:9" then some "another" else none)
        ⟨some "master", none⟩) := by
  constructor
  · intro hagree
    obtain ⟨token, payload, htoken, hverify, hvalid⟩ := hagree (by decide)
    obtain rfl : "user" = token := Option.some.inj htoken
    refine absurd ((validate_eq_ok_iff rfl (by decide)).mp hvalid) ?_
    obtain rfl := Except.ok.inj hverify
    decide
  · intro hagree
    obtain ⟨token, payload, htoken, hverify, hvalid⟩ := hagree (by decide)
    obtain rfl : "master" = token := Option.some.inj htoken
    refine absurd ((validate_eq_ok_iff rfl (by decide)).mp hvalid) ?_
    obtain rfl := Except.ok.inj hverify
    decide

end AideepWebsocket.Gateway
