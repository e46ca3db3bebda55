import AideepWebsocket.EventBus.Subscriber
import AideepWebsocket.Gateway.Confinement
import AideepWebsocket.Redis.Process

/-!
# The server on the channel

The subscriber hands each message over in the turn in which it arrives, so the messages are
handled in the order in which they arrive, each once.  Here the process over one Redis is
driven by the texts of the channel: what the API server has published reaches it in no
other way.

* `Server.handle` — one step: a message arrives, or the process moves by itself;
* `Server.dispatches` — **nothing is lost, repeated or made up on the way**: each run is a
  run of the process over tables that sends the same, and in which the API server speaks
  exactly through the messages that are understood;
* `Server.relays_published` — and so the workspaces hear of exactly the events that the
  API server has published, in this order, whatever else arrives on the channel.
-/

namespace AideepWebsocket.EventBus

open Library
open DocManager (NodeRow)
open Gateway (Output Role ServerEvent WsEvent)
open NodeContent (NodeContentOperationBody)
open Redis (Format Tables)

/-- The step of the process in which a message is handled. -/
def Handled.event : Handled → Option App.Event
  | .broadcast event => some (.gateway (.broadcast event))
  | .broadcastYjsUpdate nodeId update => some (.gateway (.broadcastYjsUpdate nodeId update))
  | .applyNodeBodyPatch payload => some (.service (.patch payload))
  | .unknown | .failed | .illFormed => none

namespace Server

open Redis.Process (State external published requested told)

inductive Event
  /-- A message arrives on the channel. -/
  | message (text : String)
  | process (e : Redis.Process.Event)

variable (F : Format) (lex : Lexical) (hash : NodeContentOperationBody → String)
  (verify : String → Option UserId)

/-- What the subscriber does: one of three calls, or nothing. -/
def dispatch (s : State) : Handled → Option (State × List Output)
  | .broadcast event =>
      Redis.Process.handle F lex hash verify s (.app (.gateway (.broadcast event)))
  | .broadcastYjsUpdate nodeId update =>
      Redis.Process.handle F lex hash verify s
        (.app (.gateway (.broadcastYjsUpdate nodeId update)))
  | .applyNodeBodyPatch payload =>
      Redis.Process.handle F lex hash verify s (.app (.service (.patch payload)))
  | .unknown | .failed => some (s, [])
  | .illFormed => none

/-- One step, with what is sent. -/
def handle (s : State) : Event → Option (State × List Output)
  | .message text => dispatch F lex hash verify s (handleMessage F text)
  | .process e =>
      if (told e).any published then none else Redis.Process.handle F lex hash verify s e

def step (s : State) (e : Event) : Option State := (handle F lex hash verify s e).map Prod.fst

/-- What a step sends. -/
def outputs (s : State) (e : Event) : List Output :=
  ((handle F lex hash verify s e).map Prod.snd).getD []

/-- What the process is told: by a message, or by a client that requests an operation. -/
def said : Event → List App.Event
  | .message text => (handleMessage F text).event.toList
  | .process e => (told e).filter requested

variable {F lex hash verify} {s s' : State} {e : Event}

theorem step_eq_some :
    step F lex hash verify s e = some s' ↔
      handle F lex hash verify s e = some (s', outputs F lex hash verify s e) := by
  unfold step outputs
  cases handle F lex hash verify s e with
  | none => simp
  | some p => simp [Prod.ext_iff]

/-! ### Messages -/

/-- What a message does, the process can be told; or nothing happens. -/
private theorem dispatch_cases {handled : Handled} {out : List Output}
    (h : dispatch F lex hash verify s handled = some (s', out)) :
    (∃ e, handled.event = some e ∧ told (.app e) = [e] ∧
        Redis.Process.handle F lex hash verify s (.app e) = some (s', out)) ∨
      handled.event = none ∧ s' = s ∧ out = [] := by
  cases handled with
  | broadcast event => exact Or.inl ⟨_, rfl, rfl, h⟩
  | broadcastYjsUpdate nodeId update => exact Or.inl ⟨_, rfl, rfl, h⟩
  | applyNodeBodyPatch payload => exact Or.inl ⟨_, rfl, rfl, h⟩
  | illFormed => cases h
  | unknown | failed =>
      cases h
      exact Or.inr ⟨rfl, rfl, rfl⟩

/-- A message is handled in the turn in which it arrives, in whatever state. -/
theorem isSome_message {text : String} (h : handleMessage F text ≠ .illFormed) :
    (step F lex hash verify s (.message text)).isSome = true := by
  rw [step, handle, Option.isSome_map]
  cases hhandled : handleMessage F text with
  | illFormed => exact absurd hhandled h
  | applyNodeBodyPatch payload =>
      have hserver : (NodeContent.Server.step lex hash s.app.server
          (.service (.patch payload))).isSome = true := by
        simp only [NodeContent.Server.step, NodeContent.step, Option.isSome_map]
        split <;> rfl
      have hhandle : dispatch F lex hash verify s (.applyNodeBodyPatch payload) =
          ((NodeContent.Server.step lex hash s.app.server (.service (.patch payload))).map fun x =>
            (s.app.setServer x, ([] : List Output))).map fun p =>
              ({ s with app := p.1 }, p.2) := rfl
      rw [hhandle, Option.isSome_map, Option.isSome_map, hserver]
  | _ => rfl

/-! ### The process that is told -/

/-- What nobody has published a client has requested. -/
private theorem told_of_not_published {e : Redis.Process.Event}
    (h : ¬ (told e).any published = true) : (told e).filter requested = told e := by
  refine List.filter_eq_self.mpr fun f hf => ?_
  have hexternal : external f = true := by
    cases e with
    | app e => exact (List.mem_filter.mp hf).2
    | _ => cases hf
  have hnot : published f = false := Bool.eq_false_iff.mpr fun htrue =>
    h (List.any_eq_true.mpr ⟨f, hf, htrue⟩)
  rwa [external, hnot, Bool.false_or] at hexternal

/-- What a step sends, and what was said in it. -/
def observed (F : Format) (lex : Lexical) (hash : NodeContentOperationBody → String)
    (verify : String → Option UserId) : State → Event → List (Output ⊕ App.Event) :=
  both (outputs F lex hash verify) fun _ e => said F e

/-- The messages are steps of the process. -/
def simulation (F : Format) (lex : Lexical) (hash : NodeContentOperationBody → String)
    (verify : String → Option UserId) :
    Simulation (step F lex hash verify) (observed F lex hash verify)
      (Redis.Process.step F lex hash verify) (Redis.Process.observed F lex hash verify) where
  rel s x := s = x
  step := by
    rintro s x e s' rfl hstep
    rw [step_eq_some] at hstep
    rw [observed, both]
    generalize outputs F lex hash verify s e = out at hstep ⊢
    have hsingle {e' : Redis.Process.Event}
        (h : Redis.Process.handle F lex hash verify s e' = some (s', out)) :
        exec (Redis.Process.step F lex hash verify) s [e'] = some s' ∧
          trace (Redis.Process.step F lex hash verify) (Redis.Process.observed F lex hash verify)
            s [e'] = out.map .inl ++ (told e').map .inr := by
      have hstep' : Redis.Process.step F lex hash verify s e' = some s' := by
        rw [Redis.Process.step, h]
        rfl
      refine ⟨exec_singleton hstep', ?_⟩
      rw [trace_singleton hstep', Redis.Process.observed, both, Redis.Process.outputs, h]
      rfl
    cases e with
    | message text =>
        rw [said]
        rcases dispatch_cases hstep with ⟨e, hevent, htold, hhandle⟩ | ⟨hevent, rfl, rfl⟩
        · obtain ⟨hexec, htrace⟩ := hsingle hhandle
          exact ⟨[.app e], s', hexec, by rw [htrace, htold, hevent]; rfl, rfl⟩
        · exact ⟨[], s', rfl, by rw [hevent]; rfl, rfl⟩
    | process e =>
        simp only [handle] at hstep
        split at hstep
        · cases hstep
        · next htold =>
            obtain ⟨hexec, htrace⟩ := hsingle hstep
            exact ⟨[e], s', hexec, by rw [htrace, said, told_of_not_published htold], rfl⟩

/-- Each run is one of the process over tables in which the same is observed. -/
theorem observed_of_exec {nodes : NodeId → Option NodeRow}
    {memberships : UserId → WorkspaceId → Option Role} {es : List Event}
    (hes : exec (step F lex hash verify) (.init nodes memberships) es = some s) :
    ∃ (fs : List App.Event) (T : Tables),
      exec (App.step lex verify hash) (.init nodes memberships) fs = some (T.into s.app) ∧
      trace (App.step lex verify hash) (Redis.Process.appObserved F lex verify hash)
          (.init nodes memberships) fs =
        trace (step F lex hash verify) (observed F lex hash verify) (.init nodes memberships) es ∧
      F.Represents T s.taken s.store := by
  obtain ⟨fs, a, hfs, htrace, x, rfl, T, h, rfl⟩ :=
    ((simulation F lex hash verify).comp (Redis.Process.simulation F lex hash verify)).exec
      ⟨_, rfl, Redis.Process.represents_init F nodes memberships⟩ hes
  exact ⟨fs, T, hfs, htrace, h⟩

/-- What the process is told is what has been said. -/
private theorem told_of_observed {a a' : App.State} {fs : List App.Event} {es : List Event}
    (hfs : exec (App.step lex verify hash) a fs = some a')
    (hes : exec (step F lex hash verify) s es = some s')
    (h : trace (App.step lex verify hash) (Redis.Process.appObserved F lex verify hash) a fs =
      trace (step F lex hash verify) (observed F lex hash verify) s es) :
    fs.filter external = es.flatMap (said F) := by
  have htold := trace_right_of_both h
  rwa [trace_events _ hfs, trace_events _ hes, ← List.filter_flatMap,
    List.flatMap_singleton'] at htold

/-- **Nothing is lost, repeated or made up on the way.**  Each run is one of the process over
tables that sends the same; the store says what the tables say; and what the process is
told in it are the messages that are understood and the operations that are requested, in
their order. -/
theorem dispatches (F : Format) (lex : Lexical) (hash : NodeContentOperationBody → String)
    (verify : String → Option UserId) (nodes : NodeId → Option NodeRow)
    (memberships : UserId → WorkspaceId → Option Role) {es : List Event} {s : State}
    (hes : exec (step F lex hash verify) (.init nodes memberships) es = some s) :
    ∃ (fs : List App.Event) (T : Tables),
      exec (App.step lex verify hash) (.init nodes memberships) fs = some (T.into s.app) ∧
      trace (App.step lex verify hash) (Redis.Process.listedOutputs F lex verify hash)
          (.init nodes memberships) fs =
        trace (step F lex hash verify) (outputs F lex hash verify) (.init nodes memberships) es ∧
      fs.filter external = es.flatMap (said F) ∧
      F.Represents T s.taken s.store := by
  obtain ⟨fs, T, hfs, htrace, h⟩ := observed_of_exec hes
  exact ⟨fs, T, hfs, trace_left_of_both htrace, told_of_observed hfs hes htrace, h⟩

/-! ### What the workspaces hear -/

/-- The events of a workspace among what is sent. -/
def workspaceEvent : Output → Option WsEvent
  | .emit _ (.workspaceEvent event) => some event
  | _ => none

/-- The event that the process is told to broadcast. -/
def broadcast : App.Event → Option WsEvent
  | .gateway (.broadcast event) => some event
  | _ => none

private theorem workspaceEvent_eq_none {g g' : Gateway.State} {e : Gateway.Event}
    {out : List Output} (h : Gateway.handle lex verify g e = some (g', out))
    (he : ∀ event, e ≠ .broadcast event) : out.filterMap workspaceEvent = [] := by
  have hout : Gateway.outputs lex verify g e = out := by
    rw [Gateway.outputs, h]
    rfl
  rw [List.filterMap_eq_nil_iff]
  intro x hx
  unfold workspaceEvent
  split
  · next recipients event =>
      -- nothing but `broadcast` emits one
      rw [← hout] at hx
      cases Gateway.sent_of_outputs hx with
      | workspaceEvent _ he' hto => exact absurd he' (he event)
      | node _ hws => cases hws
  · rfl

/-- The order in which members are listed is nothing to the others. -/
private theorem filterMap_relisted (out : List Output) :
    (out.map F.relisted).filterMap workspaceEvent = out.filterMap workspaceEvent := by
  rw [List.filterMap_map]
  congr 1
  funext x
  rw [Function.comp_apply, Redis.Format.relisted.eq_def]
  split <;> rfl

/-- **One step** of the process: it emits the event that it is told to broadcast, and no
other. -/
private theorem workspaceEvent_of_step {a a' : App.State} {e : App.Event}
    (h : App.step lex verify hash a e = some a') :
    (Redis.Process.listedOutputs F lex verify hash a e).filterMap workspaceEvent =
      (broadcast e).toList := by
  rw [Redis.Process.listedOutputs, filterMap_relisted]
  have hstep := App.appStep_of_step h
  generalize App.outputs lex verify hash a e = out at hstep ⊢
  cases hstep with
  | gateway e' gateway he hdriven hmembership hhandle hs' =>
      subst he
      by_cases hbroadcast : ∃ event, e' = .broadcast event
      · obtain ⟨event, rfl⟩ := hbroadcast
        cases hhandle
        rfl
      · rw [not_exists] at hbroadcast
        rw [workspaceEvent_eq_none hhandle hbroadcast]
        cases e' with
        | broadcast event => exact absurd rfl (hbroadcast event)
        | _ => rfl
  | membership userId workspaceId role he hs' hout =>
      subst he hout
      rfl
  | service e' x he hdriven hserver hs' hout =>
      subst he hout
      rfl
  | resumed t operationId broadcasts x he hresume hs' =>
      subst he
      rcases hs' with ⟨-, hannounce, -⟩ | ⟨-, rfl, -⟩
      · have hhandle : Gateway.handle lex verify (a.setServer x).gateway (.announce t) =
            some (a'.gateway, out) := hannounce
        exact workspaceEvent_eq_none hhandle fun _ hne => by cases hne
      · rfl
  | restart he hs' hout =>
      subst he hout
      rfl

/-- What is broadcast was said. -/
private theorem filterMap_broadcast (fs : List App.Event) :
    fs.filterMap broadcast = (fs.filter external).filterMap broadcast := by
  rw [List.filterMap_filter]
  congr 1
  funext f
  cases f with
  | gateway e => cases e <;> rfl
  | service e => cases e <;> rfl
  | _ => rfl

/-- The event that a message says is to be broadcast. -/
def heard (F : Format) : Event → Option WsEvent
  | .message text =>
      match handleMessage F text with
      | .broadcast event => some event
      | _ => none
  | .process _ => none

private theorem broadcast_of_requested {f : App.Event} (h : requested f = true) :
    broadcast f = none := by
  cases f with
  | service e => rfl
  | _ => cases h

private theorem filterMap_said (F : Format) (es : List Event) :
    (es.flatMap (said F)).filterMap broadcast = es.filterMap (heard F) := by
  rw [List.filterMap_flatMap, List.filterMap_eq_flatMap_toList]
  congr 1
  funext e
  cases e with
  | message text =>
      rw [said, heard]
      cases handleMessage F text <;> rfl
  | process e =>
      show ((told e).filter requested).filterMap broadcast = []
      rw [List.filterMap_eq_nil_iff]
      intro f hf
      exact broadcast_of_requested (List.mem_filter.mp hf).2

/-- **The workspaces hear what arrives on the channel**: in every run, the `workspace_event`s
that are emitted are those of the messages, each once and in their order; nothing that a
client or the process does causes another. -/
theorem relays_published (F : Format) (lex : Lexical) (hash : NodeContentOperationBody → String)
    (verify : String → Option UserId) (nodes : NodeId → Option NodeRow)
    (memberships : UserId → WorkspaceId → Option Role) {es : List Event} {s : State}
    (hes : exec (step F lex hash verify) (.init nodes memberships) es = some s) :
    (trace (step F lex hash verify) (outputs F lex hash verify) (.init nodes memberships)
        es).filterMap workspaceEvent = es.filterMap (heard F) := by
  obtain ⟨fs, T, hfs, htrace, -⟩ := observed_of_exec hes
  rw [← trace_left_of_both htrace, ← trace_filterMap,
    trace_congr (fun _ _ _ => workspaceEvent_of_step), trace_events _ hfs,
    ← List.filterMap_eq_flatMap_toList, filterMap_broadcast, told_of_observed hfs hes htrace,
    filterMap_said]

/-- A user connects, a node is deleted, and something else arrives. -/
def channelRun : List Event :=
  [.process (.app (.gateway (.connect (some "token of 9")))),
    .message (publish Redis.plainFormat nodeDeleted), .message "\x7b"]

private theorem exec_channelRun :
    ∃ s, exec (step Redis.plainFormat .plain (fun _ => "") Gateway.plainToken)
      (.init (fun _ => none) (fun _ _ => none)) channelRun = some s :=
  Option.isSome_iff_exists.mp (by decide +kernel)

theorem channelRun_dispatches :
    ∃ (s : State) (fs : List App.Event) (T : Tables),
      exec (App.step .plain Gateway.plainToken fun _ => "")
        (.init (fun _ => none) fun _ _ => none) fs = some (T.into s.app) ∧
      trace (App.step .plain Gateway.plainToken fun _ => "")
          (Redis.Process.listedOutputs Redis.plainFormat .plain Gateway.plainToken fun _ => "")
          (.init (fun _ => none) fun _ _ => none) fs =
        trace (step Redis.plainFormat .plain (fun _ => "") Gateway.plainToken)
          (outputs Redis.plainFormat .plain (fun _ => "") Gateway.plainToken)
          (.init (fun _ => none) fun _ _ => none) channelRun ∧
      fs.filter external = channelRun.flatMap (said Redis.plainFormat) ∧
      Redis.plainFormat.Represents T s.taken s.store := by
  obtain ⟨s, hs⟩ := exec_channelRun
  exact ⟨s, dispatches Redis.plainFormat .plain (fun _ => "") Gateway.plainToken _ _ hs⟩

theorem channelRun_relayed :
    (trace (step Redis.plainFormat .plain (fun _ => "") Gateway.plainToken)
        (outputs Redis.plainFormat .plain (fun _ => "") Gateway.plainToken)
        (.init (fun _ => none) fun _ _ => none) channelRun).filterMap workspaceEvent =
      [⟨.NODE_DELETE, 7, some 9, 1⟩] := by
  obtain ⟨s, hs⟩ := exec_channelRun
  have hheard :
      channelRun.filterMap (heard Redis.plainFormat) = [⟨.NODE_DELETE, 7, some 9, 1⟩] := by
    decide +kernel
  rw [← hheard]
  exact relays_published Redis.plainFormat .plain (fun _ => "") Gateway.plainToken _ _ hs

end Server

end AideepWebsocket.EventBus
