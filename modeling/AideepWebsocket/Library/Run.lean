import Mathlib.Data.List.Basic
import Mathlib.Data.List.Induction
import Mathlib.Data.List.Infix
import Mathlib.Logic.Function.Basic

/-!
# Runs of a partial step function

A system is given by an executable partial step `step : S → E → Option S`: an
event that the current state does not enable gives `none`.  A run is a list of
events, and `exec` executes it.

Two predicates are derived from `exec`, and every result about a system is one
of them:

* `Reachable step init s` — some run from `init` ends in `s`;
* `Along step P s es` — every step of the run `es` from `s` satisfies `P`, a
  relation between the state before, the event and the state after.

The two rules that close such goals are `Reachable.invariant` (a predicate that
holds at the start and is preserved by every step holds at every reachable
state) and `along_of_invariant`, its form for runs whose steps are all known to
satisfy a guard: the invariant may use the guard of each step, and what is
concluded may be a property of the step and not only of the state it ends in.
-/

namespace AideepWebsocket.Library

universe u v

variable {S : Type u} {E : Type v} {step : S → E → Option S}

/-- Execute a list of events; `none` as soon as one of them is not enabled. -/
def exec (step : S → E → Option S) : S → List E → Option S
  | s, [] => some s
  | s, e :: es => (step s e).bind fun s' => exec step s' es

@[simp] theorem exec_nil (s : S) : exec step s [] = some s := rfl

theorem exec_cons (s : S) (e : E) (es : List E) :
    exec step s (e :: es) = (step s e).bind fun s' => exec step s' es := rfl

/-- Execution composes along concatenation of runs. -/
theorem exec_append (s : S) (es fs : List E) :
    exec step s (es ++ fs) = (exec step s es).bind fun s' => exec step s' fs := by
  induction es generalizing s with
  | nil => rfl
  | cons e es ih =>
      rw [List.cons_append, exec_cons, exec_cons]
      cases hstep : step s e with
      | none => rfl
      | some s' => simpa using ih s'

/-- A run ends in its last step. -/
theorem exec_concat (s : S) (es : List E) (e : E) :
    exec step s (es ++ [e]) = (exec step s es).bind fun s' => step s' e := by
  rw [exec_append]
  congr 1
  funext s'
  rw [exec_cons]
  cases step s' e <;> rfl

/-- A run of one step. -/
theorem exec_singleton {s s' : S} {e : E} (h : step s e = some s') : exec step s [e] = some s' := by
  rw [exec_cons, h]
  rfl

/-- A run of translated events. -/
theorem exec_map {F : Type*} (f : F → E) (s : S) (fs : List F) :
    exec step s (fs.map f) = exec (fun s e => step s (f e)) s fs := by
  induction fs generalizing s with
  | nil => rfl
  | cons e fs ih =>
      rw [List.map_cons, exec_cons, exec_cons]
      simp only [ih]

/-- `s` is reached from `init` by some run. -/
def Reachable (step : S → E → Option S) (init s : S) : Prop :=
  ∃ es, exec step init es = some s

namespace Reachable

variable {init s : S}

theorem refl (step : S → E → Option S) (init : S) : Reachable step init init :=
  ⟨[], rfl⟩

/-- **The invariant rule.**  A predicate that holds at the start and is
preserved by every step holds at every reachable state. -/
theorem invariant {I : S → Prop} (h : Reachable step init s) (h0 : I init)
    (hI : ∀ s e s', step s e = some s' → I s → I s') : I s := by
  obtain ⟨es, hes⟩ := h
  induction es generalizing init with
  | nil =>
      cases hes
      exact h0
  | cons e es ih =>
      rw [exec_cons, Option.bind_eq_some_iff] at hes
      obtain ⟨s₁, hstep, hes⟩ := hes
      exact ih (hI _ _ _ hstep h0) hes

end Reachable

/-- Every step of the run `es` from `s` satisfies `P`. -/
def Along (step : S → E → Option S) (P : S → E → S → Prop) : S → List E → Prop
  | _, [] => True
  | s, e :: es => ∀ s', step s e = some s' → P s e s' ∧ Along step P s' es

section Along

variable {P Q : S → E → S → Prop}

/-- Whether every step of a run satisfies a decidable relation can be computed. -/
instance Along.decidable [∀ s e s', Decidable (P s e s')] :
    ∀ (s : S) (es : List E), Decidable (Along step P s es)
  | _, [] => isTrue trivial
  | s, e :: es =>
      match hstep : step s e with
      | none => isTrue fun s' h => by rw [hstep] at h; cases h
      | some s' =>
          have := Along.decidable s' es
          decidable_of_iff (P s e s' ∧ Along step P s' es)
            ⟨fun h s'' h'' => by
              rw [hstep] at h''
              cases h''
              exact h, fun h => h s' hstep⟩

@[simp] theorem along_nil (s : S) : Along step P s [] := trivial

theorem along_cons {s : S} {e : E} {es : List E} :
    Along step P s (e :: es) ↔
      ∀ s', step s e = some s' → P s e s' ∧ Along step P s' es := Iff.rfl

theorem along_map {F : Type*} {f : F → E} {s : S} {fs : List F} :
    Along step P s (fs.map f) ↔
      Along (fun s e => step s (f e)) (fun s e s' => P s (f e) s') s fs := by
  induction fs generalizing s with
  | nil => exact Iff.rfl
  | cons e fs ih =>
      rw [List.map_cons, along_cons, along_cons]
      simp only [ih]

/-- What holds along a run may be weakened at every step that the run can take. -/
theorem Along.mono_step (hPQ : ∀ s e s', step s e = some s' → P s e s' → Q s e s') {s : S}
    {es : List E} (h : Along step P s es) : Along step Q s es := by
  induction es generalizing s with
  | nil => trivial
  | cons e es ih =>
      intro s' hstep
      exact ⟨hPQ _ _ _ hstep (h s' hstep).1, ih (h s' hstep).2⟩

theorem Along.mono (hPQ : ∀ s e s', P s e s' → Q s e s') {s : S} {es : List E}
    (h : Along step P s es) : Along step Q s es :=
  h.mono_step fun s e s' _ => hPQ s e s'

/-- Relations that agree on the steps of a system agree along its runs. -/
theorem along_congr (hPQ : ∀ s e s', step s e = some s' → (P s e s' ↔ Q s e s')) {s : S}
    {es : List E} : Along step P s es ↔ Along step Q s es :=
  ⟨Along.mono_step fun s e s' hstep => (hPQ s e s' hstep).mp,
    Along.mono_step fun s e s' hstep => (hPQ s e s' hstep).mpr⟩

/-- Two relations that each hold along a run hold along it together. -/
theorem Along.and {s : S} {es : List E} (hP : Along step P s es) (hQ : Along step Q s es) :
    Along step (fun s e s' => P s e s' ∧ Q s e s') s es := by
  induction es generalizing s with
  | nil => trivial
  | cons e es ih =>
      intro s' hstep
      exact ⟨⟨(hP s' hstep).1, (hQ s' hstep).1⟩, ih (hP s' hstep).2 (hQ s' hstep).2⟩

/-- A run splits at any point into a run that satisfies `P` and a rest that
does. -/
theorem along_append {s s' : S} {es fs : List E} (hes : exec step s es = some s') :
    Along step P s (es ++ fs) ↔ Along step P s es ∧ Along step P s' fs := by
  induction es generalizing s with
  | nil =>
      cases hes
      simp
  | cons e es ih =>
      rw [exec_cons, Option.bind_eq_some_iff] at hes
      obtain ⟨s₁, hstep, hes⟩ := hes
      rw [List.cons_append, along_cons, along_cons]
      constructor
      · intro h
        refine ⟨fun s₂ h₂ => ?_, ((ih hes).mp (h s₁ hstep).2).2⟩
        obtain rfl : s₁ = s₂ := Option.some.inj (hstep.symm.trans h₂)
        exact ⟨(h _ hstep).1, ((ih hes).mp (h _ hstep).2).1⟩
      · rintro ⟨h, hrest⟩ s₂ h₂
        obtain rfl : s₁ = s₂ := Option.some.inj (hstep.symm.trans h₂)
        exact ⟨(h _ h₂).1, (ih hes).mpr ⟨(h _ h₂).2, hrest⟩⟩

/-- The step in the middle of a run that satisfies `P` satisfies `P`. -/
theorem Along.at_step {s s₁ s₂ : S} {es fs : List E} {e : E}
    (h : Along step P s (es ++ e :: fs)) (hes : exec step s es = some s₁)
    (hstep : step s₁ e = some s₂) : P s₁ e s₂ :=
  (((along_append hes).mp h).2 s₂ hstep).1

/-- A run all of whose steps satisfy `P` is one none of whose prefixes ends in
a step that violates it. -/
theorem along_iff_forall_split {s : S} {es : List E} :
    Along step P s es ↔
      ∀ pre e rest s₁ s₂, es = pre ++ e :: rest → exec step s pre = some s₁ →
        step s₁ e = some s₂ → P s₁ e s₂ := by
  constructor
  · rintro h pre e rest s₁ s₂ rfl hpre hstep
    exact h.at_step hpre hstep
  · intro h
    induction es generalizing s with
    | nil => trivial
    | cons e es ih =>
        intro s' hstep
        refine ⟨h [] e es s s' rfl rfl hstep, ih ?_⟩
        intro pre e' rest s₁ s₂ hsplit hpre hstep'
        refine h (e :: pre) e' rest s₁ s₂ (by rw [hsplit]; rfl) ?_ hstep'
        rw [exec_cons, hstep, Option.bind_some, hpre]

/-- **The guarded invariant rule.**  Let every step that starts in `I` and
satisfies the guard `G` end in `I` and satisfy `P`.  Then a run from `I` whose
steps all satisfy `G` satisfies `P` at every step. -/
theorem along_of_invariant {I : S → Prop} {G : S → E → S → Prop}
    (hI : ∀ s e s', step s e = some s' → I s → G s e s' → I s' ∧ P s e s')
    {s : S} {es : List E} (h0 : I s) (hG : Along step G s es) :
    Along step P s es := by
  induction es generalizing s with
  | nil => trivial
  | cons e es ih =>
      intro s' hstep
      obtain ⟨hguard, hrest⟩ := hG s' hstep
      obtain ⟨hs', hP⟩ := hI s e s' hstep h0 hguard
      exact ⟨hP, ih hs' hrest⟩

/-- What the events of a run guarantee holds along it. -/
theorem along_of_mem {es : List E} (h : ∀ s e s', e ∈ es → step s e = some s' → P s e s')
    (s : S) : Along step P s es := by
  induction es generalizing s with
  | nil => trivial
  | cons e es ih =>
      intro s' hstep
      refine ⟨h s e s' List.mem_cons_self hstep, ih (fun s e s' hmem => ?_) s'⟩
      exact h s e s' (List.mem_cons_of_mem _ hmem)

/-- What every step of the system satisfies, every run does. -/
theorem along_of_forall (h : ∀ s e s', step s e = some s' → P s e s') (s : S) (es : List E) :
    Along step P s es := by
  induction es generalizing s with
  | nil => trivial
  | cons e es ih =>
      intro s' hstep
      exact ⟨h _ _ _ hstep, ih s'⟩

/-- The rule without a guard. -/
theorem along_of_preserved {I : S → Prop}
    (hI : ∀ s e s', step s e = some s' → I s → I s' ∧ P s e s') {s : S} (h0 : I s)
    (es : List E) : Along step P s es :=
  along_of_invariant (G := fun _ _ _ => I s) (fun s e s' hstep hs _ => hI s e s' hstep hs) h0
    (along_of_forall (fun _ _ _ _ => h0) s es)

/-- What holds at the start and after every step holds in the last state. -/
theorem Along.state {Q : S → Prop} {s s' : S} {es : List E}
    (h : Along step (fun _ _ s' => Q s') s es) (h0 : Q s) (hes : exec step s es = some s') :
    Q s' := by
  induction es generalizing s with
  | nil =>
      cases hes
      exact h0
  | cons e es ih =>
      rw [exec_cons, Option.bind_eq_some_iff] at hes
      obtain ⟨s₁, hstep, hes⟩ := hes
      exact ih (h s₁ hstep).2 (h s₁ hstep).1 hes

/-- The same rule for the state a guarded run ends in. -/
theorem exec_invariant {I : S → Prop} {G : S → E → S → Prop}
    (hI : ∀ s e s', step s e = some s' → I s → G s e s' → I s')
    {s s' : S} {es : List E} (hes : exec step s es = some s') (h0 : I s)
    (hG : Along step G s es) : I s' := by
  induction es generalizing s with
  | nil =>
      cases hes
      exact h0
  | cons e es ih =>
      rw [exec_cons, Option.bind_eq_some_iff] at hes
      obtain ⟨s₁, hstep, hes⟩ := hes
      obtain ⟨hguard, hrest⟩ := hG s₁ hstep
      exact ih hes (hI s e s₁ hstep h0 hguard) hrest

/-- **The rule for what a run has done so far.**  A relation between a run and the
state it ends in holds of every run if it holds of the empty one and every further
step keeps it. -/
theorem history_invariant {I : List E → S → Prop} {init : S} (h0 : I [] init)
    (hI : ∀ es s e s', exec step init es = some s → I es s → step s e = some s' →
      I (es ++ [e]) s') {es : List E} {s : S} (hes : exec step init es = some s) : I es s := by
  induction es using List.reverseRecOn generalizing s with
  | nil =>
      cases hes
      exact h0
  | append_singleton es e ih =>
      rw [exec_concat, Option.bind_eq_some_iff] at hes
      obtain ⟨s₁, hes, hstep⟩ := hes
      exact hI es s₁ e s hes (ih hes) hstep

end Along

/-! ### States that a run passes through -/

/-- The run passes through a state that satisfies `Q`. -/
def Visits (step : S → E → Option S) (Q : S → Prop) (s : S) (es : List E) : Prop :=
  ∃ pre ∈ es.inits, ∃ s' ∈ exec step s pre, Q s'

namespace Visits

variable {Q : S → Prop} {s s' : S} {es fs : List E}

instance [DecidablePred Q] : Decidable (Visits step Q s es) :=
  inferInstanceAs (Decidable (∃ pre ∈ es.inits, ∃ s' ∈ exec step s pre, Q s'))

theorem of_exec (hes : exec step s es = some s') (hQ : Q s') : Visits step Q s es :=
  ⟨es, (List.mem_inits ..).mpr (List.prefix_refl es), s', hes, hQ⟩

/-- What a run has passed through, a longer one has. -/
theorem append (h : Visits step Q s es) : Visits step Q s (es ++ fs) := by
  obtain ⟨pre, hpre, hQ⟩ := h
  exact ⟨pre, (List.mem_inits ..).mpr (((List.mem_inits ..).mp hpre).trans
    (List.prefix_append es fs)), hQ⟩

end Visits

/-! ### Leaving events out of a run -/

/-- The steps of a run: each event with the state in which it happens. -/
def path (step : S → E → Option S) : S → List E → List (S × E)
  | _, [] => []
  | s, e :: es =>
      match step s e with
      | none => []
      | some s' => (s, e) :: path step s' es

/-- The run without the events that `p` selects in the states in which they
happen. -/
def without (step : S → E → Option S) (p : S × E → Bool) (s : S) (es : List E) : List E :=
  ((path step s es).filter fun x => !p x).map Prod.snd

section Without

variable {p : S × E → Bool}

theorem path_cons {s s' : S} {e : E} (es : List E) (h : step s e = some s') :
    path step s (e :: es) = (s, e) :: path step s' es := by
  rw [path, h]

theorem path_append {s s' : S} {es : List E} (fs : List E) (hes : exec step s es = some s') :
    path step s (es ++ fs) = path step s es ++ path step s' fs := by
  induction es generalizing s with
  | nil =>
      cases hes
      rfl
  | cons e es ih =>
      rw [exec_cons, Option.bind_eq_some_iff] at hes
      obtain ⟨s₁, hstep, hes⟩ := hes
      rw [List.cons_append, path_cons _ hstep, path_cons es hstep, ih hes]
      rfl

theorem without_cons {s s' : S} {e : E} (es : List E) (h : step s e = some s') :
    without step p s (e :: es) =
      if p (s, e) then without step p s' es else e :: without step p s' es := by
  rw [without, path_cons es h, List.filter_cons]
  cases hp : p (s, e) with
  | true => rfl
  | false => rfl

/-- **Events without effect can be left out.**  If the selected events of a run
leave the state as it is, then the run without them goes through the same
states, and every other event happens in the same state as before. -/
theorem exec_without {s fin : S} {es : List E}
    (h : Along step (fun s e s' => p (s, e) = true → s' = s) s es)
    (hes : exec step s es = some fin) :
    exec step s (without step p s es) = some fin ∧
      path step s (without step p s es) = (path step s es).filter fun x => !p x := by
  induction es generalizing s with
  | nil => exact ⟨hes, rfl⟩
  | cons e es ih =>
      rw [exec_cons, Option.bind_eq_some_iff] at hes
      obtain ⟨s', hstep, hes⟩ := hes
      obtain ⟨hnoop, hrest⟩ := h s' hstep
      obtain ⟨hexec, hpath⟩ := ih hrest hes
      rw [without_cons es hstep, path_cons es hstep]
      cases hp : p (s, e) with
      | true =>
          obtain rfl := hnoop hp
          simpa [hp] using ⟨hexec, hpath⟩
      | false =>
          simp only [Bool.false_eq_true, if_false]
          rw [exec_cons, hstep, path_cons _ hstep, List.filter_cons, hp]
          exact ⟨hexec, by rw [hpath]; rfl⟩

/-- What is observed of a run does not change if nothing is observed of the events that
are left out. -/
theorem flatMap_path_without {O : Type*} {observe : S × E → List O} {s fin : S} {es : List E}
    (h : Along step (fun s e s' => p (s, e) = true → s' = s ∧ observe (s, e) = []) s es)
    (hes : exec step s es = some fin) :
    (path step s (without step p s es)).flatMap observe = (path step s es).flatMap observe := by
  induction es generalizing s with
  | nil => rfl
  | cons e es ih =>
      rw [exec_cons, Option.bind_eq_some_iff] at hes
      obtain ⟨s', hstep, hes⟩ := hes
      obtain ⟨hnoop, hrest⟩ := h s' hstep
      have hobserve := ih hrest hes
      rw [without_cons es hstep, path_cons es hstep]
      cases hp : p (s, e) with
      | true =>
          obtain ⟨rfl, hsilent⟩ := hnoop hp
          rw [if_pos rfl, List.flatMap_cons, hsilent, List.nil_append, hobserve]
      | false =>
          rw [if_neg Bool.false_ne_true, path_cons _ hstep, List.flatMap_cons,
            List.flatMap_cons, hobserve]

end Without

end AideepWebsocket.Library
