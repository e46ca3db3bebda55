import AideepWebsocket.Library.Run

/-!
# Simulations between two levels

What a run gives off is its `trace`: the observations of its steps, in order.  A
**simulation** is a relation between the states of two systems that lets the second
answer every step of the first by a run with the same observations.

One step is all that has to be shown.  Then every run of the first system is one of the
second (`Simulation.exec`), and simulations compose (`Simulation.comp`).
-/

namespace AideepWebsocket.Library

universe u v

variable {S T U : Type u} {E F G : Type v} {O : Type*}

/-- What a run gives off. -/
def trace (step : S → E → Option S) (out : S → E → List O) (s : S) (es : List E) : List O :=
  (path step s es).flatMap fun x => out x.1 x.2

section Trace

variable {step : S → E → Option S} {out : S → E → List O} {s s' : S} {e : E} {es : List E}

@[simp] theorem trace_nil (s : S) : trace step out s [] = [] := rfl

theorem trace_cons (es : List E) (h : step s e = some s') :
    trace step out s (e :: es) = out s e ++ trace step out s' es := by
  rw [trace, path_cons es h, List.flatMap_cons]
  rfl

theorem trace_append (fs : List E) (hes : exec step s es = some s') :
    trace step out s (es ++ fs) = trace step out s es ++ trace step out s' fs := by
  rw [trace, path_append fs hes, List.flatMap_append]
  rfl

theorem trace_singleton (h : step s e = some s') : trace step out s [e] = out s e := by
  rw [trace_cons [] h, trace_nil, List.append_nil]

/-- Part of what is observed. -/
theorem trace_filterMap {O' : Type*} (f : O → Option O') (s : S) (es : List E) :
    trace step (fun s e => (out s e).filterMap f) s es = (trace step out s es).filterMap f := by
  rw [trace, trace, List.filterMap_flatMap]

/-- Two observations at once. -/
def both {O' : Type*} (out : S → E → List O) (out' : S → E → List O') (s : S) (e : E) :
    List (O ⊕ O') :=
  (out s e).map .inl ++ (out' s e).map .inr

section Both

variable {O' : Type*} {out' : S → E → List O'} {step₂ : T → F → Option T} {t : T} {fs : List F}
  {out₂ : T → F → List O} {out₂' : T → F → List O'}

private theorem trace_both_left (s : S) (es : List E) :
    (trace step (both out out') s es).filterMap Sum.getLeft? = trace step out s es := by
  rw [← trace_filterMap]
  congr 1
  funext s e
  simp [both, List.filterMap_append, List.filterMap_map, Function.comp_def]

private theorem trace_both_right (s : S) (es : List E) :
    (trace step (both out out') s es).filterMap Sum.getRight? = trace step out' s es := by
  rw [← trace_filterMap]
  congr 1
  funext s e
  simp [both, List.filterMap_append, List.filterMap_map, Function.comp_def]

/-- Who agrees on both agrees on the first. -/
theorem trace_left_of_both
    (h : trace step (both out out') s es = trace step₂ (both out₂ out₂') t fs) :
    trace step out s es = trace step₂ out₂ t fs := by
  rw [← trace_both_left s es, h, trace_both_left]

/-- Who agrees on both agrees on the second. -/
theorem trace_right_of_both
    (h : trace step (both out out') s es = trace step₂ (both out₂ out₂') t fs) :
    trace step out' s es = trace step₂ out₂' t fs := by
  rw [← trace_both_right s es, h, trace_both_right]

end Both

/-- What depends on the events alone. -/
theorem trace_events (out : E → List O) (hes : exec step s es = some s') :
    trace step (fun _ e => out e) s es = es.flatMap out := by
  induction es generalizing s with
  | nil => rfl
  | cons e es ih =>
      rw [exec_cons, Option.bind_eq_some_iff] at hes
      obtain ⟨s₁, hstep, hes⟩ := hes
      rw [trace_cons es hstep, ih hes, List.flatMap_cons]

/-- Observations that agree on every step. -/
theorem trace_congr {out' : S → E → List O}
    (h : ∀ s e s', step s e = some s' → out s e = out' s e) (s : S) (es : List E) :
    trace step out s es = trace step out' s es := by
  induction es generalizing s with
  | nil => rfl
  | cons e es ih =>
      cases hstep : step s e with
      | none => simp [trace, path, hstep]
      | some s' => rw [trace_cons es hstep, trace_cons es hstep, h s e s' hstep, ih]

/-- A run whose steps give off nothing. -/
theorem trace_eq_nil (h : ∀ s, ∀ e ∈ es, out s e = []) : trace step out s es = [] := by
  induction es generalizing s with
  | nil => rfl
  | cons e es ih =>
      cases hstep : step s e with
      | none => simp [trace, path, hstep]
      | some s' =>
          rw [trace_cons es hstep, h s e List.mem_cons_self, List.nil_append]
          exact ih fun s e he => h s e (List.mem_cons_of_mem _ he)

end Trace

/-- The second system answers each step of the first by a run with the same
observations. -/
structure Simulation (step : S → E → Option S) (out : S → E → List O)
    (step' : T → F → Option T) (out' : T → F → List O) where
  rel : S → T → Prop
  step : ∀ {s t e s'}, rel s t → step s e = some s' →
    ∃ fs t', exec step' t fs = some t' ∧ trace step' out' t fs = out s e ∧ rel s' t'

namespace Simulation

variable {step₁ : S → E → Option S} {out₁ : S → E → List O} {step₂ : T → F → Option T}
  {out₂ : T → F → List O} {step₃ : U → G → Option U} {out₃ : U → G → List O}

/-- **Every run of the first system** is one of the second, with the same trace. -/
theorem exec (M : Simulation step₁ out₁ step₂ out₂) {s s' : S} {t : T} {es : List E}
    (hrel : M.rel s t) (hes : Library.exec step₁ s es = some s') :
    ∃ fs t', Library.exec step₂ t fs = some t' ∧
      trace step₂ out₂ t fs = trace step₁ out₁ s es ∧ M.rel s' t' := by
  induction es generalizing s t with
  | nil =>
      cases hes
      exact ⟨[], t, rfl, rfl, hrel⟩
  | cons e es ih =>
      rw [exec_cons, Option.bind_eq_some_iff] at hes
      obtain ⟨s₁, hstep, hes⟩ := hes
      obtain ⟨fs, t₁, hfs, htrace, hrel⟩ := M.step hrel hstep
      obtain ⟨gs, t', hgs, htrace', hrel'⟩ := ih hrel hes
      refine ⟨fs ++ gs, t', ?_, ?_, hrel'⟩
      · rw [exec_append, hfs]
        exact hgs
      · rw [trace_append gs hfs, htrace, htrace', trace_cons es hstep]

/-- Simulations compose. -/
def comp (M : Simulation step₁ out₁ step₂ out₂) (N : Simulation step₂ out₂ step₃ out₃) :
    Simulation step₁ out₁ step₃ out₃ where
  rel s x := ∃ t, M.rel s t ∧ N.rel t x
  step := by
    rintro s x e s' ⟨t, hrel, hrel'⟩ hstep
    obtain ⟨fs, t', hfs, htrace, hrel⟩ := M.step hrel hstep
    obtain ⟨gs, x', hgs, htrace', hrel'⟩ := N.exec hrel' hfs
    exact ⟨gs, x', hgs, htrace'.trans htrace, t', hrel, hrel'⟩

end Simulation

end AideepWebsocket.Library
