import AideepWebsocket.Library.Run
import Mathlib.Logic.Function.Basic

/-!
# An effect behind a claim

Several callers want an effect to happen once.  Each of them sets a shared flag first,
the claim, and only the one that has found it unset goes on.  If the effect fails the
caller releases the claim, so that another one may try; if the effect has happened the
claim stays, and says so.

The machine below has every way in which this can go wrong: the reply to the claim is
lost (`set i false`), the release is not executed (`release i false`), or the caller
comes to the release although the effect has happened (`perform i true`).  `Kept`
excludes the three, no more: in a run whose actions are kept the claim means what it
says (`Sound`), and the first action that is not kept leaves a claim that does not, as
soon as nobody is at work (`means_iff_kept`).
-/

namespace AideepWebsocket.Library

universe u

/-- Where a caller stands that has set the claim: the effect is pending, it has failed,
or it has happened and the caller is about to release the claim all the same. -/
inductive ClaimStage
  | pending
  | failed
  | done
  deriving DecidableEq

/-- A claim, its callers, and how often the effect has happened. -/
structure Claim (I : Type u) where
  held : I → Option ClaimStage
  isSet : Bool
  effects : ℕ

namespace Claim

variable {I : Type u}

def init : Claim I := ⟨fun _ => none, false, 0⟩

inductive Action (I : Type u)
  /-- Anything that does not concern the claim. -/
  | skip
  | set (i : I) (answered : Bool)
  | fail (i : I)
  | perform (i : I) (releases : Bool)
  | release (i : I) (executed : Bool)

/-- Nobody has the claim. -/
def Resting (c : Claim I) : Prop := ∀ i, c.held i = none

/-- The claim means that the effect has happened. -/
def Means (c : Claim I) : Prop := c.effects ≤ 1 ∧ (c.isSet = true ↔ c.effects = 1)

/-- The claim is answered if it is set, and released if and only if the effect has
failed. -/
def Kept (c : Claim I) : Action I → Prop
  | .set _ answered => answered = true
  | .release i executed => executed = true ↔ c.held i = some .failed
  | _ => True

/-- **The invariant.**  Nothing has happened; or one caller has the claim, and nothing
has happened yet; or the effect has happened, and the claim is set. -/
inductive Sound (c : Claim I) : Prop
  | vacant (hset : c.isSet = false) (hresting : c.Resting) (heffects : c.effects = 0)
  | taken (i : I) (stage : ClaimStage) (hset : c.isSet = true) (hheld : c.held i = some stage)
      (hstage : stage ≠ .done) (halone : ∀ j, j ≠ i → c.held j = none) (heffects : c.effects = 0)
  | done (hset : c.isSet = true) (hheld : ∀ i stage, c.held i = some stage → stage = .done)
      (heffects : c.effects = 1)

theorem sound_init : Sound (init : Claim I) := .vacant rfl (fun _ => rfl) rfl

namespace Sound

variable {c : Claim I}

theorem effects_le_one (hS : Sound c) : c.effects ≤ 1 := by
  rcases hS with ⟨_, _, h⟩ | ⟨_, _, _, _, _, _, h⟩ | ⟨_, _, h⟩ <;> omega

theorem means (hS : Sound c) (hresting : c.Resting) : c.Means := by
  refine ⟨hS.effects_le_one, ?_⟩
  cases hS with
  | vacant hset _ heffects => simp [hset, heffects]
  | taken i stage _ hheld =>
      rw [hresting i] at hheld
      cases hheld
  | done hset _ heffects => simp [hset, heffects]

/-- A caller that has the claim with the effect still to happen is the only one. -/
theorem of_held (hS : Sound c) {i : I} {stage : ClaimStage} (hheld : c.held i = some stage)
    (hstage : stage ≠ .done) :
    c.isSet = true ∧ (∀ j, j ≠ i → c.held j = none) ∧ c.effects = 0 := by
  cases hS with
  | vacant _ hresting =>
      rw [hresting i] at hheld
      cases hheld
  | taken j stage' hset hheld' _ halone heffects =>
      have hij : i = j := by
        by_contra hne
        rw [halone i hne] at hheld
        cases hheld
      subst hij
      exact ⟨hset, halone, heffects⟩
  | done _ hdone => exact absurd (hdone i stage hheld) hstage

/-- A claim that is not set has no holder, and nothing has happened. -/
theorem of_unset (hS : Sound c) (hset : c.isSet = false) :
    c.Resting ∧ c.effects = 0 := by
  cases hS with
  | vacant _ hresting heffects => exact ⟨hresting, heffects⟩
  | taken _ _ h => rw [hset] at h; cases h
  | done h => rw [hset] at h; cases h

/-- The effect has happened if a caller releases the claim after it. -/
theorem of_done (hS : Sound c) {i : I} (hheld : c.held i = some .done) :
    c.isSet = true ∧ (∀ j stage, c.held j = some stage → stage = .done) ∧ c.effects = 1 := by
  cases hS with
  | vacant _ hresting => rw [hresting i] at hheld; cases hheld
  | taken j stage _ hheld' hstage halone =>
      by_cases hij : i = j
      · subst hij
        rw [hheld] at hheld'
        exact absurd (Option.some.inj hheld').symm hstage
      · rw [halone i hij] at hheld
        cases hheld
  | done hset hdone heffects => exact ⟨hset, hdone, heffects⟩

end Sound

variable [DecidableEq I]

def step (c : Claim I) : Action I → Option (Claim I)
  | .skip => some c
  | .set i answered =>
      if c.isSet then none
      else some { c with
        isSet := true
        held := if answered then Function.update c.held i (some .pending) else c.held }
  | .fail i =>
      if c.held i = some .pending then
        some { c with held := Function.update c.held i (some .failed) }
      else none
  | .perform i releases =>
      if c.held i = some .pending then
        some { c with
          held := Function.update c.held i (if releases then some .done else none)
          effects := c.effects + 1 }
      else none
  | .release i executed =>
      if c.held i = some .failed ∨ c.held i = some .done then
        some { c with
          held := Function.update c.held i none
          isSet := c.isSet && !executed }
      else none

variable {c c' : Claim I} {a : Action I}

/-- Nobody else has the claim after a step of the only caller that has it. -/
private theorem alone_update {i : I} (halone : ∀ j, j ≠ i → c.held j = none)
    (stage : Option ClaimStage) : ∀ j, j ≠ i → Function.update c.held i stage j = none := by
  intro j hj
  rw [Function.update_of_ne hj, halone j hj]

private theorem resting_update {i : I} (halone : ∀ j, j ≠ i → c.held j = none) :
    ∀ j, Function.update c.held i none j = none := by
  intro j
  by_cases hj : j = i
  · rw [hj, Function.update_self]
  · rw [Function.update_of_ne hj, halone j hj]

/-- A caller that releases the claim after the effect leaves the others as they were. -/
private theorem done_update {i : I} (hdone : ∀ j stage, c.held j = some stage → stage = .done) :
    ∀ j stage, Function.update c.held i none j = some stage → stage = .done := by
  intro j stage hj
  by_cases hij : j = i
  · rw [hij, Function.update_self] at hj
    cases hj
  · rw [Function.update_of_ne hij] at hj
    exact hdone j stage hj

/-- **One step.**  An action that is kept keeps the invariant. -/
theorem Sound.step (hS : Sound c) (h : c.step a = some c') (hkept : c.Kept a) : Sound c' := by
  cases a with
  | skip =>
      obtain rfl := Option.some.inj h
      exact hS
  | set i answered =>
      obtain rfl : answered = true := hkept
      simp only [Claim.step] at h
      split at h
      · cases h
      · next hset =>
          obtain rfl := Option.some.inj h
          obtain ⟨hresting, heffects⟩ := hS.of_unset (Bool.not_eq_true _ ▸ hset)
          exact .taken i .pending rfl (Function.update_self ..) ClaimStage.noConfusion
            (alone_update (fun j _ => hresting j) _) heffects
  | fail i =>
      simp only [Claim.step] at h
      split at h
      · next hheld =>
          obtain rfl := Option.some.inj h
          obtain ⟨hset, halone, heffects⟩ := hS.of_held hheld ClaimStage.noConfusion
          exact .taken i .failed hset (Function.update_self ..) ClaimStage.noConfusion
            (alone_update halone _) heffects
      · cases h
  | perform i releases =>
      simp only [Claim.step] at h
      split at h
      · next hheld =>
          obtain rfl := Option.some.inj h
          obtain ⟨hset, halone, heffects⟩ := hS.of_held hheld ClaimStage.noConfusion
          refine .done hset (fun j stage hj => ?_) (congrArg (· + 1) heffects)
          by_cases hij : j = i
          · subst hij
            change Function.update c.held j _ j = _ at hj
            rw [Function.update_self] at hj
            cases releases
            · cases hj
            · exact (Option.some.inj hj).symm
          · change Function.update c.held i _ j = _ at hj
            rw [Function.update_of_ne hij, halone j hij] at hj
            cases hj
      · cases h
  | release i executed =>
      simp only [Claim.step] at h
      split at h
      · next hheld =>
          obtain rfl := Option.some.inj h
          rcases hheld with hheld | hheld
          · obtain rfl : executed = true := hkept.mpr hheld
            obtain ⟨-, halone, heffects⟩ := hS.of_held hheld ClaimStage.noConfusion
            exact .vacant (Bool.and_false _) (resting_update halone) heffects
          · obtain ⟨hset, hdone, heffects⟩ := hS.of_done hheld
            have hnot : executed = false := by
              rw [← Bool.not_eq_true]
              intro hexecuted
              have hfailed := hkept.mp hexecuted
              rw [hheld] at hfailed
              cases hfailed
            exact .done (by simp [hset, hnot]) (done_update hdone) heffects
      · cases h

/-- **Exactness.**  An action that is not kept leaves a claim that means nothing, once
nobody is at work. -/
theorem means_iff_kept (hS : Sound c) (h : c.step a = some c') (hresting : c'.Resting) :
    c'.Means ↔ c.Kept a := by
  refine ⟨fun hmeans => ?_, fun hkept => (hS.step h hkept).means hresting⟩
  cases a with
  | skip => exact trivial
  | fail i => exact trivial
  | perform i releases => exact trivial
  | set i answered =>
      simp only [step] at h
      split at h
      · cases h
      · next hset =>
          obtain rfl := Option.some.inj h
          obtain ⟨-, heffects⟩ := hS.of_unset (Bool.not_eq_true _ ▸ hset)
          have hone : c.effects = 1 := hmeans.2.mp rfl
          omega
  | release i executed =>
      simp only [step] at h
      split at h
      · next hheld =>
          obtain rfl := Option.some.inj h
          rcases hheld with hheld | hheld
          · obtain ⟨hset, -, heffects⟩ := hS.of_held hheld ClaimStage.noConfusion
            refine ⟨fun _ => hheld, fun _ => ?_⟩
            cases executed with
            | true => rfl
            | false =>
                have hone : c.effects = 1 := hmeans.2.mp (by simp [hset])
                omega
          · obtain ⟨hset, -, heffects⟩ := hS.of_done hheld
            have hstays : (c.isSet && !executed) = true := hmeans.2.mpr heffects
            have hnot : executed = false := by simpa [hset] using hstays
            simp [Kept, hnot, hheld]
      · cases h

end Claim

end AideepWebsocket.Library
