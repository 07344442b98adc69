import Mathlib.Tactic

/-
  This file is a small program logic for commands that
  read and write a state and may fail. A triple has two
  postconditions, one for a normal result and one for a
  failure, and a failure may have changed the state.

  Main declarations:
    * `Command.Triple.bind`
    * `Command.Triple.foldlM`
    * `Command.Triple.iterate`
-/

/- A command over states `σ` with failures in `ε`. -/
abbrev Command (σ ε α : Type) :=
  ExceptT ε (StateM σ) α

namespace Command

open ExceptT (run mk)

variable {σ ε α β : Type}
variable {δ : Type} (call : σ → Except δ α × σ) (onError : δ → ε) (command : Command σ ε α)
variable (value : σ → α) (change : σ → σ) (state : σ)

/- Result of a command and the state it leaves. -/
def exec : Except ε α × σ :=
  (run command).run state

/-
  A call whose failures have another type: they are mapped,
  and the state it leaves is kept either way.
-/
def attempt : Command σ ε α :=
  mk (fun state =>
    match call state with
    | (.ok value, state') => (.ok value, state')
    | (.error err, state') => (.error (onError err), state'))

/- A state change that cannot fail. -/
def update : Command σ ε Unit :=
  mk (fun state => (.ok (), change state))

/- A value read from the state. -/
def read : Command σ ε α :=
  mk (fun state => (.ok (value state), state))

/- A command that runs only under a condition. -/
def onlyIf (cond : Bool) (command : Command σ ε Unit) : Command σ ε Unit :=
  if cond then command else pure ()

/- The result of a command as a value, failure included. -/
def outcome : Command σ ε (Except ε α) :=
  mk (fun state =>
    let result := command.exec state
    (.ok result.1, result.2))

/- The same command with its failures mapped. -/
def mapError (command : Command σ δ α) (onError : δ → ε) : Command σ ε α :=
  attempt command.exec onError

/-
  Repeats `body` on its own result until it reports that
  nothing is left. `none` when the fuel runs out before.
-/
def iterate (body : α → Command σ ε (Option α)) : Nat → α → Command σ ε (Option α)
| 0, _ => pure none
| fuel + 1, value => do
    match ← body value with
    | none => pure (some value)
    | some next => iterate body fuel next

/-
  What a turn of a loop reports: that the loop is over, or
  the value to go on with.
-/
def TurnPost (ended : Prop) (goesOn : α → Prop) : Option α → Prop
| none => ended
| some next => goesOn next

@[simp]
theorem exec_pure (value : α) (state : σ) :
    exec (pure value : Command σ ε α) state = (.ok value, state) := rfl

@[simp]
theorem exec_throw (err : ε) (state : σ) :
    exec (throw err : Command σ ε α) state = (.error err, state) := rfl

@[simp]
theorem exec_read : exec (read value : Command σ ε α) state = (.ok (value state), state) := rfl

@[simp]
theorem exec_update : exec (update change : Command σ ε Unit) state = (.ok (), change state) := rfl

theorem exec_attempt : exec (attempt call onError) state = match call state with
    | (.ok value, state') => (.ok value, state')
    | (.error err, state') => (.error (onError err), state') := rfl

theorem exec_bind (next : α → Command σ ε β) (state : σ) :
    exec (command >>= next) state = match exec command state with
      | (.ok value, state') => exec (next value) state'
      | (.error err, state') => (.error err, state') := by
  change StateT.run (run (command >>= next)) state = _
  rw [ExceptT.run_bind, StateT.run_bind]
  unfold exec
  cases hRun : (StateT.run (run command) state) with
  | mk result state' =>
    cases result <;> rfl

----
-- Triples
----

/-
  From a state that meets `pre` the command returns a value
  with `post` or fails with `fail`.
-/
def Triple (pre : σ → Prop) (command : Command σ ε α) (post : α → σ → Prop)
    (fail : ε → σ → Prop) : Prop :=
  ∀ state, pre state → match exec command state with
    | (.ok value, state') => post value state'
    | (.error err, state') => fail err state'

namespace Triple

variable {pre : σ → Prop} {post : α → σ → Prop} {fail : ε → σ → Prop}

theorem pure {value : α} (hPost : ∀ state, pre state → post value state) :
    Triple pre (Pure.pure value : Command σ ε α) post fail := by
  intro state hPre
  exact hPost state hPre

theorem throw {err : ε} (hFail : ∀ state, pre state → fail err state) :
    Triple pre (MonadExcept.throw err : Command σ ε α) post fail := by
  intro state hPre
  exact hFail state hPre

theorem attempt {call : σ → Except δ α × σ} {onError : δ → ε}
    (hOk : ∀ state value state', pre state → call state = (.ok value, state') → post value state')
    (hError : ∀ state err state', pre state → call state = (.error err, state') →
      fail (onError err) state') : Triple pre (Command.attempt call onError) post fail := by
  intro state hPre
  rw [exec_attempt]
  cases hCall : call state with
  | mk result state' =>
    cases result with
    | ok value => exact hOk state value state' hPre hCall
    | error err => exact hError state err state' hPre hCall

theorem update {change : σ → σ} {post : Unit → σ → Prop}
    (hPost : ∀ state, pre state → post () (change state)) :
    Triple pre (Command.update change : Command σ ε Unit) post fail := by
  intro state hPre
  exact hPost state hPre

theorem read {value : σ → α} (hPost : ∀ state, pre state → post (value state) state) :
    Triple pre (Command.read value : Command σ ε α) post fail := by
  intro state hPre
  exact hPost state hPre

variable {command : Command σ ε α}

theorem bind {next : α → Command σ ε β} {post : β → σ → Prop} (middle : α → σ → Prop)
    (hFirst : Triple pre command middle fail)
    (hNext : ∀ value, Triple (middle value) (next value) post fail) :
    Triple pre (command >>= next) post fail := by
  intro state hPre
  have hMiddle := hFirst state hPre
  rw [exec_bind]
  cases hRun : exec command state with
  | mk result state' =>
    rw [hRun] at hMiddle
    cases result with
    | ok value => exact hNext value state' hMiddle
    | error err => exact hMiddle

variable {post' : α → σ → Prop} {fail' : ε → σ → Prop} {pre' : σ → Prop}

theorem conseq (hTriple : Triple pre command post fail) (hPre : ∀ state, pre' state → pre state)
    (hPost : ∀ value state, post value state → post' value state)
    (hFail : ∀ err state, fail err state → fail' err state) : Triple pre' command post' fail' := by
  intro state hPre'
  have hRun := hTriple state (hPre state hPre')
  cases hExec : exec command state with
  | mk result state' =>
    rw [hExec] at hRun
    cases result with
    | ok value => exact hPost value state' hRun
    | error err => exact hFail err state' hRun

/- Two triples of one command hold together. -/
theorem both (hLeft : Triple pre command post fail) (hRight : Triple pre' command post' fail') :
    Triple (fun state => pre state ∧ pre' state) command
      (fun value state => post value state ∧ post' value state)
      (fun err state => fail err state ∧ fail' err state) := by
  rintro state ⟨hPre, hPre'⟩
  have hRun := hLeft state hPre
  have hRun' := hRight state hPre'
  cases hExec : exec command state with
  | mk result state' =>
    rw [hExec] at hRun hRun'
    cases result with
    | ok value => exact ⟨hRun, hRun'⟩
    | error err => exact ⟨hRun, hRun'⟩

/-
  A fold keeps an invariant of the part of the list already
  handled and the accumulator.
-/
theorem foldlM {body : β → α → Command σ ε β} (invariant : List α → β → σ → Prop) (list : List α)
    (hBody : ∀ before item after acc, list = before ++ item :: after →
      Triple (invariant before acc) (body acc item) (invariant (before ++ [item])) fail)
    (acc : β) : Triple (invariant [] acc) (list.foldlM body acc) (invariant list) fail := by
  have hFrom : ∀ after before acc, list = before ++ after →
      Triple (invariant before acc) (after.foldlM body acc) (invariant list) fail := by
    intro after
    induction after with
    | nil =>
      intro before acc hSplit
      rw [List.append_nil] at hSplit
      subst hSplit
      exact .pure (fun _ h => h)
    | cons item after ih =>
      intro before acc hSplit
      refine .bind (invariant (before ++ [item])) (hBody before item after acc hSplit) ?_
      intro next
      exact ih (before ++ [item]) next (by simp [hSplit])
  exact hFrom list [] acc rfl

/-
  A loop with an invariant and a measure that decreases in
  each turn ends within the fuel that exceeds the measure.
-/
theorem iterate {body : α → Command σ ε (Option α)} (invariant : α → σ → Prop) (finished : α → Prop)
    (measure : α → Nat)
    (hBody : ∀ value, Triple (invariant value) (body value) (fun next state =>
            TurnPost (invariant value state ∧ finished value) (fun next =>
                invariant next state ∧ measure next < measure value)
              next)
          fail)
    (fuel : Nat) (value : α) (hFuel : measure value < fuel) :
    Triple (invariant value) (Command.iterate body fuel value) (fun result state =>
        ∃ last, result = some last ∧ invariant last state ∧ finished last)
      fail := by
  induction fuel generalizing value with
  | zero => omega
  | succ fuel ih =>
    refine .bind _ (hBody value) ?_
    intro next
    cases next with
    | none =>
      intro state hEnd
      exact ⟨value, rfl, hEnd.1, hEnd.2⟩
    | some next =>
      intro state hNext
      have hLess : measure next < measure value := hNext.2
      exact ih next (by omega) state hNext.1

end Triple

----
-- Frames
----

/- The command keeps a property, also when it fails. -/
def Keeps (kept : σ → Prop) (command : Command σ ε α) : Prop :=
  Triple kept command (fun _ => kept) (fun _ => kept)

namespace Keeps

variable {kept : σ → Prop}

theorem pure {value : α} : Keeps kept (Pure.pure value : Command σ ε α) :=
  Triple.pure (fun _ h => h)

theorem throw {err : ε} : Keeps kept (MonadExcept.throw err : Command σ ε α) :=
  Triple.throw (fun _ h => h)

variable {command : Command σ ε α}

theorem bind {next : α → Command σ ε β} (hFirst : Keeps kept command)
    (hNext : ∀ value, Keeps kept (next value)) : Keeps kept (command >>= next) :=
  Triple.bind (fun _ => kept) hFirst hNext

theorem update {change : σ → σ} (hChange : ∀ state, kept state → kept (change state)) :
    Keeps kept (Command.update change : Command σ ε Unit) :=
  Triple.update hChange

theorem read {value : σ → α} : Keeps kept (Command.read value : Command σ ε α) :=
  Triple.read (fun _ h => h)

theorem attempt {δ : Type} {call : σ → Except δ α × σ} {onError : δ → ε}
    (hCall : ∀ state, kept state → kept (call state).2) :
    Keeps kept (Command.attempt call onError) := by
  refine Triple.attempt ?_ ?_
  · intro state value state' hKept hRun
    have hAfter := hCall state hKept
    rwa [hRun] at hAfter
  · intro state err state' hKept hRun
    have hAfter := hCall state hKept
    rwa [hRun] at hAfter

theorem onlyIf {cond : Bool} {command : Command σ ε Unit} (hCommand : Keeps kept command) :
    Keeps kept (Command.onlyIf cond command) := by
  cases cond with
  | false => exact pure
  | true => exact hCommand

/- The state a kept command leaves, whatever it returns. -/
theorem exec (hCommand : Keeps kept command) (state : σ) (hKept : kept state) :
    kept (Command.exec command state).2 := by
  have hRun := hCommand state hKept
  cases hExec : Command.exec command state with
  | mk result state' =>
    rw [hExec] at hRun
    cases result with
    | ok value => exact hRun
    | error err => exact hRun

theorem outcome (hCommand : Keeps kept command) :
    Keeps kept (Command.outcome command : Command σ ε _) := by
  intro state hKept
  exact hCommand.exec state hKept

theorem mapError {command : Command σ δ α} {onError : δ → ε}
    (hCommand : Keeps kept command) : Keeps kept (Command.mapError command onError) :=
  attempt hCommand.exec

theorem foldlM {body : β → α → Command σ ε β} (list : List α)
    (hBody : ∀ acc, ∀ item ∈ list, Keeps kept (body acc item)) (acc : β) :
    Keeps kept (list.foldlM body acc) :=
  Triple.foldlM (fun _ _ => kept) list (fun _ item _ acc hSplit =>
      hBody acc item (by simp [hSplit]))
    acc

theorem forM {body : α → Command σ ε Unit} (list : List α)
    (hBody : ∀ item, Keeps kept (body item)) : Keeps kept (list.forM body) := by
  induction list with
  | nil => exact pure
  | cons item list ih => exact bind (hBody item) (fun _ => ih)

end Keeps

end Command
