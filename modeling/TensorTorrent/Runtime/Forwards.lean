import TensorTorrent.Library.Transition
import TensorTorrent.Runtime.ActivationSlots

/-
  This file models several forwards on one executor with
  buffer reuse (`_exec_compute` and `_collect_outputs` of
  `runtime/schedule_executor.py`). The slot buffers belong
  to the executor; each forward is a thread that publishes
  the outputs of its regions as views of these buffers and
  returns such views to its caller.

  Main declarations:
    * `Forwards.forwards_do_not_interfere`
-/

namespace TensorTorrent

open Option Transition
open Function (update update_of_ne update_self)

namespace Forwards

----
-- Tensors and Views
----

abbrev ForwardId := Nat

/- Bytes of a tensor and how they are laid out. -/
structure TensorValue where
  device : ResourceId
  dtype : String
  shape : List Nat
  bytes : Bytes
deriving DecidableEq

def TensorValue.like (value : TensorValue) : Like :=
  { nbytes := value.bytes.length, device := value.device }

/- What a region computes. -/
inductive Value where
| tensor (value : TensorValue)
| other (tag : Int)
deriving DecidableEq

/- The buffer of a slot with a generation. -/
abbrev BufferId := SlotId × Nat

/- A view over the first bytes of a slot's buffer. -/
structure View where
  slot : SlotId
  generation : Nat
  like : Like
  dtype : String
  shape : List Nat
deriving DecidableEq

variable (memory : BufferId → Bytes) (view : View)

def View.buffer : BufferId :=
  (view.slot, view.generation)

/- A published value: its own storage, or a view. -/
inductive Held where
| own (value : Value)
| view (view : View)
deriving DecidableEq

def readView : TensorValue :=
  { device := view.like.device, dtype := view.dtype, shape := view.shape
    bytes := (memory view.buffer).take view.like.nbytes }

def readHeld : Held → Value
| .own value => value
| .view view => .tensor (readView memory view)

----
-- Forwards
----

/- What the dispatcher makes a forward do, in its order. -/
inductive ForwardOp where
| compute (region : RegionId)
| release (tensor : TensorId)
deriving DecidableEq

/-
  A forward. `pending` are the outputs of the last region
  that are not published yet; for the first of them a slot
  buffer may be chosen, and then written. After the forward
  has returned, `held` are the tensors its caller has.
-/
structure Forward where
  enableGrad : Bool
  ops : List ForwardOp
  held : TensorId → Option Held
  resource : ResourceId
  pending : List (TensorId × Value)
  chosen : Option View
  written : Bool
  returned : Bool

namespace Forward

def start (enableGrad : Bool) (inputs : List (TensorId × Value)) (ops : List ForwardOp) : Forward :=
  { enableGrad := enableGrad, ops := ops
    held := fun tensor => (inputs.lookup tensor).map .own
    resource := "", pending := [], chosen := none, written := false, returned := false }

/- A raise drops the context of the forward. -/
def fail (fwd : Forward) : Forward :=
  { fwd with
    ops := []
    held := fun _ => none
    pending := [], chosen := none, written := false, returned := true }

end Forward

/- The fixed data of an executor; region bodies are pure. -/
structure Setup where
  program : RegionProgram
  device : RegionId → ResourceId
  callable : RegionId → List Value → Option (List Value)

/-
  An executor with its forwards. `users` tells which
  forwards have acquired a slot so far.
-/
structure State where
  allocator : ActivationAllocator
  memory : BufferId → Bytes
  users : SlotId → List ForwardId
  forwards : ForwardId → Option Forward

namespace State

/- No buffer yet; new memory holds arbitrary bytes. -/
def new (memory : BufferId → Bytes) : State :=
  { allocator := .new, memory := memory
    users := fun _ => []
    forwards := fun _ => none }

variable (s : State) (f : ForwardId)

def setForward (fwd : Forward) : State :=
  { s with forwards := update s.forwards f (some fwd) }

/- A tensor that a forward, or its caller, holds. -/
def value (tensor : TensorId) : Option Value :=
  ((s.forwards f).bind (fun fwd => fwd.held tensor)).map (readHeld s.memory)

end State

----
-- Steps
----

/- What a forward does next. -/
inductive Action where
| call (region : RegionId)
| keep (out : TensorId) (value : Value)
| choose (slot : SlotId) (value : TensorValue)
| write (view : View) (value : TensorValue)
| publish (out : TensorId) (view : View)
| release (tensor : TensorId)
| finish
deriving DecidableEq

section Actions

variable (setup : Setup) (s : State) (memory : BufferId → Bytes) (fwd : Forward) (out : TensorId)

/- Autograd may hold tensors that a reuse would overwrite. -/
def Forward.slotFor : Option SlotId :=
  if fwd.enableGrad then none
  else reuseAssignment setup.program out

/- Publishing comes first, then the dispatcher's next op. -/
def Forward.action : Option Action :=
  match fwd.pending, fwd.chosen with
  | (out, .other tag) :: _, none => some (.keep out (.other tag))
  | (out, .tensor value) :: _, none =>
    match fwd.slotFor setup out with
    | none => some (.keep out (.tensor value))
    | some slot => some (.choose slot value)
  | (out, .tensor value) :: _, some view =>
    if fwd.written then some (.publish out view)
    else some (.write view value)
  | (_, .other _) :: _, some _ => none
  | [], _ =>
    match fwd.ops with
    | .compute region :: _ => some (.call region)
    | .release tensor :: _ => some (.release tensor)
    | [] => if fwd.returned then none else some .finish

/- The region body gets the values its inputs have now. -/
def Forward.called (id : RegionId) : Forward :=
  match setup.program.region id with
  | none => fwd.fail
  | some region =>
    match (region.inputs.mapM (fun tensor =>
      (fwd.held tensor).map (readHeld memory))).bind (setup.callable id) with
    | none => fwd.fail
    | some outs =>
      if outs.length = region.outputs.length then
        { fwd with
          ops := fwd.ops.tail, resource := setup.device id, pending := region.outputs.zip outs }
      else fwd.fail

def Forward.publish (held : Held) : Forward :=
  { fwd with
    held := update fwd.held out (some held), pending := fwd.pending.tail, chosen := none
    written := false }

/- Only the outputs of the model leave the context. -/
def Forward.finish : Forward :=
  if setup.program.graphOutputs.all (fun tensor => (fwd.held tensor).isSome) then
    { fwd with
      held := fun tensor =>
        if tensor ∈ setup.program.graphOutputs then
          fwd.held tensor
        else none
      returned := true }
  else fwd.fail

/- The view that `acquire` makes for a tensor. -/
def chosenView (allocator : ActivationAllocator) (slot : SlotId) (value : TensorValue) : View :=
  { slot := slot, generation := (allocator.pick slot value.like).generation, like := value.like
    dtype := value.dtype, shape := value.shape }

/- `view.copy_(like)`. -/
def writeView (view : View) (value : TensorValue) : BufferId → Bytes :=
  update memory view.buffer (value.bytes ++ (memory view.buffer).drop value.bytes.length)

/- A mock resource wraps a copy of the bytes. -/
def wrap (resource : ResourceId) (view : View) : Held :=
  if isMock resource then .own (.tensor (readView memory view))
  else .view view

def perform (f : ForwardId) (fwd : Forward) : Action → State
| .call region => s.setForward f (fwd.called setup s.memory region)
| .keep out value => s.setForward f (fwd.publish out (.own value))
| .choose slot value =>
  { s.setForward f { fwd with chosen := some (chosenView s.allocator slot value) } with
    allocator := s.allocator.acquire slot value.like
    users := update s.users slot (f :: s.users slot) }
| .write view value =>
  { s.setForward f { fwd with written := true } with memory := writeView s.memory view value }
| .publish out view => s.setForward f (fwd.publish out (wrap s.memory fwd.resource view))
| .release tensor =>
  s.setForward f { fwd with ops := fwd.ops.tail, held := update fwd.held tensor none }
| .finish => s.setForward f (fwd.finish setup)

/-
  A call of the executor, one step of a forward, or the end
  of one: cancelled, or its outputs dropped by the caller.
-/
inductive Event where
| start (f : ForwardId) (enableGrad : Bool) (inputs : List (TensorId × Value))
    (ops : List ForwardOp)
| advance (f : ForwardId)
| drop (f : ForwardId)
deriving DecidableEq

def Event.forward : Event → ForwardId
| .start f _ _ _ => f
| .advance f => f
| .drop f => f

def step : Event → Option State
| .start f enableGrad inputs ops =>
  match s.forwards f with
  | none => some (s.setForward f (.start enableGrad inputs ops))
  | some _ => none
| .advance f => (s.forwards f).bind (fun fwd => (fwd.action setup).map (perform setup s f fwd))
| .drop f => (s.forwards f).map (fun fwd => s.setForward f fwd.fail)

end Actions

----
-- Views of a Forward
----

/- What every action of a forward says about it. -/
def ActionSpec (fwd : Forward) : Action → Prop
| .call _ => fwd.pending = []
| .keep _ _ => fwd.chosen = none
| .choose _ value => fwd.chosen = none ∧ ∃ out rest, fwd.pending = (out, .tensor value) :: rest
| .write view value =>
  fwd.chosen = some view ∧ ∃ out rest, fwd.pending = (out, .tensor value) :: rest
| .publish _ view => fwd.chosen = some view ∧ fwd.written = true
| .release _ => fwd.pending = []
| .finish => fwd.pending = []

variable {setup : Setup} {fwd : Forward}

theorem action_spec {action : Action} (hAction : fwd.action setup = some action) :
    ActionSpec fwd action := by
  unfold Forward.action at hAction
  split at hAction
  · next hPending hChosen =>
    cases hAction
    exact hChosen
  · next hPending hChosen =>
    split at hAction <;> cases hAction
    · exact hChosen
    · exact ⟨hChosen, _, _, hPending⟩
  · next hPending hChosen =>
    split at hAction <;> cases hAction
    · next hWritten => exact ⟨hChosen, hWritten⟩
    · exact ⟨hChosen, _, _, hPending⟩
  · cases hAction
  · next hPending =>
    repeat' split at hAction
    all_goals cases hAction
    all_goals exact hPending

/- Who has a view: a published tensor, or the choice. -/
abbrev Owner := Option TensorId

def Forward.viewAt (fwd : Forward) : Owner → Option View
| none => fwd.chosen
| some tensor =>
  match fwd.held tensor with
  | some (.view view) => some view
  | _ => none

open Forward (viewAt)
variable {view : View} {tensor : TensorId}

theorem viewAt_held (hHeld : fwd.held tensor = some (.view view)) :
    fwd.viewAt (some tensor) = some view := by
  simp [viewAt, hHeld]

def State.viewOf (s : State) (f : ForwardId) (owner : Owner) : Option View :=
  (s.forwards f).bind (fun fwd => fwd.viewAt owner)

variable {s : State} {f : ForwardId}

theorem viewOf_eq (hForward : s.forwards f = some fwd) (owner : Owner) :
    s.viewOf f owner = fwd.viewAt owner := by
  simp [State.viewOf, hForward]

theorem viewOf_held (hForward : s.forwards f = some fwd)
    (hHeld : fwd.held tensor = some (.view view)) : s.viewOf f (some tensor) = some view := by
  rw [viewOf_eq hForward, viewAt_held hHeld]

/-
  The views of a forward after a step that makes no new
  ones: each was there before, maybe under another owner.
-/
structure Passes (back : Owner → Owner) (before after : Forward) : Prop where
  old : ∀ owner view, after.viewAt owner = some view → before.viewAt (back owner) = some view
  injective : ∀ o o' v v', after.viewAt o = some v →
    after.viewAt o' = some v' → back o = back o' → o = o'

theorem Passes.viewOf {back : Owner → Owner} {after : Forward} (hPasses : Passes back fwd after)
    (hForward : s.forwards f = some fwd) {owner : Owner} (hView : after.viewAt owner = some view) :
    s.viewOf f (back owner) = some view := by
  rw [viewOf_eq hForward]
  exact hPasses.old owner view hView

/- Some tensors are dropped. -/
theorem passes_of_subset {before after : Forward}
    (hOld : ∀ owner view, after.viewAt owner = some view → before.viewAt owner = some view) :
    Passes id before after :=
  ⟨hOld, fun _ _ _ _ _ _ h => h⟩

theorem fail_viewAt (fwd : Forward) (owner : Owner) : fwd.fail.viewAt owner = none := by
  cases owner <;> rfl

theorem passes_fail (fwd : Forward) : Passes id fwd fwd.fail := by
  apply passes_of_subset
  intro owner view hView
  rw [fail_viewAt] at hView
  cases hView

theorem passes_called (setup : Setup) (memory : BufferId → Bytes) (fwd : Forward)
    (region : RegionId) : Passes id fwd (fwd.called setup memory region) := by
  unfold Forward.called
  split
  · exact passes_fail fwd
  split
  · exact passes_fail fwd
  split
  · apply passes_of_subset
    intro owner view hView
    cases owner <;> exact hView
  · exact passes_fail fwd

theorem passes_release (fwd : Forward) (tensor : TensorId) : Passes id fwd
    { fwd with
      ops := fwd.ops.tail
      held := update fwd.held tensor none } := by
  apply passes_of_subset
  intro owner view hView
  cases owner with
  | none => exact hView
  | some other =>
    by_cases hSame : other = tensor
    · subst hSame
      simp [viewAt] at hView
    · simpa [viewAt, update_of_ne hSame] using hView

theorem passes_finish (setup : Setup) (fwd : Forward) : Passes id fwd (fwd.finish setup) := by
  unfold Forward.finish
  split
  · apply passes_of_subset
    intro owner view hView
    cases owner with
    | none => exact hView
    | some tensor =>
      simp only [viewAt] at hView ⊢
      split at hView
      · next hHeld =>
        split at hHeld
        · rw [hHeld]
          exact hView
        · cases hHeld
      · cases hView
  · exact passes_fail fwd

/- The choice becomes the published tensor. -/
def publishedFrom (out : TensorId) (owner : Owner) : Owner :=
  if owner = some out then none else owner

theorem publish_viewAt_same (fwd : Forward) (out : TensorId) (held : Held) :
    (fwd.publish out held).viewAt (some out) = match held with
      | .view view => some view
      | .own _ => none := by
  cases held <;> simp [Forward.publish, viewAt]

theorem publish_viewAt_other (fwd : Forward) (held : Held) {out : TensorId} (hNe : tensor ≠ out) :
    (fwd.publish out held).viewAt (some tensor) = fwd.viewAt (some tensor) := by
  simp [Forward.publish, viewAt, update_of_ne hNe]

theorem passes_publish (out : TensorId) {held : Held}
    (hHeld : ∀ view, held = .view view → fwd.chosen = some view) :
    Passes (publishedFrom out) fwd (fwd.publish out held) := by
  have hNone : (fwd.publish out held).viewAt none = none := rfl
  constructor
  · intro owner view hView
    cases owner with
    | none => cases hNone ▸ hView
    | some tensor =>
      by_cases hSame : tensor = out
      · subst hSame
        rw [publish_viewAt_same] at hView
        rw [publishedFrom, if_pos rfl]
        cases held with
        | own value => cases hView
        | view chosen =>
          cases hView
          exact hHeld view rfl
      · rw [publish_viewAt_other fwd held hSame] at hView
        rw [publishedFrom, if_neg (by simpa using hSame)]
        exact hView
  · intro o o' v v' hO hO' hBack
    have hSome : ∀ owner view, (fwd.publish out held).viewAt owner = some view → owner ≠ none := by
      rintro owner view hView rfl
      cases hNone ▸ hView
    unfold publishedFrom at hBack
    split at hBack
    · split at hBack
      · simp_all
      · exact absurd hBack.symm (hSome o' v' hO')
    · split at hBack
      · exact absurd hBack (hSome o v hO)
      · exact hBack

theorem passes_wrap {memory : BufferId → Bytes} {resource : ResourceId} (out : TensorId)
    (hChosen : fwd.chosen = some view) :
    Passes (publishedFrom out) fwd (fwd.publish out (wrap memory resource view)) := by
  apply passes_publish
  intro v hHeld
  unfold wrap at hHeld
  split at hHeld
  · cases hHeld
  · cases hHeld
    exact hChosen

/- A step either passes the views on or chooses one. -/
theorem perform_views (s : State) (f : ForwardId) {action : Action}
    (hAction : fwd.action setup = some action) :
    (∃ after back, (perform setup s f fwd action).forwards = update s.forwards f (some after) ∧
      Passes back fwd after) ∨ ∃ slot value, action = .choose slot value := by
  have hSpec := action_spec hAction
  cases action with
  | call region => exact .inl ⟨_, id, rfl, passes_called setup s.memory fwd region⟩
  | keep out value => exact .inl ⟨_, _, rfl, passes_publish out (fun _ h => nomatch h)⟩
  | choose slot value => exact .inr ⟨slot, value, rfl⟩
  | write view value =>
    refine .inl ⟨_, id, rfl, passes_of_subset ?_⟩
    intro owner v hView
    cases owner <;> exact hView
  | publish out view => exact .inl ⟨_, _, rfl, passes_wrap out hSpec.1⟩
  | release tensor => exact .inl ⟨_, id, rfl, passes_release fwd tensor⟩
  | finish => exact .inl ⟨_, id, rfl, passes_finish setup fwd⟩

----
-- Forwards on Separate Buffers
----

/- No other forward has acquired the slot so far. -/
def Exclusive (s : State) (f : ForwardId) (slot : SlotId) : Prop :=
  ∀ g ∈ s.users slot, g = f

/-
  A forward may take a slot that only it has used, or one
  of which it holds no tensor, unless that would overwrite
  a buffer on which another forward has a view.
-/
def Undisturbed (setup : Setup) (s : State) : Event → Prop
| .advance f =>
  ∀ fwd slot value, s.forwards f = some fwd → fwd.action setup = some (.choose slot value) →
    Exclusive s f slot ∨ (∀ owner view, fwd.viewAt owner = some view → view.slot ≠ slot) ∧
      (s.allocator.reuses slot value.like = true → ∀ g owner view, g ≠ f →
        s.viewOf g owner = some view → view.buffer ≠ (chosenView s.allocator slot value).buffer)
| _ => True

/- Two forwards never have views on one buffer. -/
structure Separated (s : State) : Prop where
  bounded : ∀ f owner view, s.viewOf f owner = some view →
    ∃ buffer, s.allocator.buffers view.slot = some buffer ∧ view.generation ≤ buffer.generation
  known : ∀ f owner view, s.viewOf f owner = some view → f ∈ s.users view.slot
  apart : ∀ f g o o' v w, f ≠ g → s.viewOf f o = some v → s.viewOf g o' = some w →
    v.buffer ≠ w.buffer

theorem Separated.new (memory : BufferId → Bytes) : Separated (.new memory) := by
  constructor
  · intro f owner view hView
    cases hView
  · intro f owner view hView
    cases hView
  · intro f g o o' v w _ hView
    cases hView

section Steps

variable {setup : Setup} {s s' : State} {f : ForwardId} {fwd after : Forward}

section Passed

variable (hSeparated : Separated s) (hAllocator : s'.allocator = s.allocator)
variable (hUsers : s'.users = s.users)
variable (hForwards : s'.forwards = update s.forwards f (some after))

include hSeparated hAllocator hUsers in
/- Every view was one of the same forward before. -/
theorem Separated.of_old (hOld : ∀ g owner view, s'.viewOf g owner = some view →
    ∃ owner', s.viewOf g owner' = some view) : Separated s' := by
  constructor
  · intro g owner view hView
    rcases hOld g owner view hView with ⟨owner', hBefore⟩
    rw [hAllocator]
    exact hSeparated.bounded g owner' view hBefore
  · intro g owner view hView
    rcases hOld g owner view hView with ⟨owner', hBefore⟩
    rw [hUsers]
    exact hSeparated.known g owner' view hBefore
  · intro g h o o' v w hNe hV hW
    rcases hOld g o v hV with ⟨p, hV'⟩
    rcases hOld h o' w hW with ⟨p', hW'⟩
    exact hSeparated.apart g h p p' v w hNe hV' hW'

include hForwards

theorem viewOf_same (owner : Owner) : s'.viewOf f owner = after.viewAt owner := by
  simp [State.viewOf, hForwards]

theorem viewOf_other {g : ForwardId} (hNe : g ≠ f) (owner : Owner) :
    s'.viewOf g owner = s.viewOf g owner := by
  simp [State.viewOf, hForwards, update_of_ne hNe]

include hSeparated hAllocator hUsers in
theorem Separated.pass (hViews : ∀ owner view, after.viewAt owner = some view →
    ∃ owner', s.viewOf f owner' = some view) : Separated s' := by
  apply hSeparated.of_old hAllocator hUsers
  intro g owner view hView
  by_cases hSame : g = f
  · subst hSame
    rw [viewOf_same hForwards] at hView
    exact hViews owner view hView
  · rw [viewOf_other hForwards hSame] at hView
    exact ⟨owner, hView⟩

end Passed

/- A forward without views disturbs nobody. -/
theorem Separated.setForward (hSeparated : Separated s) (f : ForwardId)
    (hNone : ∀ owner, after.viewAt owner = none) : Separated (s.setForward f after) := by
  refine hSeparated.pass rfl rfl rfl ?_
  intro owner view hView
  cases (hNone owner).symm.trans hView

/- Only a choice touches the slots. -/
theorem perform_allocator (setup : Setup) (s : State) (f : ForwardId) (fwd : Forward)
    {action : Action} (hOther : ∀ slot value, action ≠ .choose slot value) :
    (perform setup s f fwd action).allocator = s.allocator ∧
      (perform setup s f fwd action).users = s.users := by
  cases action with
  | choose slot value => exact absurd rfl (hOther slot value)
  | _ => exact ⟨rfl, rfl⟩

variable {g : ForwardId} {slot : SlotId} {value : TensorValue} {allocator : ActivationAllocator}
variable {buffer : SlotBuffer}

/- A buffer that is not reused is a new one. -/
theorem chosenView_fresh (hNew : allocator.reuses slot value.like = false)
    (hBuffer : allocator.buffers slot = some buffer) :
    buffer.generation < (chosenView allocator slot value).generation := by
  simp [chosenView, ActivationAllocator.pick, hBuffer, hNew]

theorem pick_generation_le {like : Like} (hBuffer : allocator.buffers slot = some buffer) :
    buffer.generation ≤ (allocator.pick slot like).generation := by
  simp only [ActivationAllocator.pick, hBuffer]
  split
  · exact le_rfl
  · exact Nat.le_succ _

section Choice

variable (hSeparated : Separated s)
variable (hFree : Exclusive s f slot ∨ (s.allocator.reuses slot value.like = true →
    ∀ g owner view, g ≠ f → s.viewOf g owner = some view →
      view.buffer ≠ (chosenView s.allocator slot value).buffer))

include hSeparated hFree

/- The chosen buffer is on no other forward's views. -/
theorem chosenView_apart (hNe : g ≠ f) {owner : Owner} (hView : s.viewOf g owner = some view) :
    view.buffer ≠ (chosenView s.allocator slot value).buffer := by
  intro hSame
  have hSlot : view.slot = slot := congrArg Prod.fst hSame
  have hGeneration : view.generation = (chosenView s.allocator slot value).generation :=
    congrArg Prod.snd hSame
  rcases hFree with hExclusive | hFree
  · have hKnown := hSeparated.known g owner view hView
    rw [hSlot] at hKnown
    exact hNe (hExclusive g hKnown)
  · cases hReuses : s.allocator.reuses slot value.like with
    | true => exact hFree hReuses g owner view hNe hView hSame
    | false =>
      rcases hSeparated.bounded g owner view hView with ⟨buffer, hBuffer, hLe⟩
      rw [hSlot] at hBuffer
      have hLess := chosenView_fresh hReuses hBuffer
      omega

theorem Separated.choose (hForward : s.forwards f = some fwd) :
    Separated (perform setup s f fwd (.choose slot value)) := by
  set next := perform setup s f fwd (.choose slot value) with hNext
  set chosen := chosenView s.allocator slot value
  have hForwards : next.forwards = update s.forwards f
    (some { fwd with chosen := some chosen }) := rfl
  -- A view is an old one of its forward or the chosen one.
  have hViews : ∀ g owner view, next.viewOf g owner = some view →
      s.viewOf g owner = some view ∨ g = f ∧ view = chosen := by
    intro g owner view hView
    by_cases hSame : g = f
    · subst hSame
      rw [viewOf_same hForwards] at hView
      cases owner with
      | none =>
        cases hView
        exact .inr ⟨rfl, rfl⟩
      | some tensor =>
        rw [viewOf_eq hForward]
        exact .inl hView
    · rw [viewOf_other hForwards hSame] at hView
      exact .inl hView
  constructor
  · intro g owner view hView
    rcases hViews g owner view hView with hOld | ⟨_, rfl⟩
    · rcases hSeparated.bounded g owner view hOld with ⟨buffer, hBuffer, hLe⟩
      by_cases hSlot : view.slot = slot
      · rw [hSlot] at hBuffer ⊢
        refine ⟨_, update_self _ _ _, ?_⟩
        exact hLe.trans (pick_generation_le hBuffer)
      · refine ⟨buffer, ?_, hLe⟩
        exact (update_of_ne hSlot _ _).trans hBuffer
    · exact ⟨_, update_self _ _ _, le_rfl⟩
  · intro g owner view hView
    rcases hViews g owner view hView with hOld | ⟨rfl, rfl⟩
    · have hKnown := hSeparated.known g owner view hOld
      by_cases hSlot : view.slot = slot
      · rw [hSlot] at hKnown ⊢
        simp [hNext, perform, hKnown]
      · have hUsers : next.users view.slot = s.users view.slot := update_of_ne hSlot _ _
        rw [hUsers]
        exact hKnown
    · simp [hNext, perform, chosen, chosenView]
  · intro g h o o' v w hNe hV hW
    rcases hViews g o v hV with hOldV | ⟨rfl, rfl⟩
    · rcases hViews h o' w hW with hOldW | ⟨rfl, rfl⟩
      · exact hSeparated.apart g h o o' v w hNe hOldV hOldW
      · exact chosenView_apart hSeparated hFree hNe hOldV
    · rcases hViews h o' w hW with hOldW | ⟨hSame, _⟩
      · exact (chosenView_apart hSeparated hFree (Ne.symm hNe) hOldW).symm
      · exact absurd hSame.symm hNe

end Choice

theorem start_viewAt (enableGrad : Bool) (inputs : List (TensorId × Value)) (ops : List ForwardOp)
    (owner : Owner) : (Forward.start enableGrad inputs ops).viewAt owner = none := by
  cases owner with
  | none => rfl
  | some tensor =>
    simp only [viewAt, Forward.start]
    cases inputs.lookup tensor <;> rfl

/- A forward starts or ends, or does its next action. -/
theorem step_cases {event : Event} (hStep : step setup s event = some s') :
    (∃ fwd, s' = s.setForward event.forward fwd ∧ ∀ owner, fwd.viewAt owner = none) ∨
      ∃ f fwd action, event = .advance f ∧ s.forwards f = some fwd ∧
        fwd.action setup = some action ∧ s' = perform setup s f fwd action := by
  cases event with
  | start f enableGrad inputs ops =>
    simp only [Forwards.step] at hStep
    split at hStep
    · cases hStep
      exact .inl ⟨_, rfl, start_viewAt enableGrad inputs ops⟩
    · cases hStep
  | drop f =>
    simp only [Forwards.step, map_eq_some_iff] at hStep
    rcases hStep with ⟨fwd, _, rfl⟩
    exact .inl ⟨_, rfl, fail_viewAt fwd⟩
  | advance f =>
    simp only [Forwards.step, bind_eq_some_iff, map_eq_some_iff] at hStep
    rcases hStep with ⟨fwd, hForward, action, hAction, rfl⟩
    exact .inr ⟨f, fwd, action, rfl, hForward, hAction, rfl⟩

/- Undisturbed steps keep the forwards separate. -/
theorem Separated.step (hSeparated : Separated s) (event : Event)
    (hAllowed : Undisturbed setup s event) (hStep : step setup s event = some s') :
    Separated s' := by
  rcases step_cases hStep with ⟨fwd, rfl, hNone⟩ | ⟨f, fwd, action, rfl, hForward, hAction, rfl⟩
  · exact hSeparated.setForward _ hNone
  by_cases hChoice : ∃ slot value, action = .choose slot value
  · rcases hChoice with ⟨slot, value, rfl⟩
    apply hSeparated.choose _ hForward
    exact (hAllowed fwd slot value hForward hAction).imp_right And.right
  · rcases perform_views s f hAction with ⟨after, back, hForwards, hPasses⟩ | hChosen
    · have hSlots := perform_allocator setup s f fwd (fun slot value h => hChoice ⟨slot, value, h⟩)
      apply hSeparated.pass hSlots.1 hSlots.2 hForwards
      exact fun owner view hView => ⟨back owner, hPasses.viewOf hForward hView⟩
    · exact absurd hChosen hChoice

end Steps

----
-- The Same Forward on Two Executors
----

/- Views that differ at most in the buffer's generation. -/
structure View.Same (v w : View) : Prop where
  slot : v.slot = w.slot
  like : v.like = w.like
  dtype : v.dtype = w.dtype
  shape : v.shape = w.shape

variable {m m' n n' : BufferId → Bytes}

/- What two views with the same bytes show. -/
theorem View.Same.read {v w : View} (hSame : v.Same w)
    (hBytes : (m v.buffer).take v.like.nbytes = (m' w.buffer).take v.like.nbytes) :
    readView m v = readView m' w := by
  unfold readView
  rw [hBytes, hSame.like, hSame.dtype, hSame.shape]

/- The same value, in its own storage or through views. -/
inductive HeldAlike (m m' : BufferId → Bytes) : Option Held → Option Held → Prop
| none : HeldAlike m m' none none
| own (value : Value) : HeldAlike m m' (some (.own value)) (some (.own value))
| view {v w : View} (hSame : v.Same w)
    (hRead : readView m v = readView m' w) : HeldAlike m m' (some (.view v)) (some (.view w))

theorem HeldAlike.read {a b : Option Held} (hAlike : HeldAlike m m' a b) :
    a.map (readHeld m) = b.map (readHeld m') := by
  cases hAlike with
  | none => rfl
  | own value => rfl
  | view hSame hRead => simp [readHeld, hRead]

/- Views that read alike before read alike after. -/
theorem HeldAlike.imp {a b : Option Held} (hAlike : HeldAlike m m' a b)
    (hRead : ∀ v w, a = some (.view v) → b = some (.view w) → v.Same w →
      readView m v = readView m' w → readView n v = readView n' w) : HeldAlike n n' a b := by
  cases hAlike with
  | none => exact .none
  | own value => exact .own value
  | view hSame hBefore => exact .view hSame (hRead _ _ rfl rfl hSame hBefore)

/-
  The choices of a forward. They fit the output that will
  be written, and show the same bytes once it is.
-/
inductive ChosenAlike (m m' : BufferId → Bytes) (pending : List (TensorId × Value))
    (written : Bool) : Option View → Option View → Prop
| none (hUnwritten : written = false) : ChosenAlike m m' pending written none none
| some {v w : View} {out : TensorId} {value : TensorValue} {rest : List (TensorId × Value)}
    (hSame : v.Same w) (hPending : pending = (out, .tensor value) :: rest)
    (hLike : v.like = value.like) (hRead : written = true → readView m v = readView m' w) :
    ChosenAlike m m' pending written (some v) (some w)

/- Two forwards at the same point, whatever they hold. -/
structure SameControl (F G : Forward) : Prop where
  enableGrad : F.enableGrad = G.enableGrad
  ops : F.ops = G.ops
  resource : F.resource = G.resource
  pending : F.pending = G.pending
  written : F.written = G.written
  returned : F.returned = G.returned

/- One forward on two executors. -/
structure ForwardAlike (m m' : BufferId → Bytes) (F G : Forward) : Prop where
  control : SameControl F G
  held : ∀ tensor, HeldAlike m m' (F.held tensor) (G.held tensor)
  chosen : ChosenAlike m m' F.pending F.written F.chosen G.chosen

/- On both executors the views of the slot agree. -/
def Coupled (s t : State) (f : ForwardId) (slot : SlotId) : Prop :=
  ∀ owner v w, s.viewOf f owner = some v → t.viewOf f owner = some w → v.slot = slot →
    v = w ∧ s.memory v.buffer = t.memory v.buffer

/- The forward has at most one view of the slot. -/
def Alone (s : State) (f : ForwardId) (slot : SlotId) : Prop :=
  ∀ o o' v v', s.viewOf f o = some v → s.viewOf f o' = some v' →
    v.slot = slot → v'.slot = slot → o = o'

/-
  A slot that only this forward has used is the same on
  both executors. In a slot that others use as well, the
  forward's views agree, or there is only one.
-/
structure SlotAlike (s t : State) (f : ForwardId) (slot : SlotId) : Prop where
  exclusive : Exclusive s f slot → s.allocator.buffers slot = t.allocator.buffers slot ∧
    ∀ generation, s.memory (slot, generation) = t.memory (slot, generation)
  views : Coupled s t f slot ∨ Alone s f slot ∧ ¬ Exclusive s f slot

/- A forward among others and the same forward alone. -/
structure Alike (f : ForwardId) (s t : State) : Prop where
  separated : Separated s
  forward : Option.Rel (ForwardAlike s.memory t.memory) (s.forwards f) (t.forwards f)
  slots : ∀ slot, SlotAlike s t f slot

theorem Alike.value {s t : State} (hAlike : Alike f s t) (tensor : TensorId) :
    s.value f tensor = t.value f tensor := by
  have hForward := hAlike.forward
  unfold State.value
  generalize s.forwards f = a at hForward
  generalize t.forwards f = b at hForward
  cases hForward with
  | none => rfl
  | some hBoth => exact (hBoth.held tensor).read

theorem Alike.new (f : ForwardId) (memory : BufferId → Bytes) :
    Alike f (.new memory) (.new memory) := by
  refine ⟨.new memory, .none, ?_⟩
  intro slot
  refine ⟨fun _ => ⟨rfl, fun _ => rfl⟩, Or.inl ?_⟩
  intro owner v w hV
  cases hV

----
-- Steps of Other Forwards
----

/- What the step of a forward leaves as it is. -/
structure Frame (g : ForwardId) (s s' : State) : Prop where
  forwards : ∀ f, f ≠ g → s'.forwards f = s.forwards f
  users : ∀ slot, ∀ f ∈ s.users slot, f ∈ s'.users slot
  slots : ∀ slot, g ∈ s'.users slot ∨ s'.allocator.buffers slot = s.allocator.buffers slot
  memory : ∀ buffer, s'.memory buffer = s.memory buffer ∨
    ∃ owner view, s.viewOf g owner = some view ∧ view.buffer = buffer

theorem frame_setForward (s : State) (g : ForwardId) (fwd : Forward) :
    Frame g s (s.setForward g fwd) :=
  { forwards := fun _ hNe => update_of_ne hNe _ _
    users := fun _ _ h => h
    slots := fun _ => Or.inr rfl
    memory := fun _ => Or.inl rfl }

theorem frame_perform {g : ForwardId} (hForward : s.forwards g = some fwd) {action : Action}
    (hAction : fwd.action setup = some action) : Frame g s (perform setup s g fwd action) := by
  have hSpec := action_spec hAction
  cases action with
  | choose slot value =>
    refine
      { forwards := fun _ hNe =>
          update_of_ne hNe _ _
        users := ?_, slots := ?_
        memory := fun _ => Or.inl rfl }
    · intro other f hF
      by_cases hSame : other = slot
      · subst hSame
        simp [perform, hF]
      · simpa [perform, update_of_ne hSame] using hF
    · intro other
      by_cases hSame : other = slot
      · subst hSame
        exact .inl (by simp [perform])
      · exact .inr (update_of_ne hSame _ _)
  | write view value =>
    refine
      { forwards := fun _ hNe =>
          update_of_ne hNe _ _
        users := fun _ _ h => h
        slots := fun _ => Or.inr rfl
        memory := ?_ }
    intro buffer
    by_cases hSame : buffer = view.buffer
    · refine .inr ⟨none, view, ?_, hSame.symm⟩
      rw [viewOf_eq hForward]
      exact hSpec.1
    · exact .inl (update_of_ne hSame _ _)
  | _ => exact frame_setForward s g _

variable {event : Event}

theorem frame_step {s s' : State} (hStep : step setup s event = some s') :
    Frame event.forward s s' := by
  rcases step_cases hStep with ⟨fwd, rfl, _⟩ | ⟨f, fwd, action, rfl, hForward, hAction, rfl⟩
  · exact frame_setForward s _ fwd
  · exact frame_perform hForward hAction

/- Equal bytes under its views keep a forward alike. -/
theorem ForwardAlike.congr_memory {F G : Forward} (hAlike : ForwardAlike m m' F G)
    (hLeft : ∀ owner view, F.viewAt owner = some view → n view.buffer = m view.buffer)
    (hRight : ∀ owner view, G.viewAt owner = some view → n' view.buffer = m' view.buffer) :
    ForwardAlike n n' F G := by
  have hReadLeft : ∀ owner view, F.viewAt owner = some view →
      readView n view = readView m view := by
    intro owner view hView
    unfold readView
    rw [hLeft owner view hView]
  have hReadRight : ∀ owner view, G.viewAt owner = some view →
      readView n' view = readView m' view := by
    intro owner view hView
    unfold readView
    rw [hRight owner view hView]
  refine ⟨hAlike.control, ?_, ?_⟩
  · intro tensor
    refine (hAlike.held tensor).imp (fun v w hA hB _ hRead => ?_)
    rw [hReadLeft _ v (viewAt_held hA), hReadRight _ w (viewAt_held hB)]
    exact hRead
  · have hChosen := hAlike.chosen
    generalize hV : F.chosen = a at hChosen
    generalize hW : G.chosen = b at hChosen
    cases hChosen with
    | none hUnwritten => exact .none hUnwritten
    | some hSame hPending hLike hRead =>
      refine .some hSame hPending hLike ?_
      intro hWritten
      rw [hReadLeft none _ hV, hReadRight none _ hW]
      exact hRead hWritten

/- Whatever another forward does, this one goes on alike. -/
theorem Alike.other_step {s s' t : State} (hAlike : Alike f s t) (hOther : event.forward ≠ f)
    (hAllowed : Undisturbed setup s event) (hStep : step setup s event = some s') :
    Alike f s' t := by
  have hFrame := frame_step hStep
  have hForward : s'.forwards f = s.forwards f := hFrame.forwards f (Ne.symm hOther)
  have hViews : ∀ owner, s'.viewOf f owner = s.viewOf f owner := by
    simp [State.viewOf, hForward]
  -- The other forward writes to none of our buffers.
  have hMemory : ∀ owner view, s.viewOf f owner = some view →
      s'.memory view.buffer = s.memory view.buffer := by
    intro owner view hView
    rcases hFrame.memory view.buffer with hSame | ⟨owner', other, hTheirs, hBuffer⟩
    · exact hSame
    · exact absurd hBuffer (hAlike.separated.apart _ f owner' owner other view hOther hTheirs hView)
  refine ⟨hAlike.separated.step event hAllowed hStep, ?_, ?_⟩
  · have hBefore := hAlike.forward
    rw [hForward]
    generalize hF : s.forwards f = a at hBefore
    generalize hG : t.forwards f = b at hBefore
    cases hBefore with
    | none => exact .none
    | some hBoth =>
      refine .some (hBoth.congr_memory ?_ ?_)
      · intro owner view hView
        rw [← viewOf_eq hF] at hView
        exact hMemory owner view hView
      · exact fun _ _ _ => rfl
  · intro slot
    have hSlot := hAlike.slots slot
    have hWider : Exclusive s' f slot → Exclusive s f slot := fun hExclusive g hG =>
      hExclusive g (hFrame.users slot g hG)
    constructor
    · intro hExclusive
      rcases hSlot.exclusive (hWider hExclusive) with ⟨hBuffers, hBytes⟩
      constructor
      · rcases hFrame.slots slot with hUser | hSame
        · exact absurd (hExclusive _ hUser) hOther
        · rw [hSame, hBuffers]
      · intro generation
        rcases hFrame.memory (slot, generation) with hSame | ⟨owner, view, hTheirs, hBuffer⟩
        · rw [hSame, hBytes]
        have hUser := hAlike.separated.known _ owner view hTheirs
        have hIn : view.slot = slot := congrArg Prod.fst hBuffer
        rw [hIn] at hUser
        exact absurd (hExclusive _ (hFrame.users slot _ hUser)) hOther
    · rcases hSlot.views with hCoupled | ⟨hAlone, hShared⟩
      · refine .inl ?_
        intro owner v w hV hW hIn
        rw [hViews] at hV
        rcases hCoupled owner v w hV hW hIn with ⟨hSame, hBytes⟩
        refine ⟨hSame, ?_⟩
        rw [hMemory owner v hV]
        exact hBytes
      · refine .inr ⟨?_, fun h => hShared (hWider h)⟩
        intro o o' v v' hV hV'
        rw [hViews] at hV hV'
        exact hAlone o o' v v' hV hV'

----
-- Steps of the Forward Itself
----

/- The same action on the views of another executor. -/
def Action.retarget (chosen : Option View) : Action → Action
| .write view value => .write (chosen.getD view) value
| .publish out view => .publish out (chosen.getD view)
| action => action

section Own

variable {setup : Setup} {F G : Forward}

section

variable (hAlike : ForwardAlike m m' F G)

include hAlike

/- Both go on with the same action. -/
theorem ForwardAlike.action : G.action setup = (F.action setup).map (.retarget G.chosen) := by
  have hControl := hAlike.control
  have hChosen := hAlike.chosen
  unfold Forward.action Forward.slotFor
  rw [hControl.pending, hControl.written, hControl.ops, hControl.returned, hControl.enableGrad]
  generalize F.chosen = a at hChosen
  generalize G.chosen = b at hChosen
  cases hChosen with
  | none hUnwritten =>
    split
    · rfl
    · split <;> rfl
    · next h => cases h
    · next h => cases h
    split
    · rfl
    · rfl
    · split <;> rfl
  | some hSame hCons hLike hRead =>
    rw [← hControl.pending, hCons]
    simp only
    split <;> rfl

theorem ForwardAlike.fail : ForwardAlike m m' F.fail G.fail := by
  refine ⟨?_, fun _ => .none, .none rfl⟩
  exact
    { enableGrad := hAlike.control.enableGrad, ops := rfl, resource := hAlike.control.resource
      pending := rfl, written := rfl, returned := rfl }

/- A choice is there only while an output is pending. -/
theorem ForwardAlike.chosen_of_idle (hIdle : F.pending = []) :
    F.chosen = none ∧ G.chosen = none ∧ F.written = false := by
  have hChosen := hAlike.chosen
  generalize F.chosen = a at hChosen
  generalize G.chosen = b at hChosen
  cases hChosen with
  | none hUnwritten => exact ⟨rfl, rfl, hUnwritten⟩
  | some hSame hCons hLike hRead =>
    rw [hIdle] at hCons
    cases hCons

theorem ForwardAlike.chosen_some {v : View} (hChosen : F.chosen = some v) :
    ∃ w, G.chosen = some w ∧ v.Same w ∧ (F.written = true → readView m v = readView m' w) := by
  have hBoth := hAlike.chosen
  rw [hChosen] at hBoth
  generalize G.chosen = b at hBoth
  cases hBoth with
  | some hSame hCons hLike hRead => exact ⟨_, rfl, hSame, hRead⟩

theorem ForwardAlike.called (hIdle : F.pending = []) (region : RegionId) :
    ForwardAlike m m' (F.called setup m region) (G.called setup m' region) := by
  have hArgs : (fun tensor => (F.held tensor).map (readHeld m)) =
      fun tensor => (G.held tensor).map (readHeld m') := by
    funext tensor
    exact (hAlike.held tensor).read
  rcases hAlike.chosen_of_idle hIdle with ⟨hF, hG, hUnwritten⟩
  unfold Forward.called
  rw [hArgs]
  split
  · exact hAlike.fail
  split
  · exact hAlike.fail
  split
  · refine ⟨?_, hAlike.held, ?_⟩
    · exact
        { hAlike.control with
          ops := congrArg List.tail hAlike.control.ops, resource := rfl, pending := rfl }
    · simp only [hF, hG]
      exact .none hUnwritten
  · exact hAlike.fail

theorem ForwardAlike.publish (out : TensorId) {a b : Held}
    (hHeld : HeldAlike m m' (some a) (some b)) :
    ForwardAlike m m' (F.publish out a) (G.publish out b) := by
  refine ⟨?_, ?_, .none rfl⟩
  · exact
      { hAlike.control with pending := congrArg List.tail hAlike.control.pending, written := rfl }
  · intro tensor
    simp only [Forward.publish]
    by_cases hSame : tensor = out
    · subst hSame
      rw [update_self, update_self]
      exact hHeld
    · rw [update_of_ne hSame, update_of_ne hSame]
      exact hAlike.held tensor

theorem ForwardAlike.release (tensor : TensorId) : ForwardAlike m m'
    { F with ops := F.ops.tail, held := update F.held tensor none }
    { G with
      ops := G.ops.tail
      held := update G.held tensor none } := by
  refine ⟨?_, ?_, hAlike.chosen⟩
  · exact { hAlike.control with ops := congrArg List.tail hAlike.control.ops }
  · intro other
    by_cases hSame : other = tensor
    · subst hSame
      simp only [update_self]
      exact .none
    · simp only [update_of_ne hSame]
      exact hAlike.held other

theorem ForwardAlike.finish : ForwardAlike m m' (F.finish setup) (G.finish setup) := by
  have hHeld : ∀ tensor, (F.held tensor).isSome = (G.held tensor).isSome := by
    intro tensor
    have hRead := congrArg Option.isSome (hAlike.held tensor).read
    simpa using hRead
  unfold Forward.finish
  simp only [hHeld]
  split
  · refine ⟨?_, ?_, hAlike.chosen⟩
    · exact { hAlike.control with returned := rfl }
    · intro tensor
      simp only
      split
      · exact hAlike.held tensor
      · exact .none
  · exact hAlike.fail

end

theorem HeldAlike.wrap {v w : View} (hSame : v.Same w) (hRead : readView m v = readView m' w)
    (resource : ResourceId) :
    HeldAlike m m' (some (wrap m resource v)) (some (Forwards.wrap m' resource w)) := by
  unfold Forwards.wrap
  split
  · rw [hRead]
    exact .own _
  · exact .view hSame hRead

end Own

section OwnSteps

variable {setup : Setup} {f : ForwardId} {s t : State} {F G F' G' : Forward}

theorem setForward_viewOf (s : State) (f : ForwardId) (fwd : Forward) (owner : Owner) :
    (s.setForward f fwd).viewOf f owner = fwd.viewAt owner := by
  simp [State.viewOf, State.setForward]

variable {value : TensorValue}

/- The bytes at the front of a buffer that was written. -/
theorem take_writeView (m : BufferId → Bytes) (hLike : view.like = value.like) :
    (writeView m view value view.buffer).take view.like.nbytes = value.bytes := by
  rw [writeView, update_self, hLike]
  exact List.take_left

theorem writeView_other (m : BufferId → Bytes) (value : TensorValue) {buffer : BufferId}
    (hNe : buffer.1 ≠ view.slot) : writeView m view value buffer = m buffer := by
  apply update_of_ne
  rintro rfl
  exact hNe rfl

/- The same write to equal bytes. -/
theorem writeView_congr {m m' : BufferId → Bytes} (value : TensorValue) {buffer : BufferId}
    (hView : m view.buffer = m' view.buffer) (hBuffer : m buffer = m' buffer) :
    writeView m view value buffer = writeView m' view value buffer := by
  unfold writeView
  by_cases hSame : buffer = view.buffer
  · rw [hSame, update_self, update_self, hView]
  · rw [update_of_ne hSame, update_of_ne hSame, hBuffer]

variable {slot : SlotId}

theorem pick_congr {alloc other : ActivationAllocator}
    (hBuffers : alloc.buffers slot = other.buffers slot) (like : Like) :
    alloc.pick slot like = other.pick slot like := by
  unfold ActivationAllocator.pick ActivationAllocator.reuses
  rw [hBuffers]

theorem choose_viewOf_none (slot : SlotId) (value : TensorValue) :
    (perform setup s f F (.choose slot value)).viewOf f none =
      some (chosenView s.allocator slot value) := by
  simp [perform, State.viewOf, State.setForward, viewAt]

variable (hF : s.forwards f = some F) (hAlike : Alike f s t)

section

include hF

theorem write_viewOf (setup : Setup) (view : View) (value : TensorValue) (owner : Owner) :
    (perform setup s f F (.write view value)).viewOf f owner = s.viewOf f owner := by
  rw [viewOf_eq hF]
  cases owner <;> simp [perform, State.viewOf, State.setForward, viewAt]

theorem choose_viewOf_some (slot : SlotId) (value : TensorValue) (tensor : TensorId) :
    (perform setup s f F (.choose slot value)).viewOf f
      (some tensor) = s.viewOf f (some tensor) := by
  rw [viewOf_eq hF]
  simp [perform, State.viewOf, State.setForward, viewAt]

variable {chosen : SlotId}

/- The views of another slot were there before. -/
theorem choose_viewOf_otherSlot {value : TensorValue} {owner : Owner}
    (hView : (perform setup s f F (.choose chosen value)).viewOf f owner = some view)
    (hNe : view.slot ≠ chosen) : s.viewOf f owner = some view := by
  cases owner with
  | none =>
    rw [choose_viewOf_none] at hView
    cases hView
    exact absurd rfl hNe
  | some tensor =>
    rw [choose_viewOf_some hF] at hView
    exact hView

end

section

include hAlike

/- A forward without views starts or ends. -/
theorem Alike.withoutViews (hLeft : ∀ owner, F'.viewAt owner = none)
    (hBoth : ForwardAlike s.memory t.memory F' G') :
    Alike f (s.setForward f F') (t.setForward f G') := by
  refine ⟨hAlike.separated.setForward f hLeft, ?_, ?_⟩
  · simp only [State.setForward, update_self]
    exact .some hBoth
  · intro slot
    refine ⟨(hAlike.slots slot).exclusive, Or.inl ?_⟩
    intro owner v w hV
    rw [setForward_viewOf, hLeft] at hV
    cases hV

variable (hG : t.forwards f = some G)

section Write

variable {v w : View} {value : TensorValue} (hV : s.viewOf f none = some v)
variable (hW : t.viewOf f none = some w) (hSame : v.Same w)

include hV hW hSame

/- The choices are written; other views read as before. -/
theorem Alike.write_read {x y : View} (hX : s.viewOf f (some tensor) = some x)
    (hY : t.viewOf f (some tensor) = some y) (hSameXY : x.Same y)
    (hRead : readView s.memory x = readView t.memory y) :
    readView (writeView s.memory v value) x = readView (writeView t.memory w value) y := by
  by_cases hIn : x.slot = v.slot
  · apply hSameXY.read
    rcases (hAlike.slots v.slot).views with hCoupled | ⟨hAlone, _⟩
    · rcases hCoupled _ x y hX hY hIn with ⟨rfl, hBytesX⟩
      rcases hCoupled _ v w hV hW rfl with ⟨rfl, hBytesV⟩
      rw [writeView_congr value hBytesV hBytesX]
    · cases hAlone _ _ x v hX hV hIn rfl
  · have hNotIn : y.slot ≠ w.slot := by
      rw [← hSameXY.slot, ← hSame.slot]
      exact hIn
    unfold readView
    rw [writeView_other s.memory value hIn, writeView_other t.memory value hNotIn]
    exact hRead

include hF hG

theorem Alike.write_slot (slot : SlotId) : SlotAlike (perform setup s f F (.write v value))
    (perform setup t f G (.write w value)) f slot := by
  have hSlot := hAlike.slots slot
  have hLeft := write_viewOf hF setup v value
  have hRight := write_viewOf hG setup w value
  -- Equal bytes of a buffer stay equal.
  have hWritten : (slot = v.slot → Coupled s t f slot) →
      ∀ generation, s.memory (slot, generation) = t.memory (slot, generation) →
        writeView s.memory v value (slot, generation) =
          writeView t.memory w value (slot, generation) := by
    intro hCoupled generation hBytes
    by_cases hIn : slot = v.slot
    · rcases hCoupled hIn _ v w hV hW hIn.symm with ⟨rfl, hBytesV⟩
      exact writeView_congr value hBytesV hBytes
    · have hNotIn : slot ≠ w.slot := by
        rw [← hSame.slot]
        exact hIn
      rw [writeView_other s.memory value hIn, writeView_other t.memory value hNotIn]
      exact hBytes
  constructor
  · intro hExclusive
    rcases hSlot.exclusive hExclusive with ⟨hBuffers, hBytes⟩
    refine ⟨hBuffers, ?_⟩
    intro generation
    apply hWritten _ generation (hBytes generation)
    intro _
    exact hSlot.views.resolve_right (fun h => h.2 hExclusive)
  · rcases hSlot.views with hCoupled | ⟨hAlone, hShared⟩
    · refine .inl ?_
      intro owner x y hX hY hIn
      rw [hLeft] at hX
      rw [hRight] at hY
      rcases hCoupled owner x y hX hY hIn with ⟨rfl, hBytes⟩
      refine ⟨rfl, ?_⟩
      subst hIn
      exact hWritten (fun _ => hCoupled) x.generation hBytes
    · refine .inr ⟨?_, hShared⟩
      intro o o' x x' hX hX'
      rw [hLeft] at hX hX'
      exact hAlone o o' x x' hX hX'

end Write

include hF hG

/- Slots stay alike when both forwards pass views on. -/
theorem Alike.pass {back : Owner → Owner} (hLeft : Passes back F F') (hRight : Passes back G G')
    (hBoth : ForwardAlike s.memory t.memory F' G') (hSeparated : Separated (s.setForward f F')) :
    Alike f (s.setForward f F') (t.setForward f G') := by
  refine ⟨hSeparated, ?_, ?_⟩
  · simp only [State.setForward, update_self]
    exact .some hBoth
  · intro slot
    have hSlot := hAlike.slots slot
    refine ⟨hSlot.exclusive, ?_⟩
    rcases hSlot.views with hCoupled | ⟨hAlone, hShared⟩
    · refine .inl ?_
      intro owner v w hV hW hIn
      rw [setForward_viewOf] at hV hW
      exact hCoupled (back owner) v w (hLeft.viewOf hF hV) (hRight.viewOf hG hW) hIn
    · refine .inr ⟨?_, hShared⟩
      intro o o' v v' hV hV' hIn hIn'
      rw [setForward_viewOf] at hV hV'
      apply hLeft.injective o o' v v' hV hV'
      exact hAlone _ _ v v' (hLeft.viewOf hF hV) (hLeft.viewOf hF hV') hIn hIn'

theorem Alike.choose_otherSlot {chosen : SlotId} (hNe : slot ≠ chosen) (value : TensorValue) :
    SlotAlike (perform setup s f F (.choose chosen value))
      (perform setup t f G (.choose chosen value)) f slot := by
  have hSlot := hAlike.slots slot
  have hUsers : Exclusive (perform setup s f F (.choose chosen value)) f
      slot ↔ Exclusive s f slot := by
    simp [Exclusive, perform, update_of_ne hNe]
  constructor
  · intro hExclusive
    simp only [perform, ActivationAllocator.acquire, update_of_ne hNe]
    exact hSlot.exclusive (hUsers.mp hExclusive)
  · rcases hSlot.views with hCoupled | ⟨hAlone, hShared⟩
    · refine .inl ?_
      intro owner v w hV hW hIn
      have hOldV := choose_viewOf_otherSlot hF hV (hIn ▸ hNe)
      cases owner with
      | none =>
        rw [choose_viewOf_none] at hV
        cases hV
        exact absurd hIn.symm hNe
      | some tensor =>
        rw [choose_viewOf_some hG] at hW
        exact hCoupled _ v w hOldV hW hIn
    · refine .inr ⟨?_, fun h => hShared (hUsers.mp h)⟩
      intro o o' v v' hV hV' hIn hIn'
      apply hAlone o o' v v' _ _ hIn hIn'
      · exact choose_viewOf_otherSlot hF hV (hIn ▸ hNe)
      · exact choose_viewOf_otherSlot hF hV' (hIn' ▸ hNe)

theorem Alike.choose_slot (slot : SlotId) (value : TensorValue)
    (hFree : Exclusive s f slot ∨ ∀ owner view, F.viewAt owner = some view → view.slot ≠ slot) :
    SlotAlike (perform setup s f F (.choose slot value))
      (perform setup t f G (.choose slot value)) f slot := by
  have hSlot := hAlike.slots slot
  have hUsers : Exclusive (perform setup s f F (.choose slot value)) f
      slot ↔ Exclusive s f slot := by
    simp [Exclusive, perform]
  constructor
  · intro hExclusive
    rcases hSlot.exclusive (hUsers.mp hExclusive) with ⟨hBuffers, hBytes⟩
    refine ⟨?_, hBytes⟩
    simp only [perform, ActivationAllocator.acquire, update_self, pick_congr hBuffers]
  · by_cases hExclusive : Exclusive s f slot
    · rcases hSlot.exclusive hExclusive with ⟨hBuffers, hBytes⟩
      have hCoupled := hSlot.views.resolve_right (fun h => h.2 hExclusive)
      refine .inl ?_
      intro owner v w hV hW hIn
      cases owner with
      | none =>
        rw [choose_viewOf_none] at hV hW
        cases hV
        cases hW
        refine ⟨?_, hBytes _⟩
        simp only [chosenView, pick_congr hBuffers]
      | some tensor =>
        rw [choose_viewOf_some hF] at hV
        rw [choose_viewOf_some hG] at hW
        exact hCoupled _ v w hV hW hIn
    · refine .inr ⟨?_, fun h => hExclusive (hUsers.mp h)⟩
      -- Only the new choice is a view of the slot.
      have hOnly : ∀ owner view, (perform setup s f F (.choose slot value)).viewOf
          f owner = some view → view.slot = slot → owner = none := by
        intro owner view hView hIn
        cases owner with
        | none => rfl
        | some tensor =>
          rw [choose_viewOf_some hF, viewOf_eq hF] at hView
          have hNone := hFree.resolve_left hExclusive
          exact absurd hIn (hNone _ view hView)
      intro o o' v v' hV hV' hIn hIn'
      rw [hOnly o v hV hIn, hOnly o' v' hV' hIn']

variable (hBoth : ForwardAlike s.memory t.memory F G)

include hBoth

theorem Alike.write {v w : View} (hAction : F.action setup = some (.write v value))
    (hChosen : G.chosen = some w)
    (hSeparated : Separated (perform setup s f F (.write v value))) :
    Alike f (perform setup s f F (.write v value)) (perform setup t f G (.write w value)) := by
  rcases action_spec hAction with ⟨hMine, out, rest, hPending⟩
  have hV : s.viewOf f none = some v := (viewOf_eq hF none).trans hMine
  have hW : t.viewOf f none = some w := (viewOf_eq hG none).trans hChosen
  have hChoice := hBoth.chosen
  rw [hMine, hChosen, hPending] at hChoice
  cases hChoice with
  | some hSame hCons hLike hRead =>
    cases hCons
    refine ⟨hSeparated, ?_, ?_⟩
    · simp only [perform, State.setForward, update_self]
      refine .some ⟨?_, ?_, ?_⟩
      · exact { hBoth.control with written := rfl }
      · intro tensor
        refine (hBoth.held tensor).imp (fun x y hA hB hSameXY hReadXY => ?_)
        exact hAlike.write_read hV hW hSame (viewOf_held hF hA) (viewOf_held hG hB) hSameXY hReadXY
      · simp only [hMine, hChosen]
        refine .some hSame hPending hLike ?_
        intro _
        apply hSame.read
        have hLikeW : w.like = value.like := by
          rw [← hSame.like]
          exact hLike
        rw [take_writeView s.memory hLike, hSame.like, take_writeView t.memory hLikeW]
    · exact hAlike.write_slot hF hG hV hW hSame

theorem Alike.choose (hAction : F.action setup = some (.choose slot value))
    (hFree : Exclusive s f slot ∨ ∀ owner view, F.viewAt owner = some view → view.slot ≠ slot)
    (hSeparated : Separated (perform setup s f F (.choose slot value))) :
    Alike f (perform setup s f F (.choose slot value))
      (perform setup t f G (.choose slot value)) := by
  rcases action_spec hAction with ⟨hMine, out, rest, hPending⟩
  have hUnwritten : F.written = false := by
    have hChoice := hBoth.chosen
    rw [hMine] at hChoice
    generalize hB : G.chosen = b at hChoice
    cases hChoice with
    | none hUnwritten => exact hUnwritten
  refine ⟨hSeparated, ?_, ?_⟩
  · simp only [perform, State.setForward, update_self]
    refine .some ⟨?_, hBoth.held, ?_⟩
    · exact { hBoth.control with }
    · refine .some ⟨rfl, rfl, rfl, rfl⟩ hPending rfl ?_
      intro hWritten
      rw [hUnwritten] at hWritten
      cases hWritten
  · intro other
    by_cases hOther : other = slot
    · subst hOther
      exact hAlike.choose_slot hF hG other value hFree
    · exact hAlike.choose_otherSlot hF hG hOther value

theorem Alike.perform {action : Action} (hAction : F.action setup = some action)
    (hFree : ∀ slot value, action = .choose slot value → Exclusive s f slot ∨
      ∀ owner view, F.viewAt owner = some view → view.slot ≠ slot)
    (hSeparated : Separated (perform setup s f F action)) :
    Alike f (perform setup s f F action) (Forwards.perform setup t f G
      (action.retarget G.chosen)) := by
  have hSpec := action_spec hAction
  cases action with
  | call region =>
    exact hAlike.pass hF hG (passes_called setup s.memory F region)
      (passes_called setup t.memory G region)
      (hBoth.called hSpec region) hSeparated
  | keep out value =>
    exact hAlike.pass hF hG (passes_publish out nofun) (passes_publish out nofun)
      (hBoth.publish out (.own value)) hSeparated
  | choose slot value => exact hAlike.choose hF hG hBoth hAction (hFree slot value rfl) hSeparated
  | write view value =>
    rcases hBoth.chosen_some hSpec.1 with ⟨w, hChosen, _⟩
    simp only [Action.retarget, hChosen]
    exact hAlike.write hF hG hBoth hAction hChosen hSeparated
  | publish out view =>
    rcases hBoth.chosen_some hSpec.1 with ⟨w, hChosen, hSame, hRead⟩
    simp only [Action.retarget, hChosen, getD_some]
    have hHeld := HeldAlike.wrap hSame (hRead hSpec.2) F.resource
    have hPublish := hBoth.publish out hHeld
    simp only [Forwards.perform]
    rw [← hBoth.control.resource]
    exact hAlike.pass hF hG (passes_wrap out hSpec.1) (passes_wrap out hChosen) hPublish hSeparated
  | release tensor =>
    exact hAlike.pass hF hG (passes_release F tensor)
      (passes_release G tensor) (hBoth.release tensor)
      hSeparated
  | finish =>
    exact hAlike.pass hF hG (passes_finish setup F) (passes_finish setup G) hBoth.finish hSeparated

end

include hAlike in
/- The same step of the forward on both executors. -/
theorem Alike.own_step (hOwn : event.forward = f)
    (hAllowed : Undisturbed setup s event) {s' : State} (hStep : step setup s event = some s') :
    ∃ t', step setup t event = some t' ∧ Alike f s' t' := by
  have hSeparated := hAlike.separated.step event hAllowed hStep
  have hForward := hAlike.forward
  cases event with
  | start g enableGrad inputs ops =>
    simp only [Event.forward] at hOwn
    subst hOwn
    simp only [Forwards.step] at hStep ⊢
    split at hStep
    · next hNone =>
      cases hStep
      rw [hNone] at hForward
      generalize hG : t.forwards g = b at hForward
      cases hForward
      refine ⟨_, rfl, ?_⟩
      apply hAlike.withoutViews
      · exact start_viewAt enableGrad inputs ops
      · refine ⟨⟨rfl, rfl, rfl, rfl, rfl, rfl⟩, ?_, .none rfl⟩
        intro tensor
        simp only [Forward.start]
        cases inputs.lookup tensor with
        | none => exact .none
        | some value => exact .own value
    · cases hStep
  | drop g =>
    simp only [Event.forward] at hOwn
    subst hOwn
    simp only [Forwards.step, map_eq_some_iff] at hStep
    rcases hStep with ⟨F, hF, rfl⟩
    rw [hF] at hForward
    generalize hG : t.forwards g = b at hForward
    cases hForward with
    | some hBoth =>
      refine ⟨_, by simp [Forwards.step, hG]; rfl, ?_⟩
      apply hAlike.withoutViews (fail_viewAt F)
      exact hBoth.fail
  | advance g =>
    simp only [Event.forward] at hOwn
    subst hOwn
    simp only [Forwards.step, bind_eq_some_iff, map_eq_some_iff] at hStep
    rcases hStep with ⟨F, hF, action, hAction, rfl⟩
    rw [hF] at hForward
    generalize hG : t.forwards g = b at hForward
    cases hForward with
    | @some _ G hBoth =>
      have hTheirs : G.action setup = some (action.retarget G.chosen) := by
        rw [hBoth.action, hAction]
        rfl
      refine ⟨_, by simp [Forwards.step, hG, hTheirs]; rfl, ?_⟩
      apply hAlike.perform hF hG hBoth hAction
      · intro slot value hChoose
        subst hChoose
        exact (hAllowed F slot value hF hAction).imp_right And.left
      · exact hSeparated

end OwnSteps

/- Runs in which every choice of a slot is undisturbed. -/
theorem forwards_do_not_interfere (setup : Setup) (memory : BufferId → Bytes) (events : List Event)
    (hAllowed : Meets (step setup) (Undisturbed setup) (.new memory) events)
    {s : State} (hRun : run (step setup) (.new memory) events = some s)
    (f : ForwardId) : ∃ solo, run (step setup) (.new memory)
        (events.filter (fun event => event.forward = f)) = some solo ∧
      ∀ tensor, s.value f tensor = solo.value f tensor := by
  have hOwn : ∀ s t event s', Alike f s t → Undisturbed setup s event →
      decide (event.forward = f) = true → step setup s event = some s' →
      ∃ t', step setup t event = some t' ∧ Alike f s' t' := by
    intro s t event s' hAlike hAllowed hMine hStep
    exact hAlike.own_step (of_decide_eq_true hMine) hAllowed hStep
  have hOther : ∀ s t event s', Alike f s t → Undisturbed setup s event →
      decide (event.forward = f) = false → step setup s event = some s' → Alike f s' t := by
    intro s t event s' hAlike hAllowed hTheirs hStep
    exact hAlike.other_step (of_decide_eq_false hTheirs) hAllowed hStep
  rcases run_project _ (Alike f) hOwn hOther events
    (.new f memory) hAllowed hRun with ⟨solo, hSolo, hEnd⟩
  exact ⟨solo, hSolo, hEnd.value⟩

/- A model of two regions, both run on the host: such a
   program has no direct plan. -/
def twoRegions : Setup :=
  { program :=
      { regions :=
          [{ regionId := "A", inputs := ["x"], outputs := ["y"] },
            { regionId := "B", inputs := ["x"], outputs := ["z"] }]
        userInputs := ["x"]
        values :=
          [{ name := "x", nbytes := 1, kind := .input },
            { name := "y", nbytes := 1, kind := .activation },
            { name := "z", nbytes := 1, kind := .activation }]
        nodup_values := by decide
        outputRefs := [.value "y", .value "z"] }
    device := fun _ => "cpu"
    callable := fun _ args => some args }

def byteTensor (byte : UInt8) : Value :=
  .tensor { device := "cpu", dtype := "u8", shape := [1], bytes := [byte] }

/- A forward of the model on one byte. -/
def forwardOf (f : ForwardId) (byte : UInt8) : List Event :=
  .start f false [("x", byteTensor byte)] [.compute "A", .compute "B"] ::
    List.replicate 9 (.advance f)

def Action.isChoice : Action → Bool
| .choose _ _ => true
| _ => false

theorem undisturbed_of_quiet (hForward : s.forwards f = some fwd)
    (hQuiet : (fwd.action setup).all (fun action => !action.isChoice) = true) :
    Undisturbed setup s (.advance f) := by
  intro fwd' slot value hF hAction
  rw [hForward] at hF
  cases hF
  rw [hAction] at hQuiet
  cases hQuiet

/- When nobody has a view, any slot can be taken. -/
theorem undisturbed_of_noViews (f : ForwardId) (hNone : ∀ g owner, s.viewOf g owner = none) :
    Undisturbed setup s (.advance f) := by
  intro fwd slot value hF hAction
  refine .inr ⟨?_, ?_⟩
  · intro owner view hView
    rw [← viewOf_eq hF, hNone] at hView
    cases hView
  · intro _ g owner view _ hView
    rw [hNone] at hView
    cases hView

/- Up to the first output of a forward. -/
def firstOutput (f : ForwardId) (byte : UInt8) : List Event :=
  (forwardOf f byte).take 5

/-
  The first forward is cancelled before the second call. Its
  buffer is used again, and nobody can see that.
-/
theorem dropped_output_is_not_disturbed :
    ∃ s solo, run (step twoRegions) (.new (fun _ => []))
        (firstOutput 0 7 ++ .drop 0 :: firstOutput 1 8) = some s ∧
      run (step twoRegions) (.new (fun _ => [])) (firstOutput 1 8) = some solo ∧
      s.value 1 "y" = solo.value 1 "y" := by
  refine ⟨_, _, rfl, rfl, ?_⟩
  have hMeets : Meets (step twoRegions) (Undisturbed twoRegions) (.new (fun _ => []))
      (firstOutput 0 7 ++ .drop 0 :: firstOutput 1 8) := by
    apply Meets.cons rfl trivial
    apply Meets.cons rfl (undisturbed_of_quiet rfl rfl)
    apply Meets.cons rfl
    · apply undisturbed_of_noViews
      intro g owner
      cases g with
      | zero =>
        cases owner with
        | none => rfl
        | some tensor => exact start_viewAt false [("x", byteTensor 7)] [] (some tensor)
      | succ n => rfl
    iterate 2 apply Meets.cons rfl (undisturbed_of_quiet rfl rfl)
    apply Meets.cons rfl trivial
    apply Meets.cons rfl trivial
    apply Meets.cons rfl (undisturbed_of_quiet rfl rfl)
    apply Meets.cons rfl
    · apply undisturbed_of_noViews
      intro g owner
      match g with
      | 0 => exact fail_viewAt _ owner
      | 1 =>
        cases owner with
        | none => rfl
        | some tensor => exact start_viewAt false [("x", byteTensor 8)] [] (some tensor)
      | n + 2 => rfl
    iterate 2 apply Meets.cons rfl (undisturbed_of_quiet rfl rfl)
    trivial
  rcases forwards_do_not_interfere twoRegions (fun _ => []) _ hMeets rfl 1 with
    ⟨solo, hSolo, hValue⟩
  cases hSolo
  exact hValue "y"

/- The second forward overwrites what the first returned. -/
theorem returned_output_is_overwritten : (run (step twoRegions) (.new (fun _ => []))
      (forwardOf 0 7)).bind (fun s => s.value 0 "y") = some (byteTensor 7) ∧
    (run (step twoRegions) (.new (fun _ => []))
      (forwardOf 0 7 ++ forwardOf 1 8)).bind (fun s => s.value 0 "y") = some (byteTensor 8) := by
  decide +kernel

end Forwards

end TensorTorrent
