import Mathlib.Data.List.Basic

/-
  This file is a small library for work that a host issues
  to asynchronous streams. A stream runs its operations in
  the order of issue, a recorded event stands for the work
  issued to a stream so far, and the host or another stream
  can wait for an event.

  An operation comes after another one exactly when one of
  these three orders it, directly or through others. The
  order is kept as the list of operations that whatever is
  issued next comes after.

  Main declarations:
    * `Streams.Order.mem_before_of_host`
    * `Streams.Order.host_subset_synchronizeAll`
-/

namespace Streams

variable {Stream Op : Type} [DecidableEq Stream]

/- A recorded event: the operations that it comes after. -/
abbrev Event (Op : Type) := List Op

/-
  `seen stream` is what the work issued to the stream so far
  consists of or comes after; `host` is what the host has
  waited for.
-/
structure Order (Stream Op : Type) where
  seen : Stream → List Op
  host : List Op

namespace Order

def new : Order Stream Op :=
  { seen := fun _ => []
    host := [] }

section

variable (order : Order Stream Op) (stream : Stream) (event : Event Op) (events : List (Event Op))

/- What the next operation on a stream comes after. -/
def before : List Op :=
  order.seen stream ++ order.host

def launch (op : Op) : Order Stream Op :=
  { order with seen := Function.update order.seen stream (op :: order.before stream) }

def record : Event Op :=
  order.seen stream

/- Later work on the stream waits for the event. -/
def waitEvent : Order Stream Op :=
  { order with seen := Function.update order.seen stream (event ++ order.seen stream) }

/- The host waits for the event. -/
def synchronize : Order Stream Op :=
  { order with host := event ++ order.host }

/- The host waits for several events, one by one. -/
def synchronizeAll : Order Stream Op :=
  events.foldl synchronize order

/- A stream waits for several events, one by one. -/
def waitEvents : Order Stream Op :=
  events.foldl (fun o event => o.waitEvent stream event) order

end

----
-- What the Host Has Waited For
----

omit [DecidableEq Stream] in
/- Whatever the host waited for comes before new work. -/
theorem mem_before_of_host {order : Order Stream Op} {op : Op} (stream : Stream)
    (hHost : op ∈ order.host) : op ∈ order.before stream :=
  List.mem_append_right _ hHost

variable (order : Order Stream Op) (stream : Stream) (events : List (Event Op)) (op : Op)

@[simp]
theorem launch_host : (order.launch stream op).host = order.host :=
  rfl

@[simp]
theorem waitEvents_host : (order.waitEvents stream events).host = order.host := by
  induction events generalizing order with
  | nil => rfl
  | cons event events ih => exact ih (order.waitEvent stream event)

omit [DecidableEq Stream] in
theorem mem_synchronizeAll_host :
    op ∈ (order.synchronizeAll events).host ↔ op ∈ order.host ∨ ∃ event ∈ events, op ∈ event := by
  induction events generalizing order with
  | nil => simp [synchronizeAll]
  | cons event events ih =>
    have hRest := ih (order.synchronize event)
    simp only [synchronizeAll, List.foldl_cons] at hRest ⊢
    rw [hRest]
    simp only [synchronize, List.mem_append, List.exists_mem_cons_iff]
    tauto

omit [DecidableEq Stream] in
/- Waiting forgets nothing. -/
theorem host_subset_synchronizeAll : order.host ⊆ (order.synchronizeAll events).host :=
  fun op hOp => (mem_synchronizeAll_host order events op).mpr (.inl hOp)

end Order

end Streams
