import Mathlib.Data.List.Basic

/-!
# Handles of an event loop

A handle lies in memory of its user. It is initialised, started, stopped and closed; closing is
finished by a turn of the loop. The user may initialise it while it is not active, and release its
memory when it has been closed.
-/

namespace Nblex

/-- The states of a handle; an `unused` one has never been initialised. -/
inductive HandleState where
  | unused | idle | active | closing | closed
  deriving DecidableEq, Repr

namespace HandleState

/-- The handle is initialised and not closed. -/
def isOpen : HandleState → Bool
  | .idle | .active => true
  | .unused | .closing | .closed => false

/-- The loop does not refer to the handle. -/
def isGone : HandleState → Bool
  | .unused | .closed => true
  | .idle | .active | .closing => false

/-- An initialisation, which may fail. -/
def init (ok : Bool) (state : HandleState) : HandleState := if ok then .idle else state

/-- A start, which may fail, and does on a handle that is not initialised. -/
def start (ok : Bool) (state : HandleState) : HandleState :=
  if ok && state.isOpen then .active else state

/-- A stop. -/
def stop : HandleState → HandleState
  | .active => .idle
  | state => state

/-- A request to close. -/
def close (state : HandleState) : HandleState := if state.isOpen then .closing else state

/-- The end of a turn of the loop. -/
def finish : HandleState → HandleState
  | .closing => .closed
  | state => state

@[simp] theorem close_stop (state : HandleState) : state.stop.close = state.close := by
  cases state <;> rfl

theorem isOpen_close (state : HandleState) : state.close.isOpen = false := by
  cases state <;> rfl

theorem isGone_close (state : HandleState) : state.close.isGone = state.isGone := by
  cases state <;> rfl

theorem isOpen_of_isGone {state : HandleState} (gone : state.isGone = true) :
    state.isOpen = false := by
  cases state <;> first | rfl | cases gone

end HandleState

/-- What a user does with a handle: initialise it in a state, stop what it belongs to, or release
    its memory in a state. -/
inductive HandleEvent where
  | initialised (before : HandleState)
  | stopped (before after : HandleState)
  | released (state : HandleState)
  deriving DecidableEq, Repr

/-- The rules for handles. Strictly a handle that is still closing may not be released. -/
def HandleEvent.Allowed (strict : Bool) : HandleEvent → Prop
  | .initialised before => before ≠ .active
  | .stopped before after => before = .active → after.isOpen = false
  | .released state => if strict then state.isGone = true else state.isOpen = false

instance (strict : Bool) : DecidablePred (HandleEvent.Allowed strict) := by
  intro event
  cases event <;> unfold HandleEvent.Allowed <;> infer_instance

end Nblex
