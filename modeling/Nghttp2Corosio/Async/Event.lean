import Mathlib.Logic.Function.Basic

/-!
A one-shot event on which coroutines of one thread wait.

The event is a flag and, for every coroutine that may wait on it, where that
coroutine stands: not waiting, suspended, or with its resumption posted to the
scheduler and not yet run. What the development relies on is the documented
behaviour of such an event: `wait` completes at once when the flag is set,
`set` posts every suspended waiter, `clear` only resets the flag, and a stop
request posts a suspended waiter with the cancellation result. A waiter is
posted once; whichever of `set` and the stop request comes second finds it
posted already and changes nothing. How long a posted resumption takes, and in
which order posted resumptions run, is left open.
-/

namespace Async

/-- What a wait resumes with: the event was set, or a stop was requested
first. -/
inductive Wake
  | signalled
  | canceled
  deriving DecidableEq, Repr

/-- Where one coroutine stands with respect to an event. Both a `waiting` and a
`posted` coroutine are suspended; only the latter is going to be resumed. -/
inductive Waiter
  | idle
  | waiting
  | posted (w : Wake)
  deriving DecidableEq, Repr

def Waiter.signal : Waiter → Waiter
  | .waiting => .posted .signalled
  | w => w

def Waiter.cancel : Waiter → Waiter
  | .waiting => .posted .canceled
  | w => w

@[simp] theorem Waiter.signal_ne_waiting (w : Waiter) : w.signal ≠ .waiting := by
  cases w <;> simp [Waiter.signal]

@[simp] theorem Waiter.cancel_ne_waiting (w : Waiter) : w.cancel ≠ .waiting := by
  cases w <;> simp [Waiter.cancel]

@[simp] theorem Waiter.signal_eq_idle (w : Waiter) : w.signal = .idle ↔ w = .idle := by
  cases w <;> simp [Waiter.signal]

@[simp] theorem Waiter.cancel_eq_idle (w : Waiter) : w.cancel = .idle ↔ w = .idle := by
  cases w <;> simp [Waiter.cancel]

/-- The event, with a place for each coroutine `i : ι` that may wait on it. -/
structure Event (ι : Type*) where
  isSet : Bool := false
  waiter : ι → Waiter := fun _ => .idle

variable {ι : Type*}

/-- Set the flag and post every suspended waiter. -/
def Event.set (e : Event ι) : Event ι :=
  { isSet := true, waiter := fun i => (e.waiter i).signal }

/-- Reset the flag; waiters stay as they are. -/
def Event.clear (e : Event ι) : Event ι := { e with isSet := false }

@[simp] theorem Event.set_isSet (e : Event ι) : e.set.isSet = true := rfl

@[simp] theorem Event.set_waiter (e : Event ι) (i : ι) : e.set.waiter i = (e.waiter i).signal :=
  rfl

@[simp] theorem Event.clear_isSet (e : Event ι) : e.clear.isSet = false := rfl

@[simp] theorem Event.clear_waiter (e : Event ι) : e.clear.waiter = e.waiter := rfl

@[simp] theorem Event.set_set (e : Event ι) : e.set.set = e.set := by
  simp only [Event.set, Event.mk.injEq, true_and]
  funext i
  cases e.waiter i <;> rfl

/-! An event that was set, and perhaps set before or after that, was set. -/

theorem Event.eq_set_of_left {e e' e'' : Event ι} (h : e' = e.set)
    (h' : e'' = e' ∨ e'' = e'.set) : e'' = e.set := by
  subst h
  simpa using h'

theorem Event.eq_set_of_right {e e' e'' : Event ι} (h : e' = e ∨ e' = e.set)
    (h' : e'' = e'.set) : e'' = e.set := by
  rcases h with rfl | rfl
  · exact h'
  · rwa [Event.set_set] at h'

theorem Event.signalled_of_set {e : Event ι} {i : ι} (hne : e.waiter i ≠ .waiting)
    (h : e.set.waiter i = .posted .signalled) : e.waiter i = .posted .signalled := by
  rw [Event.set_waiter] at h
  cases hw : e.waiter i with
  | waiting => exact absurd hw hne
  | idle =>
      rw [hw] at h
      cases h
  | posted w =>
      rw [hw] at h
      exact h

theorem Event.set_ne_canceled {e : Event ι} {i : ι} (h : e.waiter i ≠ .posted .canceled) :
    e.set.waiter i ≠ .posted .canceled := by
  rw [Event.set_waiter]
  cases hw : e.waiter i with
  | idle => simp [Waiter.signal]
  | waiting => simp [Waiter.signal]
  | posted w =>
      rw [hw] at h
      exact h

variable [DecidableEq ι]

/-- `co_await wait()` by coroutine `i`, whose stop token is `stopped` or not:
the result of a wait that completes at once, `none` if the coroutine is
suspended. -/
def Event.wait (e : Event ι) (i : ι) (stopped : Bool) : Event ι × Option Wake :=
  if e.isSet then (e, some .signalled)
  else if stopped then (e, some .canceled)
  else ({ e with waiter := Function.update e.waiter i .waiting }, none)

/-- A stop request for the wait of coroutine `i`. -/
def Event.stop (e : Event ι) (i : ι) : Event ι :=
  { e with waiter := Function.update e.waiter i (e.waiter i).cancel }

/-- The posted resumption of coroutine `i` runs. -/
def Event.resume (e : Event ι) (i : ι) : Event ι :=
  { e with waiter := Function.update e.waiter i .idle }

/-- `clear(); co_await wait();` with nothing in between. The flag is down when
the wait starts, so the coroutine is suspended (`true`), unless its token is
stopped already: then the wait completes at once with the cancellation result
(`false`). -/
def Event.clearWait (e : Event ι) (i : ι) (stopped : Bool) : Event ι × Bool :=
  if stopped then (e.clear, false)
  else ({ isSet := false, waiter := Function.update e.waiter i .waiting }, true)

/-- `clearWait` is the composition of `clear` and `wait`. -/
theorem Event.wait_clear (e : Event ι) (i : ι) (stopped : Bool) :
    e.clear.wait i stopped =
      ((e.clearWait i stopped).1,
        if (e.clearWait i stopped).2 then none else some .canceled) := by
  cases stopped <;> rfl

@[simp] theorem Event.stop_isSet (e : Event ι) (i : ι) : (e.stop i).isSet = e.isSet := rfl

@[simp] theorem Event.stop_waiter_self (e : Event ι) (i : ι) :
    (e.stop i).waiter i = (e.waiter i).cancel := by
  simp [Event.stop]

theorem Event.stop_waiter_of_ne (e : Event ι) {i j : ι} (h : j ≠ i) :
    (e.stop i).waiter j = e.waiter j := by
  simp [Event.stop, h]

@[simp] theorem Event.resume_isSet (e : Event ι) (i : ι) : (e.resume i).isSet = e.isSet := rfl

@[simp] theorem Event.resume_waiter_self (e : Event ι) (i : ι) :
    (e.resume i).waiter i = .idle := by
  simp [Event.resume]

theorem Event.resume_waiter_of_ne (e : Event ι) {i j : ι} (h : j ≠ i) :
    (e.resume i).waiter j = e.waiter j := by
  simp [Event.resume, h]

/-! What a waiter was before a stop request or a resumption. -/

theorem Event.waiting_of_stop {e : Event ι} {i j : ι} (h : (e.stop i).waiter j = .waiting) :
    e.waiter j = .waiting := by
  by_cases hji : j = i
  · subst hji
    simp at h
  · rwa [Event.stop_waiter_of_ne _ hji] at h

theorem Event.signalled_of_stop {e : Event ι} {i j : ι}
    (h : (e.stop i).waiter j = .posted .signalled) : e.waiter j = .posted .signalled := by
  by_cases hji : j = i
  · subst hji
    rw [Event.stop_waiter_self] at h
    cases hw : e.waiter j with
    | posted w =>
        rw [hw] at h
        exact h
    | idle =>
        rw [hw] at h
        cases h
    | waiting =>
        rw [hw] at h
        cases h
  · rwa [Event.stop_waiter_of_ne _ hji] at h

theorem Event.waiter_of_resume {e : Event ι} {i j : ι} {w : Waiter}
    (h : (e.resume i).waiter j = w) (hw : w ≠ .idle) : e.waiter j = w := by
  by_cases hji : j = i
  · subst hji
    rw [Event.resume_waiter_self] at h
    exact absurd h.symm hw
  · rwa [Event.resume_waiter_of_ne _ hji] at h

@[simp] theorem Event.clearWait_true (e : Event ι) (i : ι) :
    e.clearWait i true = (e.clear, false) := rfl

@[simp] theorem Event.clearWait_false (e : Event ι) (i : ι) :
    e.clearWait i false =
      ({ isSet := false, waiter := Function.update e.waiter i .waiting }, true) := rfl

end Async
