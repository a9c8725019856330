import Nghttp2Corosio.Stream.ReadInvariant
import Nghttp2Corosio.Stream.Producer

/-!
Operations on buffers that hold no byte.

`StreamReader` and `StreamWriter` are asserted to be a `ReadStream` and a
`WriteStream`, and generic code may call these with an empty buffer sequence.
Such a call should complete at once and have no effect. Neither `read_some` nor
`write_some` looks for it.

The drain loop of `read_some` breaks before its first copy, and the call goes
on as if nothing were buffered: it reports `eof` when the end of the body was
received, with bytes left to read or not, and is parked otherwise. `write_some`
hands its empty array to `producer_callback` and waits; the next callback is
answered with a DATA frame without a byte. Only a token that is stopped already
lets the write return before it has an effect.
-/

namespace Nghttp2Corosio

open Async Buffers Runs

def Action.isWriteCall : Action → Bool
  | .write _ _ => true
  | _ => false

def WriteSide.Idle (w : WriteSide) : Prop := w.writer = none ∧ w.writePending = false

theorem WriteSide.Idle.step {w w' : WriteSide} {closed : Bool} {a : Action} {os : List Label}
    (h : w.Idle) (hs : w.Step closed a os w') (ha : a.isWriteCall = false) :
    w'.Idle ∧ ∀ l ∈ os, l.isPulled = false := by
  obtain ⟨hnone, hserved⟩ := h
  cases hs with
  | onClose => exact ⟨⟨hnone, hserved⟩, by simp [Label.isPulled]⟩
  | producerCallback length =>
      rcases w.producerCallback_cases length with ⟨-, heq⟩ | ⟨hp, -⟩
      · rw [heq]
        exact ⟨⟨hnone, hserved⟩, by simp [Label.isPulled]⟩
      · rw [hserved] at hp
        cases hp
  | write op stopped hidle => cases ha
  | stopWrite w' hstop => simp [WriteSide.stopWrite, hnone] at hstop
  | resumeWrite w' os hresume =>
      obtain ⟨f, wake, hf, -⟩ := WriteSide.resumeWrite_eq_some hresume
      rw [hnone] at hf
      cases hf
  | other a os ha hos =>
      refine ⟨⟨hnone, hserved⟩, fun l hl => ?_⟩
      have hsilent := (hos l hl).1
      cases l <;> first | rfl | cases hsilent

end Nghttp2Corosio
