import Nghttp2Corosio.Stream.Basic

/-!
The write side of a `Stream`: the coroutine `write_impl`, the operations that
the public classes build from it, and `producer_callback`, through which
nghttp2 pulls the bytes of a write.

A suspended operation keeps its state in a `WriteFrame`. Its bottom is always a
`write_impl` call, the one that `WriteFrame.call` names. `write_some` and
`Stream::write_eof` are that one call. `write` repeats `write_some` over the
rest of its buffers until all bytes are written or an error is reported;
`write_eof(buffers)` of `Response` and `ClientRequest` does the same and then
ends the body with a `write_eof_({})`, which is the `tail` of the operation.
When a `write_impl` returns, the operation around it goes on in the same
stretch: it completes, or it makes its next call.

The buffers belong to the caller, who leaves them alone while the operation
runs; the model has their bytes where the source has pointers to them.
-/

namespace Nghttp2Corosio

open Async Buffers Runs

/-- The conversion of a buffer sequence to `const_buffer_array<max_iovec_>`. -/
def constBufferArray (buffers : List Bytes) : List Bytes := capped maxIovec buffers

structure WriteFrame where
  op : WriteOp
  /-- What `capy::write` has not consumed yet of the buffers. -/
  rest : List Bytes
  /-- What `capy::write` has counted as written. -/
  total : ℕ
  tail : Bool
  stopped : Bool

structure WriteSide where
  pending : List Bytes := []
  pendingCursor : List Bytes := []
  writeOffset : ℕ := 0
  writePending : Bool := false
  writeEofRequested : Bool := false
  writeDeferred : Bool := false
  writeProgress : Event Unit := {}
  /-- The frame of the suspended write operation. -/
  writer : Option WriteFrame := none

def WriteFrame.call (f : WriteFrame) : List Bytes × Bool :=
  match f.op with
  | .writeSome buffers => (constBufferArray buffers, false)
  | .write _ => (constBufferArray f.rest, false)
  | .writeEofWith _ => if f.tail then ([], true) else (constBufferArray f.rest, false)
  | .writeEof => ([], true)
  | .streamWriteEof buffers => (constBufferArray buffers, true)

/-- What an operation does next: complete without an error, or call
`write_impl`. -/
inductive WriteNext
  | done (n : ℕ)
  | call (f : WriteFrame)

/-- The head of the loop in `capy::write`, and what comes after the loop. -/
def WriteFrame.composed (f : WriteFrame) : WriteNext :=
  if f.total < f.op.bytes.length then .call f
  else
    match f.op with
    | .writeEofWith _ => .call { f with tail := true }
    | _ => .done f.total

def WriteOp.frame (op : WriteOp) (stopped : Bool) : WriteFrame :=
  ⟨op, op.buffers, 0, false, stopped⟩

def WriteOp.start (op : WriteOp) (stopped : Bool) : WriteNext :=
  match op with
  | .write _ | .writeEofWith _ => (op.frame stopped).composed
  | _ => .call (op.frame stopped)

/-- The `write_impl` call returned `n` bytes and no error. -/
def WriteFrame.advance (f : WriteFrame) (n : ℕ) : WriteNext :=
  match f.op with
  | .writeSome _ | .streamWriteEof _ => .done n
  | .writeEof => .done 0
  | .write _ => { f with rest := consume n f.rest, total := f.total + n }.composed
  | .writeEofWith _ =>
      if f.tail then .done f.total
      else { f with rest := consume n f.rest, total := f.total + n }.composed

/-- The `write_impl` call returned `n` bytes and an error: the operation
completes with that error and this count. -/
def WriteFrame.fail (f : WriteFrame) (n : ℕ) : ℕ :=
  match f.op with
  | .writeSome _ | .streamWriteEof _ => n
  | .writeEof => 0
  | .write _ => f.total + n
  | .writeEofWith _ => if f.tail then f.total else f.total + n

def WriteSide.arm (w : WriteSide) (buffers : List Bytes) (eof : Bool) : WriteSide :=
  { w with
    pending := buffers
    pendingCursor := buffers
    writeOffset := 0
    writeEofRequested := eof
    writePending := true
    writeDeferred := false }

/-- `write_impl` tells nghttp2 and `send_loop` about it; a deferred provider
has to be resumed. -/
def WriteSide.poke (w : WriteSide) : List Label :=
  (if w.writeDeferred then [.call .resumeData] else []) ++ [.call .startWrite]

/-- `write_impl` up to its `co_await`: `none` if it is suspended there, else
the error and the count that it returns. -/
def WriteSide.writeImpl (w : WriteSide) (closed : Bool) (buffers : List Bytes) (eof : Bool)
    (stopped : Bool) : WriteSide × List Label × Option (Error × ℕ) :=
  if closed then (w, [], some (.eof, 0))
  else
    let (ev, suspended) := w.writeProgress.clearWait () stopped
    let armed := { w.arm buffers eof with writeProgress := ev }
    if suspended then (armed, w.poke, none)
    else ({ armed with writePending := false }, w.poke, some (.canceled, armed.writeOffset))

def WriteSide.runCall (w : WriteSide) (closed : Bool) (f : WriteFrame) :
    WriteSide × List Label :=
  match w.writeImpl closed f.call.1 f.call.2 f.stopped with
  | (w, calls, none) => ({ w with writer := some f }, calls)
  | (w, calls, some (ec, n)) =>
      ({ w with writer := none }, calls ++ [.writeReturned f.op (some ec) (f.fail n)])

def WriteSide.proceed (w : WriteSide) (closed : Bool) (op : WriteOp) :
    WriteNext → WriteSide × List Label
  | .done n => ({ w with writer := none }, [.writeReturned op none n])
  | .call f => w.runCall closed f

def WriteSide.write (w : WriteSide) (closed : Bool) (op : WriteOp) (stopped : Bool) :
    WriteSide × List Label :=
  let (w, os) := w.proceed closed op (op.start stopped)
  (w, .writeCalled op :: os)

def WriteSide.stopWrite (w : WriteSide) : Option WriteSide :=
  w.writer.map fun f =>
    { w with writer := some { f with stopped := true }, writeProgress := w.writeProgress.stop () }

def WriteSide.resumeWrite (w : WriteSide) (closed : Bool) : Option (WriteSide × List Label) :=
  match w.writer, w.writeProgress.waiter () with
  | some f, .posted wake =>
      let w :=
        { w with writePending := false, writeProgress := w.writeProgress.resume (), writer := none }
      match wake with
      | .canceled => some (w, [.writeReturned f.op (some .canceled) (f.fail w.writeOffset)])
      | .signalled => some (w.proceed closed f.op (f.advance w.writeOffset))
  | _, _ => none

/-- The part of `on_close` that wakes a suspended write. -/
def WriteSide.onClose (w : WriteSide) : WriteSide :=
  { w with writeProgress := w.writeProgress.set }

/-- nghttp2 asks for at most `length` bytes. -/
def WriteSide.producerCallback (w : WriteSide) (length : ℕ) : WriteSide × List Label :=
  if !w.writePending then ({ w with writeDeferred := true }, [.deferred])
  else
    let bytes := w.pendingCursor.flatten.take length
    let w :=
      { w with
        pendingCursor := consume bytes.length w.pendingCursor
        writeOffset := w.writeOffset + bytes.length }
    -- a plain write completes after one call, `write_eof` when everything is copied
    if w.writeOffset = w.pending.flatten.length ∨ w.writeEofRequested = false then
      ({ w with writePending := false, writeProgress := w.writeProgress.set },
        [.pulled bytes w.writeEofRequested])
    else (w, [.pulled bytes false])

/-! ### Labels -/

/-- The three outcomes of a call of `write_impl`: it returns an error because
the stream is closed, it is suspended, or it returns an error because its token
is stopped. -/
theorem WriteSide.runCall_cases (w : WriteSide) (closed : Bool) (f : WriteFrame) :
    closed = true ∧ w.runCall closed f =
        ({ w with writer := none }, [.writeReturned f.op (some .eof) (f.fail 0)]) ∨
      closed = false ∧ f.stopped = false ∧ w.runCall closed f =
        ({ w.arm f.call.1 f.call.2 with
            writeProgress := ⟨false, Function.update w.writeProgress.waiter () .waiting⟩
            writer := some f }, w.poke) ∨
      closed = false ∧ f.stopped = true ∧ w.runCall closed f =
        ({ w.arm f.call.1 f.call.2 with
            writeProgress := w.writeProgress.clear, writePending := false, writer := none },
          w.poke ++ [.writeReturned f.op (some .canceled) (f.fail 0)]) := by
  unfold WriteSide.runCall WriteSide.writeImpl
  cases closed with
  | true => exact .inl ⟨rfl, rfl⟩
  | false =>
      cases hs : f.stopped with
      | false => exact .inr (.inl ⟨rfl, rfl, rfl⟩)
      | true => exact .inr (.inr ⟨rfl, rfl, rfl⟩)

theorem WriteSide.poke_labels (w : WriteSide) : ∀ l ∈ w.poke, l.OfWrite := by
  intro l hl
  rcases List.mem_append.mp hl with hl | hl
  · split at hl
    · rw [List.mem_singleton.mp hl]
      exact .inl rfl
    · cases hl
  · exact .inr (List.mem_singleton.mp hl)

theorem WriteSide.runCall_labels (w : WriteSide) (closed : Bool) (f : WriteFrame) :
    ∀ l ∈ (w.runCall closed f).2, l.OfWrite := by
  intro l hl
  rcases w.runCall_cases closed f with ⟨-, heq⟩ | ⟨-, -, heq⟩ | ⟨-, -, heq⟩ <;> rw [heq] at hl
  · rw [List.mem_singleton.mp hl]
    exact .inl rfl
  · exact w.poke_labels l hl
  · rcases List.mem_append.mp hl with hl | hl
    · exact w.poke_labels l hl
    · rw [List.mem_singleton.mp hl]
      exact .inl rfl

theorem WriteSide.proceed_labels (w : WriteSide) (closed : Bool) (op : WriteOp)
    (next : WriteNext) : ∀ l ∈ (w.proceed closed op next).2, l.OfWrite := by
  cases next with
  | done n =>
      intro l hl
      rw [List.mem_singleton.mp hl]
      exact .inl rfl
  | call f => exact WriteSide.runCall_labels w closed f

theorem WriteSide.write_labels (w : WriteSide) (closed : Bool) (op : WriteOp) (stopped : Bool) :
    ∀ l ∈ (w.write closed op stopped).2, l.OfWrite := by
  intro l hl
  rcases List.mem_cons.mp hl with rfl | hl
  · exact .inl rfl
  · exact WriteSide.proceed_labels w closed op _ l hl

theorem WriteSide.resumeWrite_eq_some {w w' : WriteSide} {closed : Bool} {os : List Label}
    (h : w.resumeWrite closed = some (w', os)) :
    ∃ f wake, w.writer = some f ∧ w.writeProgress.waiter () = .posted wake ∧
      (wake = .canceled ∧ os = [.writeReturned f.op (some .canceled) (f.fail w.writeOffset)] ∧
        w' = { w with
          writePending := false, writeProgress := w.writeProgress.resume (), writer := none } ∨
      wake = .signalled ∧ (w', os) = WriteSide.proceed
        { w with
          writePending := false, writeProgress := w.writeProgress.resume (), writer := none }
        closed f.op (f.advance w.writeOffset)) := by
  unfold WriteSide.resumeWrite at h
  split at h
  · rename_i f wake hf hw
    refine ⟨f, wake, hf, hw, ?_⟩
    cases wake with
    | canceled =>
        simp only [Option.some.injEq, Prod.mk.injEq] at h
        exact .inl ⟨rfl, h.2.symm, h.1.symm⟩
    | signalled =>
        simp only [Option.some.injEq] at h
        exact .inr ⟨rfl, h.symm⟩
  · cases h

theorem WriteSide.resumeWrite_labels {w w' : WriteSide} {closed : Bool} {os : List Label}
    (h : w.resumeWrite closed = some (w', os)) : ∀ l ∈ os, l.OfWrite := by
  obtain ⟨f, wake, -, -, ⟨-, rfl, -⟩ | ⟨-, heq⟩⟩ := WriteSide.resumeWrite_eq_some h
  · intro l hl
    rw [List.mem_singleton.mp hl]
    exact .inl rfl
  · rw [show os = (WriteSide.proceed _ closed f.op _).2 from congrArg Prod.snd heq]
    exact WriteSide.proceed_labels _ _ _ _

/-- The three outcomes of `producer_callback`: nothing to send, a write that is
completed by this call, and a `write_eof` of which a part remains. -/
theorem WriteSide.producerCallback_cases (w : WriteSide) (length : ℕ) :
    w.writePending = false ∧
        w.producerCallback length = ({ w with writeDeferred := true }, [.deferred]) ∨
      w.writePending = true ∧ ∃ bytes, bytes = w.pendingCursor.flatten.take length ∧
        ((w.writeOffset + bytes.length = w.pending.flatten.length ∨
            w.writeEofRequested = false) ∧
          w.producerCallback length =
            ({ w with
                pendingCursor := consume bytes.length w.pendingCursor
                writeOffset := w.writeOffset + bytes.length
                writePending := false
                writeProgress := w.writeProgress.set }, [.pulled bytes w.writeEofRequested]) ∨
          w.writeOffset + bytes.length ≠ w.pending.flatten.length ∧ w.writeEofRequested = true ∧
          w.producerCallback length =
            ({ w with
                pendingCursor := consume bytes.length w.pendingCursor
                writeOffset := w.writeOffset + bytes.length }, [.pulled bytes false])) := by
  unfold WriteSide.producerCallback
  cases hp : w.writePending with
  | false => exact .inl ⟨rfl, rfl⟩
  | true =>
      refine .inr ⟨rfl, _, rfl, ?_⟩
      simp only [Bool.not_true, Bool.false_eq_true, if_false]
      split
      · rename_i hdone
        exact .inl ⟨hdone, rfl⟩
      · rename_i hdone
        simp only [not_or, Bool.not_eq_false] at hdone
        exact .inr ⟨hdone.1, hdone.2, by simp⟩

theorem WriteSide.producerCallback_labels (w : WriteSide) (length : ℕ) :
    ∀ l ∈ (w.producerCallback length).2, l.OfWrite := by
  intro l hl
  rcases w.producerCallback_cases length with
      ⟨-, heq⟩ | ⟨-, bytes, -, ⟨-, heq⟩ | ⟨-, -, heq⟩⟩ <;>
  · rw [heq] at hl
    rw [List.mem_singleton.mp hl]
    exact .inl rfl

/-! ### Frames that can occur

`WriteFrame.Ok` ties the counters of a frame to the bytes of its operation. -/

def WriteOp.isComposed : WriteOp → Bool
  | .write _ | .writeEofWith _ => true
  | _ => false

structure WriteFrame.Ok (f : WriteFrame) : Prop where
  rest : f.rest.flatten = f.op.bytes.drop f.total
  le : f.total ≤ f.op.bytes.length
  single : f.op.isComposed = false → f.total = 0 ∧ f.tail = false
  looping : f.op.isComposed = true → f.tail = false → f.total < f.op.bytes.length
  tail : f.tail = true → (∃ buffers, f.op = .writeEofWith buffers) ∧ f.total = f.op.bytes.length

theorem WriteFrame.composed_call {f f' : WriteFrame}
    (hrest : f.rest.flatten = f.op.bytes.drop f.total) (htail : f.tail = false)
    (hle : f.total ≤ f.op.bytes.length) (hcomp : f.op.isComposed = true)
    (h : f.composed = .call f') :
    f'.Ok ∧ f'.op = f.op ∧ f'.total = f.total ∧ f'.stopped = f.stopped := by
  unfold WriteFrame.composed at h
  split at h
  · rename_i hlt
    cases h
    refine ⟨⟨hrest, hle, fun hc => ?_, fun _ _ => hlt, fun ht => ?_⟩, rfl, rfl, rfl⟩
    · rw [hcomp] at hc
      cases hc
    · rw [htail] at ht
      cases ht
  · rename_i hge
    split at h
    · rename_i buffers hop
      cases h
      refine ⟨⟨hrest, hle, fun hc => ?_, fun _ ht => ?_, fun _ => ⟨⟨buffers, hop⟩, ?_⟩⟩,
        rfl, rfl, rfl⟩
      · rw [hop] at hc
        cases hc
      · cases ht
      · exact le_antisymm hle (not_lt.mp hge)
    · cases h

theorem WriteFrame.composed_done {f : WriteFrame} {n : ℕ} (hle : f.total ≤ f.op.bytes.length)
    (h : f.composed = .done n) :
    n = f.op.bytes.length ∧ n = f.total ∧ ∀ buffers, f.op ≠ .writeEofWith buffers := by
  unfold WriteFrame.composed at h
  split at h
  · cases h
  · rename_i hge
    split at h
    · cases h
    · rename_i hop
      cases h
      exact ⟨le_antisymm hle (not_lt.mp hge), rfl, hop⟩

theorem WriteOp.frame_ok {op : WriteOp} (hcomp : op.isComposed = false) (stopped : Bool) :
    (op.frame stopped).Ok where
  rest := rfl
  le := Nat.zero_le _
  single _ := ⟨rfl, rfl⟩
  looping hc := absurd (hcomp.symm.trans hc) Bool.false_ne_true
  tail ht := absurd ht Bool.false_ne_true

theorem WriteOp.start_call {op : WriteOp} {stopped : Bool} {f : WriteFrame}
    (h : op.start stopped = .call f) :
    f.Ok ∧ f.op = op ∧ f.total = 0 ∧ f.stopped = stopped := by
  have hcomposed (hcomp : op.isComposed = true) (h : (op.frame stopped).composed = .call f) :
      f.Ok ∧ f.op = op ∧ f.total = 0 ∧ f.stopped = stopped :=
    WriteFrame.composed_call rfl rfl (Nat.zero_le _) hcomp h
  cases op with
  | write buffers => exact hcomposed rfl h
  | writeEofWith buffers => exact hcomposed rfl h
  | writeSome buffers => cases h; exact ⟨WriteOp.frame_ok rfl _, rfl, rfl, rfl⟩
  | writeEof => cases h; exact ⟨WriteOp.frame_ok rfl _, rfl, rfl, rfl⟩
  | streamWriteEof buffers => cases h; exact ⟨WriteOp.frame_ok rfl _, rfl, rfl, rfl⟩

/-- Only a `write` of nothing completes before its first call. -/
theorem WriteOp.start_done {op : WriteOp} {stopped : Bool} {n : ℕ}
    (h : op.start stopped = .done n) : n = 0 ∧ ∃ buffers, op = .write buffers := by
  cases op with
  | write buffers => exact ⟨(WriteFrame.composed_done (Nat.zero_le _) h).2.1, buffers, rfl⟩
  | writeEofWith buffers =>
      exact absurd rfl ((WriteFrame.composed_done (Nat.zero_le _) h).2.2 buffers)
  | writeSome buffers => cases h
  | writeEof => cases h
  | streamWriteEof buffers => cases h

/-- The bytes that one `write_impl` call is given are the next bytes of the
operation. -/
theorem WriteFrame.Ok.call_prefix {f : WriteFrame} (h : f.Ok) :
    f.call.1.flatten <+: f.op.bytes.drop f.total := by
  obtain ⟨op, rest, total, tail, stopped⟩ := f
  cases op with
  | writeSome buffers =>
      obtain ⟨rfl, -⟩ := h.single rfl
      exact flatten_capped_prefix maxIovec buffers
  | streamWriteEof buffers =>
      obtain ⟨rfl, -⟩ := h.single rfl
      exact flatten_capped_prefix maxIovec buffers
  | writeEof => exact List.nil_prefix
  | write buffers =>
      rw [← h.rest]
      exact flatten_capped_prefix maxIovec rest
  | writeEofWith buffers =>
      cases tail with
      | true => exact List.nil_prefix
      | false =>
          rw [← h.rest]
          exact flatten_capped_prefix maxIovec rest

/-- A call that does not ask for the end of the body has something to write,
unless it is the one of a `write_some` of nothing. -/
theorem WriteFrame.Ok.call_ne_nil {f : WriteFrame} (h : f.Ok)
    (hop : ∀ buffers, f.op = .writeSome buffers → buffers.flatten ≠ []) (heof : f.call.2 = false) :
    f.call.1.flatten ≠ [] := by
  have hlooping (hcomp : f.op.isComposed = true) (htail : f.tail = false) :
      (constBufferArray f.rest).flatten ≠ [] := by
    refine flatten_capped_ne_nil maxIovec_pos ?_
    rw [h.rest, Ne, List.drop_eq_nil_iff, not_le]
    exact h.looping hcomp htail
  obtain ⟨op, rest, total, tail, stopped⟩ := f
  cases op with
  | writeSome buffers => exact flatten_capped_ne_nil maxIovec_pos (hop buffers rfl)
  | write buffers =>
      cases tail with
      | true =>
          obtain ⟨⟨_, hop⟩, -⟩ := h.tail rfl
          cases hop
      | false => exact hlooping rfl rfl
  | writeEofWith buffers =>
      cases tail with
      | true => cases heof
      | false => exact hlooping rfl rfl
  | writeEof => cases heof
  | streamWriteEof buffers => cases heof

theorem WriteFrame.Ok.call_length_le {f : WriteFrame} (h : f.Ok) :
    f.total + f.call.1.flatten.length ≤ f.op.bytes.length := by
  have hprefix := h.call_prefix.length_le
  have hle := h.le
  rw [List.length_drop] at hprefix
  omega

theorem WriteFrame.Ok.fail_eq {f : WriteFrame} (h : f.Ok) {n : ℕ}
    (hn : n ≤ f.call.1.flatten.length) : f.fail n = f.total + n := by
  obtain ⟨op, rest, total, tail, stopped⟩ := f
  cases op with
  | writeSome buffers =>
      obtain ⟨rfl, -⟩ := h.single rfl
      exact (Nat.zero_add n).symm
  | streamWriteEof buffers =>
      obtain ⟨rfl, -⟩ := h.single rfl
      exact (Nat.zero_add n).symm
  | writeEof =>
      obtain ⟨rfl, -⟩ := h.single rfl
      have : n = 0 := by simpa [WriteFrame.call] using hn
      rw [this]
      rfl
  | write buffers => rfl
  | writeEofWith buffers =>
      cases tail with
      | true =>
          have : n = 0 := by simpa [WriteFrame.call] using hn
          rw [this]
          rfl
      | false => rfl

theorem WriteFrame.Ok.advance_eq {f : WriteFrame} (h : f.Ok) (hcomp : f.op.isComposed = true)
    (htail : f.tail = false) (n : ℕ) :
    f.advance n = WriteFrame.composed
      { f with rest := consume n f.rest, total := f.total + n } ∧
    (consume n f.rest).flatten = f.op.bytes.drop (f.total + n) := by
  refine ⟨?_, ?_⟩
  · obtain ⟨op, rest, total, tail, stopped⟩ := f
    subst htail
    cases op with
    | write buffers => rfl
    | writeEofWith buffers => rfl
    | _ => cases hcomp
  · rw [flatten_consume, h.rest, List.drop_drop]

theorem WriteFrame.Ok.advance_call {f f' : WriteFrame} (h : f.Ok) {n : ℕ}
    (hn : n ≤ f.call.1.flatten.length) (hadv : f.advance n = .call f') :
    f'.Ok ∧ f'.op = f.op ∧ f'.total = f.total + n ∧ f'.stopped = f.stopped := by
  have hle := h.call_length_le
  cases hcomp : f.op.isComposed with
  | false =>
      unfold WriteFrame.advance at hadv
      split at hadv <;> simp_all [WriteOp.isComposed]
  | true =>
      cases htail : f.tail with
      | true =>
          obtain ⟨⟨buffers, hop⟩, -⟩ := h.tail htail
          simp [WriteFrame.advance, hop, htail] at hadv
      | false =>
          obtain ⟨heq, hrest⟩ := h.advance_eq hcomp htail n
          rw [heq] at hadv
          have hle' : f.total + n ≤ f.op.bytes.length := by omega
          exact WriteFrame.composed_call
            (f := { f with rest := consume n f.rest, total := f.total + n })
            hrest htail hle' hcomp hadv

/-- An operation that completes after a call reports the bytes of all its
calls, and is not left before its tail. -/
theorem WriteFrame.Ok.advance_done {f : WriteFrame} (h : f.Ok) {n m : ℕ}
    (hn : n ≤ f.call.1.flatten.length) (hadv : f.advance n = .done m) :
    m = f.total + n ∧ ∀ buffers, f.op = .writeEofWith buffers → f.tail = true := by
  have hle := h.call_length_le
  cases hcomp : f.op.isComposed with
  | false =>
      have hm : m = f.fail n := by
        unfold WriteFrame.advance at hadv
        unfold WriteFrame.fail
        split at hadv <;> simp_all [WriteOp.isComposed]
      refine ⟨hm.trans (h.fail_eq hn), fun buffers hop => ?_⟩
      rw [hop] at hcomp
      cases hcomp
  | true =>
      cases htail : f.tail with
      | true =>
          obtain ⟨⟨buffers, hop⟩, -⟩ := h.tail htail
          have hm : m = f.fail n := by
            simp only [WriteFrame.advance, hop, htail, if_true, WriteNext.done.injEq] at hadv
            simp [WriteFrame.fail, hop, htail, hadv]
          exact ⟨hm.trans (h.fail_eq hn), fun _ _ => rfl⟩
      | false =>
          obtain ⟨heq, hrest⟩ := h.advance_eq hcomp htail n
          rw [heq] at hadv
          have hle' : f.total + n ≤ f.op.bytes.length := by omega
          obtain ⟨-, hm, hop⟩ := WriteFrame.composed_done
            (f := { f with rest := consume n f.rest, total := f.total + n }) hle' hadv
          exact ⟨hm, fun buffers heq => absurd heq (hop buffers)⟩

theorem WriteFrame.Ok.advance_composed {f : WriteFrame} (h : f.Ok) {n m : ℕ}
    (hn : n ≤ f.call.1.flatten.length) (hcomp : f.op.isComposed = true)
    (hadv : f.advance n = .done m) : m = f.op.bytes.length := by
  have hle := h.call_length_le
  cases htail : f.tail with
  | true =>
      obtain ⟨⟨buffers, hop⟩, htotal⟩ := h.tail htail
      rw [← htotal]
      simp only [WriteFrame.advance, hop, htail, if_true, WriteNext.done.injEq] at hadv
      exact hadv.symm
  | false =>
      obtain ⟨heq, -⟩ := h.advance_eq hcomp htail n
      rw [heq] at hadv
      have hle' : f.total + n ≤ f.op.bytes.length := by omega
      exact (WriteFrame.composed_done
        (f := { f with rest := consume n f.rest, total := f.total + n }) hle' hadv).1

end Nghttp2Corosio
