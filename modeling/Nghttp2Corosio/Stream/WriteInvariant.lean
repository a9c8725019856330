import Nghttp2Corosio.Stream.Cell

/-!
The invariant of the write side.

`WriteSide.Inv` says how the flags of the write side belong together: a write
is armed only while an operation is suspended, it is then the write of that
operation's current call, and an operation that nothing is going to wake is one
that `producer_callback` still has to serve. Every step keeps it, whatever the
order of callbacks, stop requests and resumptions. What the provider of nghttp2
believes, and which bytes it was given, follow from it.
-/

namespace Nghttp2Corosio

open Async Buffers Runs

structure WriteSide.Inv (closed : Bool) (w : WriteSide) : Prop where
  suspended : w.writer = none ↔ w.writeProgress.waiter () = .idle
  armed : w.writePending = true → w.writer.isSome = true ∧ w.writeDeferred = false
  waiting : w.writeProgress.waiter () = .waiting → w.writePending = true ∧ closed = false
  frame : ∀ f, w.writer = some f →
    f.Ok ∧ w.pending = f.call.1 ∧ w.writeEofRequested = f.call.2
  cursor : w.pendingCursor.flatten = w.pending.flatten.drop w.writeOffset
  offset : w.writeOffset ≤ w.pending.flatten.length

theorem WriteSide.inv_fresh : WriteSide.Inv false {} where
  suspended := by simp
  armed h := by cases h
  waiting h := by cases h
  frame f h := by cases h
  cursor := rfl
  offset := Nat.le_refl _

/-- The bytes that the suspended operation has written so far, those of its
earlier calls included. -/
def WriteSide.progress (w : WriteSide) : Bytes :=
  match w.writer with
  | none => []
  | some f => f.op.bytes.take (f.total + w.writeOffset)

theorem WriteSide.progress_none {w : WriteSide} (hw : w.writer = none) : w.progress = [] := by
  simp [WriteSide.progress, hw]

theorem WriteSide.progress_some {w : WriteSide} {f : WriteFrame} (hw : w.writer = some f) :
    w.progress = f.op.bytes.take (f.total + w.writeOffset) := by
  simp [WriteSide.progress, hw]

theorem WriteSide.Inv.offset_le_call {closed : Bool} {w : WriteSide} (h : w.Inv closed)
    {f : WriteFrame} (hf : w.writer = some f) : w.writeOffset ≤ f.call.1.flatten.length := by
  rw [← (h.frame f hf).2.1]
  exact h.offset

/-- A suspended operation that `producer_callback` will not serve is resumed. -/
theorem WriteSide.Inv.posted {closed : Bool} {w : WriteSide} (h : w.Inv closed) {f : WriteFrame}
    (hf : w.writer = some f) (hserved : w.writePending = false ∨ closed = true) :
    ∃ wake, w.writeProgress.waiter () = .posted wake := by
  cases hwaiter : w.writeProgress.waiter () with
  | posted wake => exact ⟨wake, rfl⟩
  | idle =>
      rw [h.suspended.mpr hwaiter] at hf
      cases hf
  | waiting =>
      obtain ⟨hp, hopen⟩ := h.waiting hwaiter
      rcases hserved with hserved | hserved
      · rw [hp] at hserved
        cases hserved
      · rw [hopen] at hserved
        cases hserved

/-! ### An operation that is given the processor

It runs until it completes or until its next `write_impl` is suspended. -/

/-- What `op` does next is right for an operation that has `k` bytes written. -/
def WriteNext.Ok (op : WriteOp) (k : ℕ) : WriteNext → Prop
  | .done n => n = k
  | .call f => f.Ok ∧ f.op = op ∧ f.total = k

theorem WriteOp.start_ok (op : WriteOp) (stopped : Bool) : (op.start stopped).Ok op 0 := by
  cases hstart : op.start stopped with
  | done n => exact (WriteOp.start_done hstart).1
  | call f =>
      obtain ⟨hf, hop, htotal, -⟩ := WriteOp.start_call hstart
      exact ⟨hf, hop, htotal⟩

theorem WriteFrame.Ok.advance_ok {f : WriteFrame} (h : f.Ok) {n : ℕ}
    (hn : n ≤ f.call.1.flatten.length) : (f.advance n).Ok f.op (f.total + n) := by
  cases hadv : f.advance n with
  | done m => exact (h.advance_done hn hadv).1
  | call f' =>
      obtain ⟨hf', hop, htotal, -⟩ := h.advance_call hn hadv
      exact ⟨hf', hop, htotal⟩

theorem WriteSide.poke_bytes (w : WriteSide) : pulled w.poke = [] ∧ written w.poke = [] := by
  unfold WriteSide.poke
  cases w.writeDeferred <;> exact ⟨rfl, rfl⟩

theorem WriteSide.Inv.runCall {closed : Bool} {w : WriteSide} (h : w.Inv closed)
    (hw : w.writer = none) {f : WriteFrame} (hf : f.Ok) :
    (w.runCall closed f).1.Inv closed ∧ pulled (w.runCall closed f).2 = [] ∧
      f.op.bytes.take f.total =
        written (w.runCall closed f).2 ++ (w.runCall closed f).1.progress := by
  obtain ⟨hpulled, hwritten⟩ := w.poke_bytes
  have hidle := h.suspended.mp hw
  have hfail : f.fail 0 = f.total := hf.fail_eq (Nat.zero_le _)
  rcases w.runCall_cases closed f with ⟨-, heq⟩ | ⟨hopen, -, heq⟩ | ⟨-, -, heq⟩
  · rw [heq, ← hw]
    refine ⟨h, rfl, ?_⟩
    rw [WriteSide.progress_none hw, hfail]
    simp [written, Label.writtenBytes]
  · rw [heq]
    refine ⟨⟨by simp, fun _ => ⟨rfl, rfl⟩, fun _ => ⟨rfl, hopen⟩, ?_, rfl, Nat.zero_le _⟩,
      hpulled, ?_⟩
    · intro f' hf'
      obtain rfl : f = f' := by simpa using hf'
      exact ⟨hf, rfl, rfl⟩
    · rw [hwritten]
      rfl
  · rw [heq]
    refine ⟨⟨by simp [hidle], by simp, fun hp => ?_, by simp, rfl, Nat.zero_le _⟩, ?_, ?_⟩
    · simp [hidle] at hp
    · rw [pulled_append, hpulled]
      rfl
    · rw [written_append, hwritten, WriteSide.progress_none rfl, hfail]
      simp [written, Label.writtenBytes]

theorem WriteSide.Inv.proceed {closed : Bool} {w : WriteSide} (h : w.Inv closed)
    (hw : w.writer = none) {op : WriteOp} {k : ℕ} {next : WriteNext} (hnext : next.Ok op k) :
    (w.proceed closed op next).1.Inv closed ∧ pulled (w.proceed closed op next).2 = [] ∧
      op.bytes.take k =
        written (w.proceed closed op next).2 ++ (w.proceed closed op next).1.progress := by
  cases next with
  | done n =>
      obtain rfl : n = k := hnext
      rw [show w.proceed closed op (.done n) = (w, [.writeReturned op none n]) by
        rw [WriteSide.proceed, ← hw]]
      refine ⟨h, rfl, ?_⟩
      rw [WriteSide.progress_none hw]
      simp [written, Label.writtenBytes]
  | call f =>
      obtain ⟨hf, rfl, rfl⟩ := hnext
      exact h.runCall hw hf

def WriteSide.taken (w : WriteSide) : WriteSide :=
  { w with writePending := false, writeProgress := w.writeProgress.resume (), writer := none }

theorem WriteSide.Inv.taken {closed : Bool} {w : WriteSide} (h : w.Inv closed) :
    w.taken.Inv closed where
  suspended := by simp [WriteSide.taken]
  armed hp := by cases hp
  waiting hp := by simp [WriteSide.taken] at hp
  frame f hf := by cases hf
  cursor := h.cursor
  offset := h.offset

theorem WriteSide.Inv.resumeWrite {closed : Bool} {w w' : WriteSide} {os : List Label}
    (h : w.Inv closed) (hs : w.resumeWrite closed = some (w', os)) :
    w'.Inv closed ∧ pulled os = [] ∧ w.progress = written os ++ w'.progress := by
  obtain ⟨f, wake, hf, -, ⟨-, rfl, rfl⟩ | ⟨-, heq⟩⟩ := WriteSide.resumeWrite_eq_some hs
  · refine ⟨h.taken, rfl, ?_⟩
    rw [WriteSide.progress_some hf, WriteSide.progress_none rfl,
      (h.frame f hf).1.fail_eq (h.offset_le_call hf)]
    simp [written, Label.writtenBytes]
  · obtain ⟨rfl, rfl⟩ := Prod.ext_iff.mp heq
    rw [WriteSide.progress_some hf]
    exact h.taken.proceed rfl ((h.frame f hf).1.advance_ok (h.offset_le_call hf))

/-! ### nghttp2 pulls -/

theorem take_append_of_prefix {β : Type*} {l bytes : List β} {k : ℕ} (h : bytes <+: l.drop k) :
    l.take k ++ bytes = l.take (k + bytes.length) := by
  rw [List.take_add, ← List.prefix_iff_eq_take.mp h]

theorem WriteSide.Inv.pull {closed : Bool} {w : WriteSide} (h : w.Inv closed) {f : WriteFrame}
    (hf : w.writer = some f) (length : ℕ) :
    w.pendingCursor.flatten.take length <+: f.op.bytes.drop (f.total + w.writeOffset) := by
  obtain ⟨hok, hpending, -⟩ := h.frame f hf
  rw [h.cursor, hpending, ← List.drop_drop]
  exact (List.take_prefix _ _).trans (List.IsPrefix.drop hok.call_prefix _)

theorem WriteSide.Inv.cursor_consume {closed : Bool} {w : WriteSide} (h : w.Inv closed)
    {bytes : Bytes} {length : ℕ} (hb : bytes = w.pendingCursor.flatten.take length) :
    (consume bytes.length w.pendingCursor).flatten =
        w.pending.flatten.drop (w.writeOffset + bytes.length) ∧
      w.writeOffset + bytes.length ≤ w.pending.flatten.length := by
  refine ⟨?_, ?_⟩
  · rw [flatten_consume, h.cursor, List.drop_drop]
  · have hle := h.offset
    rw [hb, List.length_take, h.cursor, List.length_drop]
    omega

theorem WriteSide.Inv.producerCallback {closed : Bool} {w : WriteSide} (h : w.Inv closed)
    (length : ℕ) :
    (w.producerCallback length).1.Inv closed ∧ written (w.producerCallback length).2 = [] ∧
      w.progress ++ pulled (w.producerCallback length).2 =
        (w.producerCallback length).1.progress := by
  rcases w.producerCallback_cases length with ⟨hp, heq⟩ | ⟨hp, bytes, hb, hcase⟩
  · rw [heq]
    refine ⟨⟨h.suspended, fun hp' => ?_, h.waiting, h.frame, h.cursor, h.offset⟩, rfl,
      List.append_nil _⟩
    rw [show w.writePending = true from hp'] at hp
    cases hp
  · obtain ⟨hsome, hdeferred⟩ := h.armed hp
    obtain ⟨f, hf⟩ := Option.isSome_iff_exists.mp hsome
    obtain ⟨hcursor, hoffset⟩ := h.cursor_consume hb
    have hprogress {w' : WriteSide} (hf' : w'.writer = some f)
        (hoff : w'.writeOffset = w.writeOffset + bytes.length) :
        w.progress ++ bytes = w'.progress := by
      rw [WriteSide.progress_some hf, WriteSide.progress_some hf', hoff, ← Nat.add_assoc]
      exact take_append_of_prefix (hb ▸ h.pull hf length)
    have hpulled (eof : Bool) : pulled [.pulled bytes eof] = bytes := List.append_nil bytes
    rcases hcase with ⟨-, heq⟩ | ⟨-, -, heq⟩
    · rw [heq, hpulled]
      refine ⟨⟨by simpa using h.suspended, nofun, fun hw => ?_, h.frame, hcursor,
        hoffset⟩, rfl, hprogress hf rfl⟩
      simp at hw
    · rw [heq, hpulled]
      exact ⟨⟨h.suspended, fun _ => ⟨hsome, hdeferred⟩, h.waiting, h.frame, hcursor, hoffset⟩, rfl,
        hprogress hf rfl⟩

/-! ### Steps -/

theorem WriteSide.Inv.onClose {closed : Bool} {w : WriteSide} (h : w.Inv closed) :
    w.onClose.Inv true where
  suspended := by simpa [WriteSide.onClose] using h.suspended
  armed := h.armed
  waiting hw := by simp [WriteSide.onClose] at hw
  frame := h.frame
  cursor := h.cursor
  offset := h.offset

theorem WriteSide.Inv.stopWrite {closed : Bool} {w w' : WriteSide} (h : w.Inv closed)
    (hstop : w.stopWrite = some w') : w'.Inv closed ∧ w'.progress = w.progress := by
  obtain ⟨f, hf, rfl⟩ := Option.map_eq_some_iff.mp hstop
  have hsuspended := h.suspended
  obtain ⟨hok, hcall⟩ := h.frame f hf
  rw [hf] at hsuspended
  refine ⟨⟨by simpa using hsuspended, fun hp => ⟨rfl, (h.armed hp).2⟩, fun hw => ?_, ?_,
    h.cursor, h.offset⟩, ?_⟩
  · simp at hw
  · intro f' hf'
    obtain rfl : { f with stopped := true } = f' := by simpa using hf'
    exact ⟨⟨hok.rest, hok.le, hok.single, hok.looping, hok.tail⟩, hcall⟩
  · rw [WriteSide.progress_some hf, WriteSide.progress_some rfl]

/-- Every step keeps the invariant, and moves bytes from the operation in
progress to the finished ones. -/
theorem WriteSide.Inv.step {w w' : WriteSide} {closed : Bool} {a : Action} {os : List Label}
    (h : w.Inv closed) (hs : w.Step closed a os w') :
    w'.Inv (closed || decide (a = .onClose)) ∧
      w.progress ++ pulled os = written os ++ w'.progress := by
  cases hs with
  | onClose =>
      rw [show (closed || decide (Action.onClose = .onClose)) = true by simp]
      exact ⟨h.onClose, List.append_nil _⟩
  | producerCallback length =>
      obtain ⟨hinv, hwritten, hprogress⟩ := h.producerCallback length
      refine ⟨by simpa using hinv, ?_⟩
      rw [hwritten, hprogress]
      rfl
  | write op stopped hidle =>
      obtain ⟨hinv, hpulled, hprogress⟩ := h.proceed hidle (op.start_ok stopped)
      refine ⟨by simpa [WriteSide.write] using hinv, ?_⟩
      rw [WriteSide.progress_none hidle]
      exact hpulled.trans hprogress
  | stopWrite w' hstop =>
      obtain ⟨hinv, hprogress⟩ := h.stopWrite hstop
      refine ⟨by simpa using hinv, ?_⟩
      rw [hprogress]
      exact List.append_nil _
  | resumeWrite w' os hresume =>
      obtain ⟨hinv, hpulled, hprogress⟩ := h.resumeWrite hresume
      refine ⟨by simpa using hinv, ?_⟩
      rw [hpulled, hprogress, List.append_nil]
  | other a os ha hos =>
      obtain ⟨hpulled, hwritten⟩ := write_silent fun l hl => (hos l hl).1
      have hne : a ≠ .onClose := by
        rintro rfl
        cases ha
      rw [hpulled, hwritten, List.append_nil, decide_eq_false hne, Bool.or_false]
      exact ⟨h, rfl⟩

theorem WriteSide.Inv.step_cell {c c' : Cell} {a : Action} {os : List Label}
    (h : c.stream.write.Inv c.stream.closed) (hs : cellMachine.step c a = some (c', os)) :
    c'.stream.write.Inv c'.stream.closed ∧
      c.stream.write.progress ++ pulled os = written os ++ c'.stream.write.progress := by
  have hstream := (Cell.step_eq_some hs).2.1
  rw [Stream.step_closed hstream]
  exact h.step (Stream.step_write hstream)

theorem WriteSide.inv_init {c : Cell} (hc : cellMachine.init c) :
    c.stream.write.Inv c.stream.closed ∧ c.stream.write.progress = [] := by
  obtain ⟨id, submitted, rfl⟩ := hc
  exact ⟨WriteSide.inv_fresh, rfl⟩

/-- In every run the write side is in order, and it is a queue of bytes. -/
theorem WriteSide.queue_run {ok : Cell → Action → Prop} {tr : List Label} {c : Cell}
    (run : cellMachine.Run ok tr c) :
    c.stream.write.Inv c.stream.closed ∧ pulled tr = written tr ++ c.stream.write.progress := by
  refine run.queue (I := fun c => c.stream.write.Inv c.stream.closed)
    Label.pulledBytes Label.writtenBytes (fun c => c.stream.write.progress) ?_ ?_
  · exact fun c hc => WriteSide.inv_init hc
  · exact fun c a c' os hI _ hs => hI.step_cell hs

/-- What nghttp2 was given is what the finished operations report, in the order
of their calls, followed by what the operation in progress has written. -/
theorem pulled_eq_written_append_progress {tr : List Label} {c : Cell}
    (run : cellMachine.Run anyStep tr c) :
    pulled tr = written tr ++ c.stream.write.progress :=
  (WriteSide.queue_run run).2

/-- A write that is stopped after a part of it was pulled, and pulled once more
before it resumes, reports both parts; the next write is pulled after it. -/
theorem pulled_eq_written_append_progress_of_stop :
    ∃ tr c, cellMachine.Run anyStep tr c ∧
      .writeReturned (.streamWriteEof [[1, 2], [3, 4]]) (some .canceled) 3 ∈ tr ∧
      c.stream.write.progress = [4, 5] ∧
      pulled tr = written tr ++ c.stream.write.progress := by
  obtain ⟨tr, c, run, hreturned, hprogress⟩ :
      ∃ tr c, cellMachine.Run anyStep tr c ∧
        .writeReturned (.streamWriteEof [[1, 2], [3, 4]]) (some .canceled) 3 ∈ tr ∧
        c.stream.write.progress = [4, 5] :=
    Machine.run_of_exec (cellMachine_init 1 true)
      [.write (.streamWriteEof [[1, 2], [3, 4]]) false, .producerCallback 1, .stopWrite,
        .producerCallback 2, .resumeWrite, .producerCallback 7, .write (.write [[4], [5, 6]]) false,
        .producerCallback 2] (by decide)
  exact ⟨tr, c, run, hreturned, hprogress, pulled_eq_written_append_progress run⟩

/-! ### The data provider -/

/-- nghttp2 and the stream agree on whether the provider is deferred. -/
structure Provider.Agrees (p : Provider) (w : WriteSide) : Prop where
  unsubmitted : p.submitted = false → w.writeDeferred = false
  deferred : p.deferred = w.writeDeferred

theorem Provider.Agrees.poke {p : Provider} {w : WriteSide} (h : p.Agrees w) :
    w.poke.foldl Provider.observe p = { p with deferred := false } := by
  obtain ⟨submitted, attached, deferred⟩ := p
  obtain rfl : deferred = w.writeDeferred := h.deferred
  unfold WriteSide.poke
  cases w.writeDeferred <;> rfl

theorem Provider.Agrees.proceed {p : Provider} {w : WriteSide} (h : p.Agrees w) (closed : Bool)
    (op : WriteOp) (next : WriteNext) :
    ((w.proceed closed op next).2.foldl Provider.observe p).Agrees
      (w.proceed closed op next).1 := by
  cases next with
  | done n => exact ⟨h.unsubmitted, h.deferred⟩
  | call f =>
      show Provider.Agrees ((w.runCall closed f).2.foldl _ p) (w.runCall closed f).1
      rcases w.runCall_cases closed f with ⟨-, heq⟩ | ⟨-, -, heq⟩ | ⟨-, -, heq⟩
      · rw [heq]
        exact ⟨h.unsubmitted, h.deferred⟩
      · rw [heq, h.poke]
        exact ⟨fun _ => rfl, rfl⟩
      · rw [heq, List.foldl_append, h.poke]
        exact ⟨fun _ => rfl, rfl⟩

theorem Provider.observe_silent {os : List Label}
    (h : ∀ l ∈ os, l.isWrite = false ∧ l ≠ .closed) (p : Provider) :
    os.foldl Provider.observe p = p := by
  induction os with
  | nil => rfl
  | cons l os ih =>
      have hl : p.observe l = p := by
        obtain ⟨hw, hc⟩ := h l List.mem_cons_self
        cases l with
        | call c => cases c <;> first | rfl | cases hw
        | closed => exact absurd rfl hc
        | _ => first | rfl | cases hw
      rw [List.foldl_cons, hl]
      exact ih fun l' hl' => h l' (List.mem_cons_of_mem l hl')

theorem Provider.Agrees.step {p : Provider} {w w' : WriteSide} {closed : Bool} {a : Action}
    {os : List Label} (h : p.Agrees w) (hw : w.Inv closed) (hallows : p.allows a = true)
    (hs : w.Step closed a os w') : (os.foldl Provider.observe (p.act a)).Agrees w' := by
  cases hs with
  | onClose => exact ⟨h.unsubmitted, h.deferred⟩
  | producerCallback length =>
      have hsubmitted : p.submitted = true := by
        simp only [Provider.allows, Bool.and_eq_true] at hallows
        exact hallows.1
      rcases w.producerCallback_cases length with ⟨-, heq⟩ | ⟨hp, bytes, -, hcase⟩
      · rw [heq]
        refine ⟨fun hs => ?_, rfl⟩
        rw [show p.submitted = false from hs] at hsubmitted
        cases hsubmitted
      · -- an armed write is not deferred, so the callback changes nothing here
        have hdeferred := (hw.armed hp).2
        rcases hcase with ⟨-, heq⟩ | ⟨-, -, heq⟩ <;>
        · rw [heq]
          exact ⟨fun _ => hdeferred, hdeferred.symm⟩
  | write op stopped hidle => exact h.proceed closed op _
  | stopWrite w' hstop =>
      obtain ⟨f, -, rfl⟩ := Option.map_eq_some_iff.mp hstop
      exact ⟨h.unsubmitted, h.deferred⟩
  | resumeWrite w' os hresume =>
      obtain ⟨f, wake, -, -, ⟨-, rfl, rfl⟩ | ⟨-, heq⟩⟩ := WriteSide.resumeWrite_eq_some hresume
      · exact ⟨h.unsubmitted, h.deferred⟩
      · obtain ⟨rfl, rfl⟩ := Prod.ext_iff.mp heq
        exact Provider.Agrees.proceed (w := w.taken) ⟨h.unsubmitted, h.deferred⟩ closed f.op _
  | other a os ha hos =>
      rw [Provider.observe_silent hos]
      cases a with
      | submit =>
          have hunsubmitted : p.submitted = false := by simpa [Provider.allows] using hallows
          refine ⟨fun hs => ?_, (h.unsubmitted hunsubmitted).symm⟩
          cases hs
      | _ => exact h

/-- No write is lost between the stream and the provider of nghttp2. The two
agree on whether the provider is deferred; a write is armed only while the
operation whose buffers `pending_` describes is suspended; and a suspended
operation which `producer_callback` will not serve has its resumption posted. -/
theorem write_never_lost {tr : List Label} {c : Cell} (run : cellMachine.Run anyStep tr c) :
    (c.provider.attached = true →
        (c.provider.deferred = true ↔ c.stream.write.writeDeferred = true)) ∧
      ¬(c.stream.write.writePending = true ∧ c.stream.write.writeDeferred = true) ∧
      (c.stream.write.writePending = true → ∃ f, c.stream.write.writer = some f ∧
        c.stream.write.writeProgress.waiter () ≠ .idle ∧ c.stream.write.pending = f.call.1 ∧
        c.stream.write.pendingCursor.flatten =
          f.call.1.flatten.drop c.stream.write.writeOffset) ∧
      ∀ f, c.stream.write.writer = some f →
        c.stream.write.writePending = false ∨ c.stream.closed = true →
        ∃ wake, c.stream.write.writeProgress.waiter () = .posted wake := by
  obtain ⟨hinv, hagrees⟩ : c.stream.write.Inv c.stream.closed ∧
      c.provider.Agrees c.stream.write := by
    refine run.invariant (I := fun _ c => c.stream.write.Inv c.stream.closed ∧
      c.provider.Agrees c.stream.write) ?_ ?_
    · intro c hc
      refine ⟨(WriteSide.inv_init hc).1, ?_⟩
      obtain ⟨id, submitted, rfl⟩ := hc
      exact ⟨fun _ => rfl, rfl⟩
    · intro tr c a c' os hI _ hs
      obtain ⟨hallows, hstream, hprovider⟩ := Cell.step_eq_some hs
      refine ⟨(hI.1.step_cell hs).1, ?_⟩
      rw [hprovider]
      exact hI.2.step hI.1 hallows (Stream.step_write hstream)
  refine ⟨fun _ => by rw [hagrees.deferred], fun hboth => ?_, fun hp => ?_,
    fun f hf => hinv.posted hf⟩
  · rw [(hinv.armed hboth.1).2] at hboth
    exact Bool.false_ne_true hboth.2
  · obtain ⟨f, hf⟩ := Option.isSome_iff_exists.mp (hinv.armed hp).1
    obtain ⟨-, hpending, -⟩ := hinv.frame f hf
    refine ⟨f, hf, fun hidle => ?_, hpending, hpending ▸ hinv.cursor⟩
    rw [hinv.suspended.mpr hidle] at hf
    cases hf

/-- The window between a completed callback and the resumption: nghttp2 calls
back again and is deferred, and the next call of the same `write` resumes the
provider. -/
theorem write_never_lost_of_defer :
    ∃ tr c, cellMachine.Run anyStep tr c ∧ .deferred ∈ tr ∧ .call .resumeData ∈ tr ∧
      c.provider.attached = true ∧ c.provider.deferred = false ∧
      c.stream.write.writePending = true ∧
      (c.stream.write.writePending = true → ∃ f, c.stream.write.writer = some f ∧
        c.stream.write.writeProgress.waiter () ≠ .idle ∧ c.stream.write.pending = f.call.1 ∧
        c.stream.write.pendingCursor.flatten =
          f.call.1.flatten.drop c.stream.write.writeOffset) := by
  obtain ⟨tr, c, run, hdeferred, hresumed, hattached, hprovider, hpending⟩ :
      ∃ tr c, cellMachine.Run anyStep tr c ∧ .deferred ∈ tr ∧ .call .resumeData ∈ tr ∧
        c.provider.attached = true ∧ c.provider.deferred = false ∧
        c.stream.write.writePending = true :=
    Machine.run_of_exec (cellMachine_init 1 true)
      [.write (.write [[1, 2, 3]]) false, .producerCallback 2, .producerCallback 2,
        .resumeWrite] (by decide)
  exact ⟨tr, c, run, hdeferred, hresumed, hattached, hprovider, hpending,
    (write_never_lost run).2.2.1⟩

end Nghttp2Corosio
