import Nghttp2Corosio.Stream.WriteInvariant

/-!
What a write that completes without an error says about the bytes that nghttp2
has.

`write_progress_` is set in two places: by `producer_callback`, when it has
served the suspended `write_impl`, and by `on_close`. A `write_impl` that
resumes cannot tell which it was, and returns no error in either case. A
`write`, or the loop of a `write_eof(buffers)`, then calls `write_impl` again
and finds the stream closed; an operation whose last call this was reports
success for something that was never handed over. `closeOk` is the condition
under which this does not happen, and `body_end_handed_over` what holds then.
-/

namespace Nghttp2Corosio

open Async Buffers Runs

def Label.isWriteCalled : Label → Bool
  | .writeCalled _ => true
  | _ => false

def sinceCall (tr : List Label) : List Label := tr.rtakeWhile fun l => !l.isWriteCalled

theorem sinceCall_append {tr os : List Label} (h : ∀ l ∈ os, l.isWriteCalled = false) :
    sinceCall (tr ++ os) = sinceCall tr ++ os := by
  induction os using List.reverseRecOn with
  | nil => simp
  | append_singleton os l ih =>
      have hl : l.isWriteCalled = false := h l (by simp)
      have hos := ih fun l' hl' => h l' (List.mem_append_left _ hl')
      rw [← List.append_assoc]
      unfold sinceCall at hos ⊢
      rw [List.rtakeWhile_concat_pos _ _ _ (by simpa using hl), hos, List.append_assoc]

theorem sinceCall_writeCalled {tr os : List Label} (op : WriteOp)
    (h : ∀ l ∈ os, l.isWriteCalled = false) : sinceCall (tr ++ .writeCalled op :: os) = os := by
  rw [show tr ++ .writeCalled op :: os = (tr ++ [.writeCalled op]) ++ os by simp,
    sinceCall_append h, sinceCall, List.rtakeWhile_concat_neg _ _ _ (by simp [Label.isWriteCalled])]
  rfl

/-- The operation ends the body. `Stream::write_eof(buffers)` takes no more
buffers than `write_impl` does. -/
def WriteOp.endsBody : WriteOp → Bool
  | .writeEof | .writeEofWith _ => true
  | .streamWriteEof buffers => buffers.length ≤ maxIovec
  | _ => false

/-- A label that completes a write without an error is truthful: what the
operation promises was handed over since it was started. -/
def HandedOver (pre : List Label) : Label → Prop
  | .writeReturned op none _ =>
      (op.endsBody = true → pulled (sinceCall pre) = op.bytes ∧
        ∃ bytes, .pulled bytes true ∈ sinceCall pre) ∧
      ∀ buffers, op = .writeSome buffers → op.bytes ≠ [] → pulled (sinceCall pre) ≠ []
  | _ => True

/-- The operation completes, with a promise, when its current call returns
without an error. -/
def WriteFrame.lastCall (f : WriteFrame) : Bool :=
  match f.op with
  | .writeSome buffers => !buffers.flatten.isEmpty
  | .writeEofWith _ => f.tail
  | op => op.endsBody

/-- The stream is not closed while an operation with such a call waits for
`producer_callback`. -/
def closeOk (c : Cell) (a : Action) : Prop :=
  ¬(a = .onClose ∧ c.stream.write.writer.any WriteFrame.lastCall = true ∧
    c.stream.write.writeProgress.waiter () = .waiting)

instance : DecidableRel closeOk := fun c a =>
  inferInstanceAs (Decidable (¬(a = .onClose ∧ c.stream.write.writer.any WriteFrame.lastCall = true ∧
    c.stream.write.writeProgress.waiter () = .waiting)))

/-! ### The invariant -/

/-- `producer_callback` has served the current call of the operation. -/
def WriteFrame.Served (f : WriteFrame) (offset : ℕ) (since : List Label) : Prop :=
  if f.call.2 = true then
    offset = f.call.1.flatten.length ∧ ∃ bytes, .pulled bytes true ∈ since
  else offset ≠ 0

theorem WriteFrame.Served.mono {f : WriteFrame} {offset offset' : ℕ} {since : List Label}
    (h : f.Served offset since) (hle : offset ≤ offset') (hlen : offset' ≤ f.call.1.flatten.length)
    (os : List Label) : f.Served offset' (since ++ os) := by
  unfold WriteFrame.Served at h ⊢
  split
  · rename_i heof
    rw [if_pos heof] at h
    obtain ⟨hoffset, bytes, hbytes⟩ := h
    exact ⟨by omega, bytes, List.mem_append_left os hbytes⟩
  · rename_i heof
    rw [if_neg heof] at h
    omega

/-- What the suspended operation has received since it was started, and that it
is woken for a reason. -/
structure WriteSide.Handing (since : List Label) (w : WriteSide) : Prop where
  bytes : w.writer.isSome = true → pulled since = w.progress
  served : ∀ f, w.writer = some f → f.lastCall = true →
    w.writeProgress.waiter () = .posted .signalled → f.Served w.writeOffset since

theorem WriteSide.handing_of_none {w : WriteSide} (hw : w.writer = none) (since : List Label) :
    w.Handing since where
  bytes h := by simp [hw] at h
  served f hf := by simp [hw] at hf

theorem WriteSide.handing_of_waiting {w : WriteSide} {since : List Label}
    (hbytes : pulled since = w.progress) (hw : w.writeProgress.waiter () = .waiting) :
    w.Handing since where
  bytes _ := hbytes
  served f _ _ hp := by simp [hw] at hp

/-- Only the end of a stretch is observed: the operation is done, or its call is
suspended and has emitted no result. -/
theorem WriteSide.proceed_suspended (w : WriteSide) (closed : Bool) (op : WriteOp)
    (next : WriteNext) :
    (w.proceed closed op next).1.writer = none ∨
      (w.proceed closed op next).1.writeProgress.waiter () = .waiting ∧
        written (w.proceed closed op next).2 = [] := by
  cases next with
  | done n => exact .inl rfl
  | call f =>
      show (w.runCall closed f).1.writer = none ∨ _
      rcases w.runCall_cases closed f with ⟨-, heq⟩ | ⟨-, -, heq⟩ | ⟨-, -, heq⟩
      · exact .inl (by rw [heq])
      · refine .inr ?_
        show (w.runCall closed f).1.writeProgress.waiter () = _ ∧ written (w.runCall closed f).2 = _
        rw [heq]
        exact ⟨by simp, w.poke_bytes.2⟩
      · exact .inl (by rw [heq])

theorem WriteSide.Handing.onClose {since : List Label} {w : WriteSide} {closed : Bool}
    (h : w.Handing since) (hw : w.Inv closed)
    (hok : ∀ f, w.writer = some f → f.lastCall = true → w.writeProgress.waiter () ≠ .waiting) :
    w.onClose.Handing (since ++ [.closed]) where
  bytes hsome := by
    rw [pulled_append]
    exact (List.append_nil _).trans (h.bytes hsome)
  served f hf hlast hposted := by
    have hbefore := Event.signalled_of_set (hok f hf hlast) hposted
    exact (h.served f hf hlast hbefore).mono le_rfl (hw.offset_le_call hf) _

/-- A call that ends in `write_some` copies at least one byte if there is one. -/
theorem WriteSide.Inv.pull_ne_nil {w : WriteSide} {closed : Bool} (hw : w.Inv closed)
    {f : WriteFrame} (hf : w.writer = some f) (hlast : f.lastCall = true)
    (heof : f.call.2 = false) {length : ℕ} (hlength : 0 < length) :
    w.writeOffset + (w.pendingCursor.flatten.take length).length ≠ 0 := by
  obtain ⟨hok, hpending, -⟩ := hw.frame f hf
  have hcall : f.call.1.flatten ≠ [] := by
    refine hok.call_ne_nil (fun buffers hop => ?_) heof
    simpa [WriteFrame.lastCall, hop] using hlast
  intro hzero
  obtain ⟨hoff, hnil⟩ : w.writeOffset = 0 ∧ w.pendingCursor.flatten.take length = [] := by
    rw [Nat.add_eq_zero_iff, List.length_eq_zero_iff] at hzero
    exact hzero
  rw [hw.cursor, hoff, List.drop_zero, hpending, List.take_eq_nil_iff] at hnil
  rcases hnil with hnil | hnil
  · omega
  · exact hcall hnil

theorem WriteSide.Handing.producerCallback {since : List Label} {w : WriteSide} {closed : Bool}
    (h : w.Handing since) (hw : w.Inv closed) {length : ℕ} (hlength : 0 < length) :
    (w.producerCallback length).1.Handing (since ++ (w.producerCallback length).2) := by
  obtain ⟨-, -, hprogress⟩ := hw.producerCallback length
  have hbytes (hsome : w.writer.isSome = true) :
      pulled (since ++ (w.producerCallback length).2) = (w.producerCallback length).1.progress := by
    rw [pulled_append, h.bytes hsome, hprogress]
  rcases w.producerCallback_cases length with ⟨-, heq⟩ | ⟨-, bytes, hb, hcase⟩
  · rw [heq] at hbytes ⊢
    refine ⟨hbytes, fun f hf hlast hposted => ?_⟩
    exact (h.served f hf hlast hposted).mono le_rfl (hw.offset_le_call hf) _
  · obtain ⟨-, hoffset⟩ := hw.cursor_consume hb
    rcases hcase with ⟨hdone, heq⟩ | ⟨-, -, heq⟩
    · rw [heq] at hbytes ⊢
      refine ⟨hbytes, fun f hf hlast _ => ?_⟩
      obtain ⟨-, hpending, heof⟩ := hw.frame f hf
      unfold WriteFrame.Served
      split
      · rename_i hcall
        rw [hcall] at heof
        rw [heof, hpending] at hdone
        refine ⟨by simpa using hdone, bytes, ?_⟩
        rw [heof]
        simp
      · rename_i hcall
        rw [Bool.not_eq_true] at hcall
        rw [hb]
        exact hw.pull_ne_nil hf hlast hcall hlength
    · rw [heq] at hbytes ⊢
      refine ⟨hbytes, fun f hf hlast hposted => ?_⟩
      rw [(hw.frame f hf).2.1] at hoffset
      exact (h.served f hf hlast hposted).mono (Nat.le_add_right _ _) hoffset _

theorem WriteSide.Handing.stopWrite {since : List Label} {w w' : WriteSide} {closed : Bool}
    (h : w.Handing since) (hw : w.Inv closed) (hstop : w.stopWrite = some w') :
    w'.Handing since := by
  have hprogress := (hw.stopWrite hstop).2
  obtain ⟨f, hf, rfl⟩ := Option.map_eq_some_iff.mp hstop
  refine ⟨fun _ => (h.bytes (by rw [hf]; rfl)).trans hprogress.symm, fun f' hf' hlast hposted => ?_⟩
  obtain rfl : { f with stopped := true } = f' := by simpa using hf'
  exact h.served f hf hlast (Event.signalled_of_stop hposted)

/-- An operation that has just been given the processor is done or waits
again, with what it had received before. -/
theorem WriteSide.Inv.handing_proceed {w : WriteSide} {closed : Bool} (hw : w.Inv closed)
    (hnone : w.writer = none) {op : WriteOp} {k : ℕ} {next : WriteNext} (hnext : next.Ok op k)
    {since : List Label} (hsince : pulled since = op.bytes.take k) :
    (w.proceed closed op next).1.Handing (since ++ (w.proceed closed op next).2) := by
  obtain ⟨-, hpulled, hprogress⟩ := hw.proceed hnone hnext
  rcases w.proceed_suspended closed op next with hdone | ⟨hwaiting, hwritten⟩
  · exact WriteSide.handing_of_none hdone _
  · refine WriteSide.handing_of_waiting ?_ hwaiting
    rw [pulled_append, hpulled, List.append_nil, hsince, hprogress, hwritten]
    rfl

/-! ### Completions -/

theorem WriteSide.proceed_isWriteCalled (w : WriteSide) (closed : Bool) (op : WriteOp)
    (next : WriteNext) : ∀ l ∈ (w.proceed closed op next).2, l.isWriteCalled = false := by
  have hpoke : ∀ l ∈ w.poke, l.isWriteCalled = false := by
    unfold WriteSide.poke
    cases w.writeDeferred <;> simp [Label.isWriteCalled]
  cases next with
  | done n => simp [WriteSide.proceed, Label.isWriteCalled]
  | call f =>
      show ∀ l ∈ (w.runCall closed f).2, _
      intro l hl
      rcases w.runCall_cases closed f with ⟨-, heq⟩ | ⟨-, -, heq⟩ | ⟨-, -, heq⟩ <;> rw [heq] at hl
      · rw [List.mem_singleton.mp hl]
        rfl
      · exact hpoke l hl
      · rcases List.mem_append.mp hl with hl | hl
        · exact hpoke l hl
        · rw [List.mem_singleton.mp hl]
          rfl

theorem WriteSide.runCall_handedOver (w : WriteSide) (closed : Bool) (f : WriteFrame)
    (pre : List Label) : AlwaysFrom HandedOver pre (w.runCall closed f).2 := by
  have hpoke : ∀ l ∈ w.poke, ∀ pre, HandedOver pre l := by
    unfold WriteSide.poke
    cases w.writeDeferred <;> simp [HandedOver]
  refine alwaysFrom_of_forall (fun l hl => ?_) pre
  rcases w.runCall_cases closed f with ⟨-, heq⟩ | ⟨-, -, heq⟩ | ⟨-, -, heq⟩ <;> rw [heq] at hl
  · rw [List.mem_singleton.mp hl]
    exact fun _ => trivial
  · exact hpoke l hl
  · rcases List.mem_append.mp hl with hl | hl
    · exact hpoke l hl
    · rw [List.mem_singleton.mp hl]
      exact fun _ => trivial

/-- An operation that completes after a call which was served keeps its
promise. -/
theorem WriteSide.Handing.handedOver {w : WriteSide} {closed : Bool} {pre : List Label}
    (h : w.Handing (sinceCall pre)) (hw : w.Inv closed) {f : WriteFrame} (hf : w.writer = some f)
    (hposted : w.writeProgress.waiter () = .posted .signalled) {n : ℕ}
    (hadv : f.advance w.writeOffset = .done n) : HandedOver pre (.writeReturned f.op none n) := by
  have hlen := hw.offset_le_call hf
  have hok := (hw.frame f hf).1
  have hserved (hlast : f.lastCall = true) := h.served f hf hlast hposted
  have hbytes := h.bytes (by rw [hf]; rfl)
  rw [WriteSide.progress_some hf] at hbytes
  obtain ⟨-, htail⟩ := hok.advance_done hlen hadv
  rw [HandedOver, hbytes]
  refine ⟨fun hends => ?_, fun buffers hop hne => ?_⟩
  · -- the call in which the operation ends is the one that asks for EOF
    obtain ⟨hlast, heof, hall⟩ : f.lastCall = true ∧ f.call.2 = true ∧
        f.op.bytes.length ≤ f.total + f.call.1.flatten.length := by
      cases hop : f.op with
      | writeEof => simp [WriteFrame.lastCall, WriteFrame.call, hop, WriteOp.endsBody,
          WriteOp.bytes, WriteOp.buffers]
      | streamWriteEof buffers =>
          rw [hop] at hends
          have hfew : buffers.length ≤ maxIovec := by simpa [WriteOp.endsBody] using hends
          have hflat : (constBufferArray buffers).flatten = buffers.flatten :=
            flatten_capped_of_length_le hfew
          simp [WriteFrame.lastCall, WriteFrame.call, hop, hends, WriteOp.bytes, WriteOp.buffers,
            hflat]
      | writeEofWith buffers =>
          have ht := htail buffers hop
          have htotal := (hok.tail ht).2
          rw [hop] at htotal
          simp [WriteFrame.lastCall, WriteFrame.call, hop, ht, htotal]
      | writeSome buffers => simp [hop, WriteOp.endsBody] at hends
      | write buffers => simp [hop, WriteOp.endsBody] at hends
    have hserved := hserved hlast
    rw [WriteFrame.Served, if_pos heof] at hserved
    obtain ⟨hoff, heofPulled⟩ := hserved
    refine ⟨?_, heofPulled⟩
    rw [hoff]
    exact List.take_of_length_le hall
  · have hlast : f.lastCall = true := by
      rw [hop] at hne
      simpa [WriteFrame.lastCall, hop, WriteOp.bytes, WriteOp.buffers] using hne
    have hserved := hserved hlast
    rw [WriteFrame.Served, if_neg (by simp [WriteFrame.call, hop])] at hserved
    simp only [ne_eq, List.take_eq_nil_iff, not_or]
    exact ⟨by omega, hne⟩

/-! ### Runs -/

def WriteSide.Tracked (tr : List Label) (c : Cell) : Prop :=
  c.stream.write.Inv c.stream.closed ∧ c.stream.write.Handing (sinceCall tr)

theorem WriteSide.Step.handing {tr : List Label} {w w' : WriteSide} {closed : Bool} {a : Action}
    {os : List Label} (hs : w.Step closed a os w') (h : w.Handing (sinceCall tr))
    (hw : w.Inv closed)
    (hlength : ∀ length, a = .producerCallback length → 0 < length)
    (hok : a = .onClose → ∀ f, w.writer = some f → f.lastCall = true →
      w.writeProgress.waiter () ≠ .waiting) :
    w'.Handing (sinceCall (tr ++ os)) ∧ AlwaysFrom HandedOver tr os := by
  cases hs with
  | onClose =>
      rw [sinceCall_append (by simp [Label.isWriteCalled])]
      exact ⟨h.onClose hw (hok rfl), trivial, trivial⟩
  | producerCallback length =>
      have hhanding := h.producerCallback hw (hlength length rfl)
      rcases w.producerCallback_cases length with
        ⟨-, heq⟩ | ⟨-, bytes, -, ⟨-, heq⟩ | ⟨-, -, heq⟩⟩ <;>
      · rw [heq] at hhanding ⊢
        rw [sinceCall_append (by simp [Label.isWriteCalled])]
        exact ⟨hhanding, trivial, trivial⟩
  | write op stopped hidle =>
      have hnext := op.start_ok stopped
      have hhanding := hw.handing_proceed hidle hnext (show pulled [] = op.bytes.take 0 from rfl)
      refine ⟨?_, trivial, ?_⟩
      · show WriteSide.Handing
          (sinceCall (tr ++ .writeCalled op :: (w.proceed closed op (op.start stopped)).2))
          (w.proceed closed op (op.start stopped)).1
        rw [sinceCall_writeCalled op (WriteSide.proceed_isWriteCalled _ _ _ _)]
        exact hhanding
      · show AlwaysFrom HandedOver _ (w.proceed closed op (op.start stopped)).2
        cases hstart : op.start stopped with
        | call f => exact WriteSide.runCall_handedOver w closed f _
        | done n =>
            obtain ⟨-, buffers, rfl⟩ := WriteOp.start_done hstart
            refine ⟨⟨fun hends => ?_, fun b hb => ?_⟩, trivial⟩
            · simp [WriteOp.endsBody] at hends
            · cases hb
  | stopWrite w' hstop =>
      rw [List.append_nil]
      exact ⟨h.stopWrite hw hstop, trivial⟩
  | resumeWrite w' os hresume =>
      obtain ⟨f, wake, hf, hposted, ⟨-, rfl, rfl⟩ | ⟨rfl, heq⟩⟩ :=
        WriteSide.resumeWrite_eq_some hresume
      · exact ⟨WriteSide.handing_of_none rfl _, trivial, trivial⟩
      · obtain ⟨rfl, rfl⟩ := Prod.ext_iff.mp heq
        have hnext := (hw.frame f hf).1.advance_ok (hw.offset_le_call hf)
        have hbytes := h.bytes (by rw [hf]; rfl)
        rw [WriteSide.progress_some hf] at hbytes
        refine ⟨?_, ?_⟩
        · rw [sinceCall_append (WriteSide.proceed_isWriteCalled _ _ _ _)]
          exact hw.taken.handing_proceed rfl hnext hbytes
        · show AlwaysFrom HandedOver tr (w.taken.proceed closed f.op (f.advance w.writeOffset)).2
          cases hadv : f.advance w.writeOffset with
          | call f' => exact WriteSide.runCall_handedOver w.taken closed f' _
          | done n => exact ⟨h.handedOver hw hf hposted hadv, trivial⟩
  | other a os ha hos =>
      have hcalled : ∀ l ∈ os, l.isWriteCalled = false := by
        intro l hl
        cases l <;> first | rfl | exact absurd (hos _ hl).1 (by simp [Label.isWrite])
      have hpulled := (write_silent fun l hl => (hos l hl).1).1
      refine ⟨?_, alwaysFrom_of_forall (fun l hl pre => ?_) tr⟩
      · rw [sinceCall_append hcalled]
        refine ⟨fun hsome => ?_, fun f hf hlast hposted => ?_⟩
        · rw [pulled_append, hpulled, List.append_nil]
          exact h.bytes hsome
        · exact (h.served f hf hlast hposted).mono le_rfl (hw.offset_le_call hf) _
      · cases l <;> first | trivial | exact absurd (hos _ hl).1 (by simp [Label.isWrite])

/-- In a run in which no stream is closed under a write that waits in its last
call, a write operation that completes without an error was handed over: a
`write_eof` with all its bytes and the end of the body, a `write_some` with at
least one byte. -/
theorem body_end_handed_over {tr : List Label} {c : Cell} (run : cellMachine.Run closeOk tr c) :
    Always HandedOver tr := by
  refine (run.always (I := WriteSide.Tracked) ?_ ?_).2
  · intro c hc
    refine ⟨(WriteSide.inv_init hc).1, ?_⟩
    obtain ⟨id, submitted, rfl⟩ := hc
    exact WriteSide.handing_of_none rfl _
  · rintro tr c a c' os - ⟨hw, h⟩ hok hs
    obtain ⟨hallows, hstream, -⟩ := Cell.step_eq_some hs
    obtain ⟨h', halways⟩ := (Stream.step_write hstream).handing h hw
      (fun length ha => Provider.length_pos (ha ▸ hallows))
      (fun ha f hf hlast hwaiting => hok ⟨ha, by simpa [hf] using hlast, hwaiting⟩)
    exact ⟨⟨(hw.step_cell hs).1, h'⟩, halways⟩

/-- A `write_eof` of a body that takes two calls, and the stream is closed
between the end of the body and the resumption. -/
theorem body_end_handed_over_of_close :
    ∃ tr c, cellMachine.Run closeOk tr c ∧ c.stream.closed = true ∧
      .writeReturned (.writeEofWith [[1, 2], [3]]) none 3 ∈ tr ∧ Always HandedOver tr := by
  obtain ⟨tr, c, run, hclosed, hreturned⟩ :
      ∃ tr c, cellMachine.Run closeOk tr c ∧ c.stream.closed = true ∧
        .writeReturned (.writeEofWith [[1, 2], [3]]) none 3 ∈ tr :=
    Machine.run_of_exec (cellMachine_init 1 true)
      [.write (.writeEofWith [[1, 2], [3]]) false, .producerCallback 2, .resumeWrite,
        .producerCallback 2, .resumeWrite, .producerCallback 2, .onClose, .resumeWrite] (by decide)
  exact ⟨tr, c, run, hclosed, hreturned, body_end_handed_over run⟩

/-- The stream is closed while a `write_eof()` waits: it completes without an
error although `producer_callback` was never called. -/
theorem write_eof_succeeds_when_closed :
    ∃ tr c, cellMachine.Run anyStep tr c ∧ ¬Always HandedOver tr := by
  obtain ⟨tr, c, run, rfl⟩ : ∃ tr c, cellMachine.Run anyStep tr c ∧
      tr = [.writeCalled .writeEof, .call .startWrite, .closed,
        .writeReturned .writeEof none 0] :=
    Machine.run_of_exec (cellMachine_init 1 true)
      [.write .writeEof false, .onClose, .resumeWrite] (by decide)
  refine ⟨_, c, run, fun halways => ?_⟩
  obtain ⟨-, bytes, hbytes⟩ := (halways
    [.writeCalled .writeEof, .call .startWrite, .closed] (.writeReturned .writeEof none 0) []
    rfl).1 rfl
  have hsince : sinceCall [.writeCalled .writeEof, .call .startWrite, .closed] =
      [.call .startWrite, .closed] := by decide
  rw [hsince] at hbytes
  simp at hbytes

/-! ### After the end of the body

nghttp2 does not call the provider again once it has been given the end of the
body, and the stream does not remember that it was. A write that is started
afterwards is turned away only by what turns away every write. -/

theorem WriteOp.start_eq_done_iff {op : WriteOp} {stopped : Bool} :
    (∃ n, op.start stopped = .done n) ↔ ∃ buffers, op = .write buffers ∧ buffers.flatten = [] := by
  cases op with
  | write buffers =>
      cases hflat : buffers.flatten <;>
        simp [WriteOp.start, WriteOp.frame, WriteFrame.composed, WriteOp.bytes, WriteOp.buffers,
          hflat, -List.flatten_eq_nil_iff]
  | writeEofWith buffers =>
      cases hflat : buffers.flatten <;>
        simp [WriteOp.start, WriteOp.frame, WriteFrame.composed, WriteOp.bytes, WriteOp.buffers,
          hflat]
  | _ => simp [WriteOp.start]

/-- A call of `write_impl` returns at once on a closed stream and under a stopped
token, and then with an error; else it is suspended. -/
theorem WriteSide.runCall_fails_iff (w : WriteSide) (closed : Bool) (f : WriteFrame) :
    ((w.runCall closed f).1.writer = none ∧
        ∃ ec n, .writeReturned f.op (some ec) n ∈ (w.runCall closed f).2) ↔
      closed = true ∨ f.stopped = true := by
  rcases w.runCall_cases closed f with ⟨hclosed, heq⟩ | ⟨hopen, hrunning, heq⟩ | ⟨-, hstopped, heq⟩
  · rw [heq]
    exact iff_of_true ⟨rfl, _, _, List.mem_singleton_self _⟩ (.inl hclosed)
  · rw [heq]
    refine iff_of_false (fun h => ?_) (by simp [hopen, hrunning])
    cases h.1
  · rw [heq]
    exact iff_of_true ⟨rfl, _, _, List.mem_append_right _ (List.mem_singleton_self _)⟩
      (.inr hstopped)

/-- When the end of the body has been handed out, a write that is started
completes at once and with an error if and only if the stream is closed or the
token is stopped, and it is not a `write` of nothing. -/
theorem write_after_end_fails_iff {tr : List Label} {c c' : Cell} {op : WriteOp} {stopped : Bool}
    {os : List Label} :
    cellMachine.Run anyStep tr c → (∃ bytes, .pulled bytes true ∈ tr) →
    cellMachine.step c (.write op stopped) = some (c', os) →
    ((c'.stream.write.writer = none ∧ ∃ ec n, .writeReturned op (some ec) n ∈ os) ↔
      (c.stream.closed = true ∨ stopped = true) ∧
        ∀ buffers, op = .write buffers → buffers.flatten ≠ []) := by
  intro _ _ hs
  have hstep : c.step (.write op stopped) = some (c', os) := hs
  have hstream := (Cell.step_eq_some hstep).2.1
  obtain ⟨-, hwrite, rfl⟩ := Stream.step_write_eq_some hstream
  rw [hwrite]
  dsimp only [WriteSide.write]
  cases hstart : op.start stopped with
  | done n =>
      obtain ⟨buffers, hop, hflat⟩ := WriteOp.start_eq_done_iff.mp ⟨n, hstart⟩
      refine iff_of_false (fun h => ?_) fun h => h.2 buffers hop hflat
      simp [WriteSide.proceed] at h
  | call f =>
      obtain ⟨-, hop, -, hstopped⟩ := WriteOp.start_call hstart
      have hnonempty : ∀ buffers, op = .write buffers → buffers.flatten ≠ [] := by
        intro buffers hop' hflat
        obtain ⟨n, hdone⟩ := WriteOp.start_eq_done_iff.mpr ⟨buffers, hop', hflat⟩
        rw [hstart] at hdone
        cases hdone
      have hfails := c.stream.write.runCall_fails_iff c.stream.closed f
      rw [hop, hstopped] at hfails
      rw [and_iff_left hnonempty, ← hfails]
      simp [WriteSide.proceed]

/-- On a stream that is closed after its body has ended, a write fails at once. -/
theorem write_after_end_fails_of_close :
    ∃ tr c c' os, cellMachine.Run anyStep tr c ∧ .pulled [7] true ∈ tr ∧
      c.stream.closed = true ∧
      cellMachine.step c (.write (.writeSome [[1]]) false) = some (c', os) ∧
      c'.stream.write.writer = none ∧ ∃ ec n, .writeReturned (.writeSome [[1]]) (some ec) n ∈ os := by
  obtain ⟨tr, c, run, hpulled, hclosed, hidle⟩ :
      ∃ tr c, cellMachine.Run anyStep tr c ∧ .pulled [7] true ∈ tr ∧ c.stream.closed = true ∧
        (cellMachine.step c (.write (.writeSome [[1]]) false)).isSome = true :=
    Machine.run_of_exec (cellMachine_init 1 true)
      [.write (.streamWriteEof [[7]]) false, .producerCallback 4, .resumeWrite, .onClose]
      (by decide)
  obtain ⟨⟨c', os⟩, hs⟩ := Option.isSome_iff_exists.mp hidle
  obtain ⟨hnone, herror⟩ := (write_after_end_fails_iff run ⟨_, hpulled⟩ hs).mpr
    ⟨.inl hclosed, nofun⟩
  exact ⟨tr, c, c', os, run, hpulled, hclosed, hs, hnone, herror⟩

/-- A `write_eof()` is stopped, and nghttp2 takes its end of the body before it
resumes. The `write_eof()` with which the caller tries again waits, and when the
stream is closed it reports success. -/
theorem write_after_end_waits :
    (∃ tr c, cellMachine.Run anyStep tr c ∧
      tr = [.writeCalled .writeEof, .call .startWrite, .pulled [] true,
        .writeReturned .writeEof (some .canceled) 0, .writeCalled .writeEof, .call .startWrite] ∧
      c.stream.write.writeProgress.waiter () = .waiting) ∧
    ∃ tr c, cellMachine.Run anyStep tr c ∧
      tr = [.writeCalled .writeEof, .call .startWrite, .pulled [] true,
        .writeReturned .writeEof (some .canceled) 0, .writeCalled .writeEof, .call .startWrite,
        .closed, .writeReturned .writeEof none 0] ∧ c.stream.write.writer.isNone = true :=
  ⟨Machine.run_of_exec (cellMachine_init 1 true)
      [.write .writeEof false, .stopWrite, .producerCallback 1, .resumeWrite,
        .write .writeEof false] (by decide),
    Machine.run_of_exec (cellMachine_init 1 true)
      [.write .writeEof false, .stopWrite, .producerCallback 1, .resumeWrite,
        .write .writeEof false, .onClose, .resumeWrite] (by decide)⟩

end Nghttp2Corosio
