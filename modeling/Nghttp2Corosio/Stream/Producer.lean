import Nghttp2Corosio.Stream.WriteInvariant

/-!
`producer_callback` makes progress.

nghttp2 sends a DATA frame for every callback that is not deferred, and it may
call again at any time: while a `write_eof` is drained in parts, and between
the call that completes a write and the resumption of the coroutine. A callback
that neither copies a byte, nor ends the body, nor defers would be answered by
an empty frame and another callback, for as long as the coroutine is not
resumed.

`WriteSide.Due` is why this does not happen: an armed write has bytes that are
not copied yet, or it is a `write_eof` without bytes. It needs that no
`write_some` is called with nothing to write. `WriteSide.callbacksLeft` bounds the
callbacks that an armed write can still take.
-/

namespace Nghttp2Corosio

open Async Buffers Runs

def Action.carriesBytes : Action → Bool
  | .write (.writeSome buffers) _ => !buffers.flatten.isEmpty
  | _ => true

/-- Every `write_some` of the run carries at least one byte. -/
def bytesInWrites (_ : Cell) (a : Action) : Prop := a.carriesBytes = true

instance : DecidableRel bytesInWrites := fun _ a =>
  inferInstanceAs (Decidable (a.carriesBytes = true))

def WriteOp.isWriteEof : WriteOp → Bool
  | .writeEof | .writeEofWith _ | .streamWriteEof _ => true
  | _ => false

def Label.isPulled : Label → Bool
  | .pulled _ _ => true
  | _ => false

def Action.isProducerCallback : Action → Bool
  | .producerCallback _ => true
  | _ => false

theorem WriteFrame.isWriteEof_of_call {f : WriteFrame} (h : f.call.2 = true) :
    f.op.isWriteEof = true := by
  unfold WriteFrame.call at h
  cases hop : f.op <;> simp_all [WriteOp.isWriteEof]

/-! ### The invariant -/

structure WriteSide.Due (w : WriteSide) : Prop where
  writeSome : ∀ f buffers, w.writer = some f → f.op = .writeSome buffers → buffers.flatten ≠ []
  armed : w.writePending = true →
    w.writeOffset < w.pending.flatten.length ∨
      w.writeEofRequested = true ∧ w.pending.flatten = []

theorem WriteSide.due_of_served {w w' : WriteSide} (h : w.Due) (hwriter : w'.writer = w.writer)
    (hp : w'.writePending = false) : w'.Due where
  writeSome := by rw [hwriter]; exact h.writeSome
  armed hp' := by rw [hp] at hp'; cases hp'

theorem WriteSide.due_of_none {w : WriteSide} (hw : w.writer = none)
    (hp : w.writePending = false) : w.Due where
  writeSome f _ hf := by rw [hw] at hf; cases hf
  armed hp' := by rw [hp] at hp'; cases hp'

theorem WriteSide.due_proceed {w : WriteSide} (hpending : w.writePending = false) (closed : Bool)
    {op : WriteOp} {k : ℕ} {next : WriteNext} (hnext : next.Ok op k)
    (hop : ∀ buffers, op = .writeSome buffers → buffers.flatten ≠ []) :
    (w.proceed closed op next).1.Due := by
  cases next with
  | done n => exact WriteSide.due_of_none rfl hpending
  | call f =>
      obtain ⟨hf, rfl, -⟩ := hnext
      show (w.runCall closed f).1.Due
      rcases w.runCall_cases closed f with ⟨-, heq⟩ | ⟨-, -, heq⟩ | ⟨-, -, heq⟩ <;> rw [heq]
      · exact WriteSide.due_of_none rfl hpending
      · refine ⟨fun f' buffers hf' => ?_, fun _ => ?_⟩
        · obtain rfl : f = f' := by simpa using hf'
          exact hop buffers
        · show 0 < f.call.1.flatten.length ∨ f.call.2 = true ∧ f.call.1.flatten = []
          cases heof : f.call.2 with
          | false => exact .inl (List.length_pos_iff.mpr (hf.call_ne_nil hop heof))
          | true => exact (Nat.eq_zero_or_pos _).symm.imp_right fun h =>
              ⟨rfl, List.length_eq_zero_iff.mp h⟩
      · exact WriteSide.due_of_none rfl rfl

/-- A callback for an armed write copies a byte or completes the write. -/
theorem WriteSide.Due.pull {closed : Bool} {w : WriteSide} (h : w.Due) (hw : w.Inv closed)
    (hp : w.writePending = true) {bytes : Bytes} {length : ℕ} (hlength : 0 < length)
    (hb : bytes = w.pendingCursor.flatten.take length) :
    bytes ≠ [] ∨ w.writeEofRequested = true ∧ w.pending.flatten = [] ∧ bytes = [] := by
  rw [hw.cursor] at hb
  rcases h.armed hp with hlt | ⟨heof, hnil⟩
  · refine .inl fun hnil => ?_
    rw [hb, List.take_eq_nil_iff, List.drop_eq_nil_iff] at hnil
    omega
  · refine .inr ⟨heof, hnil, ?_⟩
    rw [hb, hnil, List.drop_nil, List.take_nil]

theorem WriteSide.Due.step {w w' : WriteSide} {closed : Bool} {a : Action} {os : List Label}
    (h : w.Due) (hw : w.Inv closed) (ha : a.carriesBytes = true)
    (hs : w.Step closed a os w') : w'.Due := by
  cases hs with
  | onClose => exact ⟨h.writeSome, h.armed⟩
  | producerCallback length =>
      rcases w.producerCallback_cases length with
        ⟨hp, heq⟩ | ⟨hp, bytes, hb, ⟨-, heq⟩ | ⟨hne, -, heq⟩⟩
      · rw [heq]
        exact WriteSide.due_of_served h rfl hp
      · rw [heq]
        exact WriteSide.due_of_served h rfl rfl
      · rw [heq]
        have hle := (hw.cursor_consume hb).2
        exact ⟨h.writeSome, fun _ => .inl (lt_of_le_of_ne hle hne)⟩
  | write op stopped hidle =>
      have hpending : w.writePending = false := by
        by_contra hp
        have hsome := (hw.armed (by simpa using hp)).1
        rw [hidle] at hsome
        cases hsome
      refine WriteSide.due_proceed hpending closed (op.start_ok stopped) fun buffers hop => ?_
      subst hop
      simpa [Action.carriesBytes] using ha
  | stopWrite w' hstop =>
      obtain ⟨f, hf, rfl⟩ := Option.map_eq_some_iff.mp hstop
      refine ⟨fun f' buffers hf' => ?_, h.armed⟩
      obtain rfl : { f with stopped := true } = f' := by simpa using hf'
      exact h.writeSome f buffers hf
  | resumeWrite w' os hresume =>
      obtain ⟨f, wake, hf, -, ⟨-, rfl, rfl⟩ | ⟨-, heq⟩⟩ := WriteSide.resumeWrite_eq_some hresume
      · exact WriteSide.due_of_none rfl rfl
      · obtain ⟨rfl, rfl⟩ := Prod.ext_iff.mp heq
        exact WriteSide.due_proceed (w := w.taken) rfl closed
          ((hw.frame f hf).1.advance_ok (hw.offset_le_call hf))
          fun buffers => h.writeSome f buffers hf
  | other a os ha hos => exact h

theorem WriteSide.due_run {tr : List Label} {c : Cell} (run : cellMachine.Run bytesInWrites tr c) :
    c.stream.write.Due := by
  refine run.invariant_along (I := fun _ c => c.stream.write.Due) ?_ ?_
  · rintro c ⟨id, submitted, rfl⟩
    exact WriteSide.due_of_none rfl rfl
  · intro tr c a c' os run h hok hs
    exact h.step (WriteSide.queue_run run).1 hok (Stream.step_write (Cell.step_eq_some hs).2.1)

/-! ### One callback -/

/-- What a callback may do to the write side: it defers, or it copies a byte, or
it ends the body. The end of the body is that of a `write_eof`, all of whose
bytes are then copied. -/
def Productive (w w' : WriteSide) (os : List Label) : Prop :=
  os = [.deferred] ∨ ∃ bytes eof, os = [.pulled bytes eof] ∧ (bytes ≠ [] ∨ eof = true) ∧
    (eof = true → (∃ f, w.writer = some f ∧ f.op.isWriteEof = true ∧ f.call = (w.pending, true)) ∧
      w'.writeOffset = w'.pending.flatten.length ∧ w'.pendingCursor.flatten = [])

theorem WriteSide.Due.productive {closed : Bool} {w : WriteSide} (h : w.Due) (hw : w.Inv closed)
    {length : ℕ} (hlength : 0 < length) :
    Productive w (w.producerCallback length).1 (w.producerCallback length).2 := by
  rcases w.producerCallback_cases length with ⟨-, heq⟩ | ⟨hp, bytes, hb, hcase⟩
  · exact .inl (by rw [heq])
  · have hpull := h.pull hw hp hlength hb
    obtain ⟨hcursor, -⟩ := hw.cursor_consume hb
    refine .inr ⟨bytes, ?_⟩
    rcases hcase with ⟨hdone, heq⟩ | ⟨hne, heof, heq⟩
    · rw [heq]
      refine ⟨w.writeEofRequested, rfl, hpull.imp_right And.left, fun heof => ?_⟩
      have hall : w.writeOffset + bytes.length = w.pending.flatten.length := by
        simpa [heof] using hdone
      obtain ⟨f, hf⟩ := Option.isSome_iff_exists.mp (hw.armed hp).1
      obtain ⟨-, hpending, hcall⟩ := hw.frame f hf
      rw [heof] at hcall
      refine ⟨⟨f, hf, WriteFrame.isWriteEof_of_call hcall.symm, ?_⟩, hall, ?_⟩
      · rw [hpending, hcall]
      · rw [hcursor, hall, List.drop_length]
    · rw [heq]
      refine ⟨false, rfl, .inl ?_, nofun⟩
      rcases hpull with hpull | ⟨-, hnil, rfl⟩
      · exact hpull
      · -- a `write_eof` without bytes is completed by its first callback
        have hle := hw.offset
        simp only [hnil, List.length_nil] at hle hne
        omega

/-! ### A `write_eof` until it resumes -/

/-- How many callbacks an armed `write_eof` can take. -/
def WriteSide.callbacksLeft (w : WriteSide) : ℕ :=
  if w.writePending then max (w.pending.flatten.length - w.writeOffset) 1 else 0

theorem WriteSide.callbacksLeft_of_pending {w : WriteSide} (hp : w.writePending = true) :
    w.callbacksLeft = max (w.pending.flatten.length - w.writeOffset) 1 := if_pos hp

theorem WriteSide.callbacksLeft_of_served {w : WriteSide} (hp : w.writePending = false) :
    w.callbacksLeft = 0 := by simp [WriteSide.callbacksLeft, hp]

theorem WriteSide.served_of_callbacksLeft {w : WriteSide} (h : w.callbacksLeft = 0) :
    w.writePending = false := by
  by_contra hp
  rw [WriteSide.callbacksLeft_of_pending (by simpa using hp)] at h
  omega

/-- A `write_impl` call that ends the body is suspended. -/
structure WriteSide.Ending (closed : Bool) (w : WriteSide) : Prop where
  inv : w.Inv closed
  due : w.Due
  suspended : w.writer.isSome = true
  eof : w.writeEofRequested = true

/-- One step that is not the resumption: `n` callbacks were made, of which the
labels are `os`. -/
structure WriteSide.Nears (w w' : WriteSide) (n : ℕ) (os : List Label) : Prop where
  pulled : os.countP Label.isPulled + w'.callbacksLeft ≤ w.callbacksLeft
  left : w'.callbacksLeft ≤ w.callbacksLeft - n
  finish : w.writePending = true → w'.writePending = false → ∃ bytes, .pulled bytes true ∈ os

theorem WriteSide.nears_of_silent {w w' : WriteSide} {os : List Label}
    (hos : os.countP Label.isPulled = 0) (hp : w'.writePending = w.writePending)
    (hleft : w'.callbacksLeft = w.callbacksLeft) : w.Nears w' 0 os where
  pulled := by omega
  left := by omega
  finish hp' hserved := by rw [hp, hp'] at hserved; cases hserved

theorem WriteSide.Ending.nears_producerCallback {closed : Bool} {w : WriteSide}
    (h : w.Ending closed) {length : ℕ} (hlength : 0 < length) :
    w.Nears (w.producerCallback length).1 1 (w.producerCallback length).2 := by
  rcases w.producerCallback_cases length with ⟨hp, heq⟩ | ⟨hp, bytes, hb, hcase⟩
  · rw [heq]
    have hleft := WriteSide.callbacksLeft_of_served hp
    have hleft' : WriteSide.callbacksLeft { w with writeDeferred := true } = 0 :=
      WriteSide.callbacksLeft_of_served hp
    refine ⟨?_, hleft'.trans_le (Nat.zero_le _), fun hp' => ?_⟩
    · rw [hleft, hleft']
      exact le_rfl
    · rw [hp] at hp'
      cases hp'
  · have hleft := WriteSide.callbacksLeft_of_pending hp
    have hpull := h.due.pull h.inv hp hlength hb
    rcases hcase with ⟨-, heq⟩ | ⟨hne, -, heq⟩
    · rw [heq]
      refine ⟨?_, Nat.zero_le _, fun _ _ => ⟨bytes, by simp [h.eof]⟩⟩
      rw [hleft]
      exact le_max_right _ _
    · rw [heq]
      have hle := (h.inv.cursor_consume hb).2
      have hpos : 0 < bytes.length := by
        rcases hpull with hpull | ⟨-, hnil, rfl⟩
        · exact List.length_pos_iff.mpr hpull
        · simp only [hnil, List.length_nil] at hle hne
          omega
      have hleft' : WriteSide.callbacksLeft
          { w with
            pendingCursor := consume bytes.length w.pendingCursor
            writeOffset := w.writeOffset + bytes.length } =
          max (w.pending.flatten.length - (w.writeOffset + bytes.length)) 1 :=
        WriteSide.callbacksLeft_of_pending hp
      refine ⟨?_, hleft'.trans_le (by omega), fun _ hserved => ?_⟩
      · show 1 + WriteSide.callbacksLeft _ ≤ _
        rw [hleft']
        omega
      · rw [show w.writePending = false from hserved] at hp
        cases hp

theorem WriteSide.Ending.step {closed : Bool} {w w' : WriteSide} {a : Action} {os : List Label}
    (h : w.Ending closed) (hs : w.Step closed a os w')
    (hlength : ∀ length, a = .producerCallback length → 0 < length) (hne : a ≠ .resumeWrite) :
    w'.Ending (closed || decide (a = .onClose)) ∧
      w.Nears w' ([a].countP Action.isProducerCallback) os := by
  have hinv := (h.inv.step hs).1
  have hdue (ha : a.carriesBytes = true) := h.due.step h.inv ha hs
  cases hs with
  | onClose =>
      exact ⟨⟨hinv, hdue rfl, h.suspended, h.eof⟩, WriteSide.nears_of_silent rfl rfl rfl⟩
  | producerCallback length =>
      have hnears := h.nears_producerCallback (hlength length rfl)
      refine ⟨⟨hinv, hdue rfl, ?_, ?_⟩, hnears⟩ <;>
      · rcases w.producerCallback_cases length with
          ⟨-, heq⟩ | ⟨-, bytes, -, ⟨-, heq⟩ | ⟨-, -, heq⟩⟩ <;> rw [heq]
        all_goals first | exact h.suspended | exact h.eof
  | write op stopped hidle =>
      have hsome := h.suspended
      rw [hidle] at hsome
      cases hsome
  | stopWrite w' hstop =>
      obtain ⟨f, -, rfl⟩ := Option.map_eq_some_iff.mp hstop
      exact ⟨⟨hinv, hdue rfl, rfl, h.eof⟩, WriteSide.nears_of_silent rfl rfl rfl⟩
  | resumeWrite w' os hresume => exact absurd rfl hne
  | other a os ha hos =>
      have hcount : [a].countP Action.isProducerCallback = 0 := by
        cases a <;> first | rfl | cases ha
      have hpulled : os.countP Label.isPulled = 0 := by
        refine List.countP_eq_zero.mpr fun l hl => ?_
        have := (hos l hl).1
        cases l <;> simp_all [Label.isWrite, Label.isPulled]
      have hcarries : a.carriesBytes = true := by
        cases a <;> first | rfl | cases ha
      rw [hcount]
      exact ⟨⟨hinv, hdue hcarries, h.suspended, h.eof⟩,
        WriteSide.nears_of_silent hpulled rfl rfl⟩

theorem WriteSide.Nears.trans {w w' w'' : WriteSide} {n n' : ℕ} {os os' : List Label}
    (h : w.Nears w' n os) (h' : w'.Nears w'' n' os') : w.Nears w'' (n + n') (os ++ os') where
  pulled := by
    have := h.pulled
    have := h'.pulled
    rw [List.countP_append]
    omega
  left := by
    have := h.left
    have := h'.left
    omega
  finish hp hserved := by
    cases hp' : w'.writePending with
    | false =>
        obtain ⟨bytes, hbytes⟩ := h.finish hp hp'
        exact ⟨bytes, List.mem_append_left os' hbytes⟩
    | true =>
        obtain ⟨bytes, hbytes⟩ := h'.finish hp' hserved
        exact ⟨bytes, List.mem_append_right os hbytes⟩

/-- Every execution from a suspended `write_eof` on in which it does not
resume. -/
theorem WriteSide.Ending.exec {c c' : Cell} {as : List Action} {os : List Label}
    (h : c.stream.write.Ending c.stream.closed)
    (hexec : cellMachine.exec anyStep c as = some (c', os)) (hresume : .resumeWrite ∉ as) :
    c'.stream.write.Ending c'.stream.closed ∧
      c.stream.write.Nears c'.stream.write (as.countP Action.isProducerCallback) os := by
  refine Machine.exec_invariant (A := (· ≠ .resumeWrite))
    (I := fun as os c' => c'.stream.write.Ending c'.stream.closed ∧
      c.stream.write.Nears c'.stream.write (as.countP Action.isProducerCallback) os)
    ?_ ⟨h, WriteSide.nears_of_silent rfl rfl rfl⟩ (fun a ha heq => hresume (heq ▸ ha)) hexec
  rintro as os c₁ a c₂ os' ⟨hending, hnears⟩ hne hs
  obtain ⟨hallows, hstream, -⟩ := Cell.step_eq_some hs
  obtain ⟨hending', hnears'⟩ := hending.step (Stream.step_write hstream)
    (fun length ha => Provider.length_pos (ha ▸ hallows)) hne
  rw [Stream.step_closed hstream, List.countP_append]
  exact ⟨hending', hnears.trans hnears'⟩

/-- In a run in which every `write_some` carries a byte, `write_offset_` stays
within `pending_`, and every callback is productive. And when a `write_eof` over
`B` bytes has been armed, then until it resumes at most `max B 1` callbacks are
answered with a frame, and after as many callbacks the body has been ended and
the resumption is posted. -/
theorem producer_callback_productive {tr : List Label} {c : Cell}
    (run : cellMachine.Run bytesInWrites tr c) :
    c.stream.write.writeOffset ≤ c.stream.write.pending.flatten.length ∧
      (∀ length c' os, cellMachine.step c (.producerCallback length) = some (c', os) →
        Productive c.stream.write c'.stream.write os) ∧
      (c.stream.write.writePending = true → c.stream.write.writeEofRequested = true →
        c.stream.write.writeOffset = 0 → ∀ as c' os,
        cellMachine.exec anyStep c as = some (c', os) → .resumeWrite ∉ as →
        os.countP Label.isPulled ≤ max c.stream.write.pending.flatten.length 1 ∧
          (max c.stream.write.pending.flatten.length 1 ≤ as.countP Action.isProducerCallback →
            (∃ bytes, .pulled bytes true ∈ os) ∧ c'.stream.write.writePending = false ∧
              ∃ wake, c'.stream.write.writeProgress.waiter () = .posted wake)) := by
  have hinv := (WriteSide.queue_run run).1
  have hdue := WriteSide.due_run run
  refine ⟨hinv.offset, fun length c' os hs => ?_, fun hp heof hzero as c' os hexec hresume => ?_⟩
  · obtain ⟨hallows, hstream, -⟩ := Cell.step_eq_some hs
    obtain ⟨hwrite, rfl⟩ := Stream.step_producerCallback_eq_some hstream
    rw [hwrite]
    exact hdue.productive hinv (Provider.length_pos hallows)
  · obtain ⟨hending, hnears⟩ := WriteSide.Ending.exec ⟨hinv, hdue, (hinv.armed hp).1, heof⟩ hexec
      hresume
    have hpulled := hnears.pulled
    have hleft := hnears.left
    rw [WriteSide.callbacksLeft_of_pending hp, hzero, Nat.sub_zero] at hpulled hleft
    refine ⟨by omega, fun hcalls => ?_⟩
    have hserved := WriteSide.served_of_callbacksLeft (w := c'.stream.write) (by omega)
    obtain ⟨f, hf⟩ := Option.isSome_iff_exists.mp hending.suspended
    exact ⟨hnears.finish hp hserved, hserved, hending.inv.posted hf (.inl hserved)⟩

/-- A `write_eof` over three bytes, pulled one byte at a time and stopped in
between, and called back once more before it resumes. -/
theorem producer_callback_productive_of_parts :
    ∃ tr c c' os, cellMachine.Run bytesInWrites tr c ∧ .pulled [9] false ∈ tr ∧
      c.stream.write.pending = [[1, 2], [3]] ∧
      cellMachine.exec anyStep c [.producerCallback 1, .producerCallback 1, .stopWrite,
        .producerCallback 4, .producerCallback 4] = some (c', os) ∧
      os.countP Label.isPulled ≤ max 3 1 ∧ ∃ bytes, .pulled bytes true ∈ os := by
  obtain ⟨tr, c, run, htr, hp, heof, hzero, hpending, hsome⟩ :
      ∃ tr c, cellMachine.Run bytesInWrites tr c ∧ .pulled [9] false ∈ tr ∧
        c.stream.write.writePending = true ∧ c.stream.write.writeEofRequested = true ∧
        c.stream.write.writeOffset = 0 ∧ c.stream.write.pending = [[1, 2], [3]] ∧
        (cellMachine.exec anyStep c [.producerCallback 1, .producerCallback 1, .stopWrite,
          .producerCallback 4, .producerCallback 4]).isSome = true :=
    Machine.run_of_exec (cellMachine_init 1 true)
      [.write (.writeSome [[9]]) false, .producerCallback 4, .producerCallback 4, .resumeWrite,
        .write (.streamWriteEof [[1, 2], [3]]) false] (by decide)
  obtain ⟨⟨c', os⟩, hexec⟩ := Option.isSome_iff_exists.mp hsome
  obtain ⟨hle, hfinish⟩ :=
    (producer_callback_productive run).2.2 hp heof hzero _ c' os hexec (by decide)
  rw [hpending] at hle hfinish
  exact ⟨tr, c, c', os, run, htr, hpending, hexec, hle, (hfinish (by decide)).1⟩

end Nghttp2Corosio
