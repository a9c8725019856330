import Nghttp2Corosio.Session.Registry
import Nghttp2Corosio.Stream.WriteInvariant
import Nghttp2Corosio.Stream.HeadInvariant

/-!
What the teardown of `run()` leaves behind.

An object that is not registered is closed, so when the teardown has emptied the
registry, every object is closed; and on a closed stream a suspended operation
has its resumption posted, which completes it.

Two things spoil this. A `submit_request` that nghttp2 accepts after the teardown
registers a stream which nothing will ever close; and a `get_response()` that is
started on a stream closed without a status waits for ever. `Session.MayServe`
rules them out.
-/

namespace Nghttp2Corosio

open Async Buffers Runs

/-! ### Operations on a closed stream -/

/-- Every operation that is suspended on the stream has its resumption posted,
and completes when it is resumed. -/
structure Cell.Settles (c : Cell) : Prop where
  read : c.stream.read.reader ≠ none →
    ∃ c' os res, c.step .resumeRead = some (c', os) ∧ .readReturned res ∈ os
  write : ∀ f, c.stream.write.writer = some f →
    ∃ c' os ec n, c.step .resumeWrite = some (c', os) ∧ .writeReturned f.op ec n ∈ os
  response : ∀ i, c.stream.head.statusReady.waiter i ≠ .idle →
    ∃ c' os ec response, c.step (.resumeResponse i) = some (c', os) ∧
      .responseReturned i ec response ∈ os

theorem ReadSide.resumeRead_closed {r : ReadSide} {f : ReadFrame} {w : Wake}
    (hf : r.reader = some f) (hw : r.readReady.waiter () = .posted w) :
    ∃ r' os res, r.resumeRead true = some (r', os) ∧ .readReturned res ∈ os := by
  unfold ReadSide.resumeRead
  rw [hf, hw]
  cases w with
  | canceled => exact ⟨_, _, f.canceled, rfl, r.finishRead_mem f.canceled⟩
  | signalled =>
      dsimp only
      split
      · rename_i res _
        exact ⟨_, _, res, rfl, r.finishRead_mem res⟩
      · rename_i hnone
        cases (ReadSide.woken_eq_none hnone).2.2

theorem WriteSide.Inv.resumeWrite_closed {w : WriteSide} (h : w.Inv true) {f : WriteFrame}
    {wake : Wake} (hf : w.writer = some f) (hw : w.writeProgress.waiter () = .posted wake) :
    ∃ w' os ec n, w.resumeWrite true = some (w', os) ∧ .writeReturned f.op ec n ∈ os := by
  have hnext := (h.frame f hf).1.advance_ok (h.offset_le_call hf)
  unfold WriteSide.resumeWrite
  rw [hf, hw]
  cases wake with
  | canceled => exact ⟨_, _, _, _, rfl, List.mem_singleton_self _⟩
  | signalled =>
      cases hadv : f.advance w.writeOffset with
      | done n =>
          refine ⟨_, _, none, n, rfl, ?_⟩
          dsimp only
          rw [hadv]
          exact List.mem_singleton_self _
      | call f' =>
          -- the operation goes on, and its next call fails at once
          rw [hadv] at hnext
          refine ⟨_, _, some .eof, f'.fail 0, rfl, ?_⟩
          dsimp only
          rw [hadv, ← hnext.2.1]
          exact List.mem_singleton_self _

theorem Cell.step_of_stream {c : Cell} {a : Action} {s : Stream} {os : List Label}
    (h : c.stream.step a = some (s, os)) (hallows : c.provider.allows a = true) :
    ∃ c', c.step a = some (c', os) := by
  refine ⟨⟨s, os.foldl Provider.observe (c.provider.act a)⟩, ?_⟩
  rw [Cell.step, if_pos hallows, h]
  rfl

/-- When no call starts to wait on a stream that was closed without a status,
nothing is stuck on a closed stream. -/
theorem Cell.settles_of_closed {tr : List Label} {c : Cell}
    (run : cellMachine.Run (fun c a => c.stream.MayAsk a) tr c) (hclosed : c.stream.closed = true) :
    c.Settles := by
  obtain ⟨hread, hwaits, hwrite, hhead⟩ :
      c.stream.read.Inv ∧ c.stream.read.Waits c.stream.closed ∧
        c.stream.write.Inv c.stream.closed ∧ c.stream.head.Waits c.stream.closed := by
    refine run.invariant (I := fun _ c => c.stream.read.Inv ∧
      c.stream.read.Waits c.stream.closed ∧ c.stream.write.Inv c.stream.closed ∧
      c.stream.head.Waits c.stream.closed) ?_ ?_
    · rintro c ⟨id, submitted, rfl⟩
      exact ⟨ReadSide.inv_fresh, nofun, WriteSide.inv_fresh, nofun⟩
    · rintro tr c a c' os ⟨hread, hwaits, hwrite, hhead⟩ hask hs
      have hstream := (Cell.step_eq_some hs).2.1
      have hreadStep := Stream.step_read hstream
      refine ⟨(hread.step hreadStep).1, ?_, (hwrite.step_cell hs).1, hhead.step hstream hask⟩
      rw [Stream.step_closed hstream]
      exact hwaits.step hread hreadStep
  rw [hclosed] at hwaits hwrite hhead
  refine ⟨fun hreader => ?_, fun f hf => ?_, fun i hi => ?_⟩
  · obtain ⟨f, hf⟩ := Option.ne_none_iff_exists'.mp hreader
    cases hw : c.stream.read.readReady.waiter () with
    | idle => exact absurd (hread.suspended.mpr hw) hreader
    | waiting => cases (hwaits hw).2.1
    | posted w =>
        obtain ⟨r', os, res, heq, hmem⟩ := ReadSide.resumeRead_closed hf hw
        have hstep : c.stream.step .resumeRead = some ({ c.stream with read := r' }, os) := by
          simp [Stream.step, hclosed, heq]
        obtain ⟨c', hc'⟩ := Cell.step_of_stream hstep rfl
        exact ⟨c', os, res, hc', hmem⟩
  · cases hw : c.stream.write.writeProgress.waiter () with
    | idle =>
        rw [← hwrite.suspended, hf] at hw
        cases hw
    | waiting => cases (hwrite.waiting hw).2
    | posted w =>
        obtain ⟨w', os, ec, n, heq, hmem⟩ := hwrite.resumeWrite_closed hf hw
        have hstep : c.stream.step .resumeWrite = some ({ c.stream with write := w' }, os) := by
          simp [Stream.step, hclosed, heq]
        obtain ⟨c', hc'⟩ := Cell.step_of_stream hstep rfl
        exact ⟨c', os, ec, n, hc', hmem⟩
  · cases hw : c.stream.head.statusReady.waiter i with
    | idle => exact absurd hw hi
    | waiting => cases (hhead i hw).2
    | posted w =>
        obtain ⟨h', ec, response, heq, -⟩ :=
          Head.resumeResponse_posted c.stream.read.eofError hw
        have hstep : c.stream.step (.resumeResponse i) =
            some ({ c.stream with head := h' }, [.responseReturned i ec response]) := by
          simp [Stream.step, heq]
        obtain ⟨c', hc'⟩ := Cell.step_of_stream hstep rfl
        exact ⟨c', _, ec, response, hc', List.mem_singleton_self _⟩

/-! ### Runs -/

/-- No request is accepted after the teardown, and no `get_response()` starts to
wait on a stream that was closed without a status. -/
def Session.MayServe (s : Session) : SessionAction → Prop
  | .submitRequest (some _) _ => s.role = .client → s.finished = false
  | .user a act _ => ∀ c ∈ s.cells a, c.stream.MayAsk act
  | _ => True

instance (s : Session) : DecidablePred s.MayServe
  | .submitRequest (some _) _ =>
      inferInstanceAs (Decidable (s.role = .client → s.finished = false))
  | .user a act _ => inferInstanceAs (Decidable (∀ c ∈ s.cells a, c.stream.MayAsk act))
  | .beginHeaders _ _ | .header _ _ _ | .frameRecv _ _ _ | .dataChunk _ _ _ | .streamClose _
  | .dataSourceRead _ _ | .memSend _ _ _ | .written _ | .resumeSend | .startRecv _ _
  | .readDone _ _ | .memRecv _ _ _ | .stop | .teardown | .submitResponse _ _ _
  | .submitRequest none _ => instDecidableTrue

theorem Session.finished_run {tr : List SessionLabel} {s : Session}
    (run : sessionMachine.Run Session.MayServe tr s) (hfinished : s.finished = true) :
    s.streams = ∅ := by
  refine run.invariant_along (I := fun _ s => s.finished = true → s.streams = ∅) ?_ ?_ hfinished
  · rintro s ⟨role, rfl⟩ h
    cases h
  · intro tr s e s' os run h hok hs hfinished
    have hallows := (Session.step_eq_some hs).1
    cases Session.step_moves hs with
    | quiet _ _ htable _ =>
        rw [htable] at hfinished ⊢
        exact h hfinished
    | act _ _ _ _ _ _ _ htable _ =>
        rw [htable] at hfinished ⊢
        exact h hfinished
    | register id submitted _ _ htable _ he =>
        rw [htable] at hfinished
        rcases he with ⟨-, rfl⟩ | ⟨-, hclient, adds, rfl⟩
        · simp only [Session.allows, Session.receiving, (Session.torn_run run hfinished).2]
            at hallows
          cases hallows
        · have hopen : s.finished = false := hok hclient
          rw [hopen] at hfinished
          cases hfinished
    | close _ hfind _ _ htable _ =>
        rw [htable] at hfinished
        rw [Session.findStream, h hfinished] at hfind
        cases hfind
    | teardown _ hclose => exact ((Session.inv_run run).teardown hclose).2.1

/-- When no request is accepted after the teardown and no `get_response()` starts
to wait on a stream closed without a status, a session that has finished its
teardown has no stream, now and later, and every operation that is suspended on
any stream it ever had is going to be resumed and completes then. -/
theorem nothing_waits_on_finished_session {tr : List SessionLabel} {s : Session}
    (run : sessionMachine.Run Session.MayServe tr s) (hfinished : s.finished = true) :
    s.streams = ∅ ∧ ∀ a c, s.cells a = some c → c.Settles := by
  have hstreams := Session.finished_run run hfinished
  have hinv := Session.inv_run run
  have hcells : HeapRuns cellMachine SessionLabel.ofStream (fun c act => c.stream.MayAsk act) tr
      s.cells := by
    refine Session.cell_run (fun tr s e a c act _ hok _ hdoes => ?_) run
    cases hdoes with
    | user act adds hc _ => exact hok c hc
    | _ => exact trivial
  refine ⟨hstreams, fun a c hc => Cell.settles_of_closed (onCell_run hcells hc) ?_⟩
  -- an object that is not closed is registered, and none is
  by_contra hopen
  have hlookup := (hinv.registered a c hc).mp (by simpa using hopen)
  rw [hstreams] at hlookup
  cases hlookup

/-- A client that is torn down while a read, a write and a `get_response()` are
suspended on its request. -/
theorem nothing_waits_on_finished_session_of_teardown :
    ∃ tr s, sessionMachine.Run Session.MayServe tr s ∧ s.finished = true ∧ s.streams = ∅ ∧
      ∃ c, s.cells 0 = some c ∧ c.stream.read.reader ≠ none ∧ c.stream.write.writer ≠ none ∧
        c.stream.head.statusReady.waiter 0 ≠ .idle ∧ c.Settles := by
  obtain ⟨tr, s, run, hfinished, hread, hwrite, hresponse⟩ :
      ∃ tr s, sessionMachine.Run Session.MayServe tr s ∧ s.finished = true ∧
        ((s.cells 0).any fun c => c.stream.read.reader.isSome) = true ∧
        ((s.cells 0).any fun c => c.stream.write.writer.isSome) = true ∧
        ((s.cells 0).any fun c => decide (c.stream.head.statusReady.waiter 0 ≠ .idle)) = true :=
    Machine.run_of_exec (sessionMachine_init .client)
      [.memSend (some []) 0 true, .startRecv true 0, .submitRequest (some 1) 1,
        .user 0 (.readSome [1] false) 0, .user 0 (.write (.writeSome [[1]]) false) 0,
        .user 0 (.getResponse 0 false) 0, .readDone true 1, .resumeSend,
        .memSend (some []) 0 false, .teardown] (by decide)
  obtain ⟨hstreams, hsettles⟩ := nothing_waits_on_finished_session run hfinished
  refine ⟨tr, s, run, hfinished, hstreams, ?_⟩
  cases hc : s.cells 0 with
  | none => simp [hc] at hread
  | some c =>
      simp only [hc, Option.any_some, Option.isSome_iff_ne_none] at hread hwrite
      simp only [hc, Option.any_some, decide_eq_true_eq] at hresponse
      exact ⟨c, rfl, hread, hwrite, hresponse, hsettles 0 c hc⟩

/-- A request that is accepted after the teardown: its stream is registered with
the finished session, and a read waits on it with no one left to wake it. -/
theorem request_waits_on_finished_session :
    ∃ tr s, sessionMachine.Run anyStep tr s ∧ s.finished = true ∧ s.streams.lookup 1 = some 0 ∧
      .requestSubmitted none (some 0) ∈ tr ∧
      ((s.cells 0).any fun c => decide (c.stream.read.readReady.waiter () = .waiting)) = true :=
  Machine.run_of_exec (sessionMachine_init .client)
    [.memSend (some []) 0 true, .startRecv true 0, .readDone true 1, .resumeSend,
      .memSend (some []) 0 false, .teardown, .submitRequest (some 1) 1,
      .user 0 (.readSome [1] false) 0] (by decide)

end Nghttp2Corosio
