import Nghttp2Corosio.Stream.ReadInvariant

/-!
When direct delivery overtakes the buffer.

`on_data` offers a delivery to the sink of the parked `read_some` first, and
buffers what the sink does not take. As long as the sink has room while
something is buffered, the next delivery goes past the buffer and into the
caller's memory. `SinkFull` says that this is not so.

The drain loop of `read_some` asks `bp.data()` for the next window until the
chunks or the destination are exhausted. `Sink::put` copies into one window
only: what does not fit there is buffered although the destination may have
buffers beyond it. A delivery is safe exactly when it fits into the exposed
window or when that window is the last one, which is what `windowTakes` says.
-/

namespace Nghttp2Corosio

open Async Buffers Runs

/-- While something is buffered, the sink of the parked read takes nothing. -/
def ReadSide.SinkFull (r : ReadSide) : Prop :=
  r.chunks ≠ [] → ∀ f ∈ r.reader, ∀ data, (f.put data).2 = 0

/-- The delivery fits into the window that the parked read exposes, or no buffer
of its destination lies beyond that window. -/
def windowTakes (c : Cell) (a : Action) : Prop :=
  ∀ f ∈ c.stream.read.reader, a.data.length ≤ f.bp.refill.front.sum ∨ f.bp.Whole

instance : DecidableRel windowTakes := fun c a =>
  inferInstanceAs (Decidable (∀ f ∈ c.stream.read.reader,
    a.data.length ≤ f.bp.refill.front.sum ∨ f.bp.Whole))

theorem ReadFrame.put_eq_zero_iff (f : ReadFrame) :
    (∀ data, (f.put data).2 = 0) ↔ f.bp.room = 0 := by
  rw [← Window.fits_eq_zero_iff maxIovec_pos]
  refine ⟨fun h len => ?_, fun h data => h data.length⟩
  have hput := h (List.replicate len 0)
  simpa [ReadFrame.put] using hput

theorem ReadSide.sinkFull_iff {r : ReadSide} :
    r.SinkFull ↔ ∀ f ∈ r.reader, r.chunks ≠ [] → f.bp.room = 0 := by
  simp only [ReadSide.SinkFull, ReadFrame.put_eq_zero_iff]
  exact ⟨fun h f hf hne => h hne f hf, fun h hne f hf => h f hf hne⟩

theorem ReadSide.sinkFull_of_none {r : ReadSide} (hr : r.reader = none) : r.SinkFull := by
  intro _ f hf
  simp [hr] at hf

/-! ### Deliveries -/

theorem ReadSide.Inv.onData_sinkFull_iff {r : ReadSide} (h : r.Inv) (hfull : r.SinkFull)
    (data : Bytes) :
    (r.onData data).SinkFull ↔
      ∀ f ∈ r.reader, data.length ≤ f.bp.refill.front.sum ∨ f.bp.Whole := by
  cases hr : r.reader with
  | none =>
      rw [ReadSide.onData_of_none hr]
      exact iff_of_true (ReadSide.sinkFull_of_none hr) (by simp)
  | some f =>
      have hput : (r.onData data).SinkFull ↔
          (pushChunk r.chunks (data.drop (f.bp.fits data.length)) ≠ [] →
            (f.bp.put data.length).room = 0) := by
        rw [h.onData_of_some hr, ReadSide.sinkFull_iff]
        simp [ReadFrame.put]
      have htakes : (∀ f' ∈ some f, data.length ≤ f'.bp.refill.front.sum ∨ f'.bp.Whole) ↔
          data.length ≤ f.bp.refill.front.sum ∨ f.bp.Whole := by simp
      rw [hput, htakes]
      by_cases hnil : r.chunks = []
      · have hleft : pushChunk r.chunks (data.drop (f.bp.fits data.length)) ≠ [] ↔
            f.bp.refill.front.sum < data.length := by
          rw [Ne, pushChunk_eq_nil, List.drop_eq_nil_iff, Window.fits]
          simp only [hnil, true_and]
          omega
        rw [hleft, ← not_lt, ← imp_iff_not_or]
        exact forall_congr' fun hlt => Window.room_put_eq_zero_iff hlt
      · -- what is buffered has filled the destination before
        have hroom := ReadSide.sinkFull_iff.mp hfull f hr hnil
        refine iff_of_true (fun _ => ?_) (.inr (Window.whole_of_room_eq_zero hroom))
        rw [Window.room_put]
        omega

/-! ### The stretches of `read_some` -/

theorem ReadSide.parkRead_sinkFull {r : ReadSide} {f : ReadFrame}
    (h : r.chunks ≠ [] → f.bp.room = 0) : (r.parkRead f).1.SinkFull := by
  rcases r.parkRead_cases f with ⟨-, heq⟩ | ⟨-, heq⟩ <;> rw [heq]
  · refine ReadSide.sinkFull_iff.mpr fun f' hf' => ?_
    obtain rfl : f = f' := by simpa using hf'
    exact h
  · exact ReadSide.sinkFull_of_none rfl

/-- A read that parks with something buffered has a full destination, because
the drain loop goes from window to window. -/
theorem ReadSide.Inv.readSome_sinkFull {r : ReadSide} (h : r.Inv) (hr : r.reader = none)
    (closed : Bool) (sizes : List ℕ) (stopped : Bool) :
    (r.readSome closed sizes stopped).1.SinkFull := by
  have hbreak := (ReadSide.drain_spec h.chunks h.offset (Window.ofSizes maxIovec sizes)).2
  simp only [ReadSide.readSome]
  split
  · exact ReadSide.sinkFull_of_none hr
  · split
    · exact ReadSide.sinkFull_of_none hr
    · exact ReadSide.parkRead_sinkFull hbreak.resolve_left

theorem ReadSide.SinkFull.resumeRead {r r' : ReadSide} {closed : Bool} {os : List Label}
    (hfull : r.SinkFull) (hresume : r.resumeRead closed = some (r', os)) : r'.SinkFull := by
  obtain ⟨f, w, hf, -, ⟨res, heq, -⟩ | ⟨-, -, heq⟩⟩ := ReadSide.resumeRead_eq_some hresume
  · rw [show r' = (ReadSide.finishRead _ res).1 from congrArg Prod.fst heq]
    exact ReadSide.sinkFull_of_none rfl
  · rw [show r' = (ReadSide.parkRead _ f).1 from congrArg Prod.fst heq]
    exact ReadSide.parkRead_sinkFull (ReadSide.sinkFull_iff.mp hfull f hf)

theorem ReadSide.SameBytes.sinkFull {r r' : ReadSide} (h : r.SameBytes r') (hfull : r.SinkFull) :
    r'.SinkFull := by
  refine ReadSide.sinkFull_iff.mpr fun f' hf' => ?_
  obtain ⟨f, hf, hbp, -⟩ := h.frame hf'
  rw [hbp, h.1]
  exact ReadSide.sinkFull_iff.mp hfull f hf

/-- Of all steps only a delivery can leave room in front of the buffer, and it
does so exactly when the window does not take it. -/
theorem ReadSide.Inv.step_sinkFull_iff {r r' : ReadSide} {closed : Bool} {a : Action}
    {os : List Label} (h : r.Inv) (hfull : r.SinkFull) (hs : r.Step closed a os r') :
    r'.SinkFull ↔ ∀ f ∈ r.reader, a.data.length ≤ f.bp.refill.front.sum ∨ f.bp.Whole := by
  have hquiet (ha : a.data = []) :
      ∀ f ∈ r.reader, a.data.length ≤ f.bp.refill.front.sum ∨ f.bp.Whole := by
    intro f _
    rw [ha]
    exact .inl (Nat.zero_le _)
  cases hs with
  | onData data => exact h.onData_sinkFull_iff hfull data
  | onReadEof => exact iff_of_true hfull (hquiet rfl)
  | onClose => exact iff_of_true hfull (hquiet rfl)
  | readSome sizes stopped hidle =>
      exact iff_of_true (h.readSome_sinkFull hidle closed sizes stopped) (hquiet rfl)
  | stopRead r' hstop => exact iff_of_true ((h.stopRead hstop).2.sinkFull hfull) (hquiet rfl)
  | resumeRead r' os hresume => exact iff_of_true (hfull.resumeRead hresume) (hquiet rfl)
  | other a os ha hos =>
      have hdata : a.data = [] := by
        cases a <;> first | rfl | cases ha
      exact iff_of_true hfull (hquiet hdata)

/-! ### Runs -/

theorem ReadSide.sinkFull_run {tr : List Label} {c : Cell}
    (run : cellMachine.Run windowTakes tr c) : c.stream.read.SinkFull := by
  refine run.invariant_along (I := fun _ c => c.stream.read.SinkFull) ?_ ?_
  · rintro c ⟨id, submitted, rfl⟩
    exact ReadSide.sinkFull_of_none rfl
  · intro tr c a c' os run hfull hok hs
    have hinv := (ReadSide.balance_run run).1
    exact (hinv.step_sinkFull_iff hfull (Stream.step_read (Cell.step_eq_some hs).2.1)).mpr hok

/-- In a run in which the exposed window takes every delivery to a parked read,
or is the last one, nothing overtakes the buffer: while something is buffered
the sink takes nothing. And the condition cannot be weakened: the first step
that does not meet it leaves room in front of the buffer. -/
theorem sink_full_while_buffered {tr : List Label} {c : Cell}
    (run : cellMachine.Run windowTakes tr c) :
    c.stream.read.SinkFull ∧ ∀ a c' os, cellMachine.step c a = some (c', os) →
      (c'.stream.read.SinkFull ↔ windowTakes c a) := by
  have hfull := ReadSide.sinkFull_run run
  refine ⟨hfull, fun a c' os hs => ?_⟩
  have hinv := (ReadSide.balance_run run).1
  exact hinv.step_sinkFull_iff hfull (Stream.step_read (Cell.step_eq_some hs).2.1)

/-- A destination of seventeen buffers that is filled by two deliveries, the
second of which is buffered in part. -/
theorem sink_full_while_buffered_of_two :
    ∃ tr c, cellMachine.Run windowTakes tr c ∧
      c.stream.read.chunks = [[18]] ∧ c.stream.read.reader.isSome = true ∧
      c.stream.read.SinkFull := by
  obtain ⟨tr, c, run, hchunks, hreader⟩ :
      ∃ tr c, cellMachine.Run windowTakes tr c ∧ c.stream.read.chunks = [[18]] ∧
        c.stream.read.reader.isSome = true :=
    Machine.run_of_exec (cellMachine_init 1 true)
      [.readSome (List.replicate 17 1) false,
        .onData [1, 2, 3, 4, 5, 6, 7, 8, 9, 10, 11, 12, 13, 14, 15, 16], .onData [17, 18]]
      (by decide)
  exact ⟨tr, c, run, hchunks, hreader, (sink_full_while_buffered run).1⟩

/-- One delivery of seventeen bytes to the same destination leaves a byte in the
buffer and room for one in the sink; the next delivery takes that place, and the
read returns it in front of the buffered byte. -/
theorem delivery_overtakes_buffer :
    (∃ tr c, cellMachine.Run anyStep tr c ∧ c.stream.read.chunks = [[17]] ∧
      c.stream.read.reader.map (fun f => (f.put [18]).2) = some 1 ∧ ¬c.stream.read.SinkFull) ∧
    ∃ tr c, cellMachine.Run anyStep tr c ∧
      delivered tr = [1, 2, 3, 4, 5, 6, 7, 8, 9, 10, 11, 12, 13, 14, 15, 16, 17, 18] ∧
      returned tr = [1, 2, 3, 4, 5, 6, 7, 8, 9, 10, 11, 12, 13, 14, 15, 16, 18] ∧
      c.stream.read.unread = [17] := by
  refine ⟨?_, Machine.run_of_exec (cellMachine_init 1 true)
    [.readSome (List.replicate 17 1) false,
      .onData [1, 2, 3, 4, 5, 6, 7, 8, 9, 10, 11, 12, 13, 14, 15, 16, 17], .onData [18],
      .resumeRead] (by decide)⟩
  obtain ⟨tr, c, run, hchunks, hput⟩ :
      ∃ tr c, cellMachine.Run anyStep tr c ∧ c.stream.read.chunks = [[17]] ∧
        c.stream.read.reader.map (fun f => (f.put [18]).2) = some 1 :=
    Machine.run_of_exec (cellMachine_init 1 true)
      [.readSome (List.replicate 17 1) false,
        .onData [1, 2, 3, 4, 5, 6, 7, 8, 9, 10, 11, 12, 13, 14, 15, 16, 17]] (by decide)
  refine ⟨tr, c, run, hchunks, hput, fun hfull => ?_⟩
  obtain ⟨f, hf, hone⟩ := Option.map_eq_some_iff.mp hput
  have hzero := hfull (by simp [hchunks]) f hf [18]
  rw [hone] at hzero
  cases hzero

end Nghttp2Corosio
