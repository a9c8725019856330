import Nghttp2Corosio.Handler.ExchangeInvariant

/-!
How far a client of `echo` can run ahead of itself.

Nothing between the two ends of an exchange stores more than it has room for:
what is in flight and what a stream has not handed to its reader yet is covered
by the flow-control window of its direction, since a stream gives credit back
only with what its reader gets; and `echo` holds what fits into its buffer. So
the bytes that a client has got rid of and not read back yet are at most two
windows and one buffer. A client that does not read while it writes cannot
finish a write that is longer than that, which is why the helpers that send a
long body have to be run together with those that read it.
-/

namespace Nghttp2Corosio

open Async Buffers Flow Runs

/-! ### Destinations -/

/-- What the suspended read has got, and may still get, fits into `n` bytes. -/
def ReadSide.Fits (n : ℕ) (r : ReadSide) : Prop :=
  ∀ f, r.reader = some f → f.copied.length + f.bp.room ≤ n

theorem ReadSide.fits_of_none {n : ℕ} {r : ReadSide} (h : r.reader = none) : r.Fits n := by
  intro f hf
  rw [h] at hf
  cases hf

theorem ReadFrame.put_fits (f : ReadFrame) (data : Bytes) :
    (f.put data).1.copied.length + (f.put data).1.bp.room = f.copied.length + f.bp.room := by
  have hle := f.bp.fits_le data.length
  have hroom := f.bp.fits_le_room data.length
  simp only [ReadFrame.put, List.length_append, List.length_take, Window.room_put]
  omega

theorem ReadSide.parkRead_fits {n : ℕ} {r : ReadSide} {f : ReadFrame}
    (h : f.copied.length + f.bp.room ≤ n) :
    (r.parkRead f).1.Fits n ∧ (returned (r.parkRead f).2).length ≤ n := by
  rcases r.parkRead_cases f with ⟨-, heq⟩ | ⟨-, heq⟩
  · rw [heq]
    refine ⟨fun f' hf' => ?_, Nat.zero_le n⟩
    rw [← Option.some.inj hf']
    exact h
  · rw [heq]
    refine ⟨ReadSide.fits_of_none rfl, ?_⟩
    rw [ReadSide.finishRead_returned, f.canceled_bytes]
    omega

theorem ReadSide.Inv.readSome_fits {n : ℕ} {r : ReadSide} (h : r.Inv) (hidle : r.reader = none)
    (closed stopped : Bool) {sizes : List ℕ} (hsizes : sizes.sum ≤ n) :
    (r.readSome closed sizes stopped).1.Fits n ∧
      (returned (r.readSome closed sizes stopped).2).length ≤ n := by
  have hroom := (ReadSide.drain_spec h.chunks h.offset (Window.ofSizes maxIovec sizes)).1.room
  rw [Window.room_ofSizes] at hroom
  unfold ReadSide.readSome
  dsimp only
  split
  · refine ⟨ReadSide.fits_of_none hidle, ?_⟩
    rw [ReadSide.finishRead_returned]
    show (r.drain (Window.ofSizes maxIovec sizes)).got.length ≤ n
    omega
  · split
    · refine ⟨ReadSide.fits_of_none hidle, ?_⟩
      rw [ReadSide.finishRead_returned]
      exact Nat.zero_le n
    · refine ReadSide.parkRead_fits ?_
      simp only [List.length_nil]
      omega

/-- No read gets more than its destination holds, whether the bytes come from the
buffer or are put into the sink of the suspended call. -/
theorem ReadSide.Fits.step {n : ℕ} {r r' : ReadSide} {closed : Bool} {a : Action}
    {os : List Label} (hfits : r.Fits n) (h : r.Inv) (hs : r.Step closed a os r')
    (ha : ∀ sizes stopped, a = .readSome sizes stopped → sizes.sum ≤ n) :
    r'.Fits n ∧ (returned os).length ≤ n := by
  cases hs with
  | onData data =>
      refine ⟨?_, Nat.zero_le n⟩
      cases hr : r.reader with
      | none =>
          rw [ReadSide.onData_of_none hr]
          exact ReadSide.fits_of_none hr
      | some f =>
          rw [h.onData_of_some hr]
          intro f' hf'
          rw [← Option.some.inj hf', ReadFrame.put_fits]
          exact hfits f hr
  | onReadEof => exact ⟨hfits, Nat.zero_le n⟩
  | onClose => exact ⟨hfits, Nat.zero_le n⟩
  | readSome sizes stopped hidle =>
      exact h.readSome_fits hidle closed stopped (ha sizes stopped rfl)
  | stopRead r' hstop =>
      refine ⟨fun f' hf' => ?_, Nat.zero_le n⟩
      obtain ⟨f, hf, hbp, hcopied⟩ := (h.stopRead hstop).2.frame hf'
      rw [hbp, hcopied]
      exact hfits f hf
  | resumeRead r' os hresume =>
      obtain ⟨f, w, hf, -, ⟨res, heq, hres⟩ | ⟨-, -, heq⟩⟩ := ReadSide.resumeRead_eq_some hresume
      · obtain ⟨rfl, rfl⟩ := Prod.ext_iff.mp heq
        have hbytes : res.bytes = f.copied := by
          rcases hres with ⟨-, rfl⟩ | ⟨-, hwoken⟩
          · exact f.canceled_bytes
          · exact ReadSide.woken_bytes hwoken
        have := hfits f hf
        refine ⟨ReadSide.fits_of_none rfl, ?_⟩
        rw [ReadSide.finishRead_returned, hbytes]
        omega
      · obtain ⟨rfl, rfl⟩ := Prod.ext_iff.mp heq
        exact ReadSide.parkRead_fits (hfits f hf)
  | other a os hother hos =>
      rw [(read_silent hos).2.1]
      exact ⟨hfits, Nat.zero_le n⟩

/-! ### What `echo` holds -/

/-- `echo` reads into its buffer only when it has written what was there. -/
def Echo.Holds (tr : List EchoLabel) (e : Echo) : Prop :=
  e.cell.stream.read.Fits echoBufferSize ∧
    (returned (onStream tr)).length ≤ (written (onStream tr)).length + echoBufferSize

theorem Echo.Holds.step {tr : List EchoLabel} {e e' : Echo} {a : EchoAction}
    {os : List EchoLabel} (hholds : e.Holds tr) (h : e.Inv tr) (hs : e.step a = some (e', os)) :
    e'.Holds (tr ++ os) := by
  have hread := (ReadSide.balance_run h.run).1
  obtain ⟨hfits, hle⟩ := hholds
  have hquiet {e' : Echo} {os : List EchoLabel} (hfits' : e'.cell.stream.read.Fits echoBufferSize)
      (hreturned : returned (onStream os) = []) : e'.Holds (tr ++ os) := by
    refine ⟨hfits', ?_⟩
    simp only [onStream_append, returned_append, written_append, List.length_append, hreturned,
      List.length_nil]
    omega
  have hact {act : Action} {cell : Cell} {ls : List Label}
      (hne : ∀ sizes stopped, act = .readSome sizes stopped → sizes.sum ≤ echoBufferSize)
      (hstep : e.cell.step act = some (cell, ls)) :
      cell.stream.read.Fits echoBufferSize ∧ (returned ls).length ≤ echoBufferSize :=
    hfits.step hread (Stream.step_read (Cell.step_eq_some hstep).2.1) hne
  cases Echo.step_moves hs with
  | callback act cell ls hallows hstep =>
      have hcallback := Echo.allows_isCallback hallows
      refine hquiet (hact (fun sizes stopped heq => ?_) hstep).1 ?_
      · subst heq
        cases hcallback
      · rw [onStream_map]
        exact (Cell.callback_spec hstep hcallback).1
  | enter => exact hquiet hfits rfl
  | submit accepted =>
      refine hquiet ?_ rfl
      cases accepted <;> exact hfits
  | read hpc hop hstep =>
      rename_i submitted act cell ls
      -- everything that was read before is written
      have hbalance := h.balance
      rw [Echo.Balance, hpc] at hbalance
      obtain ⟨hfits', hreturned⟩ := hact (fun sizes stopped heq => by
        rcases hop with rfl | rfl
        · cases heq
          simp
        · cases heq) hstep
      refine ⟨hfits', ?_⟩
      have hstream : onStream (e.settle (cell, ls)).2 = ls := onStream_map ls
      rw [onStream_append, hstream, returned_append, written_append, List.length_append,
        List.length_append, ← hbalance]
      omega
  | write hop hopAct hstep =>
      rename_i op act cell ls
      have hnot : act.isRead = false := by rcases hopAct with rfl | ⟨rfl, -⟩ <;> rfl
      obtain ⟨hsame, -, hsilent⟩ := Stream.step_frame_read (Cell.step_eq_some hstep).2.1 hnot
      refine hquiet ?_ ?_
      · rw [show (e.settle (cell, ls)).1.cell.stream.read = e.cell.stream.read from hsame]
        exact hfits
      · rw [Echo.settle, onStream_map]
        exact (read_silent hsilent).2.1
  | stopIdle => exact hquiet hfits rfl
  | stopOp act cell ls hstop hstep =>
      refine hquiet (hact (fun sizes stopped heq => ?_) hstep).1 ?_
      · rcases hstop with ⟨rfl, -⟩ | ⟨rfl, -⟩ <;> cases heq
      · rw [(Cell.stop_spec (by tauto) hstep).1]
        rfl

theorem Echo.holds_run {tr : List EchoLabel} {e : Echo} (run : echoMachine.Run anyStep tr e) :
    e.Holds tr := by
  refine run.invariant_along (I := fun tr e => e.Holds tr) ?_ ?_
  · rintro e ⟨id, rfl⟩
    exact ⟨ReadSide.fits_of_none rfl, Nat.zero_le _⟩
  · intro tr e a e' os run hholds _ hs
    exact hholds.step (Echo.inv_run run).1 hs

/-! ### What a write reports -/

theorem not_writeReturned_of_isRequest {os : List Label} (h : ∀ l ∈ os, l.isRequest = true)
    {op : WriteOp} {ec : Option Error} {n : ℕ} : .writeReturned op ec n ∉ os := by
  intro hmem
  cases h _ hmem

/-- A `write` that reports no error has handed over all its bytes. -/
theorem WriteSide.Outcome.composed {closed stopped : Bool} {op op' : WriteOp} {w' : WriteSide}
    {os : List Label} {n : ℕ} (h : WriteSide.Outcome closed stopped op w' os)
    (hmem : .writeReturned op' none n ∈ os) (hcomposed : op'.isComposed = true) :
    n = op'.bytes.length := by
  cases h with
  | returned calls ec m hcalls hos hidle hec hall =>
      rw [hos] at hmem
      rcases List.mem_append.mp hmem with hcall | hlast
      · exact absurd hcall (not_writeReturned_of_isRequest hcalls)
      · cases List.mem_singleton.mp hlast
        exact hall rfl hcomposed
  | suspended f hwriter hop hopen hrunning hos =>
      exact absurd hmem (not_writeReturned_of_isRequest hos)

theorem WriteSide.Step.composed {w w' : WriteSide} {closed : Bool} {a : Action} {os : List Label}
    (hs : w.Step closed a os w') (h : w.Inv closed) {op : WriteOp} {n : ℕ}
    (hmem : .writeReturned op none n ∈ os) (hcomposed : op.isComposed = true) :
    n = op.bytes.length := by
  cases hs with
  | onClose => simp at hmem
  | producerCallback length =>
      rcases w.producerCallback_cases length with
        ⟨-, heq⟩ | ⟨-, bytes, -, ⟨-, heq⟩ | ⟨-, -, heq⟩⟩ <;>
      · rw [heq] at hmem
        simp at hmem
  | write op' stopped hidle => exact (w.write_outcome closed op' stopped).composed hmem hcomposed
  | stopWrite w' hstop => cases hmem
  | resumeWrite w' os hresume =>
      obtain ⟨f, -, houtcome⟩ := h.resumeWrite_outcome hresume
      exact houtcome.composed hmem hcomposed
  | other a os ha hos => cases (hos _ hmem).1

theorem composed_run {ok : Cell → Action → Prop} {tr : List Label} {c : Cell}
    (run : cellMachine.Run ok tr c) {op : WriteOp} {n : ℕ}
    (hmem : .writeReturned op none n ∈ tr) (hcomposed : op.isComposed = true) :
    n = op.bytes.length := by
  refine run.invariant_along (I := fun tr _ => ∀ op n, .writeReturned op none n ∈ tr →
    op.isComposed = true → n = op.bytes.length) ?_ ?_ op n hmem hcomposed
  · intro _ _ op n hmem
    cases hmem
  · intro tr c a c' os run ih _ hs op n hmem hcomposed
    rcases List.mem_append.mp hmem with hbefore | hnow
    · exact ih op n hbefore hcomposed
    · exact (Stream.step_write (Cell.step_eq_some hs).2.1).composed (WriteSide.queue_run run).1
        hnow hcomposed

/-! ### Two windows and a buffer -/

section Bounds

variable {up down : Limits} {block : List (Bytes × Bytes)} {tr : List ExchangeLabel}
  {x : Exchange}

theorem Leg.Inv.covered {limits : Limits} {leg : Leg} {sent received : List Label} {c : Cell}
    {ok : Cell → Action → Prop} (h : leg.Inv limits block sent received)
    (run : cellMachine.Run ok received c) :
    leg.body.stream.held + (leg.body.inFlight.length + c.stream.read.contents.length) =
      limits.stream.size := by
  obtain ⟨-, hconsumed, hperm⟩ := ReadSide.balance_run run
  have hstream := h.stream
  have hlength := congrArg List.length h.body
  have hdelivered := hperm.length_eq
  rw [List.length_append] at hlength hdelivered
  omega

/-- The stations of a byte have room for two windows and a buffer. -/
theorem Exchange.Inv.ahead (h : x.Inv up down block tr) :
    (pulled (atClient tr)).length ≤ (returned (atClient tr)).length +
      (up.stream.size + echoBufferSize + down.stream.size) := by
  have hinv := (Echo.inv_run h.server).1
  have hup := h.request.covered hinv.run
  have hdown := h.response.covered h.client
  obtain ⟨-, -, hread, hwrite⟩ := hinv.sides
  obtain ⟨hclient, hresponse, -, hrequest⟩ := h.stations
  have hheld := (Echo.holds_run h.server).2
  replace hclient := congrArg List.length hclient
  replace hresponse := congrArg List.length hresponse
  replace hrequest := congrArg List.length hrequest
  replace hread := congrArg List.length hread
  replace hwrite := congrArg List.length hwrite
  simp only [List.length_append] at hclient hresponse hrequest hread hwrite
  omega

/-- Back pressure, in every interleaving. In each direction, what is in flight and
what the receiving stream has buffered fits into the window. So the client is never
ahead of itself by more than both windows and the buffer of `echo`; and as long as it
has read nothing, no `write` of more bytes than that completes. -/
theorem exchange_backpressure (run : (exchangeMachine up down).Run clientReads tr x) :
    x.request.body.inFlight.length + x.server.cell.stream.read.contents.length ≤
        up.stream.size ∧
      x.response.body.inFlight.length + x.client.stream.read.contents.length ≤
        down.stream.size ∧
      (pulled (atClient tr)).length ≤ (returned (atClient tr)).length +
        (up.stream.size + echoBufferSize + down.stream.size) ∧
      (returned (atClient tr) = [] → ∀ buffers n,
        .writeReturned (.write buffers) none n ∈ atClient tr →
        buffers.flatten.length ≤ up.stream.size + echoBufferSize + down.stream.size) := by
  obtain ⟨path, contentLength, headers, h⟩ := Exchange.inv_run run
  have hup := h.request.covered (Echo.inv_run h.server).1.run
  have hdown := h.response.covered h.client
  refine ⟨by omega, by omega, h.ahead, fun hnone buffers n hmem => ?_⟩
  have hahead := h.ahead
  rw [hnone] at hahead
  have hall : n = buffers.flatten.length := composed_run h.client hmem rfl
  -- the bytes of a finished write are among those that were handed out
  have hwritten : buffers.flatten.length ≤ (written (atClient tr)).length := by
    obtain ⟨pre, post, hsplit⟩ := List.append_of_mem hmem
    have htake : ((Label.writeReturned (.write buffers) none n).writtenBytes).length =
        buffers.flatten.length := by
      simp [Label.writtenBytes, WriteOp.bytes, WriteOp.buffers, hall]
    rw [hsplit, written_append, List.length_append]
    simp only [written, List.flatMap_cons, List.length_append, htake]
    omega
  have hpulled := congrArg List.length (WriteSide.queue_run h.client).2
  simp only [List.length_append, List.length_nil] at hpulled hahead
  omega

end Bounds

/-- A client that has read nothing has got rid of three bytes, more than a window. -/
theorem exchange_backpressure_of_silence :
    ∃ tr x, (exchangeMachine twoBytes twoBytes).Run clientReads tr x ∧
      returned (atClient tr) = [] ∧
      .writeReturned (.write [[1, 2, 3]]) none 3 ∈ atClient tr ∧
      [[1, 2, 3]].flatten.length ≤ 2 + echoBufferSize + 2 := by
  obtain ⟨tr, x, run, hreturned, hmem⟩ :
      ∃ tr x, (exchangeMachine twoBytes twoBytes).Run clientReads tr x ∧
        returned (atClient tr) = [] ∧
        .writeReturned (.write [[1, 2, 3]]) none 3 ∈ atClient tr :=
    Machine.run_of_exec (exchangeMachine_init twoBytes twoBytes 1 (ascii "/") none [])
      [.client (.write (.write [[1, 2, 3]]) false), .client (.producerCallback 2),
        .server (.callback (.onHeader (ascii ":method") (ascii "POST"))),
        .server (.callback (.onHeader (ascii ":scheme") (ascii "http"))),
        .server (.callback (.onHeader (ascii ":path") (ascii "/"))),
        .server (.callback (.onHeader (ascii ":authority") (ascii "localhost"))),
        .server (.go true), .server (.go true), .server (.callback (.onData [1, 2])),
        .server .resume, .request .announceStream, .request .announceConnection,
        .request .updateStream, .request .updateConnection, .client .resumeWrite,
        .client (.producerCallback 2), .client .resumeWrite] (by decide)
  exact ⟨tr, x, run, hreturned, hmem,
    (exchange_backpressure run).2.2.2 hreturned [[1, 2, 3]] 3 hmem⟩

end Nghttp2Corosio
