import Nghttp2Corosio.Handler.Backpressure
import Nghttp2Corosio.Server.Control
import Nghttp2Corosio.Stream.BodyEnd

/-!
An exchange does not get stuck while its client reads.

A state is *quiet* when nothing is going to happen in it by itself: nghttp2 has
nothing to deliver, to ask for or to announce, no resumption is posted, and
`echo` is suspended. A quiet exchange is either at rest, or stuck. The latter is
what happens to a client that writes a long body and reads nothing: every station
between its two ends is full. It does not happen to a client that has a read
outstanding. For such a client everything behind the read is empty, so all the
credit of the response is back, `echo` is not held up, so all the credit of the
request is back, and a write would have been served.

What is assumed of the environment is that the exchange is not disturbed: nobody
stops `echo`, nghttp2 accepts the response, and a stream is closed by nghttp2
when it has ended in both directions.
-/

namespace Nghttp2Corosio

open Async Buffers Flow Runs

/-! ### What a suspended operation waits for -/

theorem Provider.agrees_run {ok : Cell → Action → Prop} {tr : List Label} {c : Cell}
    (run : cellMachine.Run ok tr c) : c.provider.Agrees c.stream.write := by
  refine run.invariant_along (I := fun _ c => c.provider.Agrees c.stream.write) ?_ ?_
  · rintro c ⟨id, submitted, rfl⟩
    exact ⟨fun _ => rfl, rfl⟩
  · intro tr c a c' os run h _ hs
    obtain ⟨hallows, hstream, hprovider⟩ := Cell.step_eq_some hs
    rw [hprovider]
    exact h.step (WriteSide.queue_run run).1 hallows (Stream.step_write hstream)

/-- A provider stays until it has handed out the end of the body, or the stream is
closed. -/
theorem Provider.attached_run {ok : Cell → Action → Prop} {tr : List Label} {c : Cell}
    (run : cellMachine.Run ok tr c) (hsubmitted : c.provider.submitted = true)
    (hend : ∀ bytes, .pulled bytes true ∉ tr) (hopen : .closed ∉ tr) :
    c.provider.attached = true := by
  refine run.invariant_along (I := fun tr c => c.provider.submitted = true →
    (∀ bytes, .pulled bytes true ∉ tr) → .closed ∉ tr → c.provider.attached = true)
    ?_ ?_ hsubmitted hend hopen
  · rintro c ⟨id, submitted, rfl⟩ hsubmitted _ _
    exact hsubmitted
  · intro tr c a c' os run ih _ hs hsubmitted hend hopen
    simp only [List.mem_append, not_or] at hend hopen
    obtain ⟨-, -, hprovider⟩ := Cell.step_eq_some hs
    have hstays : os.any Label.detaches = false := by
      rw [Bool.eq_false_iff, Ne, List.any_eq_true]
      rintro ⟨l, hl, hdetaches⟩
      cases l with
      | pulled bytes eof =>
          cases eof with
          | true => exact (hend bytes).2 hl
          | false => cases hdetaches
      | closed => exact hopen.2 hl
      | _ => cases hdetaches
    rw [congrArg Provider.attached hprovider, Provider.observe_attached, hstays]
    by_cases ha : a = .submit
    · rw [ha]
      rfl
    · have hact : c.provider.act a = c.provider := by
        cases a <;> first | rfl | exact absurd rfl ha
      rw [hact, Bool.not_false, Bool.and_true]
      exact ih ((Cell.step_submitted hs ha).symm.trans hsubmitted) (fun bytes => (hend bytes).1)
        hopen.1

theorem WriteSide.resumeWrite_of_posted {w : WriteSide} {f : WriteFrame} {wake : Wake}
    (closed : Bool) (hf : w.writer = some f) (hw : w.writeProgress.waiter () = .posted wake) :
    (w.resumeWrite closed).isSome = true := by
  unfold WriteSide.resumeWrite
  rw [hf, hw]
  cases wake <;> rfl

/-- A suspended read that is not going to be resumed has nothing to report. -/
theorem Cell.reader_quiet {tr : List Label} {c : Cell} (run : cellMachine.Run destinationOk tr c)
    (hreader : c.stream.read.reader.isSome = true) (hquiet : c.step .resumeRead = none) :
    c.stream.read.contents = [] ∧ c.stream.read.readEof = false ∧ c.stream.closed = false := by
  obtain ⟨f, hf⟩ := Option.isSome_iff_exists.mp hreader
  have hinv := (ReadSide.balance_run run).1
  obtain ⟨hroomy, hwaits⟩ := ReadSide.waits_run run
  have hwaiting : c.stream.read.readReady.waiter () = .waiting := by
    cases hw : c.stream.read.readReady.waiter () with
    | idle =>
        rw [hinv.suspended.mpr hw] at hf
        cases hf
    | waiting => rfl
    | posted w =>
        have hsome := Cell.resumeRead_of_posted hinv hw
        rw [hquiet] at hsome
        cases hsome
  obtain ⟨heof, hopen, hframe⟩ := hwaits hwaiting
  have hcopied := (hframe f hf).1
  have hchunks := (hroomy f hf hcopied).2
  refine ⟨?_, heof, hopen⟩
  simp [ReadSide.contents, ReadSide.inSink, ReadSide.unread, hf, hcopied, hchunks]

/-- A suspended write that is not going to be resumed waits for the provider to be
called, and nghttp2 knows it. -/
theorem Cell.writer_quiet {ok : Cell → Action → Prop} {tr : List Label} {c : Cell}
    (run : cellMachine.Run ok tr c) (hwriter : c.stream.write.writer.isSome = true)
    (hquiet : c.step .resumeWrite = none) :
    c.provider.deferred = false ∧ c.stream.closed = false := by
  obtain ⟨f, hf⟩ := Option.isSome_iff_exists.mp hwriter
  have hinv := (WriteSide.queue_run run).1
  have hwaiting : c.stream.write.writeProgress.waiter () = .waiting := by
    cases hw : c.stream.write.writeProgress.waiter () with
    | idle =>
        rw [hinv.suspended.mpr hw] at hf
        cases hf
    | waiting => rfl
    | posted w =>
        have hsome := WriteSide.resumeWrite_of_posted c.stream.closed hf hw
        simp only [Cell.step, Provider.allows, if_true, Stream.step, Option.map_map,
          Option.map_eq_none_iff] at hquiet
        rw [hquiet] at hsome
        cases hsome
  obtain ⟨hpending, hopen⟩ := hinv.waiting hwaiting
  exact ⟨by rw [(Provider.agrees_run run).deferred, (hinv.armed hpending).2], hopen⟩

/-- The end of the body is what wakes a suspended `write_eof()`, if nobody closes
the stream or stops the call. -/
theorem WriteSide.eof_served_run {ok : Cell → Action → Prop} {tr : List Label} {c : Cell}
    (run : cellMachine.Run ok tr c) {f : WriteFrame} {wake : Wake}
    (hf : c.stream.write.writer = some f) (hop : f.op = .writeEof)
    (hposted : c.stream.write.writeProgress.waiter () = .posted wake) :
    (∃ bytes, .pulled bytes true ∈ tr) ∨ .closed ∈ tr ∨ f.stopped = true := by
  refine run.invariant_along (I := fun tr c => ∀ f wake, c.stream.write.writer = some f →
    f.op = .writeEof → c.stream.write.writeProgress.waiter () = .posted wake →
    (∃ bytes, .pulled bytes true ∈ tr) ∨ .closed ∈ tr ∨ f.stopped = true)
    ?_ ?_ f wake hf hop hposted
  · rintro c ⟨id, submitted, rfl⟩ f wake hf
    cases hf
  · intro tr c a c' os run ih _ hs f wake hf hop hposted
    have hinv := (WriteSide.queue_run run).1
    have hkeep (hf : c.stream.write.writer = some f)
        (hposted : c.stream.write.writeProgress.waiter () = .posted wake) :
        (∃ bytes, .pulled bytes true ∈ tr ++ os) ∨ .closed ∈ tr ++ os ∨ f.stopped = true := by
      rcases ih f wake hf hop hposted with ⟨bytes, hmem⟩ | hmem | hstopped
      · exact .inl ⟨bytes, List.mem_append_left _ hmem⟩
      · exact .inr (.inl (List.mem_append_left _ hmem))
      · exact .inr (.inr hstopped)
    have hanew {w : WriteSide} {op : WriteOp} {next : WriteNext}
        (heq : c'.stream.write = (w.proceed c.stream.closed op next).1) :
        (∃ bytes, .pulled bytes true ∈ tr ++ os) ∨ .closed ∈ tr ++ os ∨ f.stopped = true := by
      rw [heq] at hf hposted
      rcases w.proceed_suspended c.stream.closed op next with hnone | ⟨hwaiting, -⟩
      · rw [hnone] at hf
        cases hf
      · rw [hwaiting] at hposted
        cases hposted
    generalize hw : c'.stream.write = w' at hf hposted hanew
    have hstep := Stream.step_write (Cell.step_eq_some hs).2.1
    rw [hw] at hstep
    cases hstep with
    | onClose => exact .inr (.inl (by simp))
    | producerCallback length =>
        rcases c.stream.write.producerCallback_cases length with
          ⟨-, heq⟩ | ⟨-, bytes, -, ⟨-, heq⟩ | ⟨-, -, heq⟩⟩
        · rw [heq] at hf hposted
          exact hkeep hf hposted
        · rw [heq] at hf
          have heof : c.stream.write.writeEofRequested = true := by
            rw [(hinv.frame f hf).2.2, WriteFrame.call, hop]
          refine .inl ⟨bytes, List.mem_append_right _ ?_⟩
          rw [heq, heof]
          exact List.mem_singleton.mpr rfl
        · rw [heq] at hf hposted
          exact hkeep hf hposted
    | write op stopped hidle => exact hanew rfl
    | stopWrite w' hstop =>
        obtain ⟨f', -, rfl⟩ := Option.map_eq_some_iff.mp hstop
        rw [← Option.some.inj hf]
        exact .inr (.inr rfl)
    | resumeWrite w' os hresume =>
        obtain ⟨f', wake', -, -, ⟨-, -, rfl⟩ | ⟨-, heq⟩⟩ := WriteSide.resumeWrite_eq_some hresume
        · cases hf
        · exact hanew (congrArg Prod.fst heq)
    | other a os ha hos => exact hkeep hf hposted

/-! ### `echo` -/

section Echo

variable {tr : List EchoLabel} {e : Echo}

theorem ReadSide.Step.reader_isSome {r r' : ReadSide} {closed : Bool} {a : Action}
    {os : List Label} (hs : r.Step closed a os r') (ha : a.isReadOp = false) :
    r'.reader.isSome = r.reader.isSome := by
  cases hs with
  | onData data =>
      unfold ReadSide.onData
      split
      · rename_i hf
        rw [hf]
        rfl
      · rfl
  | onReadEof => rfl
  | onClose => rfl
  | readSome => cases ha
  | stopRead r' hstop =>
      obtain ⟨f, hf, rfl⟩ := Option.map_eq_some_iff.mp hstop
      rw [hf]
      rfl
  | resumeRead => cases ha
  | other => rfl

/-- `echo` awaits an operation that is suspended in its stream. -/
def Echo.Suspended (e : Echo) : Prop :=
  e.awaiting = true →
    (∃ submitted, e.pc = .read submitted) ∧ e.cell.stream.read.reader.isSome = true ∨
      e.pc.op.isSome = true ∧ e.cell.stream.write.writer.isSome = true

theorem Echo.Suspended.step {a : EchoAction} {e' : Echo} {os : List EchoLabel}
    (h : e.Suspended) (hinv : e.Inv tr) (hs : e.step a = some (e', os)) : e'.Suspended := by
  cases Echo.step_moves hs with
  | callback act cell ls hallows hstep =>
      have hcallback := Echo.allows_isCallback hallows
      have hread := (Stream.step_read (Cell.step_eq_some hstep).2.1).reader_isSome
        (by cases act <;> first | rfl | cases hcallback)
      intro hawaiting
      rw [show ({ e with cell := cell } : Echo).cell.stream.read.reader.isSome =
          e.cell.stream.read.reader.isSome from hread,
        show ({ e with cell := cell } : Echo).cell.stream.write.writer =
          e.cell.stream.write.writer from (Cell.callback_spec hstep hcallback).2.2]
      exact h hawaiting
  | enter accepted hidle hpc =>
      intro hawaiting
      rw [hidle] at hawaiting
      cases hawaiting
  | submit accepted hidle hpc =>
      intro hawaiting
      rw [show (e.submit accepted).1.awaiting = e.awaiting from rfl, hidle] at hawaiting
      cases hawaiting
  | read hpc hact hstep =>
      rename_i submitted act cell ls
      intro hawaiting
      have hop : act.isReadOp = true := by rcases hact with rfl | rfl <;> rfl
      rw [Echo.settle_read hpc] at hawaiting ⊢
      cases (Stream.step_read (Cell.step_eq_some hstep).2.1).ends hinv.sides.1 hop with
      | completed res hclean hreader hos hcontents =>
          rw [hos, readResult_finishRead] at hawaiting
          cases hawaiting
      | parked f hreader hcopied hos hwait hcontents =>
          refine .inl ⟨⟨submitted, ?_⟩, by rw [hreader]; rfl⟩
          rw [hos]
          rfl
  | write hop hact hstep =>
      rename_i op act cell ls
      intro hawaiting
      obtain ⟨stopped, -, houtcome⟩ :=
        (Stream.step_write (Cell.step_eq_some hstep).2.1).outcome hinv.sides.2.1
          (hinv.operates hop hact)
      rw [Echo.settle_write hop] at hawaiting ⊢
      cases houtcome with
      | returned calls ec n hcalls hos hidle hec hall =>
          rw [hos, writeResult_returned hcalls] at hawaiting
          cases hawaiting
      | suspended f hwriter hfop hopen hrunning hos =>
          refine .inr ⟨?_, by rw [hwriter]; rfl⟩
          rw [(requests_silent hos).1]
          exact Option.isSome_iff_exists.mpr ⟨op, hop⟩
  | stopIdle hidle =>
      intro hawaiting
      rw [show ({ e with stopped := true } : Echo).awaiting = e.awaiting from rfl, hidle]
        at hawaiting
      cases hawaiting
  | stopOp act cell ls hact hstep =>
      intro hawaiting
      have hstream := (Cell.step_eq_some hstep).2.1
      rcases hact with ⟨rfl, hop⟩ | ⟨rfl, hop⟩
      · obtain ⟨w, hw, heq⟩ := Option.map_eq_some_iff.mp hstream
        obtain ⟨f, -, rfl⟩ := Option.map_eq_some_iff.mp hw
        refine .inr ⟨hop, ?_⟩
        rw [← (Prod.mk.inj heq).1]
        rfl
      · obtain ⟨hpc, -⟩ := (h hawaiting).resolve_right fun hwrite => by simp [hop] at hwrite
        obtain ⟨r, hr, heq⟩ := Option.map_eq_some_iff.mp hstream
        obtain ⟨f, -, rfl⟩ := Option.map_eq_some_iff.mp hr
        refine .inl ⟨hpc, ?_⟩
        rw [← (Prod.mk.inj heq).1]
        rfl

theorem Echo.suspended_run (run : echoMachine.Run anyStep tr e) : e.Suspended := by
  refine run.invariant_along (I := fun _ e => e.Suspended) ?_ fun tr e a e' os run h _ hs =>
    h.step (Echo.inv_run run).1 hs
  rintro e ⟨id, rfl⟩
  exact nofun

theorem Echo.submitted_run (run : echoMachine.Run anyStep tr e)
    (h : e.pc.isSubmitted = true) : e.cell.provider.submitted = true := by
  refine run.invariant_along (I := fun _ e =>
    e.pc.isSubmitted = true → e.cell.provider.submitted = true) ?_ ?_ h
  · rintro e ⟨id, rfl⟩ h
    cases h
  · intro tr e a e' os run ih _ hs h
    have hinv := (Echo.inv_run run).1
    have hcell {act : Action} {cell : Cell} {ls : List Label} (hne : act ≠ .submit)
        (hstep : e.cell.step act = some (cell, ls)) (hpc : e.pc.isSubmitted = true) :
        cell.provider.submitted = true := (Cell.step_submitted hstep hne).trans (ih hpc)
    cases Echo.step_moves hs with
    | callback act cell ls hallows hstep =>
        exact hcell (Action.callback_ok (Echo.allows_isCallback hallows) e.cell).2.1 hstep h
    | enter accepted hidle hpc =>
        revert h
        generalize e.cell.stream.head.request.hasHeader (ascii "x-eager-submit") = eager
        cases eager <;> exact nofun
    | submit accepted hidle hpc =>
        cases accepted with
        | true => rfl
        | false =>
            revert h
            cases hpc' : e.pc <;>
              simp [Echo.submit, EchoPc.submitReturned, EchoPc.isSubmitted, hpc']
    | read hpc hact hstep =>
        rename_i submitted act cell ls
        refine hcell (by rcases hact with rfl | rfl <;> simp) hstep ?_
        rw [Echo.settle_read hpc] at h
        rw [hpc]
        cases hres : readResult ls with
        | none => simpa [hres] using h
        | some res =>
            rw [hres] at h
            have hphase := (EchoPc.readReturned_phase submitted res).2
            have hsubmitted : submitted = true := hphase.symm.trans h
            rw [hsubmitted]
            rfl
    | write hop hact hstep =>
        exact hcell (by rcases hact with rfl | ⟨rfl, -⟩ <;> simp) hstep (EchoPc.phase_of_op hop).1
    | stopIdle hidle => exact ih h
    | stopOp act cell ls hact hstep =>
        exact hcell (by rcases hact with ⟨rfl, -⟩ | ⟨rfl, -⟩ <;> simp) hstep h

end Echo

/-! ### Undisturbed exchanges -/

/-- The stream has ended in both directions, so nghttp2 closes it. -/
def Cell.ended (c : Cell) : Bool :=
  c.stream.read.readEof && c.provider.submitted && !c.provider.attached

/-- Nothing comes in between. -/
def undisturbed (x : Exchange) : ExchangeAction → Prop
  | .client act => destinationOk x.client act ∧ (act = .onClose → x.client.ended = true)
  | .server (.callback act) => act = .onClose → x.server.cell.ended = true
  | .server (.go accepted) => accepted = true
  | .server .stop => False
  | _ => True

instance : DecidableRel undisturbed := fun x a =>
  match a with
  | .client act =>
      inferInstanceAs
        (Decidable (destinationOk x.client act ∧ (act = .onClose → x.client.ended = true)))
  | .server (.callback act) =>
      inferInstanceAs (Decidable (act = .onClose → x.server.cell.ended = true))
  | .server (.go accepted) => inferInstanceAs (Decidable (accepted = true))
  | .server .stop => .isFalse id
  | .server .resume | .request _ | .response _ => .isTrue trivial

theorem clientReads_of_undisturbed {x : Exchange} {a : ExchangeAction} (h : undisturbed x a) :
    clientReads x a := by
  cases a with
  | client act => exact h.1
  | _ => trivial

/-- What no step of an undisturbed exchange breaks: the client's provider is nghttp2's;
`echo` is not stopped; a stream
that is closed has ended; and `echo` returns when it has ended the response. -/
structure Exchange.Smooth (tr : List ExchangeLabel) (x : Exchange) : Prop where
  submitted : x.client.provider.submitted = true
  running : x.server.stopped = false
  client : .closed ∈ atClient tr → .readEnded ∈ atClient tr
  server : .closed ∈ onStream (atServer tr) →
    ∃ bytes, .pulled bytes true ∈ onStream (atServer tr)
  done : ∀ ec, x.server.pc = .done ec → ∃ bytes, .pulled bytes true ∈ onStream (atServer tr)

/-- An open stream that has ended in both directions has handed out its end. -/
theorem Cell.ended_run {ok : Cell → Action → Prop} {tr : List Label} {c : Cell}
    (run : cellMachine.Run ok tr c) (h : c.ended = true) (hopen : c.stream.closed = false) :
    .readEnded ∈ tr ∧ ∃ bytes, .pulled bytes true ∈ tr := by
  simp only [Cell.ended, Bool.and_eq_true, Bool.not_eq_true'] at h
  obtain ⟨⟨heof, hsubmitted⟩, hdetached⟩ := h
  refine ⟨(flags_run run).2.mp heof, ?_⟩
  by_contra hend
  have hattached := Provider.attached_run run hsubmitted (not_exists.mp hend)
    fun hmem => by rw [(flags_run run).1.mpr hmem] at hopen; cases hopen
  rw [hdetached] at hattached
  cases hattached

theorem WriteSide.writeEof_suspended (w : WriteSide) :
    writeResult (w.write false .writeEof false).2 = none := by
  have hlabels : (w.write false .writeEof false).2 = .writeCalled .writeEof :: w.poke := rfl
  rw [hlabels]
  exact (requests_silent (List.forall_mem_cons.mpr ⟨rfl, w.poke_isRequest⟩)).1

section Smooth

variable {up down : Limits} {block : List (Bytes × Bytes)} {tr : List ExchangeLabel}
  {x : Exchange}

/-- `echo` returns from `write_eof()` when the end of the response has been handed
out. -/
theorem Exchange.Smooth.done_step (h : x.Smooth tr) (hinv : x.Inv up down block tr)
    {a : EchoAction} {server : Echo} {os : List EchoLabel} (hok : undisturbed x (.server a))
    (hs : x.server.step a = some (server, os)) (ec : Option Error) (hpc : server.pc = .done ec) :
    ∃ bytes, .pulled bytes true ∈ onStream (atServer tr) ∨ .pulled bytes true ∈ onStream os := by
  have hecho := (Echo.inv_run hinv.server).1
  have hbefore (hpc : x.server.pc = .done ec) :
      ∃ bytes, .pulled bytes true ∈ onStream (atServer tr) ∨ .pulled bytes true ∈ onStream os := by
    obtain ⟨bytes, hmem⟩ := h.done ec hpc
    exact ⟨bytes, .inl hmem⟩
  have hclosed (hclosed : x.server.cell.stream.closed = true) :
      ∃ bytes, .pulled bytes true ∈ onStream (atServer tr) ∨ .pulled bytes true ∈ onStream os := by
    obtain ⟨bytes, hmem⟩ := h.server ((flags_run hecho.run).1.mp hclosed)
    exact ⟨bytes, .inl hmem⟩
  cases Echo.step_moves hs with
  | callback act cell ls hallows hstep => exact hbefore hpc
  | enter accepted hidle hstart =>
      generalize x.server.cell.stream.head.request.hasHeader (ascii "x-eager-submit") = eager at hpc
      cases eager <;> cases hpc
  | submit accepted hidle hsubmit =>
      obtain rfl : accepted = true := hok
      cases hpc' : x.server.pc <;>
        simp [Echo.submit, EchoPc.submitReturned, hpc'] at hpc hsubmit
      all_goals simp [EchoPc.isSubmit] at hsubmit
  | read hread hact hstep =>
      rename_i submitted act cell ls
      rw [Echo.settle_read hread] at hpc
      cases hres : readResult ls with
      | none => simp [hres] at hpc
      | some res =>
          simp only [hres, Option.map_some, Option.getD_some, EchoPc.readReturned,
            EchoPc.leave] at hpc
          cases hec : res.ec <;> cases submitted <;> simp [hec] at hpc
  | write hop hact hstep =>
      rename_i op act cell ls
      rw [Echo.settle_write hop] at hpc
      have hstream := (Cell.step_eq_some hstep).2.1
      obtain ⟨hpc', hresult⟩ : x.server.pc = .writeEof ∧ writeResult ls ≠ none := by
        cases hpc' : x.server.pc with
        | writeEof =>
            refine ⟨rfl, fun hnone => ?_⟩
            simp [hnone, hpc'] at hpc
        | write bytes =>
            cases hres : writeResult ls with
            | none => simp [hres, hpc'] at hpc
            | some ec' => cases ec' <;> simp [hres, hpc', EchoPc.opReturned, EchoPc.writeReturned,
                EchoPc.leave] at hpc
        | _ =>
            rw [hpc'] at hop
            cases hop
      obtain rfl : op = .writeEof := by
        rw [hpc'] at hop
        exact (Option.some.inj hop).symm
      rcases hact with rfl | ⟨rfl, -⟩
      · -- started on an open stream, it is suspended
        obtain ⟨-, -, rfl⟩ := Stream.step_write_eq_some hstream
        rw [h.running] at hresult
        by_cases hcl : x.server.cell.stream.closed = true
        · exact hclosed hcl
        · rw [Bool.not_eq_true] at hcl
          rw [hcl] at hresult
          exact absurd (WriteSide.writeEof_suspended _) hresult
      · obtain ⟨⟨w', os'⟩, hresume, -⟩ := Option.map_eq_some_iff.mp hstream
        obtain ⟨f, wake, hf, hposted, -⟩ := WriteSide.resumeWrite_eq_some hresume
        have hfop : f.op = .writeEof := by
          have := (hecho.writer f hf).2
          rw [hop] at this
          exact (Option.some.inj this).symm
        rcases WriteSide.eof_served_run hecho.run hf hfop hposted with
          ⟨bytes, hmem⟩ | hmem | hstopped
        · exact ⟨bytes, .inl hmem⟩
        · exact hclosed ((flags_run hecho.run).1.mpr hmem)
        · rw [(hecho.unstopped h.running).2.2 f hf] at hstopped
          cases hstopped
  | stopIdle hidle => exact hok.elim
  | stopOp act cell ls hact hstep => exact hok.elim

/-- Only nghttp2 closes the stream of `echo`. -/
theorem Echo.closed_of_mem {e e' : Echo} {a : EchoAction} {os : List EchoLabel}
    (hs : e.step a = some (e', os)) (hmem : .closed ∈ onStream os) : a = .callback .onClose := by
  have hact {act : Action} {cell : Cell} {ls : List Label}
      (hstep : e.cell.step act = some (cell, ls)) (hmem : .closed ∈ onStream (ls.map .stream)) :
      act = .onClose := by
    rw [onStream_map] at hmem
    exact (Stream.step_closed_mem (Cell.step_eq_some hstep).2.1).mp hmem
  cases Echo.step_moves hs with
  | callback act cell ls hallows hstep => rw [hact hstep hmem]
  | enter => cases hmem
  | submit => cases hmem
  | read hpc hop hstep =>
      have hclose := hact hstep hmem
      rcases hop with rfl | rfl <;> cases hclose
  | write hop hopAct hstep =>
      have hclose := hact hstep hmem
      rcases hopAct with rfl | ⟨rfl, -⟩ <;> cases hclose
  | stopIdle => cases hmem
  | stopOp act cell ls hstop hstep =>
      have hclose := hact hstep hmem
      rcases hstop with ⟨rfl, -⟩ | ⟨rfl, -⟩ <;> cases hclose

theorem Exchange.Smooth.step (h : x.Smooth tr) (hinv : x.Inv up down block tr)
    {a : ExchangeAction} {x' : Exchange} {os : List ExchangeLabel} (hok : undisturbed x a)
    (hs : x.step up down a = some (x', os)) : x'.Smooth (tr ++ os) := by
  have hecho := (Echo.inv_run hinv.server).1
  cases Exchange.step_moves hs with
  | client act client response ls hhears hadmits hreceive hstep =>
      have hserver : atServer (tr ++ ls.map .client) = atServer tr := by simp
      have hne : act ≠ .submit := by
        rintro rfl
        have hallows := (Cell.step_eq_some hstep).1
        simp [Provider.allows, h.submitted] at hallows
      refine ⟨(Cell.step_submitted hstep hne).trans h.submitted, h.running, fun hmem => ?_,
        by rw [hserver]; exact h.server, by rw [hserver]; exact h.done⟩
      rw [atClient_append, atClient_map_client] at hmem ⊢
      rcases List.mem_append.mp hmem with hbefore | hnow
      · exact List.mem_append_left _ (h.client hbefore)
      · obtain rfl := (Stream.step_closed_mem (Cell.step_eq_some hstep).2.1).mp hnow
        have hopen : x.client.stream.closed = false := by
          simpa [Stream.hears, Action.isCallback] using hhears
        exact List.mem_append_left _ (Cell.ended_run hinv.client (hok.2 rfl) hopen).1
  | server a server request ls hhears hreceive hstep =>
      have hclient : atClient (tr ++ ls.map .server) = atClient tr := by simp
      have hserver : onStream (atServer (tr ++ ls.map .server)) =
          onStream (atServer tr) ++ onStream ls := by simp
      refine ⟨h.submitted, ?_, by rw [hclient]; exact h.client, fun hmem => ?_, fun ec hpc => ?_⟩
      · cases Echo.step_moves hstep with
        | stopIdle => exact hok.elim
        | stopOp => exact hok.elim
        | _ => exact h.running
      · rw [hserver] at hmem ⊢
        rcases List.mem_append.mp hmem with hbefore | hnow
        · obtain ⟨bytes, hend⟩ := h.server hbefore
          exact ⟨bytes, List.mem_append_left _ hend⟩
        · obtain rfl : a = .callback .onClose := Echo.closed_of_mem hstep hnow
          have hopen : x.server.cell.stream.closed = false := by
            simp only [Exchange.hears, Bool.and_eq_true] at hhears
            simpa [Stream.hears, Action.isCallback] using hhears.1
          obtain ⟨-, bytes, hend⟩ := Cell.ended_run hecho.run (hok rfl) hopen
          exact ⟨bytes, List.mem_append_left _ hend⟩
      · rw [hserver]
        obtain ⟨bytes, hend⟩ := h.done_step hinv hok hstep ec hpc
        exact ⟨bytes, List.mem_append.mpr hend⟩
  | request a leg hcredit =>
      rw [List.append_nil]
      exact ⟨h.submitted, h.running, h.client, h.server, h.done⟩
  | response a leg hcredit =>
      rw [List.append_nil]
      exact ⟨h.submitted, h.running, h.client, h.server, h.done⟩

theorem Exchange.smooth_run (run : (exchangeMachine up down).Run undisturbed tr x) :
    x.Smooth tr ∧ ∃ path contentLength headers,
      x.Inv up down (submitRequestFields path contentLength headers) tr := by
  refine ⟨?_, Exchange.inv_run (run.weaken fun _ _ => clientReads_of_undisturbed)⟩
  refine run.invariant_along (I := fun tr x => x.Smooth tr) ?_ ?_
  · rintro x ⟨id, path, contentLength, headers, rfl⟩
    exact ⟨rfl, rfl, nofun, nofun, nofun⟩
  · intro tr x a x' os run h hok hs
    obtain ⟨path, contentLength, headers, hinv⟩ :=
      Exchange.inv_run (run.weaken fun _ _ => clientReads_of_undisturbed)
    exact h.step hinv hok hs

end Smooth

/-! ### Quiet exchanges -/

/-- What happens by itself: the callbacks of nghttp2, the resumptions that are posted,
the steps of `echo`, and WINDOW_UPDATE frames. -/
def ExchangeAction.isInternal : ExchangeAction → Bool
  | .client act =>
      match act with
      | .onHeader _ _ | .onData _ | .onReadEof | .producerCallback _ | .resumeRead
      | .resumeWrite => true
      | _ => false
  | .server (.callback act) => act.isCallback && act ≠ .onClose
  | .server (.go accepted) => accepted
  | .server .resume => true
  | .server .stop => false
  | .request _ | .response _ => true

/-- Nothing happens by itself. -/
def Exchange.Quiet (up down : Limits) (x : Exchange) : Prop :=
  ∀ a : ExchangeAction, a.isInternal = true → x.step up down a = none

def Action.isArrival : Action → Bool
  | .onHeader _ _ | .onData _ | .onReadEof => true
  | _ => false

theorem Leg.receive_onData_of_nil {leg : Leg} (h : leg.body.inFlight = []) (data : Bytes) :
    leg.receive (.onData data) = none := by
  rw [Option.eq_none_iff_forall_ne_some]
  intro leg' hreceive
  simp only [Leg.receive] at hreceive
  split at hreceive
  · obtain ⟨ch, hch, -⟩ := Option.map_eq_some_iff.mp hreceive
    obtain ⟨hne, hinFlight, -⟩ := Channel.deliver_eq_some hch
    rw [h] at hinFlight
    exact hne (List.append_eq_nil_iff.mp hinFlight.symm).1
  · cases hreceive

theorem Leg.empty_of_quiet {leg : Leg} (h : ∀ act : Action, act.isArrival = true →
    leg.receive act = none) :
    leg.head = [] ∧ leg.body.inFlight = [] ∧ leg.body.ending = false := by
  have hhead : leg.head = [] := by
    cases hleg : leg.head with
    | nil => rfl
    | cons f rest =>
        have := h (.onHeader f.1 f.2) rfl
        simp [Leg.receive, hleg] at this
  have hinFlight : leg.body.inFlight = [] := by
    by_contra hne
    have hdeliver := Channel.deliver_of_ne_nil hne
    have := h (.onData leg.body.inFlight) rfl
    simp only [Leg.receive, hhead, List.isEmpty_nil, if_true, Option.map_eq_none_iff] at this
    rw [this] at hdeliver
    cases hdeliver
  refine ⟨hhead, hinFlight, ?_⟩
  by_contra hending
  have hfinish := Channel.finish_of_ending (by simpa using hending) hinFlight
  have := h .onReadEof rfl
  simp only [Leg.receive, hhead, List.isEmpty_nil, if_true, Option.map_eq_none_iff] at this
  rw [this] at hfinish
  cases hfinish

theorem Cell.step_of_isArrival (c : Cell) {act : Action} (h : act.isArrival = true) :
    (c.step act).isSome = true := by
  cases act <;> first | rfl | cases h

section Quiet

variable {up down : Limits} {block : List (Bytes × Bytes)} {tr : List ExchangeLabel}
  {x : Exchange}

theorem Exchange.onClient_eq_none {act : Action} (h : x.onClient act = none)
    (hhears : x.client.stream.hears act = true)
    (hadmits : x.request.admits x.client.provider act = true)
    (hstep : (x.client.step act).isSome = true) : x.response.receive act = none := by
  rw [Option.eq_none_iff_forall_ne_some]
  intro response hreceive
  obtain ⟨⟨client, os⟩, hstep⟩ := Option.isSome_iff_exists.mp hstep
  simp [Exchange.onClient, hhears, hadmits, hreceive, hstep] at h

theorem Exchange.onServer_eq_none {act : Action} (h : x.onServer (.callback act) = none)
    (hhears : x.hears (.callback act) = true)
    (hstep : (x.server.step (.callback act)).isSome = true) : x.request.receive act = none := by
  rw [Option.eq_none_iff_forall_ne_some]
  intro request hreceive
  obtain ⟨⟨server, os⟩, hstep⟩ := Option.isSome_iff_exists.mp hstep
  simp [Exchange.onServer, hhears, EchoAction.act, hreceive, hstep] at h

/-- Nothing is on its way to an open client. -/
theorem Exchange.Quiet.response_empty (h : x.Quiet up down)
    (hopen : x.client.stream.closed = false) :
    x.response.head = [] ∧ x.response.body.inFlight = [] ∧ x.response.body.ending = false := by
  refine Leg.empty_of_quiet fun act hact => ?_
  refine Exchange.onClient_eq_none (h (.client act) ?_) ?_ ?_ (x.client.step_of_isArrival hact)
  · cases act <;> first | rfl | cases hact
  · simp [Stream.hears, hopen]
  · cases act <;> first | rfl | cases hact

/-- Nothing is on its way to an open server. -/
theorem Exchange.Quiet.request_empty (h : x.Quiet up down) (hinv : x.Inv up down block tr)
    (hopen : x.server.cell.stream.closed = false) :
    x.request.head = [] ∧ x.request.body.inFlight = [] ∧ x.request.body.ending = false := by
  refine Leg.empty_of_quiet fun act hact => ?_
  by_cases hallows : x.server.allows act = true
  · refine Exchange.onServer_eq_none (h (.server (.callback act)) ?_) ?_ ?_
    · cases act <;> first | rfl | cases hact
    · have hadmits : x.response.admits x.server.cell.provider act = true := by
        cases act <;> first | rfl | cases hact
      simp [Exchange.hears, Stream.hears, hopen, hadmits]
    · have hstep := x.server.cell.step_of_isArrival hact
      simp [Echo.step, hallows, hstep]
  · -- there is no data behind the end of the request
    cases act with
    | onData data =>
        have heof : x.server.cell.stream.read.readEof = true := by simpa [Echo.allows] using hallows
        have hended := (flags_run (Echo.inv_run hinv.server).1.run).2.mp heof
        exact Leg.receive_onData_of_nil (hinv.request.last hended) data
    | onHeader name value => exact absurd rfl hallows
    | onReadEof => exact absurd rfl hallows
    | _ => cases hact

/-- The credit of a leg is back when nothing is in flight and nothing is unread. -/
theorem Leg.Inv.room_pos {limits : Limits} {leg : Leg} {sent received : List Label} {c : Cell}
    {ok : Cell → Action → Prop} (h : leg.Inv limits block sent received)
    (run : cellMachine.Run ok received c) (hempty : leg.body.inFlight = [])
    (hunread : c.stream.read.contents = []) (hquiet : ∀ a, leg.credit limits a = none) :
    0 < leg.body.room := by
  have hcovered := h.covered run
  have hconnection := h.connection
  have hlength := congrArg List.length h.body
  rw [hempty, List.append_nil] at hlength
  rw [hempty, hunread, List.length_nil] at hcovered
  exact Channel.room_pos (by omega) (by omega)
    fun a => by simpa [Leg.credit] using hquiet a

/-- nghttp2 asks a client that writes, if it has room and the request is not over. -/
theorem Exchange.Quiet.client_writer (h : x.Quiet up down) (hinv : x.Inv up down block tr)
    (hsubmitted : x.client.provider.submitted = true) (hroom : 0 < x.request.body.room)
    (hend : ∀ bytes, .pulled bytes true ∉ atClient tr) :
    x.client.stream.write.writer = none := by
  by_contra hne
  have hresume : x.client.step .resumeWrite = none := by
    by_contra hsome
    have := Exchange.onClient_eq_none (h (.client .resumeWrite) rfl) rfl rfl
      (Option.isSome_iff_ne_none.mpr hsome)
    cases this
  obtain ⟨hdeferred, hopen⟩ :=
    Cell.writer_quiet hinv.client (Option.isSome_iff_ne_none.mpr hne) hresume
  have hattached := Provider.attached_run hinv.client hsubmitted hend
    fun hmem => by rw [(flags_run hinv.client).1.mpr hmem] at hopen; cases hopen
  have := Exchange.onClient_eq_none (h (.client (.producerCallback 1)) rfl)
    (by simp [Stream.hears, hopen])
    (by simp [Leg.admits, hattached, hdeferred, Nat.succ_le_of_lt hroom])
    (by simp [Cell.step, Provider.allows, hsubmitted, Stream.step])
  cases this

theorem Exchange.Quiet.server_writer (h : x.Quiet up down) (hinv : x.Inv up down block tr)
    (hroom : 0 < x.response.body.room)
    (hend : ∀ bytes, .pulled bytes true ∉ onStream (atServer tr))
    (hpc : x.server.pc.op.isSome = true) (hawaiting : x.server.awaiting = true) :
    x.server.cell.stream.write.writer = none := by
  have hecho := (Echo.inv_run hinv.server).1
  by_contra hne
  have hresume : x.server.cell.step .resumeWrite = none := by
    by_contra hsome
    obtain ⟨⟨cell, os⟩, hstep⟩ := Option.ne_none_iff_exists'.mp hsome
    have hquiet := h (.server .resume) rfl
    have hnone : x.server.resume = none := by
      simpa [Exchange.step, Exchange.onServer, Exchange.hears, EchoAction.act, Echo.step,
        hawaiting] using hquiet
    cases hpc' : x.server.pc with
    | write bytes => simp [Echo.resume, hpc', hstep] at hnone
    | writeEof => simp [Echo.resume, hpc', hstep] at hnone
    | _ =>
        rw [hpc'] at hpc
        cases hpc
  obtain ⟨hdeferred, hopen⟩ :=
    Cell.writer_quiet hecho.run (Option.isSome_iff_ne_none.mpr hne) hresume
  obtain ⟨op, hop⟩ := Option.isSome_iff_exists.mp hpc
  have hsubmitted := Echo.submitted_run hinv.server (EchoPc.phase_of_op hop).1
  have hattached := Provider.attached_run hecho.run hsubmitted hend
    fun hmem => by rw [(flags_run hecho.run).1.mpr hmem] at hopen; cases hopen
  have := Exchange.onServer_eq_none (h (.server (.callback (.producerCallback 1))) rfl)
    (by simp [Exchange.hears, Stream.hears, hopen, Leg.admits, hattached, hdeferred,
      Nat.succ_le_of_lt hroom])
    (by simp [Echo.step, Echo.allows, Action.isCallback, Cell.step, Provider.allows, hsubmitted,
      Stream.step])
  cases this

/-- `echo` that can go on does so. -/
theorem Exchange.Quiet.awaiting (h : x.Quiet up down) (hinv : x.Inv up down block tr)
    (hhead : x.request.head = []) : x.server.awaiting = true ∨ ∃ ec, x.server.pc = .done ec := by
  by_contra hnot
  simp only [not_or, Bool.not_eq_true, not_exists] at hnot
  obtain ⟨hidle, hdone⟩ := hnot
  obtain ⟨hreader, hwriter⟩ := (Echo.heeds_run hinv.server).idle (Echo.inv_run hinv.server).1 hidle
  have hgo : (x.server.go true).isSome = true := by
    cases hpc : x.server.pc with
    | done ec => exact absurd hpc (hdone ec)
    | _ => simp [Echo.go, hpc, Cell.step, Provider.allows, Stream.step, hreader, hwriter]
  obtain ⟨⟨server, os⟩, hgo⟩ := Option.isSome_iff_exists.mp hgo
  have hquiet := h (.server (.go true)) rfl
  simp [Exchange.step, Exchange.onServer, Exchange.hears, hhead, EchoAction.act, Echo.step, hidle,
    hgo] at hquiet

/-- A quiet `echo` that reads has nothing to read. -/
theorem Exchange.Quiet.server_reader (h : x.Quiet up down) (hinv : x.Inv up down block tr)
    {submitted : Bool} (hpc : x.server.pc = .read submitted) (hawaiting : x.server.awaiting = true)
    (hreader : x.server.cell.stream.read.reader.isSome = true) :
    x.server.cell.stream.read.contents = [] ∧ x.server.cell.stream.read.readEof = false := by
  have hresume : x.server.cell.step .resumeRead = none := by
    by_contra hsome
    obtain ⟨⟨cell, os⟩, hstep⟩ := Option.ne_none_iff_exists'.mp hsome
    have hquiet := h (.server .resume) rfl
    simp [Exchange.step, Exchange.onServer, Exchange.hears, EchoAction.act, Echo.step, hawaiting,
      Echo.resume, hpc, hstep] at hquiet
  obtain ⟨hcontents, heof, -⟩ := Cell.reader_quiet (Echo.inv_run hinv.server).1.run hreader hresume
  exact ⟨hcontents, heof⟩

/-- Where a quiet exchange with a client that reads has come to rest. -/
theorem Exchange.Quiet.rest (h : x.Quiet up down) (hsmooth : x.Smooth tr)
    (hinv : x.Inv up down block tr) (hreader : x.client.stream.read.reader.isSome = true) :
    x.client.stream.write.writer = none ∧ (∀ bytes, .pulled bytes true ∉ atClient tr) ∧
      returned (atClient tr) = pulled (atClient tr) := by
  have hecho := (Echo.inv_run hinv.server).1
  -- the client has read all there is, and the response is not over
  have hresume : x.client.step .resumeRead = none := by
    by_contra hsome
    have := Exchange.onClient_eq_none (h (.client .resumeRead) rfl) rfl rfl
      (Option.isSome_iff_ne_none.mpr hsome)
    cases this
  obtain ⟨hunread, heof, hopen⟩ :=
    Cell.reader_quiet (hinv.client.weaken fun _ _ hok => hok.1) hreader hresume
  obtain ⟨-, hresponse, hending⟩ := h.response_empty hopen
  have hnotEnded : .readEnded ∉ atClient tr := fun hmem => by
    rw [(flags_run hinv.client).2.mpr hmem] at heof
    cases heof
  have hserverEnd (bytes : Bytes) : .pulled bytes true ∉ onStream (atServer tr) := fun hmem => by
    rcases hinv.response.ended.mp ⟨bytes, hmem⟩ with htrue | hmem
    · rw [hending] at htrue
      cases htrue
    · exact hnotEnded hmem
  -- so the server is open, and `echo` waits for the request to go on
  have hserverOpen : x.server.cell.stream.closed = false := by
    by_contra hclosed
    obtain ⟨bytes, hmem⟩ := hsmooth.server ((flags_run hecho.run).1.mp (by simpa using hclosed))
    exact hserverEnd bytes hmem
  obtain ⟨hhead, hrequest, hrequestEnding⟩ := h.request_empty hinv hserverOpen
  have hawaiting : x.server.awaiting = true := by
    refine (h.awaiting hinv hhead).resolve_right ?_
    rintro ⟨ec, hpc⟩
    obtain ⟨bytes, hmem⟩ := hsmooth.done ec hpc
    exact hserverEnd bytes hmem
  have hroom : 0 < x.response.body.room :=
    hinv.response.room_pos hinv.client hresponse hunread
      fun a => by simpa [Exchange.step] using h (.response a) rfl
  obtain ⟨⟨submitted, hpc⟩, hserverReader⟩ :=
    (Echo.suspended_run hinv.server hawaiting).resolve_right fun hwrite => by
      rw [h.server_writer hinv hroom hserverEnd hwrite.1 hawaiting] at hwrite
      cases hwrite.2
  obtain ⟨hserverUnread, hserverEof⟩ := h.server_reader hinv hpc hawaiting hserverReader
  have hclientEnd (bytes : Bytes) : .pulled bytes true ∉ atClient tr := fun hmem => by
    rcases hinv.request.ended.mp ⟨bytes, hmem⟩ with htrue | hmem
    · rw [hrequestEnding] at htrue
      cases htrue
    · rw [(flags_run hecho.run).2.mpr hmem] at hserverEof
      cases hserverEof
  have hroom' : 0 < x.request.body.room :=
    hinv.request.room_pos hecho.run hrequest hserverUnread
      fun a => by simpa [Exchange.step] using h (.request a) rfl
  refine ⟨h.client_writer hinv hsmooth.submitted hroom' hclientEnd, hclientEnd, ?_⟩
  -- every station in between is empty
  obtain ⟨hread, hresponse', -, hrequest'⟩ := hinv.stations
  obtain ⟨-, -, hechoRead, hechoWrite⟩ := hecho.sides
  have hbalance := hecho.balance
  rw [Echo.Balance, hpc] at hbalance
  have hwriter : x.server.cell.stream.write.writer = none := by
    refine Option.eq_none_iff_forall_ne_some.mpr fun f hf => ?_
    have hop := (hecho.writer f hf).2
    rw [hpc] at hop
    cases hop
  rw [hunread, List.append_nil] at hread
  rw [hresponse, List.append_nil] at hresponse'
  rw [hrequest, List.append_nil] at hrequest'
  rw [hserverUnread, List.append_nil] at hechoRead
  rw [WriteSide.progress_none hwriter, List.append_nil] at hechoWrite
  rw [← hread, ← hresponse', hechoWrite, hbalance, ← hechoRead, hrequest']

/-- No deadlock while the client reads. Where an undisturbed exchange has come to a
rest with a `read_some` of the client outstanding, it is the client's turn: it has no
write outstanding and has not ended the request, and every byte it has written has
come back and been read. -/
theorem exchange_never_stuck (run : (exchangeMachine up down).Run undisturbed tr x)
    (hreader : x.client.stream.read.reader.isSome = true) (hquiet : x.Quiet up down) :
    x.client.stream.write.writer = none ∧ (∀ bytes, .pulled bytes true ∉ atClient tr) ∧
      returned (atClient tr) = written (atClient tr) := by
  obtain ⟨hsmooth, path, contentLength, headers, hinv⟩ := Exchange.smooth_run run
  obtain ⟨hwriter, hend, hreturned⟩ := hquiet.rest hsmooth hinv hreader
  refine ⟨hwriter, hend, ?_⟩
  rw [hreturned, (WriteSide.queue_run hinv.client).2, WriteSide.progress_none hwriter,
    List.append_nil]

end Quiet

/-! ### Deciding whether an exchange is quiet

Of the callbacks that are possible at an end, one of each kind is enough to look
at: the next field, all of the data in flight, and a request for one byte. -/

/-- The callbacks to look at, at the end where `leg` arrives. -/
def Leg.candidates (leg : Leg) : List Action :=
  leg.head.head?.toList.map (fun f => .onHeader f.1 f.2) ++
    [.onData leg.body.inFlight, .onReadEof, .producerCallback 1]

def Exchange.candidates (x : Exchange) : List ExchangeAction :=
  let credits : List CreditAction :=
    [.announceStream, .updateStream, .announceConnection, .updateConnection]
  x.response.candidates.map .client ++ [.client .resumeRead, .client .resumeWrite] ++
    x.request.candidates.map (.server ∘ .callback) ++ [.server (.go true), .server .resume] ++
    credits.map .request ++ credits.map .response

/-- The callbacks differ in how much they are about, at most. -/
inductive Action.Alike : Action → Action → Prop
  | onHeader (name value : Bytes) : Alike (.onHeader name value) (.onHeader name value)
  | onData (data data' : Bytes) : Alike (.onData data) (.onData data')
  | onReadEof : Alike .onReadEof .onReadEof
  | producerCallback (n n' : ℕ) : Alike (.producerCallback n) (.producerCallback n')

/-- A callback that is possible has one like it among those to look at. -/
theorem Leg.candidates_spec {leg leg' other : Leg} {c : Cell} {act : Action}
    (hinternal : act.isCallback = true ∧ act ≠ .onClose) (hreceive : leg.receive act = some leg')
    (hadmits : other.admits c.provider act = true) (hallows : c.provider.allows act = true) :
    ∃ act' ∈ leg.candidates, act.Alike act' ∧ (leg.receive act').isSome = true ∧
      other.admits c.provider act' = true ∧ (c.step act').isSome = true := by
  cases act with
  | onHeader name value =>
      refine ⟨.onHeader name value, ?_, .onHeader name value, by rw [hreceive]; rfl, rfl, rfl⟩
      simp only [Leg.receive] at hreceive
      split at hreceive
      · rename_i hhead
        simp [Leg.candidates, hhead]
      · cases hreceive
  | onData data =>
      refine ⟨.onData leg.body.inFlight, by simp [Leg.candidates], .onData data _, ?_, rfl, rfl⟩
      have hne : leg.body.inFlight ≠ [] := fun hnil => by
        rw [Leg.receive_onData_of_nil hnil] at hreceive
        cases hreceive
      have hdeliver := Channel.deliver_of_ne_nil hne
      simp only [Leg.receive] at hreceive ⊢
      split at hreceive
      · rename_i hhead
        rw [if_pos hhead, Option.isSome_map]
        exact hdeliver
      · cases hreceive
  | onReadEof =>
      exact ⟨.onReadEof, by simp [Leg.candidates], .onReadEof, by rw [hreceive]; rfl, rfl, rfl⟩
  | producerCallback length =>
      have hlength := Provider.length_pos hallows
      simp only [Provider.allows, Bool.and_eq_true, decide_eq_true_eq] at hallows
      simp only [Leg.admits, Bool.and_eq_true, decide_eq_true_eq] at hadmits
      refine ⟨.producerCallback 1, by simp [Leg.candidates], .producerCallback length 1, rfl, ?_,
        ?_⟩
      · simp only [Leg.admits, Bool.and_eq_true, decide_eq_true_eq]
        exact ⟨hadmits.1, by omega⟩
      · simp [Cell.step, Provider.allows, hallows.1, Stream.step]
  | onClose => exact absurd rfl hinternal.2
  | _ => cases hinternal.1

theorem Exchange.quiet_of_candidates {up down : Limits} {x : Exchange}
    (h : ∀ a ∈ x.candidates, (x.step up down a).isNone = true) : x.Quiet up down := by
  have hnone {a : ExchangeAction} (ha : a ∈ x.candidates) : x.step up down a = none :=
    Option.isNone_iff_eq_none.mp (h a ha)
  intro a hinternal
  cases hstep : x.step up down a with
  | none => rfl
  | some r =>
      obtain ⟨x', os⟩ := r
      cases Exchange.step_moves hstep with
      | client act client response ls hhears hadmits hreceive hs =>
          by_cases hact : act.isCallback = true
          · have hopen : x.client.stream.closed = false := by
              simpa [Stream.hears, hact] using hhears
            have hne : act ≠ .onClose := by
              rintro rfl
              cases hinternal
            obtain ⟨act', hmem, -, hreceive', hadmits', hs'⟩ :=
              Leg.candidates_spec ⟨hact, hne⟩ hreceive hadmits (Cell.step_eq_some hs).1
            have := Exchange.onClient_eq_none (hnone (a := .client act') (by
              simp [Exchange.candidates, hmem])) (by simp [Stream.hears, hopen]) hadmits' hs'
            rw [this] at hreceive'
            cases hreceive'
          · rw [← hstep]
            refine hnone ?_
            cases act with
            | resumeRead => simp [Exchange.candidates]
            | resumeWrite => simp [Exchange.candidates]
            | onHeader => exact absurd rfl hact
            | onData => exact absurd rfl hact
            | onReadEof => exact absurd rfl hact
            | producerCallback => exact absurd rfl hact
            | _ => cases hinternal
      | server a server request ls hhears hreceive hs =>
          cases a with
          | callback act =>
              simp only [ExchangeAction.isInternal, Bool.and_eq_true, decide_eq_true_eq]
                at hinternal
              simp only [Exchange.hears, Bool.and_eq_true] at hhears
              have hopen : x.server.cell.stream.closed = false := by
                simpa [Stream.hears, hinternal.1] using hhears.1
              simp only [Echo.step] at hs
              split at hs
              · rename_i hallows
                obtain ⟨⟨cell, os⟩, hcell, -⟩ := Option.map_eq_some_iff.mp hs
                obtain ⟨act', hmem, halike, hreceive', hadmits', hs'⟩ :=
                  Leg.candidates_spec hinternal hreceive hhears.2 (Cell.step_eq_some hcell).1
                have hallows' : x.server.allows act' = true := by
                  cases halike <;> exact hallows
                have := Exchange.onServer_eq_none (hnone (a := .server (.callback act')) (by
                  simp [Exchange.candidates, hmem]))
                  (by simp [Exchange.hears, Stream.hears, hopen, hadmits'])
                  (by simp [Echo.step, hallows', hs'])
                rw [this] at hreceive'
                cases hreceive'
              · cases hs
          | go accepted =>
              obtain rfl : accepted = true := hinternal
              rw [← hstep]
              exact hnone (by simp [Exchange.candidates])
          | resume =>
              rw [← hstep]
              exact hnone (by simp [Exchange.candidates])
          | stop => cases hinternal
      | request a leg hcredit =>
          rw [← hstep]
          cases a <;> exact hnone (by simp [Exchange.candidates])
      | response a leg hcredit =>
          rw [← hstep]
          cases a <;> exact hnone (by simp [Exchange.candidates])

/-- A client of which three bytes have come back through windows of two bytes, and
which waits for more. -/
theorem exchange_never_stuck_of_rest :
    ∃ tr x, (exchangeMachine twoBytes twoBytes).Run undisturbed tr x ∧
      x.client.stream.read.reader.isSome = true ∧ x.Quiet twoBytes twoBytes ∧
      written (atClient tr) = [1, 2, 3] ∧ x.client.stream.write.writer = none ∧
      returned (atClient tr) = written (atClient tr) := by
  obtain ⟨tr, x, run, hreader, hcandidates, hwritten⟩ :
      ∃ tr x, (exchangeMachine twoBytes twoBytes).Run undisturbed tr x ∧
        x.client.stream.read.reader.isSome = true ∧
        (∀ a ∈ x.candidates, (x.step twoBytes twoBytes a).isNone = true) ∧
        written (atClient tr) = [1, 2, 3] :=
    Machine.run_of_exec (exchangeMachine_init twoBytes twoBytes 1 (ascii "/") none [])
      [.client (.readSome [8] false), .client (.write (.write [[1, 2, 3]]) false),
        .client (.producerCallback 2),
        .server (.callback (.onHeader (ascii ":method") (ascii "POST"))),
        .server (.callback (.onHeader (ascii ":scheme") (ascii "http"))),
        .server (.callback (.onHeader (ascii ":path") (ascii "/"))),
        .server (.callback (.onHeader (ascii ":authority") (ascii "localhost"))),
        .server (.go true), .server (.go true), .server (.callback (.onData [1, 2])),
        .server .resume, .server (.go true), .server (.go true),
        .server (.callback (.producerCallback 2)), .server .resume, .server (.go true),
        .client (.onHeader (ascii ":status") (ascii "200")), .client (.onData [1, 2]),
        .client .resumeRead, .client (.readSome [8] false), .request .announceStream,
        .request .announceConnection, .request .updateStream, .request .updateConnection,
        .client .resumeWrite, .client (.producerCallback 2), .client .resumeWrite,
        .server (.callback (.onData [3])), .server .resume, .server (.go true),
        .response .announceStream, .response .announceConnection, .response .updateStream,
        .response .updateConnection, .server (.callback (.producerCallback 2)), .server .resume,
        .server (.go true), .client (.onData [3]), .client .resumeRead,
        .client (.readSome [8] false), .client (.producerCallback 1), .request .announceStream,
        .request .announceConnection, .request .updateStream, .request .updateConnection,
        .response .announceStream, .response .announceConnection, .response .updateStream,
        .response .updateConnection, .server (.callback (.producerCallback 1))] (by decide)
  have hquiet := Exchange.quiet_of_candidates hcandidates
  obtain ⟨hwriter, -, hreturned⟩ := exchange_never_stuck run hreader hquiet
  exact ⟨tr, x, run, hreader, hquiet, hwritten, hwriter, hreturned⟩

end Nghttp2Corosio
