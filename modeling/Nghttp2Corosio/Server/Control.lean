import Nghttp2Corosio.Handler.EchoInvariant
import Nghttp2Corosio.Server.Tasks
import Nghttp2Corosio.Session.Moves

/-!
The tasks of a server are the control flow of its sessions and handlers.

`Session` and `Echo` say what the code does; `SessionRun` and `HandleRequest` keep
of it where the coroutines are. Here every step of the former is shown to be a step
of the latter, or none. Two things have to be known for that. A transport may
complete an operation only if `Await.reply` lets it, which for `Session` is a
condition on its step. For `echo` nothing is assumed: that its operations, which are
those of a `Stream`, follow the rules under a stopped token is a matter of the code,
and `Echo.Heeds` is the invariant that says how it comes about.
-/

namespace Nghttp2Corosio

open Async Buffers Runs

/-! ### Sessions -/

/-- The coroutine is where the loops of the session are. -/
structure SessionRun.Tracks (t : SessionRun) (s : Session) : Prop where
  started : t.started = true
  send : t.send = some s.sendLoop
  recv : t.recv = some s.recvLoop

/-- The transport may complete its operation. -/
def SessionRun.Serves (t : SessionRun) (stopped : Bool) : SessionAction → Prop
  | .written false => (t.output.reply stopped 0 .succeeds).isSome = true
  | .readDone false _ => (t.input.reply stopped 0 .succeeds).isSome = true
  | _ => True

section Sessions

variable {s s' : Session} {t : SessionRun} {act : SessionAction} {os : List SessionLabel}

theorem SessionRun.Tracks.moved (h : t.Tracks s) {a : RunAction} (hne : a ≠ .start)
    (t' : SessionRun) (hloop : t.loop s.stopped a = some t') (hstarted : t'.started = t.started)
    (hsend : t'.send = some s'.sendLoop) (hrecv : t'.recv = some s'.recvLoop) :
    ∃ a t', t.step s.stopped a = some t' ∧ t'.Tracks s' := by
  refine ⟨a, t', ?_, hstarted.trans h.started, hsend, hrecv⟩
  cases a with
  | start => exact absurd rfl hne
  | _ => simpa only [SessionRun.step, h.started, if_true] using hloop

theorem SessionRun.Tracks.round (h : t.Tracks s) {pending : Bytes}
    (hrun : s.sendLoop = .running pending) (data : Option Bytes) (wants sleeps : Bool)
    (hsleeps : (sleeps && s.stopped) = false)
    (hround : s'.sendLoop = .round pending data wants sleeps) (hrecv : s'.recvLoop = s.recvLoop) :
    ∃ a t', t.step s.stopped a = some t' ∧ t'.Tracks s' := by
  refine h.moved (a := .memSend data wants sleeps) nofun
    { t with send := some (.round pending data wants sleeps) } ?_ rfl ?_ ?_
  · simp only [SessionRun.loop, h.send, hrun, hsleeps, Bool.false_eq_true, if_false]
  · rw [hround]
  · rw [hrecv]
    exact h.recv

theorem SessionRun.Tracks.wrote (h : t.Tracks s) {bytes : Bytes}
    (hwrite : s.sendLoop = .writing bytes) (reply : Reply) {output : Await}
    (hreply : t.output.reply s.stopped 0 reply = some output)
    (hwrote : s'.sendLoop = .wrote bytes reply) (hrecv : s'.recvLoop = s.recvLoop) :
    ∃ a t', t.step s.stopped a = some t' ∧ t'.Tracks s' := by
  refine h.moved (a := .write reply 0) nofun
    { t with send := some (.wrote bytes reply), output := output } ?_ rfl ?_ ?_
  · simp only [SessionRun.loop, h.send, hwrite, hreply, Option.map_some]
  · rw [hwrote]
  · rw [hrecv]
    exact h.recv

theorem SessionRun.Tracks.woken (h : t.Tracks s) (hwait : s.sendLoop = .waiting) (canceled : Bool)
    (hwoken : s'.sendLoop = if canceled then .ended .canceled else .running [])
    (hrecv : s'.recvLoop = s.recvLoop) :
    ∃ a t', t.step s.stopped a = some t' ∧ t'.Tracks s' := by
  refine h.moved (a := .wake canceled) nofun
    { t with send := some (if canceled then .ended .canceled else .running []) } ?_ rfl ?_ ?_
  · simp only [SessionRun.loop, h.send, hwait, if_true]
  · rw [hwoken]
  · rw [hrecv]
    exact h.recv

theorem SessionRun.Tracks.wasRead (h : t.Tracks s) (hread : s.recvLoop = .reading) (reply : Reply)
    {input : Await} (hreply : t.input.reply s.stopped 0 reply = some input)
    (hwas : s'.recvLoop = .wasRead reply) (hsend : s'.sendLoop = s.sendLoop) :
    ∃ a t', t.step s.stopped a = some t' ∧ t'.Tracks s' := by
  refine h.moved (a := .read reply 0 0) nofun
    { t with recv := some (.wasRead reply), requests := 0, input := input } ?_ rfl ?_ ?_
  · simp only [SessionRun.loop, h.recv, hread, hreply, implies_true, and_self, if_true,
      Option.map_some]
  · rw [hsend]
    exact h.send
  · rw [hwas]

/-- A turn of one of the loops is a step of the coroutine. -/
theorem Session.Turns.tracked (hturn : s.Turns act os s') (hact : act ≠ .stop) (h : t.Tracks s)
    (hserves : t.Serves s.stopped act) :
    ∃ a t', t.step s.stopped a = some t' ∧ t'.Tracks s' := by
  cases hturn with
  | sendFailed pending left wants hrun => exact h.round hrun none wants false rfl rfl rfl
  | accumulated pending data left wants hrun hpos hfits =>
      refine h.round hrun (some data) wants false rfl ?_ rfl
      rw [SendLoop.round, if_pos ⟨List.length_pos_iff.mpr hpos, hfits⟩]
  | flushed pending data left wants hrun hbig hpos =>
      refine h.round hrun (some data) wants false rfl ?_ rfl
      have hlength : 0 < pending.length + data.length := by
        rw [← List.length_append]
        exact List.length_pos_iff.mpr hpos
      rw [SendLoop.round, if_neg, if_pos hlength]
      rintro ⟨hdata, hfits⟩
      rcases hbig with rfl | hbig
      · exact absurd hdata (Nat.lt_irrefl 0)
      · omega
  | sendDone hrun => exact h.round hrun (some []) false false rfl rfl rfl
  | sendCanceled hrun hstopped => exact h.round hrun (some []) true false rfl rfl rfl
  | slept hrun hstopped =>
      exact h.round hrun (some []) true true (by rw [hstopped]; rfl) rfl rfl
  | writeFailed bytes hwrite => exact h.wrote hwrite .fails rfl rfl rfl
  | written bytes hwrite =>
      obtain ⟨output, hreply⟩ := Option.isSome_iff_exists.mp hserves
      exact h.wrote hwrite .succeeds hreply rfl rfl
  | woken hwait => exact h.woken hwait false rfl rfl
  | wakeCanceled hwait => exact h.woken hwait true rfl rfl
  | startRecv wants adds hstart =>
      have hhead : (s.recvHead wants adds).1.recvLoop = .head wants ∧
          (s.recvHead wants adds).1.sendLoop = s.sendLoop := by
        rcases s.recvHead_cases wants adds with ⟨rfl, heq⟩ | ⟨rfl, heq⟩ <;>
        · rw [heq]
          exact ⟨rfl, rfl⟩
      refine h.moved (a := .startRecv wants) nofun { t with recv := some (.head wants) }
        ?_ rfl ?_ ?_
      · simp only [SessionRun.loop, h.recv, hstart, if_true]
      · rw [hhead.2]
        exact h.send
      · rw [hhead.1]
  | readFailed adds hread => exact h.wasRead hread .fails rfl rfl rfl
  | readDone adds hread =>
      obtain ⟨input, hreply⟩ := Option.isSome_iff_exists.mp hserves
      exact h.wasRead hread .succeeds hreply rfl rfl
  | memRecv failed wants adds hrecv =>
      have hreceived : (s.memRecv failed wants adds).1.recvLoop =
            (if failed then .ended else .head wants) ∧
          (s.memRecv failed wants adds).1.sendLoop = s.sendLoop := by
        cases failed with
        | true => exact ⟨rfl, rfl⟩
        | false => cases wants <;> exact ⟨rfl, rfl⟩
      refine h.moved (a := .memRecv failed wants) nofun
        { t with recv := some (if failed then .ended else .head wants), requests := 0 } ?_ rfl ?_ ?_
      · simp only [SessionRun.loop, h.recv, hrecv, if_true]
      · rw [hreceived.2]
        exact h.send
      · rw [hreceived.1]
  | stop => exact absurd rfl hact

/-- Whatever else happens in a session leaves its loops where they are. -/
theorem SessionRun.Tracks.step (h : t.Tracks s) (hs : s.step act = some (s', os))
    (hserves : t.Serves s.stopped act) :
    t.Tracks s' ∨ ∃ a t', t.step s.stopped a = some t' ∧ t'.Tracks s' := by
  cases hloop : act.isLoop with
  | false =>
      have hside := Session.step_side hs hloop
      refine .inl ⟨h.started, ?_, ?_⟩
      · rw [hside.sendLoop]
        exact h.send
      · rw [hside.recvLoop]
        exact h.recv
  | true =>
      have hturn := Session.step_turns hs hloop
      by_cases hact : act = .stop
      · subst hact
        cases hturn with
        | stop => exact .inl ⟨h.started, h.send, h.recv⟩
      · exact .inr (hturn.tracked hact h hserves)

end Sessions

/-! ### Handlers -/

/-- The coroutine in which `echo` runs. -/
def Echo.control (e : Echo) : HandleRequest := ⟨.echo e.pc, e.awaiting⟩

/-- `echo` awaits one operation at a time, which has heard of the stop if there was
one, and it writes only what it has read. -/
structure Echo.Heeds (e : Echo) : Prop where
  reader : ∀ f, e.cell.stream.read.reader = some f →
    e.awaiting = true ∧ (∃ submitted, e.pc = .read submitted) ∧
      (e.stopped = true → f.stopped = true)
  writer : ∀ f, e.cell.stream.write.writer = some f → e.stopped = true → f.stopped = true
  bytes : ∀ bytes, e.pc = .submit bytes ∨ e.pc = .write bytes → bytes ≠ []

theorem ReadSide.Step.reader_of_callback {r r' : ReadSide} {closed : Bool} {a : Action}
    {os : List Label} (hs : r.Step closed a os r') (ha : a.isCallback = true) {f' : ReadFrame}
    (hf' : r'.reader = some f') : ∃ f, r.reader = some f ∧ f.stopped = f'.stopped := by
  cases hs with
  | onData data =>
      unfold ReadSide.onData at hf'
      split at hf'
      · rename_i f _ hf
        obtain rfl := Option.some.inj hf'
        exact ⟨f, hf, rfl⟩
      · exact ⟨f', hf', rfl⟩
  | onReadEof => exact ⟨f', hf', rfl⟩
  | onClose => exact ⟨f', hf', rfl⟩
  | other => exact ⟨f', hf', rfl⟩
  | _ => cases ha

theorem ReadSide.Step.parked {r r' : ReadSide} {closed : Bool} {a : Action} {os : List Label}
    (hs : r.Step closed a os r') (ha : a.isReadOp = true) {f' : ReadFrame}
    (hf' : r'.reader = some f') :
    (∃ sizes, a = .readSome sizes false) ∨ ∃ f, r.reader = some f ∧ f.stopped = false := by
  -- a stopped read returns where it would park
  have hpark {r : ReadSide} {f : ReadFrame} (hf' : (r.parkRead f).1.reader = some f') :
      f.stopped = false := by
    rcases r.parkRead_cases f with ⟨hstopped, -⟩ | ⟨-, heq⟩
    · exact hstopped
    · rw [heq] at hf'
      cases hf'
  cases hs with
  | readSome sizes stopped hidle =>
      unfold ReadSide.readSome at hf'
      dsimp only at hf'
      split at hf'
      · exact absurd (hidle.symm.trans hf') nofun
      · split at hf'
        · exact absurd (hidle.symm.trans hf') nofun
        · obtain rfl : stopped = false := hpark hf'
          exact .inl ⟨sizes, rfl⟩
  | resumeRead r' os hresume =>
      obtain ⟨f, wake, hf, -, ⟨res, heq, -⟩ | ⟨-, -, heq⟩⟩ := ReadSide.resumeRead_eq_some hresume
      · obtain ⟨rfl, -⟩ := Prod.ext_iff.mp heq
        cases hf'
      · obtain ⟨rfl, -⟩ := Prod.ext_iff.mp heq
        exact .inr ⟨f, hf, hpark hf'⟩
  | other a os hother =>
      cases a with
      | readSome => cases hother
      | resumeRead => cases hother
      | _ => cases ha
  | _ => cases ha

/-- A write of something has to wait for nghttp2, or fails. -/
theorem WriteSide.write_not_at_once (w : WriteSide) (closed stopped : Bool) {bytes : Bytes}
    (hbytes : bytes ≠ []) (n : ℕ) :
    .writeReturned (.write [bytes]) none n ∉ (w.write closed (.write [bytes]) stopped).2 := by
  have hstart : WriteOp.start (.write [bytes]) stopped =
      .call (WriteOp.frame (.write [bytes]) stopped) := by
    refine if_pos ?_
    simpa [WriteOp.frame, WriteOp.bytes, WriteOp.buffers] using List.length_pos_iff.mpr hbytes
  intro hmem
  simp only [WriteSide.write, hstart, WriteSide.proceed, List.mem_cons, reduceCtorEq,
    false_or] at hmem
  rcases w.runCall_cases closed (WriteOp.frame (.write [bytes]) stopped) with
      ⟨-, heq⟩ | ⟨-, -, heq⟩ | ⟨-, -, heq⟩
  · rw [heq] at hmem
    simp at hmem
  · rw [heq] at hmem
    exact absurd (w.poke_isRequest _ hmem) (by simp [Label.isRequest])
  · rw [heq] at hmem
    rcases List.mem_append.mp hmem with hmem | hmem
    · exact absurd (w.poke_isRequest _ hmem) (by simp [Label.isRequest])
    · simp at hmem

section Handlers

variable {e : Echo} {tr : List EchoLabel}

theorem Echo.Heeds.idle (h : e.Heeds) (hinv : e.Inv tr) (hawaiting : e.awaiting = false) :
    e.cell.stream.read.reader = none ∧ e.cell.stream.write.writer = none := by
  refine ⟨Option.eq_none_iff_forall_ne_some.mpr fun f hf => ?_,
    Option.eq_none_iff_forall_ne_some.mpr fun f hf => ?_⟩
  · rw [(h.reader f hf).1] at hawaiting
    cases hawaiting
  · rw [(hinv.writer f hf).1] at hawaiting
    cases hawaiting

theorem Echo.Heeds.of_idle (hreader : e.cell.stream.read.reader = none)
    (hwriter : e.cell.stream.write.writer = none)
    (hbytes : ∀ bytes, e.pc = .submit bytes ∨ e.pc = .write bytes → bytes ≠ []) : e.Heeds where
  reader f hf := by
    rw [hreader] at hf
    cases hf
  writer f hf := by
    rw [hwriter] at hf
    cases hf
  bytes := hbytes

/-- `echo` submits or writes what a read has returned. -/
theorem EchoPc.readReturned_bytes {submitted : Bool} {res : ReadResult} (hclean : res.Clean)
    {bytes : Bytes} (h : EchoPc.readReturned submitted res = .submit bytes ∨
      EchoPc.readReturned submitted res = .write bytes) : bytes ≠ [] := by
  unfold EchoPc.readReturned EchoPc.leave at h
  cases hec : res.ec with
  | some err => cases submitted <;> simp [hec] at h
  | none =>
      have hne := hclean.mp hec
      cases submitted with
      | true =>
          obtain rfl : res.bytes = bytes := by simpa [hec] using h
          exact hne
      | false =>
          obtain rfl : res.bytes = bytes := by simpa [hec] using h
          exact hne

theorem Echo.Heeds.read (h : e.Heeds) (hinv : e.Inv tr) {submitted : Bool}
    (hpc : e.pc = .read submitted) {a : Action}
    (ha : a = .readSome [echoBufferSize] e.stopped ∨ a = .resumeRead) {cell : Cell}
    {os : List Label} (hs : e.cell.step a = some (cell, os)) :
    (e.settle (cell, os)).1.Heeds ∧
      ∃ act, e.control.step e.stopped act = some (e.settle (cell, os)).1.control := by
  obtain ⟨hop, hwriteOp⟩ : a.isReadOp = true ∧ a.isWrite = false := by
    rcases ha with rfl | rfl <;> exact ⟨rfl, rfl⟩
  have hstream := (Cell.step_eq_some hs).2.1
  have hread := Stream.step_read hstream
  have hwriter : cell.stream.write.writer = none := by
    rw [(Stream.step_frame_write hstream hwriteOp).1]
    refine Option.eq_none_iff_forall_ne_some.mpr fun f hf => ?_
    have hop := (hinv.writer f hf).2
    rw [hpc] at hop
    cases hop
  rw [Echo.settle_read hpc]
  cases hread.ends hinv.sides.1 hop with
  | completed res hclean hreader hos =>
      have hres : readResult os = some res := by
        rw [hos]
        exact readResult_finishRead _ res
      simp only [hres, Option.map_some, Option.getD_some, Option.isNone_some]
      refine ⟨.of_idle hreader hwriter fun bytes => EchoPc.readReturned_bytes hclean,
        .readReturned res, ?_⟩
      simp only [Echo.control, HandleRequest.step, hpc]
  | parked f hreader _ hos =>
      have hres : readResult os = none := by
        rw [hos]
        rfl
      have hrunning : e.stopped = false := by
        rcases hread.parked hop hreader with ⟨sizes, heq⟩ | ⟨f₀, hf₀, hf₀'⟩
        · rcases ha with rfl | rfl
          · exact (Action.readSome.inj heq).2
          · cases heq
        · by_contra hstopped
          rw [(h.reader f₀ hf₀).2.2 (by simpa using hstopped)] at hf₀'
          cases hf₀'
      simp only [hres, Option.map_none, Option.getD_none, Option.isNone_none]
      refine ⟨⟨fun f' _ => ⟨rfl, ⟨submitted, rfl⟩, fun hstopped => ?_⟩, fun f' hf' => ?_, nofun⟩,
        .suspend, ?_⟩
      · rw [hrunning] at hstopped
        cases hstopped
      · rw [hwriter] at hf'
        cases hf'
      · simp only [Echo.control, HandleRequest.step, hpc, HandlerPc.awaits, hrunning, Bool.not_true,
          Bool.or_self, Bool.false_eq_true, if_false]

theorem EchoPc.opReturned_ne {pc : EchoPc} {op : WriteOp} (hop : pc.op = some op)
    (ec : Option Error) (bytes : Bytes) :
    ¬(pc.opReturned ec = .submit bytes ∨ pc.opReturned ec = .write bytes) := by
  cases pc with
  | write _ => cases ec <;> simp [EchoPc.opReturned, EchoPc.writeReturned, EchoPc.leave]
  | writeEof => simp [EchoPc.opReturned]
  | _ => cases hop

theorem EchoPc.awaits_of_op {pc : EchoPc} {op : WriteOp} (hop : pc.op = some op) :
    (HandlerPc.echo pc).awaits = true := by
  cases pc with
  | write _ => rfl
  | writeEof => rfl
  | _ => cases hop

/-- A write of `echo` that succeeds was suspended before. -/
theorem Echo.Heeds.written (h : e.Heeds) {bytes : Bytes} (hpc : e.pc = .write bytes) {a : Action}
    (ha : a = .write (.write [bytes]) e.stopped ∨ a = .resumeWrite ∧ e.awaiting = true)
    {w' : WriteSide} {os : List Label}
    (hs : e.cell.stream.write.Step e.cell.stream.closed a os w') {n : ℕ}
    (hos : .writeReturned (.write [bytes]) none n ∈ os) : e.awaiting = true := by
  rcases ha with rfl | ⟨-, hawaiting⟩
  · cases hs with
    | write _ _ hidle =>
        exact absurd hos (WriteSide.write_not_at_once _ _ _ (h.bytes bytes (.inr hpc)) n)
    | other _ _ hother => cases hother
  · exact hawaiting

/-- A stretch of a write of `echo`, which is not suspended under a stopped token. -/
theorem Echo.Heeds.outcome (h : e.Heeds) (hinv : e.Inv tr) {op : WriteOp}
    (hop : e.pc.op = some op) {a : Action}
    (ha : a = .write op e.stopped ∨ a = .resumeWrite ∧ e.awaiting = true) {w' : WriteSide}
    {os : List Label} (hs : e.cell.stream.write.Step e.cell.stream.closed a os w') :
    ∃ stopped, (stopped = false → e.stopped = false) ∧
      WriteSide.Outcome e.cell.stream.closed stopped op w' os := by
  rcases ha with rfl | ⟨rfl, -⟩
  · cases hs with
    | write _ _ hidle => exact ⟨e.stopped, id, WriteSide.write_outcome _ _ op e.stopped⟩
    | other _ _ hother => cases hother
  · cases hs with
    | resumeWrite _ _ hresume =>
        obtain ⟨f, hf, houtcome⟩ := hinv.sides.2.1.resumeWrite_outcome hresume
        obtain rfl : f.op = op := by
          have := (hinv.writer f hf).2
          rw [hop] at this
          exact (Option.some.inj this).symm
        refine ⟨f.stopped, fun hrunning => ?_, houtcome⟩
        by_contra hstopped
        rw [h.writer f hf (by simpa using hstopped)] at hrunning
        cases hrunning
    | other _ _ hother => cases hother

theorem Echo.Heeds.write (h : e.Heeds) (hinv : e.Inv tr) {op : WriteOp}
    (hop : e.pc.op = some op) {a : Action}
    (ha : a = .write op e.stopped ∨ a = .resumeWrite ∧ e.awaiting = true) {cell : Cell}
    {os : List Label} (hs : e.cell.step a = some (cell, os)) :
    (e.settle (cell, os)).1.Heeds ∧
      ∃ act, e.control.step e.stopped act = some (e.settle (cell, os)).1.control := by
  have hreadOp : a.isRead = false := by
    rcases ha with rfl | ⟨rfl, -⟩ <;> rfl
  have hstream := (Cell.step_eq_some hs).2.1
  have hwrite := Stream.step_write hstream
  have hreader : cell.stream.read.reader = none := by
    rw [(Stream.step_frame_read hstream hreadOp).1]
    refine Option.eq_none_iff_forall_ne_some.mpr fun f hf => ?_
    obtain ⟨-, ⟨submitted, hpc⟩, -⟩ := h.reader f hf
    rw [hpc] at hop
    cases hop
  obtain ⟨stopped, hstopped, houtcome⟩ := h.outcome hinv hop ha hwrite
  rw [Echo.settle_write hop]
  cases houtcome with
  | returned calls ec n hcalls hos hwriter =>
      have hres : writeResult os = some ec := by
        rw [hos]
        exact writeResult_returned hcalls op ec n
      simp only [hres, Option.map_some, Option.getD_some, Option.isNone_some]
      refine ⟨.of_idle hreader hwriter fun bytes hpc => ?_, .writeReturned ec, ?_⟩
      · exact absurd hpc (EchoPc.opReturned_ne hop ec bytes)
      · cases hpc : e.pc with
        | write bytes =>
            obtain rfl : .write [bytes] = op := by simpa [hpc, EchoPc.op] using hop
            have hsuspended : ec = none → e.awaiting = true := by
              rintro rfl
              refine h.written hpc ha hwrite (n := n) ?_
              rw [hos]
              exact List.mem_append_right _ List.mem_cons_self
            cases ec with
            | none =>
                simp only [Echo.control, HandleRequest.step, hpc, hsuspended rfl, decide_true,
                  Bool.not_true, Bool.and_false, Bool.false_eq_true, if_false]
                rfl
            | some err =>
                simp only [Echo.control, HandleRequest.step, hpc, reduceCtorEq, decide_false,
                  Bool.false_and, Bool.false_eq_true, if_false]
                rfl
        | writeEof =>
            simp only [Echo.control, HandleRequest.step, hpc]
            rfl
        | _ =>
            rw [hpc] at hop
            cases hop
  | suspended f hwriter hfop hopen hrunning hos =>
      have hres : writeResult os = none := (requests_silent hos).1
      simp only [hres, Option.map_none, Option.getD_none, Option.isNone_none]
      refine ⟨⟨fun f' hf' => ?_, fun f' _ hstop => ?_, h.bytes⟩, .suspend, ?_⟩
      · rw [hreader] at hf'
        cases hf'
      · rw [hstopped hrunning] at hstop
        cases hstop
      · have hawaits : (HandlerPc.echo e.pc).awaits = true := EchoPc.awaits_of_op hop
        simp only [Echo.control, HandleRequest.step, hstopped hrunning, hawaits, Bool.not_true,
          Bool.or_self, Bool.false_eq_true, if_false]

theorem Echo.Heeds.submit (h : e.Heeds) (hinv : e.Inv tr) (hawaiting : e.awaiting = false)
    (hpc : e.pc.isSubmit = true) (accepted : Bool) :
    (e.submit accepted).1.Heeds ∧
      ∃ act, e.control.step e.stopped act = some (e.submit accepted).1.control := by
  obtain ⟨hreader, hwriter⟩ := h.idle hinv hawaiting
  have hstream : (e.submit accepted).1.cell.stream = e.cell.stream := by
    cases accepted <;> rfl
  refine ⟨.of_idle (by rw [hstream]; exact hreader) (by rw [hstream]; exact hwriter) ?_,
    .submitted (if accepted then none else some .invalidArgument), ?_⟩
  · intro bytes hnext
    cases hpc' : e.pc with
    | submit bytes' =>
        refine h.bytes bytes (.inl ?_)
        cases accepted <;> simp_all [Echo.submit, EchoPc.submitReturned]
    | submitEager => cases accepted <;> simp [Echo.submit, EchoPc.submitReturned, hpc'] at hnext
    | submitLate => cases accepted <;> simp [Echo.submit, EchoPc.submitReturned, hpc'] at hnext
    | _ =>
        rw [hpc'] at hpc
        cases hpc
  · cases hpc' : e.pc with
    | submit bytes =>
        simp only [Echo.control, HandleRequest.step, Echo.submit, hpc', hawaiting]
    | submitEager =>
        simp only [Echo.control, HandleRequest.step, Echo.submit, hpc', hawaiting]
    | submitLate =>
        simp only [Echo.control, HandleRequest.step, Echo.submit, hpc', hawaiting]
    | _ =>
        rw [hpc'] at hpc
        cases hpc

theorem Echo.Heeds.callback (h : e.Heeds) {act : Action} (hact : act.isCallback = true)
    {cell : Cell} {os : List Label} (hs : e.cell.step act = some (cell, os)) :
    Echo.Heeds { e with cell := cell } where
  reader f' hf' := by
    obtain ⟨f, hf, hstopped⟩ :=
      (Stream.step_read (Cell.step_eq_some hs).2.1).reader_of_callback hact hf'
    rw [← hstopped]
    exact h.reader f hf
  writer f hf := by
    rw [(Cell.callback_spec hs hact).2.2] at hf
    exact h.writer f hf
  bytes := h.bytes

theorem Echo.Heeds.stop_op (h : e.Heeds) (hinv : e.Inv tr) {act : Action}
    (hact : act = .stopWrite ∧ e.pc.op.isSome = true ∨ act = .stopRead ∧ e.pc.op = none)
    {cell : Cell} {os : List Label} (hs : e.cell.step act = some (cell, os)) :
    Echo.Heeds { e with cell := cell, stopped := true } := by
  have hstream := (Cell.step_eq_some hs).2.1
  rcases hact with ⟨rfl, hop⟩ | ⟨rfl, hop⟩
  · obtain ⟨w, hw, heq⟩ := Option.map_eq_some_iff.mp hstream
    obtain ⟨f, -, rfl⟩ := Option.map_eq_some_iff.mp hw
    rw [Prod.mk.injEq] at heq
    refine ⟨fun f' hf' => ?_, fun f' hf' _ => ?_, h.bytes⟩
    · rw [← heq.1] at hf'
      obtain ⟨-, ⟨submitted, hpc⟩, -⟩ := h.reader f' hf'
      rw [hpc] at hop
      cases hop
    · rw [← heq.1] at hf'
      obtain rfl : { f with stopped := true } = f' := Option.some.inj hf'
      rfl
  · obtain ⟨r, hr, heq⟩ := Option.map_eq_some_iff.mp hstream
    obtain ⟨f, hf, rfl⟩ := Option.map_eq_some_iff.mp hr
    rw [Prod.mk.injEq] at heq
    refine ⟨fun f' hf' => ?_, fun f' hf' => ?_, h.bytes⟩
    · obtain ⟨hawaiting, hpc, -⟩ := h.reader f hf
      rw [← heq.1] at hf'
      obtain rfl : { f with stopped := true } = f' := Option.some.inj hf'
      exact ⟨hawaiting, hpc, fun _ => rfl⟩
    · rw [← heq.1] at hf'
      rw [(hinv.writer f' hf').2] at hop
      cases hop

theorem Echo.Heeds.enter (h : e.Heeds) (hinv : e.Inv tr) (hawaiting : e.awaiting = false)
    (hpc : e.pc = .start) (response : Response) (eager : Bool) :
    Echo.Heeds { e with response := response, pc := .enter eager } ∧
      ∃ act, e.control.step e.stopped act = some ⟨.echo (.enter eager), e.awaiting⟩ := by
  obtain ⟨hreader, hwriter⟩ := h.idle hinv hawaiting
  refine ⟨.of_idle hreader hwriter fun bytes hnext => ?_, .begin eager, ?_⟩
  · cases eager <;> simp [EchoPc.enter] at hnext
  · simp only [Echo.control, HandleRequest.step, hpc, hawaiting, if_true]

/-- A step of `echo` is a step of its coroutine, or the coroutine stays where it is. -/
theorem Echo.Heeds.step (h : e.Heeds) (hinv : e.Inv tr) {a : EchoAction} {e' : Echo}
    {os : List EchoLabel} (hs : e.step a = some (e', os)) :
    e'.Heeds ∧
      (e'.control = e.control ∨ ∃ act, e.control.step e.stopped act = some e'.control) := by
  cases Echo.step_moves hs with
  | callback act cell ls hallows hstep =>
      exact ⟨h.callback (Echo.allows_isCallback hallows) hstep, .inl rfl⟩
  | enter accepted hidle hpc => exact (h.enter hinv hidle hpc _ _).imp_right .inr
  | submit accepted hidle hpc => exact (h.submit hinv hidle hpc accepted).imp_right .inr
  | read hpc hact hstep => exact (h.read hinv hpc hact hstep).imp_right .inr
  | write hop hact hstep => exact (h.write hinv hop hact hstep).imp_right .inr
  | stopIdle hidle =>
      obtain ⟨hreader, hwriter⟩ := h.idle hinv hidle
      exact ⟨.of_idle hreader hwriter h.bytes, .inl rfl⟩
  | stopOp act cell ls hact hstep => exact ⟨h.stop_op hinv hact hstep, .inl rfl⟩

theorem Echo.heeds_run (run : echoMachine.Run anyStep tr e) : e.Heeds := by
  refine run.invariant_along (I := fun _ e => e.Heeds) ?_ fun tr e a e' os run h _ hs =>
    (h.step (Echo.inv_run run).1 hs).1
  rintro e ⟨id, rfl⟩
  exact .of_idle rfl rfl nofun

/-- Along every run of `echo` its coroutine takes the steps of a handler. -/
theorem Echo.control_run {e' : Echo} {os : List EchoLabel} (run : echoMachine.Run anyStep tr e)
    {a : EchoAction} (hs : e.step a = some (e', os)) :
    e'.control = e.control ∨ ∃ act, e.control.step e.stopped act = some e'.control :=
  ((Echo.heeds_run run).step (Echo.inv_run run).1 hs).2

end Handlers

end Nghttp2Corosio
