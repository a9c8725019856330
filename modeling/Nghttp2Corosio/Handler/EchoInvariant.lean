import Nghttp2Corosio.Handler.Echo
import Nghttp2Corosio.Stream.EndOfBody
import Nghttp2Corosio.Stream.WriteInvariant

/-!
What `echo` sends back.

`echo` does not look at the error that ends its loop: it always goes on to
`write_eof`. That a request which was cut off is not answered with a complete
response is the work of the stream. If the loop ended with anything but the end of
the body, the stream is closed or the token is stopped, both for good, and a
`write_eof` that is started then returns an error before nghttp2 sees it.
`Echo.Inv` holds the two sides of the stream together: between the operations of
`echo`, what it has written is what it has read.
-/

namespace Nghttp2Corosio

open Async Buffers Runs

/-! ### Operations under a token that is not stopped -/

/-- The action requests a stop, or starts an operation under a stopped token. -/
def Action.stops : Action → Bool
  | .readSome _ stopped | .write _ stopped | .getResponse _ stopped => stopped
  | .stopRead | .stopWrite | .stopResponse _ => true
  | _ => false

/-- Nobody has requested a stop of the suspended read. -/
def ReadSide.Unstopped (r : ReadSide) : Prop :=
  r.readReady.waiter () ≠ .posted .canceled ∧ ∀ f, r.reader = some f → f.stopped = false

def WriteSide.Unstopped (w : WriteSide) : Prop :=
  w.writeProgress.waiter () ≠ .posted .canceled ∧ ∀ f, w.writer = some f → f.stopped = false

theorem ReadSide.parkRead_unstopped {r : ReadSide} {f : ReadFrame} (hf : f.stopped = false) :
    (r.parkRead f).1.Unstopped ∧ (r.parkRead f).2 = [] := by
  rcases r.parkRead_cases f with ⟨-, heq⟩ | ⟨hstopped, -⟩
  · rw [heq]
    refine ⟨⟨by simp, fun f' hf' => ?_⟩, rfl⟩
    obtain rfl : f = f' := by simpa using hf'
    exact hf
  · rw [hf] at hstopped
    cases hstopped

theorem ReadFrame.canceled_error (f : ReadFrame) {err : Error} (h : f.canceled.ec = some err) :
    err = .canceled := by
  unfold ReadFrame.canceled at h
  split at h
  · exact (Option.some.inj h).symm
  · cases h

theorem ReadSide.finishRead_eofError (r r' : ReadSide) :
    ∀ res, .readReturned res ∈ (r.finishRead ⟨some r'.eofError, []⟩).2 →
      res.ec ≠ some .canceled := by
  intro res hres
  rw [ReadSide.finishRead_mem_iff] at hres
  rw [hres, ReadSide.eofError]
  split <;> simp

/-- Without a stop request, no read is canceled. -/
theorem ReadSide.Unstopped.step {r r' : ReadSide} {closed : Bool} {a : Action} {os : List Label}
    (h : r.Unstopped) (hs : r.Step closed a os r') (ha : a.stops = false) :
    r'.Unstopped ∧ ∀ res, .readReturned res ∈ os → res.ec ≠ some .canceled := by
  have hnone {r' : ReadSide} (hw : r'.readReady.waiter () = .idle) (hr : r'.reader = none) :
      r'.Unstopped := ⟨by simp [hw], by simp [hr]⟩
  cases hs with
  | onData data =>
      refine ⟨?_, by simp⟩
      unfold ReadSide.onData
      split
      · rename_i f _ hf
        refine ⟨Event.set_ne_canceled h.1, fun f' hf' => ?_⟩
        obtain rfl : (f.put data).1 = f' := by simpa using hf'
        exact h.2 f hf
      · exact ⟨Event.set_ne_canceled h.1, h.2⟩
  | onReadEof => exact ⟨⟨Event.set_ne_canceled h.1, h.2⟩, by simp⟩
  | onClose => exact ⟨⟨Event.set_ne_canceled h.1, h.2⟩, by simp⟩
  | readSome sizes stopped hidle =>
      obtain rfl : stopped = false := ha
      unfold ReadSide.readSome
      dsimp only
      split
      · refine ⟨⟨h.1, h.2⟩, fun res hres => ?_⟩
        rw [ReadSide.finishRead_mem_iff] at hres
        simp [hres]
      · split
        · exact ⟨⟨h.1, h.2⟩, ReadSide.finishRead_eofError _ _⟩
        · obtain ⟨hpark, hos⟩ := ReadSide.parkRead_unstopped
            (r := { r with
              chunks := (r.drain (Window.ofSizes maxIovec sizes)).chunks
              frontOffset := (r.drain (Window.ofSizes maxIovec sizes)).frontOffset })
            (f := ⟨(r.drain (Window.ofSizes maxIovec sizes)).bp, [], false⟩) rfl
          exact ⟨hpark, by simp [hos]⟩
  | stopRead r' hstop => cases ha
  | resumeRead r' os hresume =>
      obtain ⟨f, w, hf, hw, ⟨res, heq, hres⟩ | ⟨-, -, heq⟩⟩ := ReadSide.resumeRead_eq_some hresume
      · obtain ⟨rfl, rfl⟩ := Prod.ext_iff.mp heq
        refine ⟨hnone (by simp) rfl, fun res' hres' => ?_⟩
        rw [ReadSide.finishRead_mem_iff] at hres'
        subst hres'
        rcases hres with ⟨rfl, -⟩ | ⟨-, hwoken⟩
        · exact absurd hw h.1
        · intro hec
          obtain ⟨-, -, heq⟩ := ReadSide.woken_ec hwoken hec
          exact ReadSide.finishRead_eofError r r res' (by rw [heq]; simp [ReadSide.finishRead]) hec
      · obtain ⟨rfl, rfl⟩ := Prod.ext_iff.mp heq
        obtain ⟨hpark, hos⟩ := ReadSide.parkRead_unstopped
          (r := { r with readSink := false, readReady := r.readReady.resume (), reader := none })
          (h.2 f hf)
        exact ⟨hpark, by simp [hos]⟩
  | other a os hother hos =>
      exact ⟨h, fun res hres => absurd (hos _ hres) (by simp [Label.isRead])⟩

/-! ### How a write ends or is suspended -/

/-- What a write tells its session, before it returns or is suspended. -/
def Label.isRequest : Label → Bool
  | .call _ | .writeCalled _ => true
  | _ => false

/-- What a stretch of the write operation `op` leaves behind: it has returned, or
it is suspended. -/
inductive WriteSide.Outcome (closed stopped : Bool) (op : WriteOp) (w' : WriteSide)
    (os : List Label) : Prop
  | returned (calls : List Label) (ec : Option Error) (n : ℕ)
      (hcalls : ∀ l ∈ calls, l.isRequest = true) (hos : os = calls ++ [.writeReturned op ec n])
      (hidle : w'.writer = none) (hec : ∀ e, ec = some e → closed = true ∨ e = .canceled)
      (hall : ec = none → op.isComposed = true → n = op.bytes.length)
  | suspended (f : WriteFrame) (hwriter : w'.writer = some f) (hop : f.op = op)
      (hopen : closed = false) (hrunning : stopped = false)
      (hos : ∀ l ∈ os, l.isRequest = true)

theorem WriteSide.poke_isRequest (w : WriteSide) : ∀ l ∈ w.poke, l.isRequest = true := by
  unfold WriteSide.poke
  cases w.writeDeferred <;> simp [Label.isRequest]

theorem WriteSide.runCall_outcome (w : WriteSide) (closed : Bool) (f : WriteFrame) :
    WriteSide.Outcome closed f.stopped f.op (w.runCall closed f).1 (w.runCall closed f).2 := by
  rcases w.runCall_cases closed f with ⟨hclosed, heq⟩ | ⟨hopen, hrunning, heq⟩ | ⟨-, -, heq⟩
  · rw [heq]
    exact .returned [] (some .eof) (f.fail 0) nofun rfl rfl (fun _ _ => .inl hclosed) nofun
  · rw [heq]
    exact .suspended f rfl rfl hopen hrunning w.poke_isRequest
  · rw [heq]
    refine .returned w.poke (some .canceled) (f.fail 0) w.poke_isRequest rfl rfl (fun e he => ?_)
      nofun
    exact .inr (Option.some.inj he).symm

/-- An operation that has the processor, and no call outstanding. -/
theorem WriteSide.proceed_outcome (w : WriteSide) (closed : Bool) {stopped : Bool} {op : WriteOp}
    {next : WriteNext} (hdone : ∀ n, next = .done n → op.isComposed = true → n = op.bytes.length)
    (hcall : ∀ f, next = .call f → f.op = op ∧ f.stopped = stopped) :
    WriteSide.Outcome closed stopped op (w.proceed closed op next).1
      (w.proceed closed op next).2 := by
  cases next with
  | done n => exact .returned [] none n nofun rfl rfl nofun fun _ => hdone n rfl
  | call f =>
      obtain ⟨rfl, rfl⟩ := hcall f rfl
      exact w.runCall_outcome closed f

theorem WriteSide.write_outcome (w : WriteSide) (closed : Bool) (op : WriteOp) (stopped : Bool) :
    WriteSide.Outcome closed stopped op (w.write closed op stopped).1
      (w.write closed op stopped).2 := by
  have hdone (n : ℕ) (hn : op.start stopped = .done n) (_ : op.isComposed = true) :
      n = op.bytes.length := by
    obtain ⟨-, buffers, rfl⟩ := WriteOp.start_done hn
    exact (WriteFrame.composed_done (Nat.zero_le _) hn).1
  have hcall (f : WriteFrame) (hf : op.start stopped = .call f) :
      f.op = op ∧ f.stopped = stopped := by
    obtain ⟨-, hop, -, hstopped⟩ := WriteOp.start_call hf
    exact ⟨hop, hstopped⟩
  -- the call itself is the first label
  cases w.proceed_outcome closed hdone hcall with
  | returned calls ec n hcalls hos hidle hec hall =>
      refine .returned (.writeCalled op :: calls) ec n ?_ ?_ hidle hec hall
      · exact List.forall_mem_cons.mpr ⟨rfl, hcalls⟩
      · exact congrArg (List.cons _) hos
  | suspended f hwriter hop hopen hrunning hos =>
      exact .suspended f hwriter hop hopen hrunning (List.forall_mem_cons.mpr ⟨rfl, hos⟩)

theorem WriteSide.Inv.resumeWrite_outcome {w w' : WriteSide} {closed : Bool} {os : List Label}
    (h : w.Inv closed) (hs : w.resumeWrite closed = some (w', os)) :
    ∃ f, w.writer = some f ∧ WriteSide.Outcome closed f.stopped f.op w' os := by
  obtain ⟨f, wake, hf, -, hcases⟩ := WriteSide.resumeWrite_eq_some hs
  refine ⟨f, hf, ?_⟩
  have hok := (h.frame f hf).1
  have hle := h.offset_le_call hf
  rcases hcases with ⟨-, rfl, rfl⟩ | ⟨-, heq⟩
  · refine .returned [] (some .canceled) _ nofun rfl rfl (fun e he => ?_) nofun
    exact .inr (Option.some.inj he).symm
  · obtain ⟨rfl, rfl⟩ := Prod.ext_iff.mp heq
    refine WriteSide.proceed_outcome _ closed (fun n hn hcomp => ?_) fun f' hf' => ?_
    · exact hok.advance_composed hle hcomp hn
    · obtain ⟨-, hop, -, hstopped⟩ := hok.advance_call hle hf'
      exact ⟨hop, hstopped⟩

/-- Without a stop request, no write is canceled. -/
theorem WriteSide.Unstopped.step {w w' : WriteSide} {closed : Bool} {a : Action} {os : List Label}
    (h : w.Unstopped) (hinv : w.Inv closed) (hs : w.Step closed a os w') (ha : a.stops = false) :
    w'.Unstopped ∧ ∀ op n, .writeReturned op (some .canceled) n ∉ os := by
  have hnone {w' : WriteSide} (hw : w'.writeProgress.waiter () = .idle)
      (hwriter : w'.writer = none) : w'.Unstopped := ⟨by simp [hw], by simp [hwriter]⟩
  have hproceed {w : WriteSide} (op : WriteOp) {next : WriteNext}
      (hw : w.writeProgress.waiter () = .idle) (hnext : ∀ f, next = .call f → f.stopped = false) :
      (w.proceed closed op next).1.Unstopped ∧
        ∀ op' n, .writeReturned op' (some .canceled) n ∉ (w.proceed closed op next).2 := by
    cases next with
    | done n => exact ⟨hnone hw rfl, by simp [WriteSide.proceed]⟩
    | call f =>
        show (w.runCall closed f).1.Unstopped ∧ ∀ op' n, _ ∉ (w.runCall closed f).2
        rcases w.runCall_cases closed f with ⟨-, heq⟩ | ⟨-, hrunning, heq⟩ | ⟨-, hstopped, -⟩
        · rw [heq]
          exact ⟨hnone hw rfl, by simp⟩
        · rw [heq]
          refine ⟨⟨by simp, fun f' hf' => ?_⟩, fun op' n hmem => ?_⟩
          · obtain rfl : f = f' := by simpa using hf'
            exact hrunning
          · exact absurd (w.poke_isRequest _ hmem) (by simp [Label.isRequest])
        · rw [hnext f rfl] at hstopped
          cases hstopped
  cases hs with
  | onClose => exact ⟨⟨Event.set_ne_canceled h.1, h.2⟩, by simp⟩
  | producerCallback length =>
      rcases w.producerCallback_cases length with ⟨-, heq⟩ | ⟨-, bytes, -, ⟨-, heq⟩ | ⟨-, -, heq⟩⟩
      · rw [heq]
        exact ⟨h, by simp⟩
      · rw [heq]
        exact ⟨⟨Event.set_ne_canceled h.1, h.2⟩, by simp⟩
      · rw [heq]
        exact ⟨h, by simp⟩
  | write op stopped hidle =>
      obtain rfl : stopped = false := ha
      obtain ⟨hunstopped, hos⟩ := hproceed op (hinv.suspended.mp hidle)
        fun f hf => (WriteOp.start_call hf).2.2.2
      refine ⟨hunstopped, fun op' n hmem => ?_⟩
      rcases List.mem_cons.mp hmem with heq | hmem
      · cases heq
      · exact hos op' n hmem
  | stopWrite w' hstop => cases ha
  | resumeWrite w' os hresume =>
      obtain ⟨f, wake, hf, hw, hcases⟩ := WriteSide.resumeWrite_eq_some hresume
      have hok := (hinv.frame f hf).1
      rcases hcases with ⟨rfl, -, -⟩ | ⟨-, heq⟩
      · exact absurd hw h.1
      · obtain ⟨rfl, rfl⟩ := Prod.ext_iff.mp heq
        refine hproceed f.op (by simp) fun f' hf' => ?_
        rw [(hok.advance_call (hinv.offset_le_call hf) hf').2.2.2]
        exact h.2 f hf
  | other a os hother hos =>
      exact ⟨h, fun op n hmem => absurd (hos _ hmem).1 (by simp [Label.isWrite])⟩

/-! ### The invariant -/

def EchoPc.isFresh : EchoPc → Bool
  | .start | .submitEager | .read false | .submit _ | .submitLate => true
  | _ => false

def EchoPc.isSubmitted : EchoPc → Bool
  | .read true | .write _ | .writeEof => true
  | _ => false

/-- The request has ended, and all of it is written. -/
def Echo.Whole (tr : List EchoLabel) (e : Echo) : Prop :=
  e.cell.stream.read.readEof = true ∧ written (onStream tr) = delivered (onStream tr)

/-- What is written against what is read, at each operation. -/
def Echo.Balance (tr : List EchoLabel) (e : Echo) : Prop :=
  match e.pc with
  | .start | .submitEager | .read _ => written (onStream tr) = returned (onStream tr)
  | .submit bytes | .write bytes => written (onStream tr) ++ bytes = returned (onStream tr)
  | .submitLate | .writeEof =>
      written (onStream tr) <+: returned (onStream tr) ∧
        (e.awaiting = true ∨ e.cell.stream.closed = false ∧ e.stopped = false → e.Whole tr)
  | .done _ => written (onStream tr) <+: returned (onStream tr)

structure Echo.Inv (tr : List EchoLabel) (e : Echo) : Prop where
  run : cellMachine.Run destinationOk (onStream tr) e.cell
  roomy : e.cell.stream.read.Roomy
  writer : ∀ f, e.cell.stream.write.writer = some f → e.awaiting = true ∧ e.pc.op = some f.op
  unstopped : e.stopped = false → e.cell.stream.read.Unstopped ∧ e.cell.stream.write.Unstopped
  once : (submits tr).length ≤ 1
  fresh : e.pc.isFresh = true → submits tr = [] ∧ e.cell.provider.submitted = false
  accepted : e.pc.isSubmitted = true → ∃ fields, .submitted fields true ∈ tr
  balance : e.Balance tr

theorem Echo.inv_init {e : Echo} (h : echoMachine.init e) : e.Inv [] := by
  obtain ⟨id, rfl⟩ := h
  exact
    { run := .init (cellMachine_init id false)
      roomy := ReadSide.roomy_of_none rfl
      writer := nofun
      unstopped := fun _ => ⟨⟨nofun, nofun⟩, nofun, nofun⟩
      once := Nat.zero_le _
      fresh := fun _ => ⟨rfl, rfl⟩
      accepted := nofun
      balance := rfl }

/-- What a label of the trace says, when `pre` is what came before: a write is
called after a `submit` that was accepted; the end of the response is handed out
after the end of the request, with all of its body; and there is no data after the
end of the request. -/
def EchoLabel.Sound (pre : List EchoLabel) : EchoLabel → Prop
  | .stream (.writeCalled _) => ∃ fields, .submitted fields true ∈ pre
  | .stream (.pulled bytes true) =>
      .readEnded ∈ onStream pre ∧ pulled (onStream pre) ++ bytes = delivered (onStream pre)
  | .stream (.delivered _) => .readEnded ∉ onStream pre
  | _ => True

section Steps

variable {tr : List EchoLabel} {e : Echo}

/-- Nothing is returned by an operation, and `echo` stays where it is. -/
theorem Echo.Balance.quiet {e' : Echo} {os : List EchoLabel} (h : e.Balance tr)
    (hpc : e'.pc = e.pc) (hawaiting : e'.awaiting = e.awaiting)
    (hwritten : written (onStream os) = []) (hreturned : returned (onStream os) = [])
    (hclosed : e'.cell.stream.closed = false → e.cell.stream.closed = false)
    (hstopped : e'.stopped = false → e.stopped = false)
    (hwhole : e.Whole tr → e'.Whole (tr ++ os)) : e'.Balance (tr ++ os) := by
  have hw : written (onStream (tr ++ os)) = written (onStream tr) := by simp [hwritten]
  have hr : returned (onStream (tr ++ os)) = returned (onStream tr) := by simp [hreturned]
  unfold Echo.Balance at h ⊢
  rw [hpc, hw, hr, hawaiting]
  split at h
  · exact h
  · exact h
  · exact h
  · exact h
  · exact h
  · exact ⟨h.1, fun hs => hwhole (h.2 (hs.imp_right fun hs => ⟨hclosed hs.1, hstopped hs.2⟩))⟩
  · exact ⟨h.1, fun hs => hwhole (h.2 (hs.imp_right fun hs => ⟨hclosed hs.1, hstopped hs.2⟩))⟩
  · exact h

theorem Provider.observe_submitted (os : List Label) (p : Provider) :
    (os.foldl Provider.observe p).submitted = p.submitted := by
  induction os generalizing p with
  | nil => rfl
  | cons l os ih =>
      rw [List.foldl_cons, ih]
      unfold Provider.observe
      split <;> rfl

theorem Cell.step_submitted {c c' : Cell} {a : Action} {os : List Label}
    (hs : c.step a = some (c', os)) (ha : a ≠ .submit) :
    c'.provider.submitted = c.provider.submitted := by
  rw [(Cell.step_eq_some hs).2.2, Provider.observe_submitted]
  cases a <;> first | rfl | exact absurd rfl ha

theorem Cell.callback_spec {c c' : Cell} {a : Action} {os : List Label}
    (hs : c.step a = some (c', os)) (ha : a.isCallback = true) :
    returned os = [] ∧ written os = [] ∧ c'.stream.write.writer = c.stream.write.writer := by
  have hstream := (Cell.step_eq_some hs).2.1
  cases a with
  | onData data =>
      cases hs
      exact ⟨rfl, rfl, rfl⟩
  | onReadEof =>
      cases hs
      exact ⟨rfl, rfl, rfl⟩
  | onClose =>
      cases hs
      exact ⟨rfl, rfl, rfl⟩
  | onHeader name value =>
      cases hs
      exact ⟨rfl, rfl, rfl⟩
  | producerCallback length =>
      obtain ⟨hwrite, hos⟩ := Stream.step_producerCallback_eq_some hstream
      rw [hwrite, hos]
      rcases c.stream.write.producerCallback_cases length with
          ⟨-, heq⟩ | ⟨-, bytes, -, ⟨-, heq⟩ | ⟨-, -, heq⟩⟩ <;>
      · rw [heq]
        exact ⟨rfl, rfl, rfl⟩
  | _ => cases ha

theorem Echo.Inv.sides (h : e.Inv tr) :
    e.cell.stream.read.Inv ∧ e.cell.stream.write.Inv e.cell.stream.closed ∧
      delivered (onStream tr) = returned (onStream tr) ++ e.cell.stream.read.contents ∧
      pulled (onStream tr) = written (onStream tr) ++ e.cell.stream.write.progress := by
  obtain ⟨hwrite, hpulled⟩ := WriteSide.queue_run h.run
  exact ⟨(ReadSide.balance_run h.run).1, hwrite, (ReadSide.queue_run h.run).2, hpulled⟩

theorem Echo.Balance.leave (submitted : Bool) (hpc : e.pc = .leave submitted)
    (hwritten : written (onStream tr) <+: returned (onStream tr))
    (hwhole : e.awaiting = true ∨ e.cell.stream.closed = false ∧ e.stopped = false →
      e.Whole tr) : e.Balance tr := by
  rw [Echo.Balance, hpc]
  cases submitted <;> exact ⟨hwritten, hwhole⟩

/-- What `echo` has written is part of what it has read. -/
theorem Echo.Balance.written_prefix (h : e.Balance tr) :
    written (onStream tr) <+: returned (onStream tr) := by
  unfold Echo.Balance at h
  split at h
  · rw [h]
  · rw [h]
  · rw [h]
  · rw [← h]
    exact List.prefix_append _ _
  · rw [← h]
    exact List.prefix_append _ _
  · exact h.1
  · exact h.1
  · exact h

/-- A suspended write is the one that `echo` awaits. -/
theorem Echo.Inv.writer_cases (h : e.Inv tr) {f : WriteFrame}
    (hf : e.cell.stream.write.writer = some f) :
    (∃ bytes, e.pc = .write bytes ∧ f.op = .write [bytes] ∧
      written (onStream tr) ++ bytes = returned (onStream tr)) ∨
      e.pc = .writeEof ∧ f.op = .writeEof ∧ e.Whole tr := by
  obtain ⟨hawaiting, hop⟩ := h.writer f hf
  have hbalance := h.balance
  cases hpc : e.pc with
  | write bytes =>
      rw [hpc] at hop
      simp only [Echo.Balance, hpc] at hbalance
      exact .inl ⟨bytes, rfl, (Option.some.inj hop).symm, hbalance⟩
  | writeEof =>
      rw [hpc] at hop
      simp only [Echo.Balance, hpc] at hbalance
      exact .inr ⟨rfl, (Option.some.inj hop).symm, hbalance.2 (.inl hawaiting)⟩
  | _ =>
      rw [hpc] at hop
      cases hop

/-- What nghttp2 was given is part of what the stream was given. -/
theorem Echo.Inv.pulled_prefix (h : e.Inv tr) :
    pulled (onStream tr) <+: delivered (onStream tr) := by
  obtain ⟨-, -, hread, hwrite⟩ := h.sides
  have hreturned : returned (onStream tr) <+: delivered (onStream tr) := ⟨_, hread.symm⟩
  cases hw : e.cell.stream.write.writer with
  | none =>
      rw [hwrite, WriteSide.progress_none hw, List.append_nil]
      exact h.balance.written_prefix.trans hreturned
  | some f =>
      rw [hwrite, WriteSide.progress_some hw]
      rcases h.writer_cases hw with ⟨bytes, -, hop, hbalance⟩ | ⟨-, hop, hwhole⟩
      · have hbytes : f.op.bytes = bytes := by simp [hop, WriteOp.bytes, WriteOp.buffers]
        rw [hbytes]
        refine List.IsPrefix.trans ?_ (hbalance ▸ hreturned)
        exact List.prefix_append_right_inj _ |>.mpr (List.take_prefix _ _)
      · have hbytes : f.op.bytes = [] := by simp [hop, WriteOp.bytes, WriteOp.buffers]
        rw [hbytes, List.take_nil, List.append_nil, hwhole.2]

/-- The parts of the invariant that an action on the stream keeps, whatever it
is. -/
theorem Echo.Inv.act (h : e.Inv tr) {a : Action} {cell : Cell} {os : List Label}
    (hs : e.cell.step a = some (cell, os)) (hok : destinationOk e.cell a) (ha : a ≠ .submit) :
    cellMachine.Run destinationOk (onStream (tr ++ os.map .stream)) cell ∧
      cell.stream.read.Roomy ∧ submits (tr ++ os.map .stream) = submits tr ∧
      cell.provider.submitted = e.cell.provider.submitted ∧
      (a.stops = false → e.stopped = false →
        cell.stream.read.Unstopped ∧ cell.stream.write.Unstopped) := by
  obtain ⟨hread, hwrite, -, -⟩ := h.sides
  have hstream := (Cell.step_eq_some hs).2.1
  refine ⟨?_, ?_, by simp, Cell.step_submitted hs ha, fun hstops hstopped => ?_⟩
  · rw [onStream_append, onStream_map]
    exact .step h.run hok hs
  · exact hread.step_roomy h.roomy (Stream.step_read hstream) hok.1
  · obtain ⟨hr, hw⟩ := h.unstopped hstopped
    exact ⟨(hr.step (Stream.step_read hstream) hstops).1,
      (hw.step hwrite (Stream.step_write hstream) hstops).1⟩

/-! ### Callbacks -/

theorem Action.callback_ok {a : Action} (ha : a.isCallback = true) (c : Cell) :
    destinationOk c a ∧ a ≠ .submit ∧ a.stops = false := by
  cases a with
  | onData => exact ⟨⟨trivial, trivial⟩, nofun, rfl⟩
  | onReadEof => exact ⟨⟨trivial, trivial⟩, nofun, rfl⟩
  | onClose => exact ⟨⟨trivial, trivial⟩, nofun, rfl⟩
  | onHeader => exact ⟨⟨trivial, trivial⟩, nofun, rfl⟩
  | producerCallback => exact ⟨⟨trivial, trivial⟩, nofun, rfl⟩
  | _ => cases ha

theorem Echo.allows_isCallback {a : Action} (h : e.allows a = true) : a.isCallback = true := by
  cases a <;> first | rfl | exact h

/-- A callback finds the trace in order. -/
theorem Echo.Inv.callback_sound (h : e.Inv tr) {a : Action} {cell : Cell} {os : List Label}
    (hallows : e.allows a = true) (hs : e.cell.step a = some (cell, os)) :
    AlwaysFrom EchoLabel.Sound tr (os.map .stream) := by
  obtain ⟨-, hwrite, -, hpulled⟩ := h.sides
  have heof := (flags_run h.run).2
  have hstream := (Cell.step_eq_some hs).2.1
  cases a with
  | onData data =>
      cases hs
      refine ⟨fun hended => ?_, trivial⟩
      rw [← heof] at hended
      simp [Echo.allows, hended] at hallows
  | onReadEof =>
      cases hs
      exact ⟨trivial, trivial⟩
  | onClose =>
      cases hs
      exact ⟨trivial, trivial⟩
  | onHeader name value =>
      cases hs
      exact ⟨trivial, trivial⟩
  | producerCallback length =>
      rw [(Stream.step_producerCallback_eq_some hstream).2]
      rcases e.cell.stream.write.producerCallback_cases length with
        ⟨-, heq⟩ | ⟨hpending, bytes, hbytes, ⟨-, heq⟩ | ⟨-, -, heq⟩⟩
      · rw [heq]
        exact ⟨trivial, trivial⟩
      · rw [heq]
        cases hended : e.cell.stream.write.writeEofRequested with
        | false => exact ⟨trivial, trivial⟩
        | true =>
            -- a write that ends the body is the `write_eof` of `echo`, with no bytes of its own
            obtain ⟨f, hf⟩ := Option.isSome_iff_exists.mp (hwrite.armed hpending).1
            obtain ⟨-, harmed, hrequested⟩ := hwrite.frame f hf
            rcases h.writer_cases hf with ⟨_, -, hop, -⟩ | ⟨-, hop, hwhole⟩
            · simp [hrequested, WriteFrame.call, hop] at hended
            · have hnil : bytes = [] := by
                rw [hbytes, hwrite.cursor, harmed]
                simp [WriteFrame.call, hop]
              have hprogress : e.cell.stream.write.progress = [] := by
                simp [WriteSide.progress_some hf, hop, WriteOp.bytes, WriteOp.buffers]
              refine ⟨⟨heof.mp hwhole.1, ?_⟩, trivial⟩
              rw [hnil, List.append_nil, hpulled, hprogress, List.append_nil, hwhole.2]
      · rw [heq]
        exact ⟨trivial, trivial⟩
  | _ => cases hallows

theorem Echo.Inv.callback (h : e.Inv tr) {a : Action} {cell : Cell} {os : List Label}
    (hallows : e.allows a = true) (hs : e.cell.step a = some (cell, os)) :
    Echo.Inv (tr ++ os.map .stream) { e with cell := cell } := by
  have hcallback := Echo.allows_isCallback hallows
  obtain ⟨hok, hne, hstops⟩ := Action.callback_ok hcallback e.cell
  obtain ⟨hrun, hroomy, hsubmits, hsubmitted, hunstopped⟩ := h.act hs hok hne
  obtain ⟨hreturned, hwritten, hwriter⟩ := Cell.callback_spec hs hcallback
  have hstream := (Cell.step_eq_some hs).2.1
  refine ⟨hrun, hroomy, fun f hf => h.writer f (hwriter.symm.trans hf), hunstopped hstops, ?_, ?_,
    ?_, ?_⟩
  · rw [hsubmits]
    exact h.once
  · intro hfresh
    rw [hsubmits, hsubmitted]
    exact h.fresh hfresh
  · intro hpc
    obtain ⟨fields, hmem⟩ := h.accepted hpc
    exact ⟨fields, List.mem_append_left _ hmem⟩
  · refine h.balance.quiet rfl rfl (by simpa using hwritten) (by simpa using hreturned)
      (fun hopen => ?_) id fun hwhole => ⟨?_, ?_⟩
    · rw [Stream.step_closed hstream, Bool.or_eq_false_iff] at hopen
      exact hopen.1
    · exact (Stream.step_read hstream).readEof.mpr (.inl hwhole.1)
    · -- the request has ended, so the callback brings no data
      have hdelivered : delivered os = [] := by
        rw [h.sides.1.step_delivered (Stream.step_read hstream)]
        cases a with
        | onData data => simp [Echo.allows, hwhole.1] at hallows
        | _ => rfl
      simp [hwritten, hdelivered, hwhole.2]

/-! ### Submitting -/

theorem Cell.step_submit {c : Cell} (h : c.provider.submitted = false) :
    c.step .submit = some ({ c with provider := c.provider.act .submit }, []) := by
  simp [Cell.step, Provider.allows, h, Stream.step]

theorem EchoPc.isFresh_of_isSubmit {pc : EchoPc} (h : pc.isSubmit = true) : pc.isFresh = true := by
  cases pc <;> first | rfl | cases h

theorem EchoPc.submitReturned_isFresh {pc : EchoPc} (h : pc.isSubmit = true) :
    (pc.submitReturned none).isFresh = false := by
  cases pc <;> first | rfl | cases h

theorem Echo.submit_onStream (e : Echo) (accepted : Bool) :
    onStream (tr ++ (e.submit accepted).2) = onStream tr := by
  rw [onStream_append]
  exact List.append_nil _

theorem Echo.submit_submits (e : Echo) (accepted : Bool) :
    submits (tr ++ (e.submit accepted).2) =
      submits tr ++ [.submitted (e.response.submit 200 []) accepted] := by
  rw [submits_append]
  rfl

theorem Echo.Inv.submit (h : e.Inv tr) (hpc : e.pc.isSubmit = true) (accepted : Bool) :
    (e.submit accepted).1.Inv (tr ++ (e.submit accepted).2) := by
  obtain ⟨hnone, hprovider⟩ := h.fresh (EchoPc.isFresh_of_isSubmit hpc)
  have hidle (f : WriteFrame) (hf : e.cell.stream.write.writer = some f) : False := by
    have hop := (h.writer f hf).2
    cases he : e.pc <;> rw [he] at hop hpc <;> first | cases hop | cases hpc
  have honce : (submits (tr ++ (e.submit accepted).2)).length ≤ 1 := by
    rw [Echo.submit_submits, hnone]
    exact Nat.le_refl 1
  cases accepted with
  | false =>
      refine ⟨?_, h.roomy, fun f hf => (hidle f hf).elim, h.unstopped, honce, nofun, nofun, ?_⟩
      · rw [Echo.submit_onStream]
        exact h.run
      · show written _ <+: returned _
        rw [Echo.submit_onStream]
        exact h.balance.written_prefix
  | true =>
      have hbalance := h.balance
      refine ⟨?_, h.roomy, fun f hf => (hidle f hf).elim, h.unstopped, honce, ?_, ?_, ?_⟩
      · have hok : destinationOk e.cell .submit := ⟨trivial, trivial⟩
        rw [Echo.submit_onStream, ← List.append_nil (onStream tr)]
        exact .step h.run hok (Cell.step_submit hprovider)
      · intro hfresh
        rw [show (e.submit true).1.pc = e.pc.submitReturned none from rfl,
          EchoPc.submitReturned_isFresh hpc] at hfresh
        cases hfresh
      · exact fun _ => ⟨_, List.mem_append_right _ List.mem_cons_self⟩
      · unfold Echo.Balance Echo.Whole at hbalance ⊢
        rw [Echo.submit_onStream]
        simp only [Echo.submit]
        cases he : e.pc with
        | submitEager =>
            rw [he] at hbalance
            exact hbalance
        | submit bytes =>
            rw [he] at hbalance
            exact hbalance
        | submitLate =>
            rw [he] at hbalance
            exact hbalance
        | _ =>
            rw [he] at hpc
            cases hpc

/-! ### Reading -/

def Action.isReadOp : Action → Bool
  | .readSome _ _ | .resumeRead => true
  | _ => false

theorem ReadSide.Step.ends {r r' : ReadSide} {closed : Bool} {a : Action} {os : List Label}
    (hs : r.Step closed a os r') (h : r.Inv) (ha : a.isReadOp = true) : r.Ends r' os := by
  cases hs with
  | readSome sizes stopped hidle => exact (h.readSome hidle closed sizes stopped).2.1
  | resumeRead r' os hresume => exact (h.resumeRead hresume).2.1
  | other a os hother =>
      cases a with
      | readSome => cases hother
      | resumeRead => cases hother
      | _ => cases ha
  | _ => cases ha

/-- A read fails because its token is stopped, or because the body is over. -/
theorem ReadSide.Step.error {r r' : ReadSide} {closed : Bool} {a : Action} {os : List Label}
    (hs : r.Step closed a os r') {res : ReadResult} (hres : .readReturned res ∈ os) {err : Error}
    (hec : res.ec = some err) : err = .canceled ∨ err.endsBody = true := by
  have hpark {r : ReadSide} {f : ReadFrame} (hres : .readReturned res ∈ (r.parkRead f).2) :
      err = .canceled := by
    rcases r.parkRead_cases f with ⟨-, heq⟩ | ⟨-, heq⟩
    · rw [heq] at hres
      cases hres
    · rw [heq, ReadSide.finishRead_mem_iff] at hres
      rw [hres] at hec
      exact f.canceled_error hec
  have heof {r₀ : ReadSide} (heq : res = ⟨some r₀.eofError, []⟩) : err.endsBody = true := by
    rw [heq] at hec
    rw [← Option.some.inj hec, ReadSide.eofError]
    split <;> rfl
  cases hs with
  | readSome sizes stopped hidle =>
      unfold ReadSide.readSome at hres
      dsimp only at hres
      split at hres
      · rw [ReadSide.finishRead_mem_iff] at hres
        rw [hres] at hec
        cases hec
      · split at hres
        · rw [ReadSide.finishRead_mem_iff] at hres
          exact .inr (heof hres)
        · exact .inl (hpark hres)
  | resumeRead r' os hresume =>
      obtain ⟨f, w, -, -, ⟨res', heq, hcases⟩ | ⟨-, -, heq⟩⟩ :=
        ReadSide.resumeRead_eq_some hresume
      · obtain ⟨rfl, rfl⟩ := Prod.ext_iff.mp heq
        rw [ReadSide.finishRead_mem_iff] at hres
        subst hres
        rcases hcases with ⟨-, rfl⟩ | ⟨-, hwoken⟩
        · exact .inl (f.canceled_error hec)
        · exact .inr (heof (ReadSide.woken_ec hwoken hec).2.2)
      · rw [show os = (ReadSide.parkRead _ f).2 from congrArg Prod.snd heq] at hres
        exact .inl (hpark hres)
  | other a os hother hos => exact absurd (hos _ hres) (by simp [Label.isRead])
  | _ => simp at hres

theorem readResult_finishRead (r : ReadSide) (res : ReadResult) :
    readResult (r.finishRead res).2 = some res := by
  unfold ReadSide.finishRead readResult
  split <;> rfl

theorem EchoPc.readReturned_phase (submitted : Bool) (res : ReadResult) :
    (EchoPc.readReturned submitted res).isFresh = !submitted ∧
      (EchoPc.readReturned submitted res).isSubmitted = submitted := by
  unfold EchoPc.readReturned EchoPc.leave
  cases res.ec <;> cases submitted <;> exact ⟨rfl, rfl⟩

/-- A read of `echo` that fails while the stream is open and the token is not
stopped has come to the end of the request. -/
theorem Echo.Inv.read_failed (h : e.Inv tr) {a : Action}
    (hstops : e.stopped = false → a.stops = false) (hok : destinationOk e.cell a) {cell : Cell}
    {os : List Label} (hs : e.cell.step a = some (cell, os)) {res : ReadResult}
    (hres : .readReturned res ∈ os)
    {err : Error} (hec : res.ec = some err) (hopen : e.cell.stream.closed = false)
    (hstopped : e.stopped = false) :
    cell.stream.read.readEof = true ∧ cell.stream.read.contents = [] := by
  have hread := Stream.step_read (Cell.step_eq_some hs).2.1
  rcases hread.error hres hec with rfl | hends
  · exact absurd hec (((h.unstopped hstopped).1.step hread (hstops hstopped)).2 res hres)
  · obtain ⟨hflags, -, hover, -⟩ := h.sides.1.step_ended h.roomy hread hok.1 hres hec hends
    have heof : e.cell.stream.read.readEof = true := hflags.resolve_right (by simp [hopen])
    exact ⟨hread.readEof.mpr (.inl heof), hover.contents⟩

theorem Echo.settle_read {submitted : Bool} (hpc : e.pc = .read submitted) (cell : Cell)
    (os : List Label) :
    e.settle (cell, os) =
      ({ e with
          cell := cell
          pc := ((readResult os).map (EchoPc.readReturned submitted)).getD (.read submitted)
          awaiting := (readResult os).isNone }, os.map .stream) := by
  simp [Echo.settle, hpc]

/-- A read of `echo` is started or resumed. -/
theorem Echo.Inv.read_settle (h : e.Inv tr) {submitted : Bool} (hpc : e.pc = .read submitted)
    {a : Action} (ha : a.isReadOp = true) (hstops : e.stopped = false → a.stops = false)
    (hok : destinationOk e.cell a) {cell : Cell} {os : List Label}
    (hs : e.cell.step a = some (cell, os)) :
    (e.settle (cell, os)).1.Inv (tr ++ (e.settle (cell, os)).2) := by
  obtain ⟨hne, hwriteOp⟩ : a ≠ .submit ∧ a.isWrite = false := by
    cases a with
    | readSome => exact ⟨nofun, rfl⟩
    | resumeRead => exact ⟨nofun, rfl⟩
    | _ => cases ha
  obtain ⟨hrun, hroomy, hsubmits, hsubmitted, hunstopped⟩ := h.act hs hok hne
  have hstream := (Cell.step_eq_some hs).2.1
  obtain ⟨hwrite, hclosed, hlabels⟩ := Stream.step_frame_write hstream hwriteOp
  have hwritten : written os = [] := (write_silent fun l hl => (hlabels l hl).1).2
  have hidle (f : WriteFrame) (hf : cell.stream.write.writer = some f) : False := by
    rw [hwrite] at hf
    have hop := (h.writer f hf).2
    rw [hpc] at hop
    cases hop
  have hbalance : written (onStream tr) = returned (onStream tr) := by
    have := h.balance
    rwa [Echo.Balance, hpc] at this
  have hfresh : e.pc.isFresh = !submitted := by
    rw [hpc]
    cases submitted <;> rfl
  have haccepted : e.pc.isSubmitted = submitted := by
    rw [hpc]
    cases submitted <;> rfl
  have hphase {pc : EchoPc} (hf : pc.isFresh = !submitted) (hsub : pc.isSubmitted = submitted) :
      (pc.isFresh = true → submits (tr ++ os.map .stream) = [] ∧
        cell.provider.submitted = false) ∧
      (pc.isSubmitted = true → ∃ fields, .submitted fields true ∈ tr ++ os.map .stream) := by
    refine ⟨fun hpc' => ?_, fun hpc' => ?_⟩
    · rw [hsubmits, hsubmitted]
      exact h.fresh (hfresh.trans (hf.symm.trans hpc'))
    · obtain ⟨fields, hmem⟩ := h.accepted (haccepted.trans (hsub.symm.trans hpc'))
      exact ⟨fields, List.mem_append_left _ hmem⟩
  have honce : (submits (tr ++ os.map .stream)).length ≤ 1 := by
    rw [hsubmits]
    exact h.once
  rw [Echo.settle_read hpc]
  cases (Stream.step_read hstream).ends h.sides.1 ha with
  | parked f hreader hcopied hos hwait hcontents =>
      subst hos
      obtain ⟨hphase₁, hphase₂⟩ := hphase (hpc ▸ hfresh) (hpc ▸ haccepted)
      refine ⟨hrun, hroomy, fun f hf => (hidle f hf).elim,
        fun hst => hunstopped (hstops hst) hst, honce, hphase₁, hphase₂, ?_⟩
      show written (onStream (tr ++ [])) = returned (onStream (tr ++ []))
      rwa [List.append_nil]
  | completed res hclean hreader hos hcontents =>
      have hresult : readResult os = some res := by rw [hos, readResult_finishRead]
      have hreturned : returned os = res.bytes := by rw [hos, ReadSide.finishRead_returned]
      rw [hresult]
      obtain ⟨hphase₁, hphase₂⟩ := hphase (EchoPc.readReturned_phase submitted res).1
        (EchoPc.readReturned_phase submitted res).2
      refine ⟨hrun, hroomy, fun f hf => (hidle f hf).elim,
        fun hst => hunstopped (hstops hst) hst, honce, hphase₁, hphase₂, ?_⟩
      have hw : written (onStream (tr ++ os.map .stream)) = written (onStream tr) := by
        simp [hwritten]
      have hr : returned (onStream (tr ++ os.map .stream)) =
          returned (onStream tr) ++ res.bytes := by
        simp [hreturned]
      cases hec : res.ec with
      | none =>
          unfold Echo.Balance
          rw [hw, hr, hbalance]
          cases submitted <;> simp [EchoPc.readReturned, hec]
      | some err =>
          -- the loop is left; where the body may still be ended, the request has ended
          have hnil : res.bytes = [] := by
            by_contra hbytes
            rw [hclean.mpr hbytes] at hec
            cases hec
          have hres : .readReturned res ∈ os := by
            rw [hos]
            exact ReadSide.finishRead_mem _ res
          refine .leave submitted (by simp [EchoPc.readReturned, hec]) ?_ fun hgo => ?_
          · rw [hw, hr, hbalance]
            exact List.prefix_append _ _
          · obtain ⟨hopen, hstopped⟩ := hgo.resolve_left nofun
            obtain ⟨heof, hempty⟩ :=
              h.read_failed hstops hok hs hres hec (hclosed ▸ hopen) hstopped
            have hqueue := (ReadSide.queue_run hrun).2
            rw [hr, hnil, hempty, List.append_nil, List.append_nil] at hqueue
            exact ⟨heof, by rw [hw, hbalance, hqueue]⟩

/-! ### Writing -/

/-- The write operation `op` is started, or is suspended and resumed. -/
def WriteSide.Operates (w : WriteSide) (op : WriteOp) (a : Action) : Prop :=
  (∃ stopped, a = .write op stopped) ∨ a = .resumeWrite ∧ ∀ f, w.writer = some f → f.op = op

theorem WriteSide.Step.outcome {w w' : WriteSide} {closed : Bool} {a : Action} {os : List Label}
    (hs : w.Step closed a os w') (h : w.Inv closed) {op : WriteOp} (ha : w.Operates op a) :
    ∃ stopped, (∀ stopped', a = .write op stopped' → stopped' = stopped) ∧
      WriteSide.Outcome closed stopped op w' os := by
  rcases ha with ⟨stopped, rfl⟩ | ⟨rfl, hop⟩
  · cases hs with
    | write _ _ hidle =>
        refine ⟨stopped, fun stopped' heq => ?_, w.write_outcome closed op stopped⟩
        cases heq
        rfl
    | other _ _ hother => cases hother
  · cases hs with
    | resumeWrite _ _ hresume =>
        obtain ⟨f, hf, houtcome⟩ := h.resumeWrite_outcome hresume
        rw [hop f hf] at houtcome
        exact ⟨f.stopped, nofun, houtcome⟩
    | other _ _ hother => cases hother

theorem requests_silent {calls : List Label} (h : ∀ l ∈ calls, l.isRequest = true) :
    writeResult calls = none ∧ written calls = [] := by
  refine ⟨List.findSome?_eq_none_iff.mpr fun l hl => ?_,
    List.flatMap_eq_nil_iff.mpr fun l hl => ?_⟩
  · have := h l hl
    cases l <;> first | rfl | cases this
  · have := h l hl
    cases l <;> first | rfl | cases this

theorem writeResult_returned {calls : List Label} (h : ∀ l ∈ calls, l.isRequest = true)
    (op : WriteOp) (ec : Option Error) (n : ℕ) :
    writeResult (calls ++ [.writeReturned op ec n]) = some ec := by
  have hnone := (requests_silent h).1
  rw [writeResult] at hnone
  rw [writeResult, List.findSome?_append, hnone]
  rfl

def EchoPc.opReturned (pc : EchoPc) (ec : Option Error) : EchoPc :=
  match pc with
  | .write _ => .writeReturned ec
  | _ => .done ec

theorem Echo.settle_write {op : WriteOp} (hop : e.pc.op = some op) (cell : Cell)
    (os : List Label) :
    e.settle (cell, os) =
      ({ e with
          cell := cell
          pc := ((writeResult os).map e.pc.opReturned).getD e.pc
          awaiting := (writeResult os).isNone }, os.map .stream) := by
  cases hpc : e.pc with
  | write bytes =>
      simp only [Echo.settle, hpc, Option.isNone_map]
      rfl
  | writeEof =>
      simp only [Echo.settle, hpc, Option.isNone_map]
      rfl
  | _ =>
      rw [hpc] at hop
      cases hop

theorem EchoPc.phase_of_op {pc : EchoPc} {op : WriteOp} (h : pc.op = some op) :
    pc.isSubmitted = true ∧ pc.isFresh = false ∧ ∀ ec, (pc.opReturned ec).isFresh = false := by
  cases pc with
  | write bytes => exact ⟨rfl, rfl, fun ec => by cases ec <;> rfl⟩
  | writeEof => exact ⟨rfl, rfl, fun _ => rfl⟩
  | _ => cases h

theorem Echo.Balance.suspend {e' : Echo} {tr' : List EchoLabel} (h : e.Balance tr) {op : WriteOp}
    (hop : e.pc.op = some op)
    (hgo : e.awaiting = true ∨ e.cell.stream.closed = false ∧ e.stopped = false)
    (hpc : e'.pc = e.pc) (hw : written (onStream tr') = written (onStream tr))
    (hr : returned (onStream tr') = returned (onStream tr))
    (hd : delivered (onStream tr') = delivered (onStream tr))
    (heof : e'.cell.stream.read.readEof = e.cell.stream.read.readEof) : e'.Balance tr' := by
  unfold Echo.Balance at h ⊢
  rw [hpc, hw, hr]
  cases he : e.pc with
  | write bytes =>
      rw [he] at h
      exact h
  | writeEof =>
      rw [he] at h
      obtain ⟨hwhole, hall⟩ := h.2 hgo
      exact ⟨h.1, fun _ => ⟨heof.trans hwhole, by rw [hw, hd, hall]⟩⟩
  | _ =>
      rw [he] at hop
      cases hop

/-- A write returns, with an error only if the stream is closed or the token is
stopped. -/
theorem Echo.Balance.finish {e' : Echo} {tr' : List EchoLabel} (h : e.Balance tr) {op : WriteOp}
    (hop : e.pc.op = some op) {ec : Option Error} {n : ℕ} (hpc : e'.pc = e.pc.opReturned ec)
    (hawaiting : e'.awaiting = false)
    (hw : written (onStream tr') = written (onStream tr) ++ op.bytes.take n)
    (hr : returned (onStream tr') = returned (onStream tr))
    (hall : ec = none → op.isComposed = true → n = op.bytes.length)
    (hfailed : ∀ err, ec = some err → e'.cell.stream.closed = false → e'.stopped = false → False) :
    e'.Balance tr' := by
  cases he : e.pc with
  | write bytes =>
      rw [he] at hop hpc
      obtain rfl : .write [bytes] = op := Option.some.inj hop
      have hbytes : (WriteOp.write [bytes]).bytes = bytes := by
        simp [WriteOp.bytes, WriteOp.buffers]
      rw [hbytes] at hw hall
      have hbalance : written (onStream tr) ++ bytes = returned (onStream tr) := by
        rwa [Echo.Balance, he] at h
      cases ec with
      | none =>
          have hn : n = bytes.length := hall rfl rfl
          rw [Echo.Balance, hpc]
          show written (onStream tr') = returned (onStream tr')
          rw [hw, hr, hn, List.take_length, hbalance]
      | some err =>
          refine .leave true hpc ?_ fun hgo => ?_
          · rw [hw, hr, ← hbalance, List.prefix_append_right_inj]
            exact List.take_prefix n bytes
          · rw [hawaiting] at hgo
            obtain ⟨hopen, hstopped⟩ := hgo.resolve_left Bool.false_ne_true
            exact (hfailed err rfl hopen hstopped).elim
  | writeEof =>
      rw [he] at hop hpc
      obtain rfl : .writeEof = op := Option.some.inj hop
      have hbytes : WriteOp.writeEof.bytes = [] := rfl
      rw [hbytes, List.take_nil, List.append_nil] at hw
      rw [Echo.Balance, hpc]
      show written (onStream tr') <+: returned (onStream tr')
      rw [hw, hr]
      exact h.written_prefix
  | _ =>
      rw [he] at hop
      cases hop

theorem Echo.Inv.operates (h : e.Inv tr) {op : WriteOp} (hop : e.pc.op = some op) {a : Action}
    (ha : a = .write op e.stopped ∨ a = .resumeWrite ∧ e.awaiting = true) :
    e.cell.stream.write.Operates op a := by
  rcases ha with rfl | ⟨rfl, -⟩
  · exact .inl ⟨_, rfl⟩
  · exact .inr ⟨rfl, fun f hf => Option.some.inj ((h.writer f hf).2.symm.trans hop)⟩

theorem Echo.Inv.write_settle (h : e.Inv tr) {op : WriteOp} (hop : e.pc.op = some op)
    {a : Action} (ha : a = .write op e.stopped ∨ a = .resumeWrite ∧ e.awaiting = true)
    {cell : Cell} {os : List Label} (hs : e.cell.step a = some (cell, os)) :
    (e.settle (cell, os)).1.Inv (tr ++ (e.settle (cell, os)).2) := by
  obtain ⟨hne, hreadOp, hok, hstops⟩ : a ≠ .submit ∧ a.isRead = false ∧ destinationOk e.cell a ∧
      (e.stopped = false → a.stops = false) := by
    rcases ha with rfl | ⟨rfl, -⟩
    · exact ⟨nofun, rfl, ⟨trivial, trivial⟩, id⟩
    · exact ⟨nofun, rfl, ⟨trivial, trivial⟩, fun _ => rfl⟩
  obtain ⟨hrun, hroomy, hsubmits, hsubmitted, hunstopped⟩ := h.act hs hok hne
  have hstream := (Cell.step_eq_some hs).2.1
  have hwriteStep := Stream.step_write hstream
  obtain ⟨hread, hclosed, hlabels⟩ := Stream.step_frame_read hstream hreadOp
  obtain ⟨hdelivered, hreturned, -⟩ := read_silent hlabels
  obtain ⟨hissub, hnotfresh, hnotfresh'⟩ := EchoPc.phase_of_op hop
  have honce : (submits (tr ++ os.map .stream)).length ≤ 1 := by
    rw [hsubmits]
    exact h.once
  have haccepted : ∃ fields, .submitted fields true ∈ tr ++ os.map .stream := by
    obtain ⟨fields, hmem⟩ := h.accepted hissub
    exact ⟨fields, List.mem_append_left _ hmem⟩
  have hw : written (onStream (tr ++ os.map .stream)) = written (onStream tr) ++ written os := by
    simp
  have hr : returned (onStream (tr ++ os.map .stream)) = returned (onStream tr) := by
    simp [hreturned]
  have hd : delivered (onStream (tr ++ os.map .stream)) = delivered (onStream tr) := by
    simp [hdelivered]
  obtain ⟨stopped, hstopped, houtcome⟩ := hwriteStep.outcome h.sides.2.1 (h.operates hop ha)
  rw [Echo.settle_write hop]
  cases houtcome with
  | suspended f hwriter hfop hopen hrunning hos =>
      obtain ⟨hresult, hwritten⟩ := requests_silent hos
      rw [hresult]
      refine ⟨hrun, hroomy, fun f' hf' => ?_, fun hst => hunstopped (hstops hst) hst, honce,
        fun hfresh => ?_, fun _ => haccepted, ?_⟩
      · obtain rfl : f = f' := Option.some.inj (hwriter.symm.trans hf')
        exact ⟨rfl, by rw [hfop]; exact hop⟩
      · exact absurd (hnotfresh.symm.trans hfresh) Bool.false_ne_true
      · have hgo : e.awaiting = true ∨ e.cell.stream.closed = false ∧ e.stopped = false := by
          rcases ha with rfl | ⟨-, hawaiting⟩
          · exact .inr ⟨hopen, (hstopped e.stopped rfl).trans hrunning⟩
          · exact .inl hawaiting
        rw [hwritten, List.append_nil] at hw
        exact h.balance.suspend hop hgo rfl hw hr hd (congrArg ReadSide.readEof hread)
  | returned calls ec n hcalls hos hidle hec hall =>
      have hwritten := (requests_silent hcalls).2
      have hresult' : writeResult os = some ec := by
        rw [hos]
        exact writeResult_returned hcalls op ec n
      have hwritten' : written os = op.bytes.take n := by
        rw [hos, written_append, hwritten]
        simp [written, Label.writtenBytes]
      rw [hresult']
      refine ⟨hrun, hroomy, fun f' hf' => ?_, fun hst => hunstopped (hstops hst) hst, honce,
        fun hfresh => ?_, fun _ => haccepted, ?_⟩
      · rw [hidle] at hf'
        cases hf'
      · exact absurd ((hnotfresh' ec).symm.trans hfresh) Bool.false_ne_true
      · rw [hwritten'] at hw
        refine h.balance.finish hop rfl rfl hw hr hall fun err herr hopen hstopped => ?_
        -- an error comes from the stream or from the token
        rw [hclosed] at hopen
        rcases hec err herr with hclosed | rfl
        · rw [hopen] at hclosed
          cases hclosed
        · have hmem : .writeReturned op (some .canceled) n ∈ os := by
            rw [hos, herr]
            exact List.mem_append_right _ List.mem_cons_self
          exact ((h.unstopped hstopped).2.step h.sides.2.1 hwriteStep (hstops hstopped)).2 op n hmem

/-! ### The other steps -/

theorem Echo.Inv.enter (h : e.Inv tr) (hpc : e.pc = .start) (response : Response) (eager : Bool) :
    Echo.Inv tr { e with response := response, pc := .enter eager } := by
  have hbalance := h.balance
  rw [Echo.Balance, hpc] at hbalance
  have hfresh := h.fresh (by rw [hpc]; rfl)
  have hidle (f : WriteFrame) (hf : e.cell.stream.write.writer = some f) : False := by
    have hop := (h.writer f hf).2
    rw [hpc] at hop
    cases hop
  cases eager with
  | false =>
      exact ⟨h.run, h.roomy, fun f hf => (hidle f hf).elim, h.unstopped, h.once, fun _ => hfresh,
        nofun, hbalance⟩
  | true =>
      exact ⟨h.run, h.roomy, fun f hf => (hidle f hf).elim, h.unstopped, h.once, fun _ => hfresh,
        nofun, hbalance⟩

theorem Echo.Inv.stop_idle (h : e.Inv tr) : Echo.Inv tr { e with stopped := true } := by
  refine ⟨h.run, h.roomy, h.writer, nofun, h.once, h.fresh, h.accepted, ?_⟩
  have hbalance : Echo.Balance (tr ++ []) { e with stopped := true } :=
    h.balance.quiet rfl rfl rfl rfl id nofun fun hwhole => by rwa [List.append_nil]
  rwa [List.append_nil] at hbalance

theorem Cell.stop_spec {c c' : Cell} {a : Action} {os : List Label}
    (ha : a = .stopRead ∨ a = .stopWrite) (hs : c.step a = some (c', os)) :
    os = [] ∧ c'.stream.closed = c.stream.closed ∧
      c'.stream.read.readEof = c.stream.read.readEof ∧
      ∀ f', c'.stream.write.writer = some f' →
        ∃ f, c.stream.write.writer = some f ∧ f.op = f'.op := by
  have hstream := (Cell.step_eq_some hs).2.1
  rcases ha with rfl | rfl
  · obtain ⟨r, hr, heq⟩ := Option.map_eq_some_iff.mp hstream
    obtain ⟨f, -, rfl⟩ := Option.map_eq_some_iff.mp hr
    rw [Prod.mk.injEq] at heq
    rw [← heq.1, ← heq.2]
    exact ⟨rfl, rfl, rfl, fun f' hf' => ⟨f', hf', rfl⟩⟩
  · obtain ⟨w, hw, heq⟩ := Option.map_eq_some_iff.mp hstream
    obtain ⟨f, hf, rfl⟩ := Option.map_eq_some_iff.mp hw
    rw [Prod.mk.injEq] at heq
    rw [← heq.1, ← heq.2]
    refine ⟨rfl, rfl, rfl, fun f' hf' => ⟨f, hf, ?_⟩⟩
    obtain rfl : { f with stopped := true } = f' := Option.some.inj hf'
    rfl

theorem Echo.Inv.stop_op (h : e.Inv tr) {a : Action} (ha : a = .stopRead ∨ a = .stopWrite)
    {cell : Cell} {os : List Label} (hs : e.cell.step a = some (cell, os)) :
    Echo.Inv (tr ++ os.map .stream) { e with cell := cell, stopped := true } := by
  obtain ⟨hne, hok⟩ : a ≠ .submit ∧ destinationOk e.cell a := by
    rcases ha with rfl | rfl <;> exact ⟨nofun, trivial, trivial⟩
  obtain ⟨hrun, hroomy, hsubmits, hsubmitted, -⟩ := h.act hs hok hne
  obtain ⟨rfl, hclosed, heof, hwriter⟩ := Cell.stop_spec ha hs
  refine ⟨hrun, hroomy, fun f' hf' => ?_, nofun, ?_, ?_, ?_, ?_⟩
  · obtain ⟨f, hf, hop⟩ := hwriter f' hf'
    rw [← hop]
    exact h.writer f hf
  · rw [hsubmits]
    exact h.once
  · intro hfresh
    rw [hsubmits, hsubmitted]
    exact h.fresh hfresh
  · intro hpc
    obtain ⟨fields, hmem⟩ := h.accepted hpc
    exact ⟨fields, List.mem_append_left _ hmem⟩
  · refine h.balance.quiet rfl rfl rfl rfl (fun hopen => hclosed ▸ hopen) nofun fun hwhole => ?_
    exact ⟨heof.trans hwhole.1, by simpa using hwhole.2⟩

/-! ### Runs -/

theorem ReadSide.finishRead_cases {r : ReadSide} {res : ReadResult} {l : Label}
    (hl : l ∈ (r.finishRead res).2) : l = .readReturned res ∨ ∃ k, l = .call k := by
  simp only [ReadSide.finishRead, List.mem_append, List.mem_singleton] at hl
  rcases hl with hl | rfl
  · split at hl
    · rcases List.mem_cons.mp hl with rfl | hl
      · exact .inr ⟨_, rfl⟩
      · exact .inr ⟨_, List.mem_singleton.mp hl⟩
    · cases hl
  · exact .inl rfl

/-- The labels of a read are no callbacks and no writes. -/
theorem ReadSide.Ends.sound {r r' : ReadSide} {os : List Label} (h : r.Ends r' os)
    (pre : List EchoLabel) : AlwaysFrom EchoLabel.Sound pre (os.map .stream) := by
  refine alwaysFrom_of_forall (fun l hl pre => ?_) pre
  obtain ⟨l', hl', rfl⟩ := List.mem_map.mp hl
  cases h with
  | parked f hreader hcopied hos =>
      rw [hos] at hl'
      cases hl'
  | completed res hclean hreader hos =>
      rw [hos] at hl'
      rcases ReadSide.finishRead_cases hl' with rfl | ⟨k, rfl⟩ <;> trivial

/-- The labels of a write, when a `submit` was accepted. -/
theorem WriteSide.Outcome.sound {closed stopped : Bool} {op : WriteOp} {w' : WriteSide}
    {os : List Label} (h : WriteSide.Outcome closed stopped op w' os)
    (haccepted : ∃ fields, .submitted fields true ∈ tr) :
    AlwaysFrom EchoLabel.Sound tr (os.map .stream) := by
  have hrequest {l : Label} (hl : l.isRequest = true) (p : List EchoLabel) :
      EchoLabel.Sound (tr ++ p) (.stream l) := by
    cases l with
    | writeCalled op =>
        obtain ⟨fields, hmem⟩ := haccepted
        exact ⟨fields, List.mem_append_left p hmem⟩
    | call k => trivial
    | _ => cases hl
  refine alwaysFrom_of_split tr fun p l q heq => ?_
  obtain ⟨l', hl, rfl⟩ := List.mem_map.mp (mem_of_split heq)
  cases h with
  | suspended f hwriter hop hopen hrunning hos => exact hrequest (hos l' hl) p
  | returned calls ec n hcalls hos =>
      rw [hos] at hl
      rcases List.mem_append.mp hl with hl | hl
      · exact hrequest (hcalls l' hl) p
      · rw [List.mem_singleton.mp hl]
        trivial

theorem Echo.Inv.read (h : e.Inv tr) {submitted : Bool} (hpc : e.pc = .read submitted)
    {a : Action} (ha : a = .readSome [echoBufferSize] e.stopped ∨ a = .resumeRead) {cell : Cell}
    {os : List Label} (hs : e.cell.step a = some (cell, os)) :
    (e.settle (cell, os)).1.Inv (tr ++ (e.settle (cell, os)).2) ∧
      AlwaysFrom EchoLabel.Sound tr (e.settle (cell, os)).2 := by
  obtain ⟨hop, hstops, hok⟩ : a.isReadOp = true ∧ (e.stopped = false → a.stops = false) ∧
      destinationOk e.cell a := by
    rcases ha with rfl | rfl
    · exact ⟨rfl, id, by simp [destinationOk, Action.HasRoom, Action.FewBuffers, echoBufferSize,
        maxIovec]⟩
    · exact ⟨rfl, fun _ => rfl, trivial, trivial⟩
  have hends := (Stream.step_read (Cell.step_eq_some hs).2.1).ends h.sides.1 hop
  exact ⟨h.read_settle hpc hop hstops hok hs, hends.sound tr⟩

theorem Echo.Inv.write (h : e.Inv tr) {op : WriteOp} (hop : e.pc.op = some op) {a : Action}
    (ha : a = .write op e.stopped ∨ a = .resumeWrite ∧ e.awaiting = true) {cell : Cell}
    {os : List Label} (hs : e.cell.step a = some (cell, os)) :
    (e.settle (cell, os)).1.Inv (tr ++ (e.settle (cell, os)).2) ∧
      AlwaysFrom EchoLabel.Sound tr (e.settle (cell, os)).2 := by
  obtain ⟨stopped, -, houtcome⟩ :=
    (Stream.step_write (Cell.step_eq_some hs).2.1).outcome h.sides.2.1 (h.operates hop ha)
  exact ⟨h.write_settle hop ha hs, houtcome.sound (h.accepted (EchoPc.phase_of_op hop).1)⟩

theorem Echo.Inv.step (h : e.Inv tr) {a : EchoAction} {e' : Echo} {os : List EchoLabel}
    (hs : e.step a = some (e', os)) : e'.Inv (tr ++ os) ∧ AlwaysFrom EchoLabel.Sound tr os := by
  cases Echo.step_moves hs with
  | callback act cell ls hallows hstep =>
      exact ⟨h.callback hallows hstep, h.callback_sound hallows hstep⟩
  | enter accepted hidle hpc =>
      rw [List.append_nil]
      exact ⟨h.enter hpc _ _, trivial⟩
  | submit accepted hidle hpc => exact ⟨h.submit hpc accepted, trivial, trivial⟩
  | read hpc hact hstep => exact h.read hpc hact hstep
  | write hop hact hstep => exact h.write hop hact hstep
  | stopIdle hidle =>
      rw [List.append_nil]
      exact ⟨h.stop_idle, trivial⟩
  | stopOp act cell ls hact hstep =>
      have hact : act = .stopRead ∨ act = .stopWrite := hact.symm.imp And.left And.left
      obtain ⟨rfl, -⟩ := Cell.stop_spec hact hstep
      exact ⟨h.stop_op hact hstep, trivial⟩

end Steps

theorem Echo.inv_run {tr : List EchoLabel} {e : Echo} (run : echoMachine.Run anyStep tr e) :
    e.Inv tr ∧ Always EchoLabel.Sound tr :=
  run.always (fun _ he => Echo.inv_init he) fun _ _ _ _ _ _ h _ hs => h.step hs

/-- There is no data after the end of the request. -/
theorem delivered_after_end {tr pre post : List EchoLabel} (h : Always EchoLabel.Sound tr)
    (htr : tr = pre ++ post) (hended : .readEnded ∈ onStream pre) :
    delivered (onStream tr) = delivered (onStream pre) := by
  have hnone : delivered (onStream post) = [] := by
    refine List.flatMap_eq_nil_iff.mpr fun l hl => ?_
    obtain ⟨w, hw, hwl⟩ := List.mem_filterMap.mp hl
    obtain ⟨p, q, rfl⟩ := List.append_of_mem hw
    have hsound := h (pre ++ p) w q (by rw [htr, List.append_assoc])
    cases w with
    | submitted => cases hwl
    | stream l' =>
        obtain rfl : l' = l := Option.some.inj hwl
        cases l' with
        | delivered data =>
            refine absurd ?_ hsound
            rw [onStream_append]
            exact List.mem_append_left _ hended
        | _ => rfl
  rw [htr, onStream_append, delivered_append, hnone, List.append_nil]

/-- `echo` from end to end, whatever happens to its stream and to its token:
`submit` is called at most once, and every write comes after a `submit` that was
accepted; what nghttp2 is given is at all times the beginning of the body that was
received; and nghttp2 is told that the response ends only when the request has
ended and all of its body has been handed out. -/
theorem echo_end_to_end {tr : List EchoLabel} {e : Echo} (run : echoMachine.Run anyStep tr e) :
    (submits tr).length ≤ 1 ∧
    (∀ pre op post, tr = pre ++ .stream (.writeCalled op) :: post →
      ∃ fields, .submitted fields true ∈ pre) ∧
    pulled (onStream tr) <+: delivered (onStream tr) ∧
    ∀ pre bytes post, tr = pre ++ .stream (.pulled bytes true) :: post →
      .readEnded ∈ onStream pre ∧ pulled (onStream pre) ++ bytes = delivered (onStream tr) := by
  obtain ⟨hinv, hsound⟩ := Echo.inv_run run
  refine ⟨hinv.once, fun pre op post htr => hsound pre _ post htr, hinv.pulled_prefix,
    fun pre bytes post htr => ?_⟩
  obtain ⟨hended, hwhole⟩ := hsound pre _ post htr
  exact ⟨hended, by rw [delivered_after_end hsound htr hended, hwhole]⟩

/-- A request with the header `x-eager-submit`. Its body is echoed in two pieces,
and its end comes while the second one is on its way. -/
theorem echo_end_to_end_of_body :
    ∃ tr e, echoMachine.Run anyStep tr e ∧ submits tr ≠ [] ∧
      ∃ pre post, tr = pre ++ .stream (.pulled [] true) :: post ∧
        pulled (onStream pre) ++ [] = delivered (onStream tr) ∧
        delivered (onStream tr) = [1, 2, 3] := by
  obtain ⟨tr, e, run, hsubmits, hmem, hdelivered⟩ :
      ∃ tr e, echoMachine.Run anyStep tr e ∧ submits tr ≠ [] ∧
        .stream (.pulled [] true) ∈ tr ∧ delivered (onStream tr) = [1, 2, 3] :=
    Machine.run_of_exec ⟨1, rfl⟩
      [.callback (.onHeader (ascii "x-eager-submit") (ascii "1")), .callback (.onData [1, 2, 3]),
        .go false, .go true, .go false, .go false, .callback (.producerCallback 2), .resume,
        .callback .onReadEof, .callback (.producerCallback 9), .resume, .go false, .go false,
        .callback (.producerCallback 9), .resume] (by decide)
  obtain ⟨pre, post, htr⟩ := List.append_of_mem hmem
  exact ⟨tr, e, run, hsubmits, pre, post, htr,
    ((echo_end_to_end run).2.2.2 pre [] post htr).2, hdelivered⟩

end Nghttp2Corosio
