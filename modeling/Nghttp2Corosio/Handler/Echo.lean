import Nghttp2Corosio.Session.Message

/-!
The request handler `echo`.

`echo` is a coroutine that awaits one operation after the other. `EchoPc` says
which one is next, and the functions below say where `echo` goes when it returns;
they are the whole of its control flow. `Echo` puts `echo` together with the
`Stream` it serves. What is between two operations takes no time in the source,
as no other coroutine runs there. The model does not use that: whatever else may
happen to the stream may happen between any two operations.

A stop request is for good: once the token is stopped, every operation is started
under a stopped token.
-/

namespace Nghttp2Corosio

open Async Buffers Runs

def Request.hasHeader (r : Request) (name : Bytes) : Bool := r.headers.any fun f => f.1 == name

/-- The operation that `echo` awaits or is about to await. -/
inductive EchoPc
  | start
  | submitEager
  | read (submitted : Bool)
  /-- `submit` before the first `write`, with the bytes that were read. -/
  | submit (bytes : Bytes)
  | write (bytes : Bytes)
  /-- `submit` after a loop that wrote nothing. -/
  | submitLate
  | writeEof
  | done (ec : Option Error)
  deriving DecidableEq, Repr

def EchoPc.enter (eager : Bool) : EchoPc := if eager then .submitEager else .read false

def EchoPc.leave (submitted : Bool) : EchoPc := if submitted then .writeEof else .submitLate

def EchoPc.submitReturned (pc : EchoPc) (ec : Option Error) : EchoPc :=
  match ec, pc with
  | some ec, _ => .done (some ec)
  | none, .submitEager => .read true
  | none, .submit bytes => .write bytes
  | none, .submitLate => .writeEof
  | none, pc => pc

def EchoPc.readReturned (submitted : Bool) (res : ReadResult) : EchoPc :=
  match res.ec with
  | some _ => .leave submitted
  | none => if submitted then .write res.bytes else .submit res.bytes

/-- `write` returns; something was submitted before it. -/
def EchoPc.writeReturned (ec : Option Error) : EchoPc :=
  match ec with
  | some _ => .leave true
  | none => .read true

/-- `sizeof(buffer)` -/
def echoBufferSize : ℕ := 64 * 1024

def EchoPc.op : EchoPc → Option WriteOp
  | .write bytes => some (.write [bytes])
  | .writeEof => some .writeEof
  | _ => none

/-! ### Together with its stream -/

structure Echo where
  cell : Cell
  pc : EchoPc := .start
  /-- The operation at `pc` is suspended. -/
  awaiting : Bool := false
  response : Response := {}
  stopped : Bool := false

/-- What happens at the boundary of `echo` and its stream: the labels of the
stream, and the calls of `submit`. -/
inductive EchoLabel
  | stream (l : Label)
  | submitted (fields : List (Bytes × Bytes)) (accepted : Bool)
  deriving DecidableEq, Repr

/-- The callbacks of nghttp2 on the stream; a step of `echo`, where `accepted`
says what nghttp2 thinks of the response if that is a `submit`; the resumption of
the operation that is suspended; and a stop request. -/
inductive EchoAction
  | callback (act : Action)
  | go (accepted : Bool)
  | resume
  | stop
  deriving DecidableEq, Repr

def Action.isCallback : Action → Bool
  | .onData _ | .onReadEof | .onClose | .onHeader _ _ | .producerCallback _ => true
  | _ => false

/-- A callback is possible. After the end of a body there is no data. -/
def Echo.allows (e : Echo) : Action → Bool
  | .onData _ => !e.cell.stream.read.readEof
  | act => act.isCallback

def readResult (os : List Label) : Option ReadResult :=
  os.findSome? fun
    | .readReturned res => some res
    | _ => none

def writeResult (os : List Label) : Option (Option Error) :=
  os.findSome? fun
    | .writeReturned _ ec _ => some ec
    | _ => none

/-- The operation at `pc` has been started or resumed. If it returned, `echo` goes
on. -/
def Echo.settle (e : Echo) (r : Cell × List Label) : Echo × List EchoLabel :=
  let next := match e.pc with
    | .read submitted => (readResult r.2).map (EchoPc.readReturned submitted)
    | .write _ => (writeResult r.2).map EchoPc.writeReturned
    | .writeEof => (writeResult r.2).map EchoPc.done
    | _ => none
  ({ e with cell := r.1, pc := next.getD e.pc, awaiting := next.isNone }, r.2.map .stream)

/-- `response.submit()`. The provider is handed to nghttp2 without looking at
whether it has one already. -/
def Echo.submit (e : Echo) (accepted : Bool) : Echo × List EchoLabel :=
  let ec := if accepted then none else some .invalidArgument
  let cell := if accepted then { e.cell with provider := e.cell.provider.act .submit } else e.cell
  ({ e with cell := cell, pc := e.pc.submitReturned ec },
    [.submitted (e.response.submit 200 []) accepted])

/-- `echo` awaits the operation at `pc`. -/
def Echo.go (e : Echo) (accepted : Bool) : Option (Echo × List EchoLabel) :=
  match e.pc with
  | .start =>
      let request := e.cell.stream.head.request
      some ({ e with
        response := ⟨request.contentLength⟩
        pc := .enter (request.hasHeader (ascii "x-eager-submit")) }, [])
  | .submitEager | .submit _ | .submitLate => some (e.submit accepted)
  | .read _ => (e.cell.step (.readSome [echoBufferSize] e.stopped)).map e.settle
  | .write bytes => (e.cell.step (.write (.write [bytes]) e.stopped)).map e.settle
  | .writeEof => (e.cell.step (.write .writeEof e.stopped)).map e.settle
  | .done _ => none

def Echo.resume (e : Echo) : Option (Echo × List EchoLabel) :=
  match e.pc with
  | .read _ => (e.cell.step .resumeRead).map e.settle
  | .write _ | .writeEof => (e.cell.step .resumeWrite).map e.settle
  | _ => none

/-- A stop is requested on the token of `echo`, which is that of its operations. -/
def Echo.stop (e : Echo) : Option (Echo × List EchoLabel) :=
  if e.awaiting then
    let act := if e.pc.op.isSome then .stopWrite else .stopRead
    (e.cell.step act).map fun (cell, os) =>
      ({ e with cell := cell, stopped := true }, os.map .stream)
  else some ({ e with stopped := true }, [])

def Echo.step (e : Echo) : EchoAction → Option (Echo × List EchoLabel)
  | .callback act =>
      if e.allows act then
        (e.cell.step act).map fun (cell, os) => ({ e with cell := cell }, os.map .stream)
      else none
  | .go accepted => if e.awaiting then none else e.go accepted
  | .resume => if e.awaiting then e.resume else none
  | .stop => e.stop

/-- `echo` begins with a request on a stream of a server, whose body may have
begun. -/
def echoMachine : Machine Echo EchoAction EchoLabel where
  init e := ∃ id, e = { cell := Cell.fresh id false }
  step := Echo.step

/-! ### What a step can do -/

def EchoPc.isSubmit : EchoPc → Bool
  | .submitEager | .submit _ | .submitLate => true
  | _ => false

/-- The steps of `echo`, one constructor for each way through the code. -/
inductive Echo.Moves (e : Echo) : EchoAction → Echo → List EchoLabel → Prop
  | callback (act : Action) (cell : Cell) (os : List Label) (hallows : e.allows act = true)
      (hstep : e.cell.step act = some (cell, os)) :
      Moves e (.callback act) { e with cell := cell } (os.map .stream)
  | enter (accepted : Bool) (hidle : e.awaiting = false) (hpc : e.pc = .start) :
      Moves e (.go accepted) { e with
        response := ⟨e.cell.stream.head.request.contentLength⟩
        pc := .enter (e.cell.stream.head.request.hasHeader (ascii "x-eager-submit")) } []
  | submit (accepted : Bool) (hidle : e.awaiting = false) (hpc : e.pc.isSubmit = true) :
      Moves e (.go accepted) (e.submit accepted).1 (e.submit accepted).2
  | read {a : EchoAction} {submitted : Bool} {act : Action} {cell : Cell} {os : List Label}
      (hpc : e.pc = .read submitted)
      (hact : act = .readSome [echoBufferSize] e.stopped ∨ act = .resumeRead)
      (hstep : e.cell.step act = some (cell, os)) :
      Moves e a (e.settle (cell, os)).1 (e.settle (cell, os)).2
  | write {a : EchoAction} {op : WriteOp} {act : Action} {cell : Cell} {os : List Label}
      (hop : e.pc.op = some op)
      (hact : act = .write op e.stopped ∨ act = .resumeWrite ∧ e.awaiting = true)
      (hstep : e.cell.step act = some (cell, os)) :
      Moves e a (e.settle (cell, os)).1 (e.settle (cell, os)).2
  | stopIdle (hidle : e.awaiting = false) : Moves e .stop { e with stopped := true } []
  | stopOp (act : Action) (cell : Cell) (os : List Label)
      (hact : act = .stopWrite ∧ e.pc.op.isSome = true ∨ act = .stopRead ∧ e.pc.op = none)
      (hstep : e.cell.step act = some (cell, os)) :
      Moves e .stop { e with cell := cell, stopped := true } (os.map .stream)

section Moves

variable {e e' : Echo} {os : List EchoLabel}

theorem Echo.go_moves {accepted : Bool} (hidle : e.awaiting = false)
    (h : e.go accepted = some (e', os)) : e.Moves (.go accepted) e' os := by
  have hsubmit (hpc : e.pc.isSubmit = true) (heq : some (e.submit accepted) = some (e', os)) :
      e.Moves (.go accepted) e' os := by
    obtain ⟨rfl, rfl⟩ := Prod.ext_iff.mp (Option.some.inj heq)
    exact .submit accepted hidle hpc
  have hwrite {op : WriteOp} (hop : e.pc.op = some op)
      (heq : (e.cell.step (.write op e.stopped)).map e.settle = some (e', os)) :
      e.Moves (.go accepted) e' os := by
    obtain ⟨⟨cell, ls⟩, hstep, heq⟩ := Option.map_eq_some_iff.mp heq
    obtain ⟨rfl, rfl⟩ := Prod.ext_iff.mp heq
    exact .write hop (.inl rfl) hstep
  cases hpc : e.pc with
  | start =>
      simp only [Echo.go, hpc, Option.some.injEq, Prod.mk.injEq] at h
      obtain ⟨rfl, rfl⟩ := h
      exact .enter accepted hidle hpc
  | submitEager =>
      simp only [Echo.go, hpc] at h
      exact hsubmit (by rw [hpc]; rfl) h
  | submit bytes =>
      simp only [Echo.go, hpc] at h
      exact hsubmit (by rw [hpc]; rfl) h
  | submitLate =>
      simp only [Echo.go, hpc] at h
      exact hsubmit (by rw [hpc]; rfl) h
  | read submitted =>
      simp only [Echo.go, hpc] at h
      obtain ⟨⟨cell, ls⟩, hstep, heq⟩ := Option.map_eq_some_iff.mp h
      obtain ⟨rfl, rfl⟩ := Prod.ext_iff.mp heq
      exact .read hpc (.inl rfl) hstep
  | write bytes =>
      simp only [Echo.go, hpc] at h
      exact hwrite (by rw [hpc]; rfl) h
  | writeEof =>
      simp only [Echo.go, hpc] at h
      exact hwrite (by rw [hpc]; rfl) h
  | done ec =>
      simp only [Echo.go, hpc] at h
      cases h

theorem Echo.resume_moves (hawaiting : e.awaiting = true) (h : e.resume = some (e', os)) :
    e.Moves .resume e' os := by
  have hwrite {op : WriteOp} (hop : e.pc.op = some op)
      (heq : (e.cell.step .resumeWrite).map e.settle = some (e', os)) : e.Moves .resume e' os := by
    obtain ⟨⟨cell, ls⟩, hstep, heq⟩ := Option.map_eq_some_iff.mp heq
    obtain ⟨rfl, rfl⟩ := Prod.ext_iff.mp heq
    exact .write hop (.inr ⟨rfl, hawaiting⟩) hstep
  cases hpc : e.pc with
  | read submitted =>
      simp only [Echo.resume, hpc] at h
      obtain ⟨⟨cell, ls⟩, hstep, heq⟩ := Option.map_eq_some_iff.mp h
      obtain ⟨rfl, rfl⟩ := Prod.ext_iff.mp heq
      exact .read hpc (.inr rfl) hstep
  | write bytes =>
      simp only [Echo.resume, hpc] at h
      exact hwrite (by rw [hpc]; rfl) h
  | writeEof =>
      simp only [Echo.resume, hpc] at h
      exact hwrite (by rw [hpc]; rfl) h
  | _ =>
      simp only [Echo.resume, hpc] at h
      cases h

theorem Echo.stop_moves (h : e.stop = some (e', os)) : e.Moves .stop e' os := by
  unfold Echo.stop at h
  split at h
  · obtain ⟨⟨cell, ls⟩, hstep, heq⟩ := Option.map_eq_some_iff.mp h
    simp only [Prod.mk.injEq] at heq
    obtain ⟨rfl, rfl⟩ := heq
    refine .stopOp _ cell ls ?_ hstep
    split
    · rename_i hop
      exact .inl ⟨rfl, hop⟩
    · rename_i hop
      exact .inr ⟨rfl, by simpa using hop⟩
  · rename_i hawaiting
    cases h
    exact .stopIdle (by simpa using hawaiting)

theorem Echo.step_moves {a : EchoAction} (h : e.step a = some (e', os)) : e.Moves a e' os := by
  cases a with
  | callback act =>
      simp only [Echo.step] at h
      split at h
      · rename_i hallows
        obtain ⟨⟨cell, ls⟩, hstep, heq⟩ := Option.map_eq_some_iff.mp h
        simp only [Prod.mk.injEq] at heq
        obtain ⟨rfl, rfl⟩ := heq
        exact .callback act cell ls hallows hstep
      · cases h
  | go accepted =>
      simp only [Echo.step] at h
      split at h
      · cases h
      · rename_i hawaiting
        exact Echo.go_moves (by simpa using hawaiting) h
  | resume =>
      simp only [Echo.step] at h
      split at h
      · rename_i hawaiting
        exact Echo.resume_moves hawaiting h
      · cases h
  | stop => exact Echo.stop_moves h

end Moves

/-! ### Reading a trace -/

def EchoLabel.ofStream : EchoLabel → Option Label
  | .stream l => some l
  | _ => none

def onStream (tr : List EchoLabel) : List Label := tr.filterMap EchoLabel.ofStream

def submits (tr : List EchoLabel) : List EchoLabel := tr.filter fun l => l.ofStream.isNone

@[simp] theorem onStream_append (tr os : List EchoLabel) :
    onStream (tr ++ os) = onStream tr ++ onStream os := by
  simp [onStream]

@[simp] theorem onStream_map (os : List Label) : onStream (os.map .stream) = os := by
  simp [onStream, List.filterMap_map, EchoLabel.ofStream, Function.comp_def]

@[simp] theorem submits_append (tr os : List EchoLabel) :
    submits (tr ++ os) = submits tr ++ submits os := by
  simp [submits]

@[simp] theorem submits_map (os : List Label) : submits (os.map .stream) = [] := by
  simp [submits, EchoLabel.ofStream]

end Nghttp2Corosio
