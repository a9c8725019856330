import Nghttp2Corosio.Session.State

/-!
A session as a machine.

Its actions are the callbacks of nghttp2, the results with which nghttp2 and the
transport answer the two loops, the resumption of `send_loop`, the stop request
and the teardown of `run()`, and what request handlers and clients do: operations
on the `Stream` objects they hold, `submit_response` and `submit_request`.
`adds` is the number of outputs that nghttp2 queues during an action.

`Session.allows` says when an action is possible. It holds what is assumed of the
environment: the coroutines take turns as described in `Session.State`; nghttp2
opens a stream under an id it has not used before, reports DATA chunks and
HEADERS and DATA frames only on streams it has opened and not after END_STREAM,
calls a data provider only while its stream is not closed, and returns 0 from
`nghttp2_session_mem_send2` only when no output is left.
-/

namespace Nghttp2Corosio

open Async Buffers Runs

inductive SessionAction
  | beginHeaders (id : ℤ) (request : Bool)
  | header (id : ℤ) (name value : Bytes)
  | frameRecv (id : ℤ) (request endStream : Bool)
  | dataChunk (id : ℤ) (data : Bytes) (adds : ℕ)
  | streamClose (id : ℤ)
  | dataSourceRead (a : ℕ) (length : ℕ)
  | memSend (data : Option Bytes) (left : ℕ) (wants : Bool)
  | written (failed : Bool)
  | resumeSend
  | startRecv (wants : Bool) (adds : ℕ)
  | readDone (failed : Bool) (adds : ℕ)
  | memRecv (failed : Bool) (wants : Bool) (adds : ℕ)
  | stop
  | teardown
  | user (a : ℕ) (act : Action) (adds : ℕ)
  | submitResponse (a : ℕ) (accepted : Bool) (adds : ℕ)
  | submitRequest (accepted : Option ℤ) (adds : ℕ)
  deriving DecidableEq, Repr

/-- The actions on a `Stream` object that are not taken by nghttp2. -/
def Action.isUser : Action → Bool
  | .readSome _ _ | .stopRead | .resumeRead | .write _ _ | .stopWrite | .resumeWrite
  | .getResponse _ _ | .stopResponse _ | .resumeResponse _ => true
  | _ => false

def Session.allows (s : Session) : SessionAction → Bool
  | .beginHeaders id request =>
      s.receiving && (!request || decide (s.role = .server ∧ id ∉ s.nghttp2.opened))
  | .header _ _ _ => s.receiving
  | .frameRecv id _ _ | .dataChunk id _ _ =>
      s.receiving && decide (id ∈ s.nghttp2.opened ∧ id ∉ s.nghttp2.ended)
  | .streamClose _ => s.receiving || s.sending
  | .dataSourceRead a _ =>
      s.sending && (s.cells a).all fun c => decide (c.stream.id ∉ s.nghttp2.closed)
  | .memSend data left _ => s.sending && decide (data = some [] → left = 0)
  | .memRecv _ _ _ => s.receiving
  | .written _ | .resumeSend | .startRecv _ _ | .readDone _ _ | .teardown => s.idle
  | .stop => !s.sending
  | .user _ act _ => !s.sending && act.isUser
  | .submitResponse _ _ _ => !s.sending
  | .submitRequest accepted _ =>
      !s.sending && accepted.all fun id => decide (id ∉ s.nghttp2.opened)

/-! ### Callbacks -/

/-- Only a request makes a `Stream` object. nghttp2 may know other streams, such
as those that a server pushes. -/
def Session.onBeginHeaders (s : Session) (id : ℤ) (request : Bool) : Session :=
  if request then s.createStream id
  else { s with nghttp2 := { s.nghttp2 with opened := s.nghttp2.opened.insert id } }

def Session.onHeader (s : Session) (id : ℤ) (name value : Bytes) :
    Option (Session × List SessionLabel) :=
  match s.findStream id with
  | none => some (s, [])
  | some a => s.act a (.onHeader name value) 0

/-- A HEADERS or DATA frame is complete. The handler that `dispatch_request`
spawns acts on its own. -/
def Session.onFrameRecv (s : Session) (id : ℤ) (request endStream : Bool) :
    Option (Session × List SessionLabel) :=
  let dispatched := if request then (s.findStream id).toList.map .dispatched else []
  -- a handler is dispatched before the end of the body is announced
  if endStream then
    let s := { s with nghttp2 := { s.nghttp2 with ended := id :: s.nghttp2.ended } }
    match s.findStream id with
    | none => some (s, .frame id true :: dispatched)
    | some a => (s.act a .onReadEof 0).map fun (s, os) => (s, .frame id true :: dispatched ++ os)
  else some (s, .frame id false :: dispatched)

/-- The connection is credited at once, the stream when its reader has read. -/
def Session.onDataChunkRecv (s : Session) (id : ℤ) (data : Bytes) (adds : ℕ) :
    Option (Session × List SessionLabel) :=
  let s :=
    { s with
      nghttp2 := (s.nghttp2.receive id data.length).consumeConnection data.length adds }
  match s.findStream id with
  | none => some (s, [.chunk id data])
  | some a => (s.act a (.onData data) 0).map fun (s, os) => (s, .chunk id data :: os)

def Session.onStreamClose (s : Session) (id : ℤ) : Option (Session × List SessionLabel) :=
  Session.closeStream { s with nghttp2 := { s.nghttp2 with closed := id :: s.nghttp2.closed } } id

/-! ### The loops -/

/-- What `pending.reserve` reserves. -/
def pendingCapacity : ℕ := 1460

/-- One round of `send_loop`, from the return of `nghttp2_session_mem_send2` to
the next call or to where the loop is suspended. -/
def Session.sendRound (s : Session) (pending : Bytes) (data : Option Bytes) (wants : Bool) :
    Session :=
  match data with
  | none => { s with sendLoop := .ended .sendError }
  | some data =>
      -- what fits into the accumulator is buffered, and nghttp2 is asked for more
      if 0 < data.length ∧ data.length ≤ pendingCapacity - pending.length then
        { s with sendLoop := .running (pending ++ data) }
      -- else everything there is, buffered or new, is written in one go
      else if 0 < pending.length + data.length then
        { s with sendLoop := .writing (pending ++ data) }
      else if !wants then { s with sendLoop := .ended .done }
      else
        -- `clear` and `wait` with no suspension point since `mem_send2` returned 0
        let (ev, suspended) := s.writeReady.clearWait () s.stopped
        { s with
          writeReady := ev
          sendLoop := if suspended then .waiting else .ended .canceled }

def Session.memSend (s : Session) (data : Option Bytes) (left : ℕ) (wants : Bool) :
    Option (Session × List SessionLabel) :=
  match s.sendLoop with
  | .running pending =>
      some (Session.sendRound { s with nghttp2 := s.nghttp2.memSend data left } pending data wants,
        [.memSend data])
  | _ => none

def Session.written (s : Session) (failed : Bool) : Option (Session × List SessionLabel) :=
  match s.sendLoop with
  | .writing bytes =>
      if failed then some ({ s with sendLoop := .ended .writeError }, [])
      else some ({ s with sendLoop := .running [] }, [.transmitted bytes])
  | _ => none

def Session.resumeSend (s : Session) : Option (Session × List SessionLabel) :=
  match s.sendLoop, s.writeReady.waiter () with
  | .waiting, .posted wake =>
      some ({ s with
        writeReady := s.writeReady.resume ()
        sendLoop := match wake with
          | .signalled => .running []
          | .canceled => .ended .canceled }, [])
  | _, _ => none

def Session.finishRecv (s : Session) (adds : ℕ) : Session × List SessionLabel :=
  let (s, os) := s.terminate adds
  ({ s.startWrite with recvLoop := .ended }, os)

def Session.recvHead (s : Session) (wants : Bool) (adds : ℕ) : Session × List SessionLabel :=
  if wants then ({ s with recvLoop := .reading }, []) else s.finishRecv adds

def Session.startRecv (s : Session) (wants : Bool) (adds : ℕ) :
    Option (Session × List SessionLabel) :=
  if s.recvLoop = .starting then some (s.recvHead wants adds) else none

def Session.readDone (s : Session) (failed : Bool) (adds : ℕ) :
    Option (Session × List SessionLabel) :=
  if s.recvLoop = .reading then
    if failed then some (s.finishRecv adds) else some ({ s with recvLoop := .receiving }, [])
  else none

def Session.memRecv (s : Session) (failed : Bool) (wants : Bool) (adds : ℕ) :
    Session × List SessionLabel :=
  let s := { s with nghttp2 := s.nghttp2.call adds }
  if failed then
    -- terminated with PROTOCOL_ERROR here, and once more where the loop ends
    let (s, os) := s.terminate adds
    let (s, os') := s.startWrite.finishRecv adds
    (s, os ++ os')
  else s.startWrite.recvHead wants adds

def Session.stop (s : Session) : Session :=
  { s with stopped := true, writeReady := s.writeReady.stop () }

/-- The loop with which `run()` ends: every stream that is still registered is
closed. -/
def Session.closeAll (s : Session) : List ℕ → Option (Session × List SessionLabel)
  | [] => some (s, [])
  | a :: as => (s.act a .onClose 0).bind fun (s, os) =>
      (s.closeAll as).map fun (s, os') => (s, os ++ os')

def SendLoop.isEnded : SendLoop → Bool
  | .ended _ => true
  | _ => false

/-- Both loops have ended; `run()` tears the session down. -/
def Session.teardown (s : Session) : Option (Session × List SessionLabel) :=
  if s.sendLoop.isEnded ∧ s.recvLoop = .ended ∧ s.finished = false then
    -- `std::exchange`: the registry is empty before the first stream is closed
    Session.closeAll { s with streams := ∅, finished := true } (s.streams.entries.map Sigma.snd)
  else none

/-! ### Handlers and clients -/

/-- `submit_response`, which hands nghttp2 the data provider of the stream. -/
def Session.submitResponse (s : Session) (a : ℕ) (accepted : Bool) (adds : ℕ) :
    Option (Session × List SessionLabel) :=
  if accepted then
    (s.act a .submit 0).map fun (s, os) =>
      (Session.startWrite { s with nghttp2 := s.nghttp2.call adds },
        os ++ [.responseSubmitted a none])
  else some (s, [.responseSubmitted a (some .invalidArgument)])

/-- `submit_request`; `accepted` is the id that nghttp2 assigns, `none` if it
refuses. -/
def Session.submitRequest (s : Session) (accepted : Option ℤ) (adds : ℕ) :
    Session × List SessionLabel :=
  if s.role ≠ .client then (s, [.requestSubmitted (some .operationNotPermitted) none])
  else
    match accepted with
    | none => (s, [.requestSubmitted (some .invalidArgument) none])
    | some id =>
        -- neither `stopped` nor `finished` is looked at
        (Session.startWrite (Session.register { s with nghttp2 := s.nghttp2.call adds } id true),
          [.requestSubmitted none (some s.next)])

/-! ### The machine -/

def Session.perform (s : Session) : SessionAction → Option (Session × List SessionLabel)
  | .beginHeaders id request => some (s.onBeginHeaders id request, [])
  | .header id name value => s.onHeader id name value
  | .frameRecv id request endStream => s.onFrameRecv id request endStream
  | .dataChunk id data adds => s.onDataChunkRecv id data adds
  | .streamClose id => s.onStreamClose id
  | .dataSourceRead a length => s.act a (.producerCallback length) 0
  | .memSend data left wants => s.memSend data left wants
  | .written failed => s.written failed
  | .resumeSend => s.resumeSend
  | .startRecv wants adds => s.startRecv wants adds
  | .readDone failed adds => s.readDone failed adds
  | .memRecv failed wants adds => some (s.memRecv failed wants adds)
  | .stop => some (s.stop, [])
  | .teardown => s.teardown
  | .user a act adds => s.act a act adds
  | .submitResponse a accepted adds => s.submitResponse a accepted adds
  | .submitRequest accepted adds => some (s.submitRequest accepted adds)

def Session.step (s : Session) (e : SessionAction) : Option (Session × List SessionLabel) :=
  if s.allows e then s.perform e else none

def sessionMachine : Machine Session SessionAction SessionLabel where
  init s := ∃ role, s = Session.fresh role
  step := Session.step

theorem sessionMachine_init (role : Role) : sessionMachine.init (Session.fresh role) := ⟨role, rfl⟩

theorem Session.step_eq_some {s s' : Session} {e : SessionAction} {os : List SessionLabel}
    (h : s.step e = some (s', os)) : s.allows e = true ∧ s.perform e = some (s', os) := by
  unfold Session.step at h
  split at h
  · exact ⟨‹_›, h⟩
  · cases h

end Nghttp2Corosio
