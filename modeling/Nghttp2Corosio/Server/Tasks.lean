import Nghttp2Corosio.Handler.Echo
import Nghttp2Corosio.Runs.Pool

/-!
The coroutines of a server: `accept_loop`, the `run()` of the sessions, and
`handle_request`.

Only their control flow is here, which is all that matters for how they end. What
corosio and capy do is in three rules. An operation that is awaited may always
fail. It suspends its coroutine only under a token that is not stopped. And it
succeeds under a stopped token only if it was suspended before, or if it has no
need to be: the connection is in the backlog, the bytes have been received, there
is room for them in a buffer. `Await.ready` counts how often that can be so before
the object would have to wait for the network again.

What nghttp2 returns and what the peers send is left open altogether.
-/

namespace Nghttp2Corosio

open Async Buffers Runs

/-! ### Operations -/

/-- How an awaited operation goes on: it suspends its coroutine, or it returns. -/
inductive Reply
  | suspends
  | fails
  | succeeds
  deriving DecidableEq, Repr

/-- The operations on an acceptor, or in one direction of a stream. -/
structure Await where
  suspended : Bool := false
  /-- How many operations can succeed without suspending. -/
  ready : ℕ := 0
  deriving DecidableEq, Repr

/-- The reply of an operation, if it is possible under a token that is `stopped` or
not. What is `more` comes in with an operation that was free to wait for it. -/
def Await.reply (a : Await) (stopped : Bool) (more : ℕ) : Reply → Option Await
  | .suspends => if stopped then none else some { a with suspended := true }
  | .fails => some { a with suspended := false }
  | .succeeds =>
      if a.suspended || !stopped then some ⟨false, more⟩
      else if a.ready = 0 then none
      else some ⟨false, a.ready - 1⟩

/-! ### `accept_loop` -/

inductive AcceptPc
  | accept
  | handshake (tls : Await)
  /-- The stream is there, and its session is about to be spawned. -/
  | spawn
  | done
  deriving DecidableEq, Repr

structure AcceptLoop where
  pc : AcceptPc := .accept
  acceptor : Await := {}
  deriving DecidableEq, Repr

inductive AcceptAction
  /-- `accept`, with what the transport of the new connection is like. -/
  | accept (reply : Reply) (more : ℕ) (tls : Await)
  /-- The TLS handshake, with whether it negotiated `h2`. -/
  | handshake (reply : Reply) (h2 : Bool)
  deriving DecidableEq, Repr

/-- Where `accept_loop` goes from `accept`. After an error, the stop token is what
tells the end from another try. -/
def AcceptPc.accepted (tls stopped : Bool) (transport : Await) : Reply → AcceptPc
  | .suspends => .accept
  | .fails => if stopped then .done else .accept
  | .succeeds => if tls then .handshake transport else .spawn

def AcceptPc.shaken (transport : Await) (h2 : Bool) : Reply → AcceptPc
  | .suspends => .handshake transport
  | .fails => .accept
  | .succeeds => if h2 then .spawn else .accept

def AcceptLoop.step (l : AcceptLoop) (tls stopped : Bool) : AcceptAction → Option AcceptLoop
  | .accept reply more transport =>
      if l.pc = .accept then
        (l.acceptor.reply stopped more reply).map fun acceptor =>
          ⟨.accepted tls stopped { transport with suspended := false } reply, acceptor⟩
      else none
  | .handshake reply h2 =>
      match l.pc with
      | .handshake transport =>
          (transport.reply stopped 0 reply).map fun transport =>
            { l with pc := .shaken transport h2 reply }
      | _ => none

/-! ### `Session::Impl::run` -/

/-- A session that has been spawned, up to the end of its `run()`. A loop is `none`
once it has thrown; `when_all` waits for the other one then. -/
structure SessionRun where
  role : Role
  started : Bool := false
  send : Option SendLoop := some (.running [])
  recv : Option RecvLoop := some .starting
  /-- The requests that `nghttp2_session_mem_recv2` has yet to report. -/
  requests : ℕ := 0
  output : Await := {}
  input : Await := {}
  deriving DecidableEq, Repr

inductive RunAction
  | start
  /-- `nghttp2_session_mem_send2` returns. If there is nothing to do, the loop
  `sleeps`, or its wait fails. -/
  | memSend (data : Option Bytes) (wants sleeps : Bool)
  | write (reply : Reply) (more : ℕ)
  | wake (canceled : Bool)
  | startRecv (wants : Bool)
  | read (reply : Reply) (more requests : ℕ)
  | memRecv (failed wants : Bool)
  | throwSend
  | throwRecv
  deriving DecidableEq, Repr

def SendLoop.round (pending : Bytes) (data : Option Bytes) (wants sleeps : Bool) : SendLoop :=
  match data with
  | none => .ended .sendError
  | some data =>
      if 0 < data.length ∧ data.length ≤ pendingCapacity - pending.length then
        .running (pending ++ data)
      else if 0 < pending.length + data.length then .writing (pending ++ data)
      else if !wants then .ended .done
      -- the event has just been cleared, so this wait does not succeed at once
      else if sleeps then .waiting
      else .ended .canceled

def SendLoop.wrote (bytes : Bytes) : Reply → SendLoop
  | .suspends => .writing bytes
  | .fails => .ended .writeError
  | .succeeds => .running []

def RecvLoop.head (wants : Bool) : RecvLoop := if wants then .reading else .ended

def RecvLoop.wasRead : Reply → RecvLoop
  | .suspends => .reading
  | .fails => .ended
  | .succeeds => .receiving

/-- The steps of the two loops. -/
def SessionRun.loop (s : SessionRun) (stopped : Bool) : RunAction → Option SessionRun
  | .start => none
  | .memSend data wants sleeps =>
      match s.send with
      | some (.running pending) =>
          if sleeps && stopped then none
          else some { s with send := some (.round pending data wants sleeps) }
      | _ => none
  | .write reply more =>
      match s.send with
      | some (.writing bytes) =>
          (s.output.reply stopped more reply).map fun output =>
            { s with send := some (.wrote bytes reply), output := output }
      | _ => none
  | .wake canceled =>
      if s.send = some .waiting then
        some { s with send := some (if canceled then .ended .canceled else .running []) }
      else none
  | .startRecv wants =>
      if s.recv = some .starting then some { s with recv := some (.head wants) } else none
  | .read reply more requests =>
      -- only a server is told about requests
      if s.recv = some .reading ∧ (s.role = .client → requests = 0) then
        (s.input.reply stopped more reply).map fun input =>
          { s with recv := some (.wasRead reply), requests := requests, input := input }
      else none
  | .memRecv failed wants =>
      if s.recv = some .receiving then
        some { s with recv := some (if failed then .ended else .head wants), requests := 0 }
      else none
  | .throwSend =>
      match s.send with
      | none | some (.ended _) => none
      | _ => some { s with send := none, output := { s.output with suspended := false } }
  | .throwRecv =>
      match s.recv with
      | none | some .ended => none
      | _ => some { s with recv := none, input := { s.input with suspended := false } }

def SessionRun.step (s : SessionRun) (stopped : Bool) : RunAction → Option SessionRun
  | .start => if s.started then none else some { s with started := true }
  | act => if s.started then s.loop stopped act else none

/-- `when_all` has both loops. -/
def SessionRun.joined (s : SessionRun) : Bool :=
  s.started && (match s.send with
    | none | some (.ended _) => true
    | _ => false) && (match s.recv with
    | none | some .ended => true
    | _ => false)

/-! ### `handle_request` -/

/-- Where `handle_request` is: in the handler `echo`, or in the code for a session
without a handler. -/
inductive HandlerPc
  | echo (pc : EchoPc)
  | submit
  | writeEof
  | done
  deriving DecidableEq, Repr

structure HandleRequest where
  pc : HandlerPc
  suspended : Bool := false
  deriving DecidableEq, Repr

inductive HandlerAction
  | begin (eager : Bool)
  | submitted (ec : Option Error)
  | suspend
  | readReturned (res : ReadResult)
  | writeReturned (ec : Option Error)
  deriving DecidableEq, Repr

def HandleRequest.fresh (handled : Bool) : HandleRequest :=
  ⟨if handled then .echo .start else .submit, false⟩

/-- The operation at `pc` may have to wait for nghttp2. -/
def HandlerPc.awaits : HandlerPc → Bool
  | .echo (.read _) | .echo (.write _) | .echo .writeEof | .writeEof => true
  | _ => false

def HandleRequest.step (h : HandleRequest) (stopped : Bool) :
    HandlerAction → Option HandleRequest
  | .begin eager => if h.pc = .echo .start then some ⟨.echo (.enter eager), false⟩ else none
  | .submitted ec =>
      match h.pc with
      | .echo .submitEager => some ⟨.echo (EchoPc.submitReturned .submitEager ec), false⟩
      | .echo (.submit bytes) => some ⟨.echo (EchoPc.submitReturned (.submit bytes) ec), false⟩
      | .echo .submitLate => some ⟨.echo (EchoPc.submitReturned .submitLate ec), false⟩
      | .submit => some ⟨.writeEof, false⟩
      | _ => none
  | .suspend => if stopped || !h.pc.awaits then none else some { h with suspended := true }
  | .readReturned res =>
      match h.pc with
      | .echo (.read submitted) => some ⟨.echo (.readReturned submitted res), false⟩
      | _ => none
  | .writeReturned ec =>
      match h.pc with
      | .echo (.write _) =>
          -- nghttp2 has to fetch what is written, and the write waits for that
          if ec = none && !h.suspended then none else some ⟨.echo (.writeReturned ec), false⟩
      | .echo .writeEof => some ⟨.echo (.done ec), false⟩
      | .writeEof => some ⟨.done, false⟩
      | _ => none

def HandlerPc.isDone : HandlerPc → Bool
  | .echo (.done _) | .done => true
  | _ => false

/-! ### Tasks -/

inductive Task
  | acceptLoop (l : AcceptLoop)
  | session (s : SessionRun)
  | handler (h : HandleRequest)
  deriving DecidableEq, Repr

inductive TaskAction
  | accept (act : AcceptAction)
  /-- `accept_loop` spawns the `run()` of a new session. -/
  | spawnSession (output input : ℕ)
  | session (act : RunAction)
  /-- `dispatch_request`, in a session with or without a handler. -/
  | dispatch (handled : Bool)
  | handler (act : HandlerAction)
  | returns
  | throws
  /-- `when_all` has the other loop too, and throws what one of them threw. -/
  | rethrows
  deriving DecidableEq, Repr

/-- The action throws a new exception. -/
def TaskAction.raises : TaskAction → Bool
  | .throws | .session .throwSend | .session .throwRecv => true
  | _ => false

def Task.mayReturn : Task → Bool
  | .acceptLoop l => l.pc = .done
  | .session s => s.joined && s.send.isSome && s.recv.isSome
  | .handler h => h.pc.isDone

/-- A session throws before its loops begin; what they throw is the matter of
`when_all`. -/
def Task.mayThrow : Task → Bool
  | .acceptLoop l => l.pc ≠ .done
  | .session s => !s.started
  | .handler h => !h.pc.isDone

/-- A coroutine goes on from one operation, or one call of nghttp2, to the next. -/
def Task.step (tls stopped : Bool) : Task → TaskAction → Option (Turn Task)
  | .acceptLoop l, .accept act => (l.step tls stopped act).map fun l => .goes (.acceptLoop l)
  | .acceptLoop l, .spawnSession output input =>
      if l.pc = .spawn then
        some (.spawns (.acceptLoop { l with pc := .accept })
          (.session { role := .server, output := ⟨false, output⟩, input := ⟨false, input⟩ }))
      else none
  | .session s, .session act => (s.step stopped act).map fun s => .goes (.session s)
  | .session s, .dispatch handled =>
      if s.recv = some .receiving ∧ s.requests ≠ 0 then
        some (.spawns (.session { s with requests := s.requests - 1 }) (.handler (.fresh handled)))
      else none
  | .handler h, .handler act => (h.step stopped act).map fun h => .goes (.handler h)
  | t, .returns => if t.mayReturn then some .returns else none
  | t, .throws => if t.mayThrow then some .throws else none
  | .session s, .rethrows =>
      if s.joined && (s.send.isNone || s.recv.isNone) then some .throws else none
  | _, _ => none

end Nghttp2Corosio
