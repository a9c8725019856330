import Nghttp2Corosio.Runs.Heap
import Nghttp2Corosio.Stream.Cell

/-!
The state of a `Session::Impl`: the registry `streams_`, the two loops, the
`Stream` objects, and what nghttp2 knows.

A `Stream` object is shared between the registry, nghttp2's data provider and
the readers and writers that users hold, and outlives its registration. So the
objects live in a heap, and the registry maps stream ids to places in it.

nghttp2 is not part of the program. Of its state the model keeps what the
session's correctness rests on: how much output is pending and whether a call
that may have added to it was made since the last `nghttp2_session_mem_send2`,
which stream ids are in use, ended by the peer or closed, and how many bytes of
DATA were received and consumed.
-/

namespace Nghttp2Corosio

open Async Buffers Runs

inductive Role
  | server
  | client
  deriving DecidableEq, Repr

/-- How `send_loop` came to its end: `nghttp2_session_mem_send2` failed, the
transport failed, nghttp2 wants neither to read nor to write, or a stop was
requested. -/
inductive SendEnd
  | sendError
  | writeError
  | done
  | canceled
  deriving DecidableEq, Repr

/-- `send_loop` runs with some output accumulated in `pending`, or is suspended
in a write to the transport or in `write_ready_.wait()`, or has ended. -/
inductive SendLoop
  | running (pending : Bytes)
  | writing (bytes : Bytes)
  | waiting
  | ended (why : SendEnd)
  deriving DecidableEq, Repr

inductive RecvLoop
  | starting
  | reading
  | receiving
  | ended
  deriving DecidableEq, Repr

/-- What nghttp2 knows about its streams: the ids it has opened, those on which
END_STREAM was received, those it has closed, and its flow control counters. -/
structure Nghttp2Streams where
  opened : List ℤ := []
  ended : List ℤ := []
  closed : List ℤ := []
  received : ℤ → ℕ := fun _ => 0
  consumed : ℤ → ℕ := fun _ => 0
  connReceived : ℕ := 0
  connConsumed : ℕ := 0

structure Nghttp2 extends Nghttp2Streams where
  output : ℕ := 0
  /-- The last `nghttp2_session_mem_send2` call returned 0. -/
  drained : Bool := false
  /-- A call that may add output was made since then. -/
  touched : Bool := false

def Nghttp2.call (n : Nghttp2) (adds : ℕ) : Nghttp2 :=
  { n with output := n.output + adds, touched := true }

def Nghttp2.consumeStream (n : Nghttp2) (id : ℤ) (k adds : ℕ) : Nghttp2 :=
  { n.call adds with consumed := Function.update n.consumed id (n.consumed id + k) }

def Nghttp2.consumeConnection (n : Nghttp2) (k adds : ℕ) : Nghttp2 :=
  { n.call adds with connConsumed := n.connConsumed + k }

def Nghttp2.receive (n : Nghttp2) (id : ℤ) (k : ℕ) : Nghttp2 :=
  { n with
    received := Function.update n.received id (n.received id + k)
    connReceived := n.connReceived + k }

/-- `nghttp2_session_mem_send2` returns `data`, an error if `none`, and leaves
`left` outputs. -/
def Nghttp2.memSend (n : Nghttp2) (data : Option Bytes) (left : ℕ) : Nghttp2 :=
  { n with output := left, drained := decide (data = some []), touched := false }

/-- `streams_`, with the place of the `Stream` object for its pointer. -/
abbrev Registry := AList fun _ : ℤ => ℕ

/-- `unordered_map::emplace`: an entry that exists is kept. -/
def Registry.emplace (r : Registry) (id : ℤ) (a : ℕ) : Registry :=
  if id ∈ r then r else r.insert id a

structure Table where
  cells : ℕ → Option Cell := fun _ => none
  next : ℕ := 0
  streams : Registry := ∅
  /-- `run()` is past its teardown loop. -/
  finished : Bool := false

structure Session extends Table where
  role : Role
  requestCounter : ℕ := 0
  writeReady : Event Unit := {}
  sendLoop : SendLoop := .running []
  recvLoop : RecvLoop := .starting
  stopped : Bool := false
  nghttp2 : Nghttp2 := {}

/-- `run()` has created the nghttp2 session, submitted SETTINGS, and starts
`send_loop`. -/
def Session.fresh (role : Role) : Session :=
  { role := role, nghttp2 := { output := 1, touched := true } }

/-- What happens at the boundary of a session: the labels of its streams, the
DATA chunks and the HEADERS and DATA frames that are received, the requests
that are dispatched to a handler, the results of `submit_response` and
`submit_request`, the end of input, and what `send_loop` gets from nghttp2 and
gives to the transport. -/
inductive SessionLabel
  | stream (a : ℕ) (l : Label)
  | chunk (id : ℤ) (data : Bytes)
  | frame (id : ℤ) (endStream : Bool)
  | dispatched (a : ℕ)
  | responseSubmitted (a : ℕ) (ec : Option Error)
  | requestSubmitted (ec : Option Error) (a : Option ℕ)
  | terminated
  | memSend (data : Option Bytes)
  | transmitted (bytes : Bytes)
  deriving DecidableEq, Repr

def SessionLabel.ofStream : SessionLabel → Option (ℕ × Label)
  | .stream a l => some (a, l)
  | _ => none

theorem SessionLabel.ofStream_stream (a : ℕ) (l : Label) :
    (SessionLabel.stream a l).ofStream = some (a, l) := rfl

def onCell (a : ℕ) (tr : List SessionLabel) : List Label := project SessionLabel.ofStream a tr

@[simp] theorem onCell_append (a : ℕ) (tr os : List SessionLabel) :
    onCell a (tr ++ os) = onCell a tr ++ onCell a os :=
  project_append _ _ _ _

theorem onCell_map_stream (a : ℕ) (ls : List Label) : onCell a (ls.map (.stream a)) = ls :=
  project_emit SessionLabel.ofStream_stream a ls

theorem onCell_map_stream_of_ne {a b : ℕ} (h : a ≠ b) (ls : List Label) :
    onCell b (ls.map (.stream a)) = [] :=
  project_emit_of_ne SessionLabel.ofStream_stream h ls

theorem mem_onCell {a : ℕ} {l : Label} {tr : List SessionLabel} :
    l ∈ onCell a tr ↔ .stream a l ∈ tr := by
  rw [onCell, mem_project]
  constructor
  · rintro ⟨w, hw, htag⟩
    cases w <;> simp_all [SessionLabel.ofStream]
  · exact fun h => ⟨_, h, rfl⟩

/-! ### Who has the processor

The coroutines of a session share one thread and run without preemption. While
`send_loop` runs, or nghttp2 is in `nghttp2_session_mem_send2`, nothing else
does. While nghttp2 is in `nghttp2_session_mem_recv2`, its callbacks run, and
with them the request handlers that they start. -/

def Session.sending (s : Session) : Bool :=
  match s.sendLoop with
  | .running _ => true
  | _ => false

def Session.receiving (s : Session) : Bool := decide (s.recvLoop = .receiving)

/-- The scheduler decides what is next. -/
def Session.idle (s : Session) : Bool := !s.sending && !s.receiving

/-! ### Operations of the session -/

def Session.startWrite (s : Session) : Session := { s with writeReady := s.writeReady.set }

def Session.findStream (s : Session) (id : ℤ) : Option ℕ := s.streams.lookup id

def Session.observe (id : ℤ) (adds : ℕ) (s : Session) : Label → Session
  | .call (.consumeStream k) => { s with nghttp2 := s.nghttp2.consumeStream id k adds }
  | .call .resumeData => { s with nghttp2 := s.nghttp2.call adds }
  | .call .startWrite => s.startWrite
  | _ => s

def Session.act (s : Session) (a : ℕ) (act : Action) (adds : ℕ) :
    Option (Session × List SessionLabel) :=
  (s.cells a).bind fun c => (c.step act).map fun (c', os) =>
    (os.foldl (Session.observe c.stream.id adds)
      { s with cells := Function.update s.cells a (some c') }, os.map (.stream a))

def Session.register (s : Session) (id : ℤ) (submitted : Bool) : Session :=
  { s with
    cells := Function.update s.cells s.next (some (Cell.fresh id submitted))
    next := s.next + 1
    streams := s.streams.emplace id s.next
    nghttp2 := { s.nghttp2 with opened := id :: s.nghttp2.opened } }

def Session.createStream (s : Session) (id : ℤ) : Session :=
  { s.register id false with requestCounter := s.requestCounter + 1 }

/-- `close_stream`: wake everything that is suspended, then drop the entry. -/
def Session.closeStream (s : Session) (id : ℤ) : Option (Session × List SessionLabel) :=
  match s.findStream id with
  | none => some (s, [])
  | some a => (s.act a .onClose 0).map fun (s, os) => ({ s with streams := s.streams.erase id }, os)

def Session.terminate (s : Session) (adds : ℕ) : Session × List SessionLabel :=
  ({ s with nghttp2 := s.nghttp2.call adds }, [.terminated])

end Nghttp2Corosio
