import Nghttp2Corosio.Session.Credit
import Nghttp2Corosio.Session.EndOfBody
import Nghttp2Corosio.Flow.Mux

/-!
Two sessions at the ends of one connection.

Each end is a session with all of its streams, used by anybody in any way the
interface allows. Between them is what nghttp2 does with DATA frames, taken from
its documentation as the source relies on it. What a data provider hands out
becomes a DATA frame, which goes over the connection behind those that were there
before. It arrives at the other end in one or more chunks, followed by
`on_frame_recv_callback`. A provider is called only while it is attached and not
deferred, and for no more than the windows of the stream and of the connection
allow. The windows follow what the receiving session passes to
`nghttp2_session_consume_connection` and `nghttp2_session_consume_stream`. The
callbacks of a stream stop when nghttp2 has closed it; frames that arrive later
are ignored, and credited to the connection by nghttp2 itself.

HEADERS frames are not on the wire here, so that a session may be told about
headers at any time. Both ends always submit a data provider, so END_STREAM comes
with DATA.
-/

namespace Nghttp2Corosio

open Async Buffers Flow Runs

def Role.peer : Role → Role
  | .client => .server
  | .server => .client

structure Connection where
  session : Role → Session
  /-- What is on its way to an end. -/
  toward : Role → Mux ℤ UInt8

inductive ConnectionLabel
  | session (r : Role) (l : SessionLabel)
  | sent (r : Role) (f : Frame ℤ UInt8)
  deriving DecidableEq, Repr

/-- A step of one of the sessions, a frame that an end ignores, and WINDOW_UPDATE
frames for what goes toward an end. -/
inductive ConnectionAction
  | session (r : Role) (e : SessionAction)
  | ignore (r : Role) (id : ℤ)
  | credit (r : Role) (id : ℤ) (a : CreditAction)
  deriving DecidableEq, Repr

/-- The DATA frame that nghttp2 makes of what a stream hands out. -/
def Label.frame (id : ℤ) : Label → Option (Frame ℤ UInt8)
  | .pulled bytes eof => some ⟨id, bytes, eof⟩
  | _ => none

def Session.frame (s : Session) : SessionLabel → Option (Frame ℤ UInt8)
  | .stream a l => (s.cells a).bind fun c => l.frame c.stream.id
  | _ => none

/-- What arrives for an end leads to a callback; `none` if nothing that arrives
does. -/
def arrives (m : Mux ℤ UInt8) : SessionAction → Option (Mux ℤ UInt8)
  | .dataChunk id data _ => m.deliver id data
  | .frameRecv id request true => if request then none else m.finish id true
  -- a HEADERS frame, or a DATA frame that is complete
  | .frameRecv id _ false => some ((m.finish id false).getD m)
  | _ => some m

/-- What nghttp2 may do at an end. -/
def Connection.admits (c : Connection) (r : Role) : SessionAction → Bool
  | .beginHeaders id request =>
      !request || decide (id ∈ (c.session r.peer).nghttp2.opened)
  | .header id _ _ | .frameRecv id _ _ | .dataChunk id _ _ =>
      decide (id ∉ (c.session r).nghttp2.closed)
  | .dataSourceRead a length => ((c.session r).cells a).all fun x =>
      x.provider.attached && !x.provider.deferred &&
        decide (length ≤ (c.toward r.peer).room x.stream.id)
  | _ => true

def Connection.act (c : Connection) (r : Role) (e : SessionAction) :
    Option (Connection × List ConnectionLabel) :=
  if c.admits r e then
    (arrives (c.toward r) e).bind fun m => ((c.session r).step e).map fun (s, os) =>
      let n := (c.session r).nghttp2
      let frames := os.filterMap (c.session r).frame
      let received := m.consume (s.nghttp2.connConsumed - n.connConsumed) fun id =>
        s.nghttp2.consumed id - n.consumed id
      ({ session := Function.update c.session r s
         toward := Function.update (Function.update c.toward r received) r.peer
          (frames.foldl Mux.send (c.toward r.peer)) },
        os.map (.session r) ++ frames.map (.sent r))
  else none

section

variable (limits : Role → Limits)

def Connection.step (c : Connection) : ConnectionAction →
    Option (Connection × List ConnectionLabel)
  | .session r e => c.act r e
  | .ignore r id =>
      if id ∈ (c.session r).nghttp2.closed then
        ((c.toward r).ignore id).map fun m =>
          ({ c with toward := Function.update c.toward r m }, [])
      else none
  | .credit r id a => ((c.toward r).credit (limits r) id a).map fun m =>
      ({ c with toward := Function.update c.toward r m }, [])

def Connection.fresh : Connection where
  session := Session.fresh
  toward r := Mux.fresh (limits r)

def connectionMachine : Machine Connection ConnectionAction ConnectionLabel where
  init c := c = Connection.fresh limits
  step := Connection.step limits

end

/-! ### Reading a trace -/

def ConnectionLabel.ofSession : ConnectionLabel → Option (Role × SessionLabel)
  | .session r l => some (r, l)
  | .sent _ _ => none

def ConnectionLabel.ofSent : ConnectionLabel → Option (Role × Frame ℤ UInt8)
  | .session _ _ => none
  | .sent r f => some (r, f)

/-- What happened at an end. -/
def atEnd (r : Role) (tr : List ConnectionLabel) : List SessionLabel :=
  project ConnectionLabel.ofSession r tr

def sentBy (r : Role) (tr : List ConnectionLabel) : List (Frame ℤ UInt8) :=
  project ConnectionLabel.ofSent r tr

def dataIn (id : ℤ) (cs : List (ℤ × Bytes)) : Bytes :=
  cs.flatMap fun c => if c.1 = id then c.2 else []

section Trace

variable (r : Role) (tr ls : List ConnectionLabel) (os : List SessionLabel)
  (fs : List (Frame ℤ UInt8))

@[simp] theorem atEnd_append : atEnd r (tr ++ ls) = atEnd r tr ++ atEnd r ls :=
  project_append ..

@[simp] theorem sentBy_append : sentBy r (tr ++ ls) = sentBy r tr ++ sentBy r ls :=
  project_append ..

theorem Role.peer_ne : r.peer ≠ r := by
  cases r <;> decide

theorem Role.peer_peer : r.peer.peer = r := by
  cases r <;> rfl

theorem Role.eq_or_peer (r' : Role) : r' = r ∨ r' = r.peer := by
  cases r' <;> cases r <;> simp [Role.peer]

theorem ConnectionLabel.ofSession_session (l : SessionLabel) :
    (ConnectionLabel.session r l).ofSession = some (r, l) := rfl

theorem ConnectionLabel.ofSent_sent (f : Frame ℤ UInt8) :
    (ConnectionLabel.sent r f).ofSent = some (r, f) := rfl

theorem atEnd_map_sent (r' : Role) : atEnd r' (fs.map (.sent r)) = [] := by
  refine project_untagged (fun w hw => ?_) r'
  obtain ⟨f, -, rfl⟩ := List.mem_map.mp hw
  rfl

theorem sentBy_map_session (r' : Role) : sentBy r' (os.map (.session r)) = [] := by
  refine project_untagged (fun w hw => ?_) r'
  obtain ⟨l, -, rfl⟩ := List.mem_map.mp hw
  rfl

/-! A step of an end is seen at that end only. -/

theorem atEnd_step : atEnd r (os.map (.session r) ++ fs.map (.sent r)) = os := by
  rw [atEnd_append, atEnd_map_sent, List.append_nil]
  exact project_emit ConnectionLabel.ofSession_session r os

theorem sentBy_step : sentBy r (os.map (.session r) ++ fs.map (.sent r)) = fs := by
  rw [sentBy_append, sentBy_map_session, List.nil_append]
  exact project_emit ConnectionLabel.ofSent_sent r fs

theorem atEnd_peer_step : atEnd r.peer (os.map (.session r) ++ fs.map (.sent r)) = [] := by
  rw [atEnd_append, atEnd_map_sent, List.append_nil]
  exact project_emit_of_ne ConnectionLabel.ofSession_session (Ne.symm r.peer_ne) os

theorem sentBy_peer_step : sentBy r.peer (os.map (.session r) ++ fs.map (.sent r)) = [] := by
  rw [sentBy_append, sentBy_map_session, List.nil_append]
  exact project_emit_of_ne ConnectionLabel.ofSent_sent (Ne.symm r.peer_ne) fs

end Trace

/-! ### What a step can do -/

inductive Connection.Moves (limits : Role → Limits) (c : Connection) :
    ConnectionAction → Connection → List ConnectionLabel → Prop
  | session (r : Role) (e : SessionAction) (m received sent : Mux ℤ UInt8) (s : Session)
      (os : List SessionLabel) (frames : List (Frame ℤ UInt8)) (hadmits : c.admits r e = true)
      (harrives : arrives (c.toward r) e = some m) (hstep : (c.session r).step e = some (s, os))
      (hframes : frames = os.filterMap (c.session r).frame)
      (hreceived : received =
        m.consume (s.nghttp2.connConsumed - (c.session r).nghttp2.connConsumed) fun id =>
          s.nghttp2.consumed id - (c.session r).nghttp2.consumed id)
      (hsent : sent = frames.foldl Mux.send (c.toward r.peer)) :
      Moves limits c (.session r e)
        { session := Function.update c.session r s
          toward := Function.update (Function.update c.toward r received) r.peer sent }
        (os.map (.session r) ++ frames.map (.sent r))
  | ignore (r : Role) (id : ℤ) (m : Mux ℤ UInt8) (hclosed : id ∈ (c.session r).nghttp2.closed)
      (hignore : (c.toward r).ignore id = some m) :
      Moves limits c (.ignore r id) { c with toward := Function.update c.toward r m } []
  | credit (r : Role) (id : ℤ) (a : CreditAction) (m : Mux ℤ UInt8)
      (hcredit : (c.toward r).credit (limits r) id a = some m) :
      Moves limits c (.credit r id a) { c with toward := Function.update c.toward r m } []

theorem Connection.step_moves {limits : Role → Limits} {c c' : Connection}
    {a : ConnectionAction} {ls : List ConnectionLabel} (h : c.step limits a = some (c', ls)) :
    Connection.Moves limits c a c' ls := by
  cases a with
  | session r e =>
      simp only [Connection.step, Connection.act] at h
      split at h
      · rename_i hadmits
        obtain ⟨m, harrives, h⟩ := Option.bind_eq_some_iff.mp h
        obtain ⟨⟨s, os⟩, hstep, heq⟩ := Option.map_eq_some_iff.mp h
        cases heq
        exact .session r e m _ _ s os _ hadmits harrives hstep rfl rfl rfl
      · cases h
  | ignore r id =>
      simp only [Connection.step] at h
      split at h
      · rename_i hclosed
        obtain ⟨m, hignore, heq⟩ := Option.map_eq_some_iff.mp h
        cases heq
        exact .ignore r id m hclosed hignore
      · cases h
  | credit r id a =>
      obtain ⟨m, hcredit, heq⟩ := Option.map_eq_some_iff.mp h
      cases heq
      exact .credit r id a m hcredit

end Nghttp2Corosio
