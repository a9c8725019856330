import Nghttp2Corosio.Stream.Read
import Nghttp2Corosio.Stream.Write
import Nghttp2Corosio.Stream.Head

/-!
One `Stream` as a machine.

A `Cell` is a `Stream` object, with the coroutines suspended in it, and what
nghttp2 keeps about the stream's data provider. Its actions are the callbacks
of nghttp2, the calls of users, stop requests, and the resumptions that have
been posted. They may come in any order: nothing is assumed about the peer or
about the scheduler. The guards are only these. At most one `read_some` and at
most one write operation are outstanding, and a `get_response()` call has its
own number; a coroutine is resumed only when its resumption has been posted;
nghttp2 asks the provider for at least one byte, and only after it has been
given the provider.
-/

namespace Nghttp2Corosio

open Async Buffers Runs

structure Stream where
  id : ℤ := 0
  closed : Bool := false
  head : Head := {}
  read : ReadSide := {}
  write : WriteSide := {}

/-- nghttp2's view of the data provider of a stream: whether it was submitted,
whether it is still attached, and whether it is deferred until
`nghttp2_session_resume_data`. -/
structure Provider where
  submitted : Bool := false
  attached : Bool := false
  deferred : Bool := false
  deriving DecidableEq

/-- The provider follows what happens at the boundary of the stream: it is
deferred from a callback that says so to the next callback or the next
`nghttp2_session_resume_data`, and detached by a callback that ends the body. -/
def Provider.observe (p : Provider) : Label → Provider
  | .deferred => { p with deferred := true }
  | .call .resumeData => { p with deferred := false }
  | .pulled _ eof => { p with attached := p.attached && !eof, deferred := false }
  | .closed => { p with attached := false }
  | _ => p

structure Cell where
  stream : Stream := {}
  provider : Provider := {}

inductive Action
  | onData (data : Bytes)
  | onReadEof
  | onClose
  | onHeader (name value : Bytes)
  | submit
  | producerCallback (length : ℕ)
  | readSome (sizes : List ℕ) (stopped : Bool)
  | stopRead
  | resumeRead
  | write (op : WriteOp) (stopped : Bool)
  | stopWrite
  | resumeWrite
  | getResponse (i : ℕ) (stopped : Bool)
  | stopResponse (i : ℕ)
  | resumeResponse (i : ℕ)
  deriving DecidableEq, Repr

def Stream.onClose (s : Stream) : Stream :=
  { s with
    closed := true
    head := s.head.onClose
    read := s.read.onClose
    write := s.write.onClose }

/-- The effect of an action on the stream, `none` if it is not enabled. -/
def Stream.step (s : Stream) : Action → Option (Stream × List Label)
  | .onData data => some ({ s with read := s.read.onData data }, [.delivered data])
  | .onReadEof => some ({ s with read := s.read.onReadEof }, [.readEnded])
  | .onClose => some (s.onClose, [.closed])
  | .onHeader name value =>
      some ({ s with head := s.head.onHeader name value }, [.header name value])
  | .submit => some (s, [])
  | .producerCallback length =>
      let (w, os) := s.write.producerCallback length
      some ({ s with write := w }, os)
  | .readSome sizes stopped =>
      if s.read.reader.isSome then none
      else
        let (r, os) := s.read.readSome s.closed sizes stopped
        some ({ s with read := r }, os)
  | .stopRead => s.read.stopRead.map fun r => ({ s with read := r }, [])
  | .resumeRead => (s.read.resumeRead s.closed).map fun (r, os) => ({ s with read := r }, os)
  | .write op stopped =>
      if s.write.writer.isSome then none
      else
        let (w, os) := s.write.write s.closed op stopped
        some ({ s with write := w }, os)
  | .stopWrite => s.write.stopWrite.map fun w => ({ s with write := w }, [])
  | .resumeWrite => (s.write.resumeWrite s.closed).map fun (w, os) => ({ s with write := w }, os)
  | .getResponse i stopped =>
      if s.head.statusReady.waiter i = .idle then
        let (h, os) := s.head.getResponse i stopped
        some ({ s with head := h }, os)
      else none
  | .stopResponse i => some ({ s with head := s.head.stopResponse i }, [])
  | .resumeResponse i =>
      (s.head.resumeResponse s.read.eofError i).map fun (h, os) => ({ s with head := h }, os)

/-- The action is possible for nghttp2, as far as it is one of nghttp2's. -/
def Provider.allows (p : Provider) : Action → Bool
  | .submit => !p.submitted
  | .producerCallback length => p.submitted && 0 < length
  | _ => true

def Provider.act (p : Provider) : Action → Provider
  | .submit => { submitted := true, attached := true, deferred := false }
  | _ => p

def Cell.step (c : Cell) (a : Action) : Option (Cell × List Label) :=
  if c.provider.allows a then
    (c.stream.step a).map fun (s, os) => (⟨s, os.foldl Provider.observe (c.provider.act a)⟩, os)
  else none

/-- A stream that nothing has happened to: the one that `create_stream` makes
on a server, or, with its provider submitted, the one that `submit_request`
registers on a client. -/
def Cell.fresh (id : ℤ) (submitted : Bool) : Cell :=
  ⟨{ id := id }, ⟨submitted, submitted, false⟩⟩

def cellMachine : Machine Cell Action Label where
  init c := ∃ id submitted, c = Cell.fresh id submitted
  step := Cell.step

theorem cellMachine_init (id : ℤ) (submitted : Bool) :
    cellMachine.init (Cell.fresh id submitted) := ⟨id, submitted, rfl⟩

/-! ### What a step can do -/

theorem Provider.length_pos {p : Provider} {length : ℕ}
    (h : p.allows (.producerCallback length) = true) : 0 < length := by
  simp only [Provider.allows, Bool.and_eq_true, decide_eq_true_eq] at h
  exact h.2

theorem Cell.step_eq_some {c c' : Cell} {a : Action} {os : List Label}
    (h : c.step a = some (c', os)) :
    c.provider.allows a = true ∧ c.stream.step a = some (c'.stream, os) ∧
      c'.provider = os.foldl Provider.observe (c.provider.act a) := by
  unfold Cell.step at h
  split at h
  · rename_i hallows
    obtain ⟨⟨s, os'⟩, hs, heq⟩ := Option.map_eq_some_iff.mp h
    simp only [Prod.mk.injEq] at heq
    obtain ⟨rfl, rfl⟩ := heq
    exact ⟨hallows, hs, rfl⟩
  · cases h

/-! A call is possible when no call of its kind is outstanding; nghttp2 may call
the provider at any time. -/

theorem Stream.step_readSome_eq_some {s s' : Stream} {sizes : List ℕ} {stopped : Bool}
    {os : List Label} (h : s.step (.readSome sizes stopped) = some (s', os)) :
    s.read.reader = none ∧ s' = { s with read := (s.read.readSome s.closed sizes stopped).1 } ∧
      os = (s.read.readSome s.closed sizes stopped).2 := by
  simp only [Stream.step] at h
  split at h
  · cases h
  · rename_i hidle
    rw [Option.some.injEq, Prod.mk.injEq] at h
    exact ⟨by simpa using hidle, h.1.symm, h.2.symm⟩

theorem Stream.step_write_eq_some {s s' : Stream} {op : WriteOp} {stopped : Bool}
    {os : List Label} (h : s.step (.write op stopped) = some (s', os)) :
    s.write.writer = none ∧ s' = { s with write := (s.write.write s.closed op stopped).1 } ∧
      os = (s.write.write s.closed op stopped).2 := by
  simp only [Stream.step] at h
  split at h
  · cases h
  · rename_i hidle
    rw [Option.some.injEq, Prod.mk.injEq] at h
    exact ⟨by simpa using hidle, h.1.symm, h.2.symm⟩

theorem Stream.step_getResponse_eq_some {s s' : Stream} {i : ℕ} {stopped : Bool}
    {os : List Label} (h : s.step (.getResponse i stopped) = some (s', os)) :
    s.head.statusReady.waiter i = .idle ∧
      s' = { s with head := (s.head.getResponse i stopped).1 } ∧
      os = (s.head.getResponse i stopped).2 := by
  simp only [Stream.step] at h
  split at h
  · rename_i hidle
    rw [Option.some.injEq, Prod.mk.injEq] at h
    exact ⟨hidle, h.1.symm, h.2.symm⟩
  · cases h

theorem Stream.step_producerCallback_eq_some {s s' : Stream} {length : ℕ} {os : List Label}
    (h : s.step (.producerCallback length) = some (s', os)) :
    s' = { s with write := (s.write.producerCallback length).1 } ∧
      os = (s.write.producerCallback length).2 := by
  simp only [Stream.step, Option.some.injEq, Prod.mk.injEq] at h
  exact ⟨h.1.symm, h.2.symm⟩

def Action.isRead : Action → Bool
  | .onData _ | .onReadEof | .onClose | .readSome _ _ | .stopRead | .resumeRead => true
  | _ => false

def Action.isWrite : Action → Bool
  | .onClose | .producerCallback _ | .write _ _ | .stopWrite | .resumeWrite => true
  | _ => false

def Action.isHead : Action → Bool
  | .onClose | .onHeader _ _ | .getResponse _ _ | .stopResponse _ | .resumeResponse _ => true
  | _ => false

theorem Stream.step_of_isWrite {s s' : Stream} {a : Action} {os : List Label}
    (h : s.step a = some (s', os)) (ha : a.isWrite = true) (hclose : a ≠ .onClose) :
    s' = { s with write := s'.write } ∧ ∀ l ∈ os, l.OfWrite := by
  cases a with
  | producerCallback length =>
      obtain ⟨rfl, rfl⟩ := Stream.step_producerCallback_eq_some h
      exact ⟨rfl, WriteSide.producerCallback_labels _ _⟩
  | write op stopped =>
      obtain ⟨-, rfl, rfl⟩ := Stream.step_write_eq_some h
      exact ⟨rfl, WriteSide.write_labels _ _ _ _⟩
  | stopWrite =>
      obtain ⟨w, -, heq⟩ := Option.map_eq_some_iff.mp h
      cases heq
      exact ⟨rfl, by simp⟩
  | resumeWrite =>
      obtain ⟨⟨w, os'⟩, hw, heq⟩ := Option.map_eq_some_iff.mp h
      cases heq
      exact ⟨rfl, WriteSide.resumeWrite_labels hw⟩
  | onClose => exact absurd rfl hclose
  | _ => cases ha

theorem Stream.step_of_isRead {s s' : Stream} {a : Action} {os : List Label}
    (h : s.step a = some (s', os)) (ha : a.isRead = true) (hclose : a ≠ .onClose) :
    s' = { s with read := s'.read } ∧ ∀ l ∈ os, l.OfRead := by
  cases a with
  | onData data =>
      cases h
      exact ⟨rfl, by simp [Label.OfRead, Label.isRead]⟩
  | onReadEof =>
      cases h
      exact ⟨rfl, by simp [Label.OfRead, Label.isRead]⟩
  | readSome sizes stopped =>
      obtain ⟨-, rfl, rfl⟩ := Stream.step_readSome_eq_some h
      exact ⟨rfl, ReadSide.readSome_labels _ _ _ _⟩
  | stopRead =>
      obtain ⟨r, -, heq⟩ := Option.map_eq_some_iff.mp h
      cases heq
      exact ⟨rfl, by simp⟩
  | resumeRead =>
      obtain ⟨⟨r, os'⟩, hr, heq⟩ := Option.map_eq_some_iff.mp h
      cases heq
      exact ⟨rfl, ReadSide.resumeRead_labels hr⟩
  | onClose => exact absurd rfl hclose
  | _ => cases ha

theorem Stream.step_of_isHead {s s' : Stream} {a : Action} {os : List Label}
    (h : s.step a = some (s', os)) (ha : a.isHead = true) (hclose : a ≠ .onClose) :
    s' = { s with head := s'.head } ∧ ∀ l ∈ os, l.isHead = true := by
  cases a with
  | onHeader name value =>
      cases h
      exact ⟨rfl, by simp [Label.isHead]⟩
  | getResponse i stopped =>
      obtain ⟨-, rfl, rfl⟩ := Stream.step_getResponse_eq_some h
      exact ⟨rfl, Head.getResponse_labels _ _ _⟩
  | stopResponse i =>
      cases h
      exact ⟨rfl, by simp⟩
  | resumeResponse i =>
      obtain ⟨⟨hd, os'⟩, hh, heq⟩ := Option.map_eq_some_iff.mp h
      cases heq
      exact ⟨rfl, Head.resumeResponse_labels hh⟩
  | onClose => exact absurd rfl hclose
  | _ => cases ha

/-! ### What a step does to each side

An action of one side leaves the other sides alone, and its labels say nothing
about them. The three relations below are the steps of the stream as seen from
one side. -/

theorem Stream.step_frame_read {s s' : Stream} {a : Action} {os : List Label}
    (h : s.step a = some (s', os)) (ha : a.isRead = false) :
    s'.read = s.read ∧ s'.closed = s.closed ∧ ∀ l ∈ os, l.isRead = false := by
  rcases hw : a.isWrite with _ | _
  · rcases hh : a.isHead with _ | _
    · cases a <;> simp_all [Action.isRead, Action.isWrite, Action.isHead]
      obtain ⟨rfl, rfl⟩ : s = s' ∧ os = [] := by simpa [Stream.step, eq_comm] using h
      simp
    · obtain ⟨heq, hos⟩ := Stream.step_of_isHead h hh (by rintro rfl; cases ha)
      rw [heq]
      exact ⟨rfl, rfl, fun l hl => (Label.head_silent (hos l hl)).1⟩
  · obtain ⟨heq, hos⟩ := Stream.step_of_isWrite h hw (by rintro rfl; cases ha)
    rw [heq]
    exact ⟨rfl, rfl, fun l hl => (hos l hl).silent.1⟩

theorem Stream.step_frame_write {s s' : Stream} {a : Action} {os : List Label}
    (h : s.step a = some (s', os)) (ha : a.isWrite = false) :
    s'.write = s.write ∧ s'.closed = s.closed ∧ ∀ l ∈ os, l.isWrite = false ∧ l ≠ .closed := by
  rcases hr : a.isRead with _ | _
  · rcases hh : a.isHead with _ | _
    · cases a <;> simp_all [Action.isRead, Action.isWrite, Action.isHead]
      obtain ⟨rfl, rfl⟩ : s = s' ∧ os = [] := by simpa [Stream.step, eq_comm] using h
      simp
    · obtain ⟨heq, hos⟩ := Stream.step_of_isHead h hh (by rintro rfl; cases ha)
      rw [heq]
      exact ⟨rfl, rfl, fun l hl => (Label.head_silent (hos l hl)).2⟩
  · obtain ⟨heq, hos⟩ := Stream.step_of_isRead h hr (by rintro rfl; cases ha)
    rw [heq]
    exact ⟨rfl, rfl, fun l hl => ⟨(hos l hl).silent.1, (hos l hl).silent.2.2⟩⟩

theorem Stream.step_frame_head {s s' : Stream} {a : Action} {os : List Label}
    (h : s.step a = some (s', os)) (ha : a.isHead = false) :
    s'.head = s.head ∧ s'.closed = s.closed ∧ ∀ l ∈ os, l.isHead = false := by
  rcases hr : a.isRead with _ | _
  · rcases hw : a.isWrite with _ | _
    · cases a <;> simp_all [Action.isRead, Action.isWrite, Action.isHead]
      obtain ⟨rfl, rfl⟩ : s = s' ∧ os = [] := by simpa [Stream.step, eq_comm] using h
      simp
    · obtain ⟨heq, hos⟩ := Stream.step_of_isWrite h hw (by rintro rfl; cases ha)
      rw [heq]
      exact ⟨rfl, rfl, fun l hl => (hos l hl).silent.2.1⟩
  · obtain ⟨heq, hos⟩ := Stream.step_of_isRead h hr (by rintro rfl; cases ha)
    rw [heq]
    exact ⟨rfl, rfl, fun l hl => (hos l hl).silent.2.1⟩

/-- Only `on_close` closes a stream, and nothing reopens it. -/
theorem Stream.step_closed {s s' : Stream} {a : Action} {os : List Label}
    (h : s.step a = some (s', os)) : s'.closed = (s.closed || decide (a = .onClose)) := by
  by_cases ha : a = .onClose
  · subst ha
    cases h
    simp [Stream.onClose]
  · rw [decide_eq_false ha, Bool.or_false]
    rcases hr : a.isRead with _ | _
    · exact (Stream.step_frame_read h hr).2.1
    · rw [(Stream.step_of_isRead h hr ha).1]

/-- The steps of a stream, seen from its read side. -/
inductive ReadSide.Step (closed : Bool) (r : ReadSide) : Action → List Label → ReadSide → Prop
  | onData (data : Bytes) : Step closed r (.onData data) [.delivered data] (r.onData data)
  | onReadEof : Step closed r .onReadEof [.readEnded] r.onReadEof
  | onClose : Step closed r .onClose [.closed] r.onClose
  | readSome (sizes : List ℕ) (stopped : Bool) (hidle : r.reader = none) :
      Step closed r (.readSome sizes stopped) (r.readSome closed sizes stopped).2
        (r.readSome closed sizes stopped).1
  | stopRead (r' : ReadSide) (hstop : r.stopRead = some r') : Step closed r .stopRead [] r'
  | resumeRead (r' : ReadSide) (os : List Label) (hresume : r.resumeRead closed = some (r', os)) :
      Step closed r .resumeRead os r'
  | other (a : Action) (os : List Label) (ha : a.isRead = false)
      (hos : ∀ l ∈ os, l.isRead = false) : Step closed r a os r

theorem Stream.step_read {s s' : Stream} {a : Action} {os : List Label}
    (h : s.step a = some (s', os)) : s.read.Step s.closed a os s'.read := by
  cases a with
  | onData data =>
      cases h
      exact .onData data
  | onReadEof =>
      cases h
      exact .onReadEof
  | onClose =>
      cases h
      exact .onClose
  | readSome sizes stopped =>
      obtain ⟨hidle, rfl, rfl⟩ := Stream.step_readSome_eq_some h
      exact .readSome sizes stopped hidle
  | stopRead =>
      obtain ⟨r, hr, heq⟩ := Option.map_eq_some_iff.mp h
      cases heq
      exact .stopRead r hr
  | resumeRead =>
      obtain ⟨⟨r, os'⟩, hr, heq⟩ := Option.map_eq_some_iff.mp h
      cases heq
      exact .resumeRead r os hr
  | _ =>
      obtain ⟨heq, -, hos⟩ := Stream.step_frame_read h rfl
      rw [heq]
      exact .other _ os rfl hos

inductive WriteSide.Step (closed : Bool) (w : WriteSide) : Action → List Label → WriteSide → Prop
  | onClose : Step closed w .onClose [.closed] w.onClose
  | producerCallback (length : ℕ) :
      Step closed w (.producerCallback length) (w.producerCallback length).2
        (w.producerCallback length).1
  | write (op : WriteOp) (stopped : Bool) (hidle : w.writer = none) :
      Step closed w (.write op stopped) (w.write closed op stopped).2
        (w.write closed op stopped).1
  | stopWrite (w' : WriteSide) (hstop : w.stopWrite = some w') : Step closed w .stopWrite [] w'
  | resumeWrite (w' : WriteSide) (os : List Label)
      (hresume : w.resumeWrite closed = some (w', os)) : Step closed w .resumeWrite os w'
  | other (a : Action) (os : List Label) (ha : a.isWrite = false)
      (hos : ∀ l ∈ os, l.isWrite = false ∧ l ≠ .closed) : Step closed w a os w

theorem Stream.step_write {s s' : Stream} {a : Action} {os : List Label}
    (h : s.step a = some (s', os)) : s.write.Step s.closed a os s'.write := by
  cases a with
  | onClose =>
      cases h
      exact .onClose
  | producerCallback length =>
      obtain ⟨rfl, rfl⟩ := Stream.step_producerCallback_eq_some h
      exact .producerCallback length
  | write op stopped =>
      obtain ⟨hidle, rfl, rfl⟩ := Stream.step_write_eq_some h
      exact .write op stopped hidle
  | stopWrite =>
      obtain ⟨w, hw, heq⟩ := Option.map_eq_some_iff.mp h
      cases heq
      exact .stopWrite w hw
  | resumeWrite =>
      obtain ⟨⟨w, os'⟩, hw, heq⟩ := Option.map_eq_some_iff.mp h
      cases heq
      exact .resumeWrite w os hw
  | _ =>
      obtain ⟨heq, -, hos⟩ := Stream.step_frame_write h rfl
      rw [heq]
      exact .other _ os rfl hos

inductive Head.Step (eofError : Error) (h : Head) : Action → List Label → Head → Prop
  | onClose : Step eofError h .onClose [.closed] h.onClose
  | onHeader (name value : Bytes) :
      Step eofError h (.onHeader name value) [.header name value] (h.onHeader name value)
  | getResponse (i : ℕ) (stopped : Bool) (hidle : h.statusReady.waiter i = .idle) :
      Step eofError h (.getResponse i stopped) (h.getResponse i stopped).2
        (h.getResponse i stopped).1
  | stopResponse (i : ℕ) : Step eofError h (.stopResponse i) [] (h.stopResponse i)
  | resumeResponse (i : ℕ) (h' : Head) (os : List Label)
      (hresume : h.resumeResponse eofError i = some (h', os)) :
      Step eofError h (.resumeResponse i) os h'
  | other (a : Action) (os : List Label) (ha : a.isHead = false)
      (hos : ∀ l ∈ os, l.isHead = false) : Step eofError h a os h

theorem Stream.step_head {s s' : Stream} {a : Action} {os : List Label}
    (h : s.step a = some (s', os)) : s.head.Step s.read.eofError a os s'.head := by
  cases a with
  | onClose =>
      cases h
      exact .onClose
  | onHeader name value =>
      cases h
      exact .onHeader name value
  | getResponse i stopped =>
      obtain ⟨hidle, rfl, rfl⟩ := Stream.step_getResponse_eq_some h
      exact .getResponse i stopped hidle
  | stopResponse i =>
      cases h
      exact .stopResponse i
  | resumeResponse i =>
      obtain ⟨⟨hd, os'⟩, hh, heq⟩ := Option.map_eq_some_iff.mp h
      cases heq
      exact .resumeResponse i hd os hh
  | _ =>
      obtain ⟨heq, -, hos⟩ := Stream.step_frame_head h rfl
      rw [heq]
      exact .other _ os rfl hos

/-! ### Waking `send_loop`

A stretch of a stream's code that calls nghttp2 also wakes `send_loop`. -/

/-- The labels hold no call at all, or one that wakes `send_loop`. -/
def Poked (os : List Label) : Prop := (∀ l ∈ os, ∀ k, l ≠ .call k) ∨ .call .startWrite ∈ os

theorem Poked.cons {l : Label} {os : List Label} (hl : ∀ k, l ≠ .call k) (h : Poked os) :
    Poked (l :: os) := by
  rcases h with h | h
  · refine .inl fun l' hl' => ?_
    rcases List.mem_cons.mp hl' with rfl | hl'
    · exact hl
    · exact h l' hl'
  · exact .inr (List.mem_cons_of_mem l h)

theorem poked_nil : Poked [] := .inl nofun

theorem poked_of_isHead {os : List Label} (h : ∀ l ∈ os, l.isHead = true) : Poked os := by
  refine .inl fun l hl k => ?_
  rintro rfl
  cases h _ hl

theorem ReadSide.finishRead_poked (r : ReadSide) (res : ReadResult) :
    Poked (r.finishRead res).2 := by
  unfold ReadSide.finishRead
  split
  · exact .inr (by simp)
  · exact .inl (by simp)

theorem ReadSide.parkRead_poked (r : ReadSide) (f : ReadFrame) : Poked (r.parkRead f).2 := by
  unfold ReadSide.parkRead
  cases f.stopped with
  | true => exact ReadSide.finishRead_poked _ _
  | false => exact poked_nil

theorem ReadSide.readSome_poked (r : ReadSide) (closed : Bool) (sizes : List ℕ)
    (stopped : Bool) : Poked (r.readSome closed sizes stopped).2 := by
  simp only [ReadSide.readSome]
  split
  · exact ReadSide.finishRead_poked _ _
  · split
    · exact ReadSide.finishRead_poked _ _
    · exact ReadSide.parkRead_poked _ _

theorem ReadSide.resumeRead_poked {r r' : ReadSide} {closed : Bool} {os : List Label}
    (h : r.resumeRead closed = some (r', os)) : Poked os := by
  obtain ⟨f, w, -, -, ⟨res, heq, -⟩ | ⟨-, -, heq⟩⟩ := ReadSide.resumeRead_eq_some h
  · rw [show os = (ReadSide.finishRead _ res).2 from congrArg Prod.snd heq]
    exact ReadSide.finishRead_poked _ _
  · rw [show os = (ReadSide.parkRead _ f).2 from congrArg Prod.snd heq]
    exact ReadSide.parkRead_poked _ _

theorem WriteSide.proceed_poked (w : WriteSide) (closed : Bool) (op : WriteOp)
    (next : WriteNext) : Poked (w.proceed closed op next).2 := by
  cases next with
  | done n => exact .inl (by simp [WriteSide.proceed])
  | call f =>
      have hpoke : .call .startWrite ∈ w.poke := by simp [WriteSide.poke]
      rw [show w.proceed closed op (.call f) = w.runCall closed f from rfl]
      rcases w.runCall_cases closed f with ⟨-, heq⟩ | ⟨-, -, heq⟩ | ⟨-, -, heq⟩
      · rw [heq]
        exact .inl (by simp)
      · rw [heq]
        exact .inr hpoke
      · rw [heq]
        exact .inr (List.mem_append_left _ hpoke)

theorem WriteSide.resumeWrite_poked {w w' : WriteSide} {closed : Bool} {os : List Label}
    (h : w.resumeWrite closed = some (w', os)) : Poked os := by
  obtain ⟨f, wake, -, -, ⟨-, rfl, -⟩ | ⟨-, heq⟩⟩ := WriteSide.resumeWrite_eq_some h
  · exact .inl (by simp)
  · rw [show os = (WriteSide.proceed _ closed f.op _).2 from congrArg Prod.snd heq]
    exact WriteSide.proceed_poked _ _ _ _

theorem WriteSide.producerCallback_poked (w : WriteSide) (length : ℕ) :
    Poked (w.producerCallback length).2 := by
  rcases w.producerCallback_cases length with
      ⟨-, heq⟩ | ⟨-, bytes, -, ⟨-, heq⟩ | ⟨-, -, heq⟩⟩ <;>
  · rw [heq]
    exact .inl (by simp)

theorem ReadSide.Step.poked {r r' : ReadSide} {closed : Bool} {a : Action} {os : List Label}
    (hs : r.Step closed a os r') (ha : a.isRead = true) : Poked os := by
  cases hs with
  | readSome sizes stopped => exact r.readSome_poked closed sizes stopped
  | resumeRead r' os hresume => exact ReadSide.resumeRead_poked hresume
  | stopRead => exact poked_nil
  | other a os hother => exact absurd ha (by simp [hother])
  | _ => exact .inl (by simp)

theorem WriteSide.Step.poked {w w' : WriteSide} {closed : Bool} {a : Action} {os : List Label}
    (hs : w.Step closed a os w') (ha : a.isWrite = true) : Poked os := by
  cases hs with
  | onClose => exact .inl (by simp)
  | producerCallback length => exact w.producerCallback_poked length
  | write op stopped => exact .cons (by simp) (WriteSide.proceed_poked _ _ _ _)
  | stopWrite => exact poked_nil
  | resumeWrite w' os hresume => exact WriteSide.resumeWrite_poked hresume
  | other a os hother => exact absurd ha (by simp [hother])

theorem Stream.step_poked {s s' : Stream} {a : Action} {os : List Label}
    (h : s.step a = some (s', os)) : Poked os := by
  rcases hr : a.isRead with _ | _
  · rcases hw : a.isWrite with _ | _
    · have hclose : a ≠ .onClose := by
        rintro rfl
        cases hr
      rcases hh : a.isHead with _ | _
      · cases a <;> simp_all [Action.isRead, Action.isWrite, Action.isHead]
        obtain ⟨-, rfl⟩ : s = s' ∧ os = [] := by simpa [Stream.step, eq_comm] using h
        exact poked_nil
      · exact poked_of_isHead (Stream.step_of_isHead h hh hclose).2
    · exact (Stream.step_write h).poked hw
  · exact (Stream.step_read h).poked hr

end Nghttp2Corosio
