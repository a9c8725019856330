import Nghttp2Corosio.Runs.Machine
import Nghttp2Corosio.Async.Event
import Nghttp2Corosio.Buffers.Sequence

/-!
What the model of a `Stream` has in common between its sides: bytes, error
codes, the operations a caller starts on it, and the labels that record what
happens at its boundary.

A `Stream` bridges the synchronous callbacks of nghttp2 and the coroutines of
the user. Its label trace records both: the callbacks that reached it, what the
data provider handed out, the results with which operations completed, and the
calls the stream itself makes on its session.
-/

namespace Nghttp2Corosio

open Async Buffers Runs

abbrev Bytes := List UInt8

/-- The codes of the errors that operations report. -/
inductive Error
  | eof
  | streamTruncated
  | canceled
  | invalidArgument
  | operationNotPermitted
  deriving DecidableEq, Repr

/-- `max_iovec_`, the number of buffers capy handles at a time. -/
def maxIovec : ℕ := 16

theorem maxIovec_pos : 0 < maxIovec := by decide

/-- The result of a `read_some`: the bytes are those in the caller's buffers,
so the count it reports is their number. -/
structure ReadResult where
  ec : Option Error
  bytes : Bytes
  deriving DecidableEq, Repr

/-- The write operations a caller can have outstanding: `write_some(buffers)`
of a `StreamWriter`; `write(buffers)`, which is `capy::write` over
`write_some`; `write_eof(buffers)` of `Response` and `ClientRequest`;
`write_eof()` without buffers; and `Stream::write_eof(buffers)` itself, which
the public classes only ever call with no buffers. -/
inductive WriteOp
  | writeSome (buffers : List Bytes)
  | write (buffers : List Bytes)
  | writeEofWith (buffers : List Bytes)
  | writeEof
  | streamWriteEof (buffers : List Bytes)
  deriving DecidableEq, Repr

def WriteOp.buffers : WriteOp → List Bytes
  | .writeSome buffers | .write buffers | .writeEofWith buffers | .streamWriteEof buffers =>
      buffers
  | .writeEof => []

def WriteOp.bytes (op : WriteOp) : Bytes := op.buffers.flatten

/-- What `get_response()` hands to its caller, less the body. -/
structure ClientResponse where
  status : ℕ
  contentLength : Option ℕ
  headers : List (Bytes × Bytes)
  deriving DecidableEq, Repr

/-- The calls a `Stream` makes on its session and on nghttp2:
`nghttp2_session_consume_stream`, `nghttp2_session_resume_data` and
`Session::Impl::start_write`. -/
inductive SessionCall
  | consumeStream (n : ℕ)
  | resumeData
  | startWrite
  deriving DecidableEq, Repr

/-- What happens at the boundary of a `Stream`. `delivered`, `readEnded`,
`closed` and `header` are calls of `on_data`, `on_read_eof`, `on_close` and
`on_header_callback`; `pulled` and `deferred` are the two ways in which
`producer_callback` returns; `writeCalled` starts a write operation, and the
three `…Returned` labels complete an operation; `call` is a call that the
stream makes. -/
inductive Label
  | delivered (data : Bytes)
  | readEnded
  | closed
  | header (name value : Bytes)
  | readReturned (r : ReadResult)
  | writeCalled (op : WriteOp)
  | pulled (bytes : Bytes) (eof : Bool)
  | deferred
  | writeReturned (op : WriteOp) (ec : Option Error) (n : ℕ)
  | responseReturned (i : ℕ) (ec : Option Error) (response : ClientResponse)
  | call (c : SessionCall)
  deriving DecidableEq, Repr

/-! ### Whose label it is

Each side of the stream has labels that no other side emits; `closed` and
`startWrite` belong to none of them. -/

def Label.isRead : Label → Bool
  | .delivered _ | .readEnded | .readReturned _ | .call (.consumeStream _) => true
  | _ => false

def Label.isWrite : Label → Bool
  | .writeCalled _ | .pulled _ _ | .deferred | .writeReturned _ _ _ | .call .resumeData => true
  | _ => false

def Label.isHead : Label → Bool
  | .header _ _ | .responseReturned _ _ _ => true
  | _ => false

def Label.OfRead (l : Label) : Prop := l.isRead = true ∨ l = .call .startWrite

def Label.OfWrite (l : Label) : Prop := l.isWrite = true ∨ l = .call .startWrite

theorem Label.OfRead.silent {l : Label} (h : l.OfRead) :
    l.isWrite = false ∧ l.isHead = false ∧ l ≠ .closed := by
  rcases h with h | rfl
  · cases l with
    | call c => cases c <;> simp_all [Label.isRead, Label.isWrite, Label.isHead]
    | _ => simp_all [Label.isRead, Label.isWrite, Label.isHead]
  · exact ⟨rfl, rfl, by simp⟩

theorem Label.OfWrite.silent {l : Label} (h : l.OfWrite) :
    l.isRead = false ∧ l.isHead = false ∧ l ≠ .closed := by
  rcases h with h | rfl
  · cases l with
    | call c => cases c <;> simp_all [Label.isRead, Label.isWrite, Label.isHead]
    | _ => simp_all [Label.isRead, Label.isWrite, Label.isHead]
  · exact ⟨rfl, rfl, by simp⟩

theorem Label.head_silent {l : Label} (h : l.isHead = true) :
    l.isRead = false ∧ l.isWrite = false ∧ l ≠ .closed := by
  cases l <;> simp_all [Label.isRead, Label.isWrite, Label.isHead]

/-! ### Reading a trace

What a trace says about the bytes that went through the stream: those given to
`on_data` and those that `read_some` returned, the credit passed to nghttp2,
the bytes that `producer_callback` copied out and those that the finished write
operations report, and the header fields. All of them in order. -/

def Label.deliveredBytes : Label → Bytes
  | .delivered data => data
  | _ => []

def Label.returnedBytes : Label → Bytes
  | .readReturned r => r.bytes
  | _ => []

def Label.consumedBytes : Label → ℕ
  | .call (.consumeStream n) => n
  | _ => 0

def Label.pulledBytes : Label → Bytes
  | .pulled bytes _ => bytes
  | _ => []

def Label.writtenBytes : Label → Bytes
  | .writeReturned op _ n => op.bytes.take n
  | _ => []

def Label.field : Label → List (Bytes × Bytes)
  | .header name value => [(name, value)]
  | _ => []

def delivered (tr : List Label) : Bytes := tr.flatMap Label.deliveredBytes

def returned (tr : List Label) : Bytes := tr.flatMap Label.returnedBytes

def consumed (tr : List Label) : ℕ := (tr.map Label.consumedBytes).sum

def pulled (tr : List Label) : Bytes := tr.flatMap Label.pulledBytes

def written (tr : List Label) : Bytes := tr.flatMap Label.writtenBytes

def fields (tr : List Label) : List (Bytes × Bytes) := tr.flatMap Label.field

section Trace

variable (tr os : List Label)

@[simp] theorem delivered_append : delivered (tr ++ os) = delivered tr ++ delivered os := by
  simp [delivered]

@[simp] theorem returned_append : returned (tr ++ os) = returned tr ++ returned os := by
  simp [returned]

@[simp] theorem consumed_append : consumed (tr ++ os) = consumed tr + consumed os := by
  simp [consumed]

@[simp] theorem pulled_append : pulled (tr ++ os) = pulled tr ++ pulled os := by
  simp [pulled]

@[simp] theorem written_append : written (tr ++ os) = written tr ++ written os := by
  simp [written]

@[simp] theorem fields_append : fields (tr ++ os) = fields tr ++ fields os := by
  simp [fields]

end Trace

theorem read_silent {os : List Label} (h : ∀ l ∈ os, l.isRead = false) :
    delivered os = [] ∧ returned os = [] ∧ consumed os = 0 := by
  induction os with
  | nil => exact ⟨rfl, rfl, rfl⟩
  | cons l os ih =>
      obtain ⟨hd, hr, hc⟩ := ih fun l' hl' => h l' (List.mem_cons_of_mem l hl')
      have hl := h l List.mem_cons_self
      have hsilent : l.deliveredBytes = [] ∧ l.returnedBytes = [] ∧ l.consumedBytes = 0 := by
        cases l with
        | call c => cases c <;> simp_all [Label.isRead, Label.deliveredBytes,
            Label.returnedBytes, Label.consumedBytes]
        | _ => simp_all [Label.isRead, Label.deliveredBytes, Label.returnedBytes,
            Label.consumedBytes]
      simp only [delivered, returned, consumed, List.flatMap_cons, List.map_cons,
        List.sum_cons] at hd hr hc ⊢
      simp [hd, hr, hc, hsilent]

theorem write_silent {os : List Label} (h : ∀ l ∈ os, l.isWrite = false) :
    pulled os = [] ∧ written os = [] := by
  induction os with
  | nil => exact ⟨rfl, rfl⟩
  | cons l os ih =>
      obtain ⟨hp, hw⟩ := ih fun l' hl' => h l' (List.mem_cons_of_mem l hl')
      have hl := h l List.mem_cons_self
      have hsilent : l.pulledBytes = [] ∧ l.writtenBytes = [] := by
        cases l <;> simp_all [Label.isWrite, Label.pulledBytes, Label.writtenBytes]
      simp only [pulled, written, List.flatMap_cons] at hp hw ⊢
      simp [hp, hw, hsilent]

theorem head_silent {os : List Label} (h : ∀ l ∈ os, l.isHead = false) : fields os = [] := by
  refine List.flatMap_eq_nil_iff.mpr fun l hl => ?_
  have := h l hl
  cases l <;> simp_all [Label.isHead, Label.field]

end Nghttp2Corosio
