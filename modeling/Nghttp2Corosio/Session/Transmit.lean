import Nghttp2Corosio.Session.Step

/-!
`send_loop` in detail.

`Session.Step` knows of `send_loop` what the rest of the session can see. Here the
coroutine is taken by itself, with its accumulator `pending`, a `std::vector` that
would reallocate if it had to grow, with the pointers that nghttp2 returns, which
are valid until the next `nghttp2_session_mem_send2` call, and with the rounds of
`capy::write`, in which the transport takes as much as it likes at a time. Its
sizes are those of `std::size_t`, and wrap around.

`Sender.Inv` is what holds along every run: what nghttp2 has returned is what the
transport was given, followed by what the coroutine still holds. At the end,
`Sender.step_refines` says that the coroutine does what the session's model says
it does.
-/

namespace Nghttp2Corosio

open Async Buffers Runs

/-! ### The accumulator -/

/-- A `std::vector<std::uint8_t>`. -/
structure Accumulator where
  bytes : Bytes := []
  capacity : ℕ
  reallocations : ℕ := 0
  deriving DecidableEq, Repr

/-- `capacity() - size()`, in `std::size_t`. -/
def Accumulator.spare (v : Accumulator) : ℕ := (v.capacity + 2 ^ 64 - v.bytes.length) % 2 ^ 64

/-- `insert` at the end. A vector that has to grow moves to a new place. -/
def Accumulator.insert (v : Accumulator) (data : Bytes) : Accumulator :=
  if v.bytes.length + data.length ≤ v.capacity then { v with bytes := v.bytes ++ data }
  else
    { bytes := v.bytes ++ data
      capacity := v.bytes.length + max v.bytes.length data.length
      reallocations := v.reallocations + 1 }

def Accumulator.clear (v : Accumulator) : Accumulator := { v with bytes := [] }

@[simp] theorem Accumulator.clear_bytes (v : Accumulator) : v.clear.bytes = [] := rfl

@[simp] theorem Accumulator.clear_capacity (v : Accumulator) : v.clear.capacity = v.capacity := rfl

@[simp] theorem Accumulator.clear_reallocations (v : Accumulator) :
    v.clear.reallocations = v.reallocations := rfl

theorem Accumulator.spare_eq {v : Accumulator} (hsize : v.bytes.length ≤ v.capacity)
    (hcapacity : v.capacity < 2 ^ 63) : v.spare = v.capacity - v.bytes.length := by
  unfold Accumulator.spare
  omega

theorem Accumulator.insert_eq {v : Accumulator} {data : Bytes}
    (h : v.bytes.length + data.length ≤ v.capacity) :
    v.insert data = { v with bytes := v.bytes ++ data } := if_pos h

/-! ### The coroutine -/

/-- A pointer that `nghttp2_session_mem_send2` has returned: by which call, and to
how many bytes. -/
structure ChunkPtr where
  call : ℕ
  length : ℕ
  deriving DecidableEq, Repr

/-- Where `send_loop` is: between two calls, in `capy::write` of the accumulator
and the chunk, of which `done` bytes are written, in `write_ready_.wait()`, or at
its end. -/
inductive SendPoint
  | running
  | writing (done : ℕ) (chunk : ChunkPtr)
  | waiting
  | ended (why : SendEnd)
  deriving DecidableEq, Repr

structure Sender where
  pending : Accumulator
  point : SendPoint := .running
  calls : ℕ := 0
  /-- What the buffer of nghttp2 holds since the last call. -/
  output : Bytes := []
  deriving DecidableEq, Repr

/-- `pending.reserve(1460)` has given the accumulator its capacity, which may be
larger than what was asked for. -/
def Sender.fresh (capacity : ℕ) : Sender := { pending := { capacity := capacity } }

/-- What is read through the pointer. Only the last call's pointer leads to the
bytes it was returned for. -/
def Sender.load (s : Sender) (chunk : ChunkPtr) : Bytes :=
  if chunk.call = s.calls then s.output.take chunk.length else []

/-- What the two buffers given to `capy::write` hold. -/
def Sender.gather (s : Sender) (chunk : ChunkPtr) : Bytes := s.pending.bytes ++ s.load chunk

inductive SendAction
  | memSend (result : Option Bytes) (wants stopped : Bool)
  | writeSome (n : ℕ)
  | writeFails
  | resume (wake : Wake)
  deriving DecidableEq, Repr

/-- `returned` is a result of `nghttp2_session_mem_send2`, `none` if negative;
`used` says that the pointer which the call with this number has returned is
dereferenced; `sent` are bytes that the transport has taken. -/
inductive SendLabel
  | returned (result : Option Bytes)
  | used (call : ℕ)
  | sent (bytes : Bytes)
  deriving DecidableEq, Repr

/-- `nghttp2_session_mem_send2` returns, and the coroutine goes on to the next
call or to where it is suspended. -/
def Sender.memSend (s : Sender) (result : Option Bytes) (wants stopped : Bool) :
    Sender × List SendLabel :=
  let s := { s with calls := s.calls + 1, output := result.getD [] }
  match result with
  | none => ({ s with point := .ended .sendError }, [.returned none])
  | some data =>
      let chunk : ChunkPtr := ⟨s.calls, data.length⟩
      if 0 < chunk.length ∧ chunk.length ≤ s.pending.spare then
        ({ s with pending := s.pending.insert (s.load chunk), point := .running },
          [.returned (some data), .used chunk.call])
      else if 0 < (s.pending.bytes.length + chunk.length) % 2 ^ 64 then
        ({ s with point := .writing 0 chunk }, [.returned (some data)])
      else if !wants then ({ s with point := .ended .done }, [.returned (some data)])
      else
        ({ s with point := if stopped then .ended .canceled else .waiting },
          [.returned (some data)])

/-- One round of `capy::write`: the transport takes up to `n` of the bytes that are
left. When none is left, the write is complete. -/
def Sender.writeSome (s : Sender) (done : ℕ) (chunk : ChunkPtr) (n : ℕ) :
    Sender × List SendLabel :=
  let bytes := ((s.gather chunk).drop done).take n
  let done := done + bytes.length
  let s :=
    if done < s.pending.bytes.length + chunk.length then { s with point := .writing done chunk }
    else { s with pending := s.pending.clear, point := .running }
  (s, [.used chunk.call, .sent bytes])

/-- `nghttp2_session_mem_send2` returns an `ssize_t`. -/
def SendAction.possible : SendAction → Bool
  | .memSend (some data) _ _ => decide (data.length < 2 ^ 63)
  | _ => true

def Sender.step (s : Sender) (a : SendAction) : Option (Sender × List SendLabel) :=
  if a.possible then
    match s.point, a with
    | .running, .memSend result wants stopped => some (s.memSend result wants stopped)
    | .writing done chunk, .writeSome n => some (s.writeSome done chunk n)
    | .writing _ _, .writeFails =>
        some ({ s with pending := s.pending.clear, point := .ended .writeError }, [])
    | .waiting, .resume .signalled => some ({ s with point := .running }, [])
    | .waiting, .resume .canceled => some ({ s with point := .ended .canceled }, [])
    | _, _ => none
  else none

def sendMachine (capacity : ℕ) : Machine Sender SendAction SendLabel where
  init s := s = Sender.fresh capacity
  step := Sender.step

/-! ### Reading a trace -/

def SendLabel.returnedBytes : SendLabel → Bytes
  | .returned (some data) => data
  | _ => []

def SendLabel.sentBytes : SendLabel → Bytes
  | .sent bytes => bytes
  | _ => []

def SendLabel.isReturned : SendLabel → Bool
  | .returned _ => true
  | _ => false

def returnedChunks (tr : List SendLabel) : Bytes := tr.flatMap SendLabel.returnedBytes

def sentBytes (tr : List SendLabel) : Bytes := tr.flatMap SendLabel.sentBytes

def memSends (tr : List SendLabel) : ℕ := tr.countP SendLabel.isReturned

/-- A pointer is used only before the next call. -/
def SendLabel.Valid (pre : List SendLabel) : SendLabel → Prop
  | .used call => call = memSends pre
  | _ => True

section Trace

variable (tr os : List SendLabel)

@[simp] theorem returnedChunks_append :
    returnedChunks (tr ++ os) = returnedChunks tr ++ returnedChunks os := by
  simp [returnedChunks]

@[simp] theorem sentBytes_append : sentBytes (tr ++ os) = sentBytes tr ++ sentBytes os := by
  simp [sentBytes]

@[simp] theorem memSends_append : memSends (tr ++ os) = memSends tr + memSends os := by
  simp [memSends]

end Trace

/-! ### What a round can do -/

structure Accumulator.Fits (v : Accumulator) : Prop where
  size : v.bytes.length ≤ v.capacity
  capacity : v.capacity < 2 ^ 63

@[simp] theorem Sender.load_last (s : Sender) (data : Bytes) (call : ℕ) (point : SendPoint) :
    Sender.load ⟨s.pending, point, call, data⟩ ⟨call, data.length⟩ = data := by
  simp [Sender.load]

/-- A chunk that fits is buffered, a chunk that does not is written together with
what is buffered, and when there is nothing at all the loop ends or waits. -/
theorem Sender.memSend_cases {s : Sender} (hfits : s.pending.Fits) {data : Bytes}
    (hdata : data.length < 2 ^ 63) (wants stopped : Bool) :
    (0 < data.length ∧ s.pending.bytes.length + data.length ≤ s.pending.capacity ∧
      s.memSend (some data) wants stopped =
        (⟨{ s.pending with bytes := s.pending.bytes ++ data }, .running, s.calls + 1, data⟩,
          [.returned (some data), .used (s.calls + 1)])) ∨
    ((data = [] ∨ s.pending.capacity < s.pending.bytes.length + data.length) ∧
      s.pending.bytes ++ data ≠ [] ∧
      s.memSend (some data) wants stopped =
        (⟨s.pending, .writing 0 ⟨s.calls + 1, data.length⟩, s.calls + 1, data⟩,
          [.returned (some data)])) ∨
    (s.pending.bytes = [] ∧ data = [] ∧
      s.memSend (some data) wants stopped =
        (⟨s.pending, if !wants then .ended .done else if stopped then .ended .canceled else .waiting,
          s.calls + 1, data⟩, [.returned (some data)])) := by
  have hspare := Accumulator.spare_eq hfits.size hfits.capacity
  have hsize := hfits.size
  have hcapacity := hfits.capacity
  unfold Sender.memSend
  dsimp only
  rw [hspare, Option.getD_some]
  split
  · rename_i hbuffer
    refine .inl ⟨hbuffer.1, by omega, ?_⟩
    rw [Sender.load_last, Accumulator.insert_eq (by omega)]
  · rename_i hbig
    rw [Nat.mod_eq_of_lt (by omega)]
    split
    · rename_i hpos
      refine .inr (.inl ⟨?_, ?_, rfl⟩)
      · rcases Nat.eq_zero_or_pos data.length with hzero | hdata
        · exact .inl (List.length_eq_zero_iff.mp hzero)
        · exact .inr (by omega)
      · refine List.ne_nil_of_length_pos ?_
        rw [List.length_append]
        exact hpos
    · rename_i hnone
      refine .inr (.inr ⟨List.length_eq_zero_iff.mp (by omega),
        List.length_eq_zero_iff.mp (by omega), ?_⟩)
      cases wants <;> rfl

/-! ### The invariant -/

/-- What was returned is what was sent and what is still held. -/
def Sender.Holds (tr : List SendLabel) (s : Sender) : Prop :=
  match s.point with
  | .running => returnedChunks tr = sentBytes tr ++ s.pending.bytes
  | .writing done chunk =>
      chunk = ⟨s.calls, s.output.length⟩ ∧
        returnedChunks tr = sentBytes tr ++ (s.pending.bytes ++ s.output).drop done
  | .waiting => s.pending.bytes = [] ∧ returnedChunks tr = sentBytes tr
  | .ended .done => returnedChunks tr = sentBytes tr
  | .ended _ => sentBytes tr <+: returnedChunks tr

structure Sender.Inv (capacity : ℕ) (tr : List SendLabel) (s : Sender) : Prop where
  fits : s.pending.Fits
  capacity_eq : s.pending.capacity = capacity
  kept : s.pending.reallocations = 0
  calls : s.calls = memSends tr
  holds : s.Holds tr

theorem Sender.inv_fresh {capacity : ℕ} (hcapacity : capacity < 2 ^ 63) :
    (Sender.fresh capacity).Inv capacity [] where
  fits := ⟨Nat.zero_le _, hcapacity⟩
  capacity_eq := rfl
  kept := rfl
  calls := rfl
  holds := rfl

theorem Sender.Holds.sent_first {tr : List SendLabel} {s : Sender} (h : s.Holds tr) :
    sentBytes tr <+: returnedChunks tr := by
  unfold Sender.Holds at h
  split at h
  · exact ⟨_, h.symm⟩
  · exact ⟨_, h.2.symm⟩
  · rw [h.2]
  · rw [h]
  · exact h

theorem Sender.Inv.memSend {capacity : ℕ} {tr : List SendLabel} {s : Sender}
    (h : s.Inv capacity tr) (hrun : s.point = .running) {result : Option Bytes}
    (hpossible : ∀ data, result = some data → data.length < 2 ^ 63) (wants stopped : Bool) :
    (s.memSend result wants stopped).1.Inv capacity
        (tr ++ (s.memSend result wants stopped).2) ∧
      AlwaysFrom SendLabel.Valid tr (s.memSend result wants stopped).2 := by
  have hholds : returnedChunks tr = sentBytes tr ++ s.pending.bytes := by
    simpa [Sender.Holds, hrun] using h.holds
  have hcalls := h.calls
  cases result with
  | none =>
      have hreturned : returnedChunks [.returned none] = [] := rfl
      have hsent : sentBytes [.returned none] = [] := rfl
      refine ⟨⟨h.fits, h.capacity_eq, h.kept, ?_, s.pending.bytes, ?_⟩, trivial, trivial⟩
      · rw [show (s.memSend none wants stopped).1.calls = s.calls + 1 from rfl, hcalls]
        exact (memSends_append tr [.returned none]).symm
      · rw [show (s.memSend none wants stopped).2 = [.returned none] from rfl,
          returnedChunks_append, sentBytes_append, hreturned, hsent, hholds]
        simp
  | some data =>
      have hlabels (os : List SendLabel) (hos : os = [.returned (some data)] ∨
          os = [.returned (some data), .used (s.calls + 1)]) :
          returnedChunks os = data ∧ sentBytes os = [] ∧ memSends os = 1 ∧
            AlwaysFrom SendLabel.Valid tr os := by
        rcases hos with rfl | rfl
        · exact ⟨List.append_nil data, rfl, rfl, trivial, trivial⟩
        · refine ⟨by simp [returnedChunks, SendLabel.returnedBytes], rfl, rfl, trivial, ?_, trivial⟩
          rw [SendLabel.Valid, memSends_append, hcalls]
          rfl
      rcases Sender.memSend_cases h.fits (hpossible data rfl) wants stopped with
        ⟨-, hroom, heq⟩ | ⟨-, -, heq⟩ | ⟨hnil, hdata, heq⟩
      · obtain ⟨hreturned, hsent, hcount, hvalid⟩ := hlabels _ (.inr rfl)
        rw [heq]
        refine ⟨⟨⟨?_, h.fits.capacity⟩, h.capacity_eq, h.kept, ?_, ?_⟩, hvalid⟩
        · rw [List.length_append]
          exact hroom
        · rw [memSends_append, hcount, ← hcalls]
        · simp [Sender.Holds, hreturned, hsent, hholds]
      · obtain ⟨hreturned, hsent, hcount, hvalid⟩ := hlabels _ (.inl rfl)
        rw [heq]
        refine ⟨⟨h.fits, h.capacity_eq, h.kept, ?_, ?_⟩, hvalid⟩
        · rw [memSends_append, hcount, ← hcalls]
        · simp [Sender.Holds, hreturned, hsent, hholds]
      · obtain ⟨hreturned, hsent, hcount, hvalid⟩ := hlabels _ (.inl rfl)
        have hall : returnedChunks (tr ++ [.returned (some data)]) =
            sentBytes (tr ++ [.returned (some data)]) := by
          rw [returnedChunks_append, sentBytes_append, hreturned, hsent, hholds, hnil, hdata]
          simp
        rw [heq]
        refine ⟨⟨h.fits, h.capacity_eq, h.kept, ?_, ?_⟩, hvalid⟩
        · rw [memSends_append, hcount, ← hcalls]
        · cases wants with
          | false => exact hall
          | true =>
              cases stopped with
              | false => exact ⟨hnil, hall⟩
              | true =>
                  exact ⟨[], by rw [List.append_nil, ← hall]⟩

theorem Sender.Inv.writeSome {capacity : ℕ} {tr : List SendLabel} {s : Sender}
    (h : s.Inv capacity tr) {done : ℕ} {chunk : ChunkPtr} (hpoint : s.point = .writing done chunk)
    (n : ℕ) :
    (s.writeSome done chunk n).1.Inv capacity (tr ++ (s.writeSome done chunk n).2) ∧
      AlwaysFrom SendLabel.Valid tr (s.writeSome done chunk n).2 := by
  obtain ⟨rfl, hholds⟩ : chunk = ⟨s.calls, s.output.length⟩ ∧
      returnedChunks tr = sentBytes tr ++ (s.pending.bytes ++ s.output).drop done := by
    simpa [Sender.Holds, hpoint] using h.holds
  have hgather : s.gather ⟨s.calls, s.output.length⟩ = s.pending.bytes ++ s.output := by
    simp [Sender.gather, Sender.load]
  have hcalls := h.calls
  unfold Sender.writeSome
  rw [hgather]
  generalize hbytes : ((s.pending.bytes ++ s.output).drop done).take n = bytes
  have hleft : (s.pending.bytes ++ s.output).drop done =
      bytes ++ (s.pending.bytes ++ s.output).drop (done + bytes.length) := by
    have htaken : bytes <+: (s.pending.bytes ++ s.output).drop done := by
      rw [← hbytes]
      exact List.take_prefix n _
    rw [← List.drop_drop, List.prefix_iff_eq_append.mp htaken]
  have hreturned : returnedChunks [.used s.calls, .sent bytes] = [] := rfl
  have hsent : sentBytes [.used s.calls, .sent bytes] = bytes := List.append_nil bytes
  have hcount : memSends [.used s.calls, .sent bytes] = 0 := rfl
  refine ⟨?_, hcalls, trivial, trivial⟩
  dsimp only
  split
  · refine ⟨h.fits, h.capacity_eq, h.kept, ?_, rfl, ?_⟩
    · rw [memSends_append, hcount, Nat.add_zero, ← hcalls]
    · rw [returnedChunks_append, sentBytes_append, hreturned, hsent, hholds, hleft]
      simp
  · rename_i hend
    refine ⟨⟨Nat.zero_le _, h.fits.capacity⟩, h.capacity_eq, h.kept, ?_, ?_⟩
    · rw [memSends_append, hcount, Nat.add_zero, ← hcalls]
    · have hnone : (s.pending.bytes ++ s.output).drop (done + bytes.length) = [] := by
        rw [List.drop_eq_nil_iff, List.length_append]
        omega
      simp [Sender.Holds, hreturned, hsent, hholds, hleft, hnone]

theorem Sender.step_cases {s s' : Sender} {a : SendAction} {os : List SendLabel}
    (hs : s.step a = some (s', os)) :
    (∃ result wants stopped, a = .memSend result wants stopped ∧ s.point = .running ∧
      (∀ data, result = some data → data.length < 2 ^ 63) ∧
      (s', os) = s.memSend result wants stopped) ∨
    (∃ done chunk n, a = .writeSome n ∧ s.point = .writing done chunk ∧
      (s', os) = s.writeSome done chunk n) ∨
    (∃ done chunk, a = .writeFails ∧ s.point = .writing done chunk ∧ os = [] ∧
      s' = { s with pending := s.pending.clear, point := .ended .writeError }) ∨
    ∃ wake, a = .resume wake ∧ s.point = .waiting ∧ os = [] ∧
      s' = { s with point := match wake with
        | .signalled => .running
        | .canceled => .ended .canceled } := by
  unfold Sender.step at hs
  split at hs
  · rename_i hpossible
    split at hs
    · rename_i result wants stopped hpoint
      refine .inl ⟨result, wants, stopped, rfl, hpoint, ?_, (Option.some.inj hs).symm⟩
      rintro data rfl
      simpa [SendAction.possible] using hpossible
    · rename_i done chunk n hpoint
      exact .inr (.inl ⟨done, chunk, n, rfl, hpoint, (Option.some.inj hs).symm⟩)
    · rename_i done chunk hpoint
      cases hs
      exact .inr (.inr (.inl ⟨done, chunk, rfl, hpoint, rfl, rfl⟩))
    · rename_i hpoint
      cases hs
      exact .inr (.inr (.inr ⟨.signalled, rfl, hpoint, rfl, rfl⟩))
    · rename_i hpoint
      cases hs
      exact .inr (.inr (.inr ⟨.canceled, rfl, hpoint, rfl, rfl⟩))
    · cases hs
  · cases hs

theorem Sender.Inv.step {capacity : ℕ} {tr os : List SendLabel} {s s' : Sender} {a : SendAction}
    (h : s.Inv capacity tr) (hs : s.step a = some (s', os)) :
    s'.Inv capacity (tr ++ os) ∧ AlwaysFrom SendLabel.Valid tr os := by
  rcases Sender.step_cases hs with ⟨result, wants, stopped, -, hrun, hpossible, heq⟩ |
    ⟨done, chunk, n, -, hwrite, heq⟩ | ⟨done, chunk, -, hwrite, rfl, rfl⟩ |
    ⟨wake, -, hwait, rfl, rfl⟩
  · obtain ⟨rfl, rfl⟩ := Prod.mk.inj heq
    exact h.memSend hrun hpossible wants stopped
  · obtain ⟨rfl, rfl⟩ := Prod.mk.inj heq
    exact h.writeSome hwrite n
  · rw [List.append_nil]
    exact ⟨⟨⟨Nat.zero_le _, h.fits.capacity⟩, h.capacity_eq, h.kept, h.calls,
      h.holds.sent_first⟩, trivial⟩
  · rw [List.append_nil]
    obtain ⟨hnil, hall⟩ : s.pending.bytes = [] ∧ returnedChunks tr = sentBytes tr := by
      simpa [Sender.Holds, hwait] using h.holds
    refine ⟨⟨h.fits, h.capacity_eq, h.kept, h.calls, ?_⟩, trivial⟩
    cases wake with
    | signalled => simpa [Sender.Holds, hnil] using hall
    | canceled => exact h.holds.sent_first

/-! ### Runs -/

/-- Along every run of `send_loop`, whatever nghttp2 returns and the transport
takes: the transport is given a prefix of what nghttp2 has returned, and all of it
when the loop waits or has nothing more to do; the accumulator stays within the
capacity it was given, so that it is never moved and the room left in it is what
it should be; and a pointer is used only before the next call of
`nghttp2_session_mem_send2`. -/
theorem send_loop_verbatim {capacity : ℕ} (hcapacity : capacity < 2 ^ 63) {tr : List SendLabel}
    {s : Sender} (run : (sendMachine capacity).Run anyStep tr s) :
    sentBytes tr <+: returnedChunks tr ∧
    (s.point = .waiting ∨ s.point = .ended .done → sentBytes tr = returnedChunks tr) ∧
    (s.pending.bytes.length ≤ capacity ∧ s.pending.capacity = capacity ∧
      s.pending.reallocations = 0 ∧ s.pending.spare = capacity - s.pending.bytes.length) ∧
    Always SendLabel.Valid tr := by
  obtain ⟨hinv, hvalid⟩ : s.Inv capacity tr ∧ Always SendLabel.Valid tr := by
    refine run.always (I := fun tr s => s.Inv capacity tr) ?_ fun tr s a s' os _ h _ hs => h.step hs
    rintro s rfl
    exact Sender.inv_fresh hcapacity
  have hholds := hinv.holds
  refine ⟨hholds.sent_first, fun hpoint => ?_, ⟨?_, hinv.capacity_eq, hinv.kept, ?_⟩, hvalid⟩
  · rcases hpoint with hpoint | hpoint
    · simp only [Sender.Holds, hpoint] at hholds
      exact hholds.2.symm
    · simp only [Sender.Holds, hpoint] at hholds
      exact hholds.symm
  · rw [← hinv.capacity_eq]
    exact hinv.fits.size
  · rw [Accumulator.spare_eq hinv.fits.size hinv.fits.capacity, hinv.capacity_eq]

/-- With room for four bytes: two chunks are buffered, a third does not fit and is
written together with them, in two rounds, and the loop goes to sleep. -/
theorem send_loop_verbatim_of_gather :
    ∃ tr s, (sendMachine 4).Run anyStep tr s ∧ s.point = .waiting ∧
      .sent [1, 2, 3] ∈ tr ∧ returnedChunks tr = [1, 2, 3, 4, 5] ∧
      sentBytes tr = [1, 2, 3, 4, 5] := by
  obtain ⟨tr, s, run, hpoint, hround, hchunks⟩ :
      ∃ tr s, (sendMachine 4).Run anyStep tr s ∧ s.point = .waiting ∧ .sent [1, 2, 3] ∈ tr ∧
        returnedChunks tr = [1, 2, 3, 4, 5] :=
    Machine.run_of_exec (s := Sender.fresh 4) rfl
      [.memSend (some [1]) true false, .memSend (some [2]) true false,
        .memSend (some [3, 4, 5]) true false, .writeSome 3, .writeSome 9,
        .memSend (some []) true false] (by decide)
  have hsent := (send_loop_verbatim (by decide) run).2.1 (.inl hpoint)
  exact ⟨tr, s, run, hpoint, hround, hchunks, hsent.trans hchunks⟩

/-! ### The coroutine and the session -/

/-- Where the session's model has `send_loop`. -/
def Sender.loop (s : Sender) : SendLoop :=
  match s.point with
  | .running => .running s.pending.bytes
  | .writing _ chunk => .writing (s.gather chunk)
  | .waiting => .waiting
  | .ended why => .ended why

/-- A round of the session's `send_loop` is a round of the coroutine. -/
theorem Sender.memSend_refines {s : Sender} (hfits : s.pending.Fits)
    (hcapacity : s.pending.capacity = pendingCapacity) {result : Option Bytes}
    (hpossible : ∀ data, result = some data → data.length < 2 ^ 63) (wants : Bool) (t : Session) :
    (Session.sendRound t s.pending.bytes result wants).sendLoop =
      (s.memSend result wants t.stopped).1.loop := by
  cases result with
  | none => rfl
  | some data =>
      have hsize := hfits.size
      rw [hcapacity] at hsize
      unfold Session.sendRound
      rcases Sender.memSend_cases hfits (hpossible data rfl) wants t.stopped with
        ⟨hpos, hroom, heq⟩ | ⟨hbig, hpos, heq⟩ | ⟨hnil, hdata, heq⟩
      · rw [hcapacity] at hroom
        rw [heq]
        dsimp only
        rw [if_pos ⟨hpos, by omega⟩]
        rfl
      · rw [hcapacity] at hbig
        have hlength := List.length_pos_of_ne_nil hpos
        rw [List.length_append] at hlength
        have hfull : ¬ (0 < data.length ∧
            data.length ≤ pendingCapacity - s.pending.bytes.length) := by
          rcases hbig with rfl | hbig
          · simp
          · omega
        rw [heq]
        dsimp only
        rw [if_neg hfull, if_pos hlength]
        simp [Sender.loop, Sender.gather]
      · rw [heq, hnil, hdata]
        cases wants with
        | false => rfl
        | true => cases t.stopped <;> rfl

/-- Every step of the coroutine is a step of the session's `send_loop`, or leaves
it in its write. The session knows whether a stop was requested and what the
resumption was posted with. -/
theorem Sender.step_refines {tr os : List SendLabel} {s s' : Sender} {a : SendAction}
    {t : Session} (h : s.Inv pendingCapacity tr) (hs : s.step a = some (s', os))
    (hloop : t.sendLoop = s.loop)
    (hstop : ∀ result wants stopped, a = .memSend result wants stopped → stopped = t.stopped)
    (hwake : ∀ wake, a = .resume wake → t.writeReady.waiter () = .posted wake) :
    t.sendLoop = s'.loop ∨
      ∃ e t' os', t.perform e = some (t', os') ∧ t'.sendLoop = s'.loop := by
  rcases Sender.step_cases hs with ⟨result, wants, stopped, rfl, hrun, hpossible, heq⟩ |
    ⟨done, chunk, n, -, hwrite, heq⟩ | ⟨done, chunk, -, hwrite, -, rfl⟩ | ⟨wake, rfl, hwait, -, rfl⟩
  · obtain rfl := hstop result wants stopped rfl
    have hrunning : t.sendLoop = .running s.pending.bytes := by
      rw [hloop, Sender.loop, hrun]
    have hround := Sender.memSend_refines h.fits h.capacity_eq hpossible wants
      { t with nghttp2 := t.nghttp2.memSend result 0 }
    refine .inr ⟨.memSend result 0 wants,
      Session.sendRound { t with nghttp2 := t.nghttp2.memSend result 0 } s.pending.bytes result wants,
      [.memSend result], ?_, ?_⟩
    · simp only [Session.perform, Session.memSend, hrunning]
    · rw [show s' = (s.memSend result wants t.stopped).1 from congrArg Prod.fst heq]
      exact hround
  · have hwriting : t.sendLoop = .writing (s.gather chunk) := by
      rw [hloop, Sender.loop, hwrite]
    rw [show s' = (s.writeSome done chunk n).1 from congrArg Prod.fst heq]
    unfold Sender.writeSome
    dsimp only
    split
    · exact .inl hwriting
    · refine .inr ⟨.written false, { t with sendLoop := .running [] },
        [.transmitted (s.gather chunk)], ?_, rfl⟩
      simp only [Session.perform, Session.written, hwriting]
      rfl
  · have hwriting : t.sendLoop = .writing (s.gather chunk) := by
      rw [hloop, Sender.loop, hwrite]
    refine .inr ⟨.written true, { t with sendLoop := .ended .writeError }, [], ?_, rfl⟩
    simp only [Session.perform, Session.written, hwriting]
    rfl
  · have hwaiting : t.sendLoop = .waiting := by
      rw [hloop, Sender.loop, hwait]
    have hnil : s.pending.bytes = [] := by
      have hholds := h.holds
      simp only [Sender.Holds, hwait] at hholds
      exact hholds.1
    have hposted := hwake wake rfl
    cases wake with
    | signalled =>
        refine .inr ⟨.resumeSend,
          { t with writeReady := t.writeReady.resume (), sendLoop := .running [] }, [], ?_, ?_⟩
        · simp only [Session.perform, Session.resumeSend, hwaiting, hposted]
        · simp [Sender.loop, hnil]
    | canceled =>
        refine .inr ⟨.resumeSend,
          { t with writeReady := t.writeReady.resume (), sendLoop := .ended .canceled }, [], ?_, rfl⟩
        simp only [Session.perform, Session.resumeSend, hwaiting, hposted]

end Nghttp2Corosio
