import Nghttp2Corosio.Stream.WriteInvariant
import Nghttp2Corosio.Stream.ReadInvariant

/-!
How much a `Stream` can still do by itself.

The two sides of a stream, and its data provider, get a number each that goes
down when a resumption that was posted runs and when nghttp2 calls the provider.
It goes up when somebody else does something: data arrives, or a user starts an
operation. A byte that waits to be written, and a byte that waits to be read, has
a weight, which is whatever the byte will cause elsewhere.

The number of the write side would not go down if an armed write that has handed
out all its bytes were left armed, or if a write could be woken before it is
served. `WriteSide.Armed` says that neither happens.
-/

namespace Nghttp2Corosio

open Async Buffers Runs

/-! ### Armed writes -/

structure WriteSide.Armed (closed : Bool) (w : WriteSide) : Prop where
  rest : w.writePending = true → w.pending.flatten ≠ [] →
    w.writeOffset < w.pending.flatten.length
  woken : w.writePending = true → w.writeProgress.waiter () = .posted .signalled → closed = true

theorem WriteSide.armed_of_served {closed : Bool} {w : WriteSide} (h : w.writePending = false) :
    w.Armed closed := by
  refine ⟨fun hp => ?_, fun hp => ?_⟩ <;>
  · rw [h] at hp
    cases hp

theorem WriteSide.armed_proceed {closed : Bool} {w : WriteSide} (hserved : w.writePending = false)
    (op : WriteOp) (next : WriteNext) : (w.proceed closed op next).1.Armed closed := by
  cases next with
  | done n => exact WriteSide.armed_of_served hserved
  | call f =>
      rw [show w.proceed closed op (.call f) = w.runCall closed f from rfl]
      rcases w.runCall_cases closed f with ⟨-, heq⟩ | ⟨-, -, heq⟩ | ⟨-, -, heq⟩
      · rw [heq]
        exact WriteSide.armed_of_served hserved
      · rw [heq]
        refine ⟨fun _ hne => List.length_pos_of_ne_nil hne, fun _ hposted => ?_⟩
        simp at hposted
      · rw [heq]
        exact WriteSide.armed_of_served rfl

theorem WriteSide.Armed.step {w w' : WriteSide} {closed : Bool} {a : Action} {os : List Label}
    (h : w.Armed closed) (hw : w.Inv closed) (hs : w.Step closed a os w') :
    w'.Armed (closed || decide (a = .onClose)) := by
  have hopen {w' : WriteSide} (h' : w'.Armed closed) : w'.Armed (closed || decide (a = .onClose)) :=
    ⟨h'.rest, fun hp hposted => by rw [h'.woken hp hposted, Bool.true_or]⟩
  have hidle (hnone : w.writer = none) : w.writePending = false := by
    rw [Bool.eq_false_iff]
    intro hp
    have hsome := (hw.armed hp).1
    rw [hnone] at hsome
    cases hsome
  cases hs with
  | onClose => exact ⟨h.rest, fun _ _ => by simp⟩
  | producerCallback length =>
      refine hopen ?_
      rcases w.producerCallback_cases length with ⟨hp, heq⟩ | ⟨-, bytes, hbytes, hcase⟩
      · rw [heq]
        exact WriteSide.armed_of_served hp
      · rcases hcase with ⟨-, heq⟩ | ⟨hpart, -, heq⟩
        · rw [heq]
          exact WriteSide.armed_of_served rfl
        · rw [heq]
          exact ⟨fun _ _ => lt_of_le_of_ne (hw.cursor_consume hbytes).2 hpart, h.woken⟩
  | write op stopped hnone => exact hopen (WriteSide.armed_proceed (hidle hnone) op _)
  | stopWrite w' hstop =>
      obtain ⟨f, -, rfl⟩ := Option.map_eq_some_iff.mp hstop
      exact hopen ⟨h.rest, fun hp hposted => h.woken hp (Event.signalled_of_stop hposted)⟩
  | resumeWrite w' os hresume =>
      obtain ⟨f, wake, -, -, ⟨-, -, rfl⟩ | ⟨-, heq⟩⟩ := WriteSide.resumeWrite_eq_some hresume
      · exact WriteSide.armed_of_served rfl
      · rw [show w' = (WriteSide.proceed w.taken closed f.op _).1 from congrArg Prod.fst heq]
        exact hopen (WriteSide.armed_proceed rfl f.op _)
  | other a os ha hos => exact hopen h

theorem WriteSide.armed_run {ok : Cell → Action → Prop} {tr : List Label} {c : Cell}
    (run : cellMachine.Run ok tr c) : c.stream.write.Armed c.stream.closed := by
  refine run.invariant_along (I := fun _ c => c.stream.write.Armed c.stream.closed) ?_ ?_
  · rintro c ⟨id, submitted, rfl⟩
    exact WriteSide.armed_of_served rfl
  · intro tr c a c' os run h _ hs
    have hstream := (Cell.step_eq_some hs).2.1
    rw [Stream.step_closed hstream]
    exact h.step (WriteSide.queue_run run).1 (Stream.step_write hstream)

/-! ### The write side -/

/-- For the end of the body that a `write_eof(buffers)` has still to ask for. -/
def WriteFrame.toCome (f : WriteFrame) : ℕ :=
  match f.op with
  | .writeEofWith _ => if f.tail then 0 else 8
  | _ => 0

/-- For an operation of which `left` bytes have still to be handed out, and which is
waiting for that or is going to be resumed. -/
def WriteFrame.effort (weight : ℕ) (f : WriteFrame) (left : ℕ) (pending : Bool) : ℕ :=
  weight * left + f.toCome + if pending then if left = 0 then 7 else 1 else 3

def WriteSide.effort (weight : ℕ) (w : WriteSide) : ℕ :=
  match w.writer with
  | none => 0
  | some f => f.effort weight (f.op.bytes.length - (f.total + w.writeOffset)) w.writePending

def Provider.effort (p : Provider) : ℕ := (p.attached && !p.deferred).toNat

theorem Provider.effort_le (p : Provider) : p.effort ≤ 1 := Bool.toNat_le _

section Write

variable {w w' : WriteSide} {closed : Bool} {os : List Label} {weight : ℕ}

theorem WriteSide.effort_none (h : w.writer = none) : w.effort weight = 0 := by
  simp [WriteSide.effort, h]

theorem WriteSide.effort_some {f : WriteFrame} (h : w.writer = some f) :
    w.effort weight =
      f.effort weight (f.op.bytes.length - (f.total + w.writeOffset)) w.writePending := by
  simp [WriteSide.effort, h]

theorem WriteFrame.Ok.left_eq_zero {f : WriteFrame} (h : f.Ok) (hnil : f.call.1.flatten = []) :
    f.op.bytes.length - f.total = 0 := by
  have hcapped {buffers : List Bytes} (hc : (constBufferArray buffers).flatten = []) :
      buffers.flatten = [] := by
    by_contra hne
    exact flatten_capped_ne_nil maxIovec_pos hne hc
  have hrest (hc : (constBufferArray f.rest).flatten = []) : f.op.bytes.length - f.total = 0 := by
    have hlength := congrArg List.length h.rest
    rw [hcapped hc, List.length_drop] at hlength
    exact hlength.symm
  obtain ⟨op, rest, total, tail, stopped⟩ := f
  cases op with
  | writeSome buffers =>
      simp only [WriteOp.bytes, WriteOp.buffers]
      rw [hcapped hnil, List.length_nil, Nat.zero_sub]
  | streamWriteEof buffers =>
      simp only [WriteOp.bytes, WriteOp.buffers]
      rw [hcapped hnil, List.length_nil, Nat.zero_sub]
  | writeEof => exact Nat.zero_sub _
  | write buffers => exact hrest hnil
  | writeEofWith buffers =>
      cases tail with
      | true => exact Nat.sub_eq_zero_of_le (h.tail rfl).2.ge
      | false => exact hrest hnil

/-- A callback hands out bytes that were waiting for it, and the write side has less
to do. -/
theorem WriteSide.Armed.effort_producerCallback (h : w.Armed closed) (hw : w.Inv closed)
    {sent length : ℕ} (hweight : sent + 5 ≤ weight) (hlength : 0 < length)
    (hp : w.writePending = true) :
    ∃ w' bytes eof, w.producerCallback length = (w', [.pulled bytes eof]) ∧
      w'.effort weight + sent * bytes.length + 2 * eof.toNat < w.effort weight := by
  obtain ⟨f, hf⟩ := Option.isSome_iff_exists.mp (hw.armed hp).1
  obtain ⟨hok, hpending, -⟩ := hw.frame f hf
  have hle := hok.call_length_le
  rw [← hpending] at hle
  rcases w.producerCallback_cases length with ⟨hserved, -⟩ | ⟨-, bytes, hbytes, hcase⟩
  · rw [hp] at hserved
    cases hserved
  · have hoffset := (hw.cursor_consume hbytes).2
    set left := f.op.bytes.length - (f.total + w.writeOffset) with hleft
    obtain ⟨rest, hrest⟩ : ∃ rest, left = bytes.length + rest := ⟨left - bytes.length, by omega⟩
    have hafter : f.op.bytes.length - (f.total + (w.writeOffset + bytes.length)) = rest := by omega
    have hmul : weight * left = weight * bytes.length + weight * rest := by
      rw [hrest, Nat.mul_add]
    have hgain : (sent + 5) * bytes.length ≤ weight * bytes.length :=
      Nat.mul_le_mul_right _ hweight
    rw [Nat.add_mul] at hgain
    have hsome : left ≠ 0 → 0 < bytes.length := by
      intro hne
      have hnonempty : w.pending.flatten ≠ [] := by
        intro hnil
        have hzero := hok.left_eq_zero (by rw [← hpending]; exact hnil)
        omega
      have hlt := h.rest hp hnonempty
      have hcursor := congrArg List.length hw.cursor
      rw [List.length_drop] at hcursor
      rw [hbytes, List.length_take]
      omega
    rw [WriteSide.effort_some hf, ← hleft, WriteFrame.effort, hp]
    rcases hcase with ⟨-, heq⟩ | ⟨hpart, -, heq⟩
    · refine ⟨_, bytes, _, heq, ?_⟩
      have heof := Bool.toNat_le w.writeEofRequested
      simp only [WriteSide.effort, hf, hafter, WriteFrame.effort, Bool.false_eq_true, if_false,
        if_true]
      split <;> omega
    · refine ⟨_, bytes, _, heq, ?_⟩
      simp only [WriteSide.effort, hf, hafter, WriteFrame.effort, hp, if_true, Bool.toNat_false]
      split <;> split <;> omega

/-- An operation that goes on after a call has less to do than before. -/
theorem WriteFrame.Ok.effort_advance {f f' : WriteFrame} (h : f.Ok) (weight : ℕ) {n : ℕ}
    (hn : n ≤ f.call.1.flatten.length) (hadvance : f.advance n = .call f') :
    f'.effort weight (f'.op.bytes.length - f'.total) true + 2 ≤
      f.effort weight (f.op.bytes.length - (f.total + n)) false := by
  obtain ⟨hok, hop, htotal, -⟩ := h.advance_call hn hadvance
  have hlooping : f.op.isComposed = true ∧ f.tail = false := by
    cases hcomposed : f.op.isComposed with
    | false =>
        unfold WriteFrame.advance at hadvance
        split at hadvance <;> simp_all [WriteOp.isComposed]
    | true =>
        cases htail : f.tail with
        | true =>
            obtain ⟨⟨buffers, hbuffers⟩, -⟩ := h.tail htail
            simp [WriteFrame.advance, hbuffers, htail] at hadvance
        | false => exact ⟨rfl, rfl⟩
  have hle : f'.toCome ≤ f.toCome := by
    unfold WriteFrame.toCome
    rw [hop, hlooping.2]
    cases f.op with
    | writeEofWith buffers => cases f'.tail <;> simp
    | _ => exact le_rfl
  rw [hop, htotal]
  simp only [WriteFrame.effort, if_true, Bool.false_eq_true, if_false]
  split
  · rename_i hzero
    -- all bytes are written, so the call is the one that ends the body
    have htail : f'.tail = true := by
      by_contra hne
      have hlt := hok.looping (by rw [hop]; exact hlooping.1) (by simpa using hne)
      rw [hop, htotal] at hlt
      omega
    obtain ⟨⟨buffers, hbuffers⟩, -⟩ := hok.tail htail
    have hcomes : f.toCome = 8 ∧ f'.toCome = 0 := by
      rw [hop] at hbuffers
      simp [WriteFrame.toCome, hop, hbuffers, hlooping.2, htail]
    omega
  · omega

/-- An operation that has the processor and calls `write_impl`. The provider may be
called again if it was deferred. -/
theorem WriteSide.effort_runCall (w : WriteSide) (closed : Bool) (weight : ℕ) (p : Provider)
    (f : WriteFrame) :
    (w.runCall closed f).1.effort weight +
          ((w.runCall closed f).2.foldl Provider.observe p).effort ≤
        f.effort weight (f.op.bytes.length - f.total) true + 1 + p.effort ∧
      ((w.runCall closed f).1.writer = none →
        (w.runCall closed f).1.effort weight +
          ((w.runCall closed f).2.foldl Provider.observe p).effort ≤ 1 + p.effort) := by
  have hpoke : (w.poke.foldl Provider.observe p).effort ≤ 1 + p.effort :=
    (Provider.effort_le _).trans (Nat.le_add_right _ _)
  rcases w.runCall_cases closed f with ⟨-, heq⟩ | ⟨-, -, heq⟩ | ⟨-, -, heq⟩
  · rw [heq, WriteSide.effort_none rfl]
    have hsame :
        [Label.writeReturned f.op (some .eof) (f.fail 0)].foldl Provider.observe p = p := rfl
    rw [hsame]
    exact ⟨by omega, fun _ => by omega⟩
  · rw [heq]
    refine ⟨?_, fun hnone => by cases hnone⟩
    simp only [WriteSide.effort, WriteSide.arm, Nat.add_zero]
    omega
  · rw [heq, WriteSide.effort_none rfl, List.foldl_append]
    have hsame (p : Provider) :
        [Label.writeReturned f.op (some .canceled) (f.fail 0)].foldl Provider.observe p = p := rfl
    rw [hsame]
    exact ⟨by omega, fun _ => by omega⟩

theorem WriteSide.Armed.effort_resumeWrite (h : w.Armed closed) (hw : w.Inv closed)
    (hweight : 2 ≤ weight) (hresume : w.resumeWrite closed = some (w', os)) (p : Provider) :
    w'.effort weight + (os.foldl Provider.observe p).effort < w.effort weight + p.effort ∧
      (w'.writer = none →
        w'.effort weight + (os.foldl Provider.observe p).effort + 2 ≤
          w.effort weight + p.effort) := by
  obtain ⟨f, wake, hf, hposted, hcases⟩ := WriteSide.resumeWrite_eq_some hresume
  have hok := (hw.frame f hf).1
  have hle := hw.offset_le_call hf
  have hpos : 3 ≤ w.effort weight := by
    rw [WriteSide.effort_some hf, WriteFrame.effort]
    set left := f.op.bytes.length - (f.total + w.writeOffset)
    have hmul (hne : left ≠ 0) : 2 ≤ weight * left :=
      hweight.trans (Nat.le_mul_of_pos_right _ (Nat.pos_of_ne_zero hne))
    split
    · split
      · omega
      · rename_i hne
        have := hmul hne
        omega
    · omega
  have hsame (ec : Option Error) (n : ℕ) :
      [Label.writeReturned f.op ec n].foldl Provider.observe p = p := rfl
  rcases hcases with ⟨-, rfl, rfl⟩ | ⟨rfl, heq⟩
  · rw [WriteSide.effort_none rfl, hsame]
    exact ⟨by omega, fun _ => by omega⟩
  · obtain ⟨rfl, rfl⟩ := Prod.ext_iff.mp heq
    cases hadvance : f.advance w.writeOffset with
    | done n =>
        simp only [WriteSide.proceed, hsame]
        rw [WriteSide.effort_none rfl]
        exact ⟨by omega, fun _ => by omega⟩
    | call f' =>
        obtain ⟨hcall, hreturned⟩ := w.taken.effort_runCall closed weight p f'
        refine ⟨?_, fun hnone => ?_⟩
        · cases hp : w.writePending with
          | false =>
              have hless := hok.effort_advance weight hle hadvance
              rw [WriteSide.effort_some hf, hp]
              exact lt_of_le_of_lt hcall (by omega)
          | true =>
              -- woken before it was served, which only a close does
              obtain rfl := h.woken hp hposted
              refine lt_of_le_of_lt (hreturned rfl) ?_
              omega
        · exact (Nat.add_le_add_right (hreturned hnone) 2).trans (by omega)

theorem WriteSide.effort_write (w : WriteSide) (closed : Bool) (weight : ℕ) {op : WriteOp}
    (hop : ∀ buffers, op ≠ .writeEofWith buffers) (stopped : Bool) (p : Provider) :
    (w.write closed op stopped).1.effort weight +
          ((w.write closed op stopped).2.foldl Provider.observe p).effort ≤
        weight * op.bytes.length + 8 + p.effort ∧
      ((w.write closed op stopped).1.writer = none →
        (w.write closed op stopped).1.effort weight +
          ((w.write closed op stopped).2.foldl Provider.observe p).effort ≤ 1 + p.effort) := by
  have hfirst : (w.write closed op stopped).2.foldl Provider.observe p =
      (w.proceed closed op (op.start stopped)).2.foldl Provider.observe p := rfl
  rw [hfirst,
    show (w.write closed op stopped).1 = (w.proceed closed op (op.start stopped)).1 from rfl]
  cases hstart : op.start stopped with
  | done n =>
      have hsame : (w.proceed closed op (.done n)).2.foldl Provider.observe p = p := rfl
      rw [hsame, WriteSide.effort_none rfl]
      exact ⟨by omega, fun _ => by omega⟩
  | call f =>
      obtain ⟨-, hfop, htotal, -⟩ := WriteOp.start_call hstart
      have hcomes : f.toCome = 0 := by
        unfold WriteFrame.toCome
        rw [hfop]
        cases op with
        | writeEofWith buffers => exact absurd rfl (hop buffers)
        | _ => rfl
      obtain ⟨hcall, hreturned⟩ := w.effort_runCall closed weight p f
      refine ⟨hcall.trans ?_, hreturned⟩
      rw [WriteFrame.effort, hcomes, hfop, htotal, if_pos rfl, Nat.sub_zero]
      split <;> omega

end Write

/-! ### The read side -/

def ReadSide.effort (weight : ℕ) (r : ReadSide) : ℕ :=
  weight * r.contents.length + match r.readReady.waiter () with
    | .posted _ => 1
    | _ => 0

section Read

variable {r r' : ReadSide} {os : List Label}

theorem ReadSide.effort_le (r : ReadSide) (weight : ℕ) :
    r.effort weight ≤ weight * r.contents.length + 1 := by
  unfold ReadSide.effort
  split <;> omega

theorem ReadSide.le_effort (r : ReadSide) (weight : ℕ) :
    weight * r.contents.length ≤ r.effort weight :=
  Nat.le_add_right _ _

theorem ReadSide.Inv.effort_onData (h : r.Inv) (weight : ℕ) (data : Bytes) :
    (r.onData data).effort weight ≤ r.effort weight + weight * data.length + 1 := by
  have hlength := (h.onData_perm data).length_eq
  have hle := (r.onData data).effort_le weight
  have hge := r.le_effort weight
  rw [List.length_append] at hlength
  rw [hlength, Nat.mul_add] at hle
  omega

theorem ReadSide.effort_onReadEof (r : ReadSide) (weight : ℕ) :
    r.onReadEof.effort weight ≤ r.effort weight + 1 := by
  have hle := r.onReadEof.effort_le weight
  have hge := r.le_effort weight
  rw [show r.onReadEof.contents = r.contents from rfl] at hle
  omega

/-- A stretch of `read_some` takes what it returns, and leaves nothing posted. -/
theorem ReadSide.Ends.effort (h : r.Ends r' os) (hr' : r'.Inv) (weight : ℕ) :
    r'.effort weight + weight * (returned os).length = weight * r.contents.length := by
  have hcontents := congrArg List.length h.contents
  rw [h.delivered, List.append_nil, List.length_append] at hcontents
  rw [hcontents, Nat.mul_add]
  unfold ReadSide.effort
  cases h with
  | completed res _ hreader _ _ =>
      simp only [hr'.suspended.mp hreader]
      omega
  | parked f _ _ _ hwait _ =>
      simp only [hwait]
      omega

end Read

end Nghttp2Corosio
