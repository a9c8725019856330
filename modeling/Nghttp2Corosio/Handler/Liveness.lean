import Nghttp2Corosio.Handler.Quiescence
import Nghttp2Corosio.Stream.Effort
import Nghttp2Corosio.Runs.Pool

/-!
An exchange comes to a rest.

What happens by itself in an exchange is finite: nghttp2 does not ask for empty
DATA frames over and over, WINDOW_UPDATE frames do not chase each other, and no
coroutine is woken for nothing without end. `Exchange.effort` bounds it. A byte on
its way through the exchange weighs less from station to station, by enough to pay
for what it causes there; so does `echo` from operation to operation.

With the results on quiet states this gives what the user of a client is promised:
a read that is outstanding completes if something of the request is on its way.
-/

namespace Nghttp2Corosio

open Async Buffers Flow Runs

/-! ### The legs -/

def Leg.effort (weight : ℕ) (leg : Leg) : ℕ := leg.head.length + leg.body.effort weight

section Legs

variable {leg leg' : Leg} {os : List Label} {act : Action}

theorem Leg.effort_sent (os : List Label) (leg : Leg) (weight : ℕ) :
    (os.foldl Leg.sent leg).effort weight ≤
      leg.effort weight + weight * (pulled os).length + 2 * (os.any Label.isEnd).toNat := by
  have hle := leg.body.effort_send weight (pulled os) (os.any Label.isEnd)
  simp only [Channel.send] at hle
  rw [Leg.foldl_sent]
  simp only [Leg.effort]
  omega

theorem Leg.effort_unsent (h : ∀ l ∈ os, l.isPulled = false) (leg : Leg) (weight : ℕ) :
    (os.foldl Leg.sent leg).effort weight ≤ leg.effort weight := by
  have hle := Leg.effort_sent os leg weight
  have hend : os.any Label.isEnd = false := by
    rw [Bool.eq_false_iff, Ne, any_isEnd]
    rintro ⟨bytes, hmem⟩
    cases h _ hmem
  rwa [pulled_of_none h, hend] at hle

theorem Leg.effort_credited (os : List Label) (leg : Leg) (weight : ℕ) :
    (os.foldl Leg.credited leg).effort weight =
      leg.effort weight + 2 * Nghttp2Corosio.consumed os := by
  rw [Leg.foldl_credited]
  simp only [Leg.effort, Channel.effort_consume]
  omega

theorem Leg.effort_credit (weight : ℕ) {limits : Limits} {a : CreditAction}
    (h : leg.credit limits a = some leg') : leg'.effort weight < leg.effort weight := by
  obtain ⟨ch, hch, rfl⟩ := Option.map_eq_some_iff.mp h
  have := Channel.effort_credit weight hch
  simp only [Leg.effort]
  omega

end Legs

/-! ### An end of the exchange

What arrives weighs more by four than what has arrived, and what waits to be sent
weighs more by five than what was sent. -/

def Cell.effort (sent arrived : ℕ) (c : Cell) : ℕ :=
  c.stream.write.effort (sent + 5) + c.provider.effort + c.stream.read.effort arrived

section Cells

variable {c c' : Cell} {act : Action} {os : List Label}

theorem Cell.effort_callback (sent arrived : ℕ) (hread : c.stream.read.Inv)
    (hwrite : c.stream.write.Inv c.stream.closed) (harmed : c.stream.write.Armed c.stream.closed)
    (hact : act.isCallback = true ∧ act ≠ .onClose) (hstep : c.step act = some (c', os))
    {out arriving arriving' : Leg} (hadmits : out.admits c.provider act = true)
    (hreceive : arriving.receive act = some arriving') :
    c'.effort sent arrived + (os.foldl Leg.sent out).effort sent +
        (os.foldl Leg.credited arriving').effort (arrived + 4) <
      c.effort sent arrived + out.effort sent + arriving.effort (arrived + 4) := by
  obtain ⟨hallows, hstream, hprovider⟩ := Cell.step_eq_some hstep
  obtain ⟨stream', provider'⟩ := c'
  obtain rfl := hprovider
  cases act with
  | onHeader name value =>
      cases hstream
      simp only [Leg.receive] at hreceive
      split at hreceive
      · rename_i hhead
        cases hreceive
        have hlength : arriving.head.tail.length + 1 = arriving.head.length := by
          cases hleg : arriving.head with
          | nil => simp [hleg] at hhead
          | cons f rest => rfl
        simp only [Cell.effort, List.foldl_cons, List.foldl_nil, Provider.observe, Provider.act,
          Leg.sent, Leg.credited, Leg.effort]
        omega
      · cases hreceive
  | onData data =>
      cases hstream
      simp only [Leg.receive] at hreceive
      split at hreceive
      · obtain ⟨ch, hch, rfl⟩ := Option.map_eq_some_iff.mp hreceive
        have hne := List.length_pos_of_ne_nil (Channel.deliver_eq_some hch).1
        have hleg := Channel.effort_deliver (arrived + 4) hch
        have hside := hread.effort_onData arrived data
        rw [Nat.add_mul] at hleg
        simp only [Cell.effort, List.foldl_cons, List.foldl_nil, Provider.observe, Provider.act,
          Leg.sent, Leg.credited, Leg.effort]
        omega
      · cases hreceive
  | onReadEof =>
      cases hstream
      simp only [Leg.receive] at hreceive
      split at hreceive
      · obtain ⟨ch, hch, rfl⟩ := Option.map_eq_some_iff.mp hreceive
        have hleg := Channel.effort_finish (arrived + 4) hch
        have hside := c.stream.read.effort_onReadEof arrived
        simp only [Cell.effort, List.foldl_cons, List.foldl_nil, Provider.observe, Provider.act,
          Leg.sent, Leg.credited, Leg.effort]
        omega
      · cases hreceive
  | producerCallback length =>
      obtain ⟨rfl, rfl⟩ := Stream.step_producerCallback_eq_some hstream
      obtain rfl : arriving = arriving' := Option.some.inj hreceive
      have hpos := Provider.length_pos hallows
      simp only [Leg.admits, Bool.and_eq_true, Bool.not_eq_true', decide_eq_true_eq] at hadmits
      have hcallable : c.provider.effort = 1 := by simp [Provider.effort, hadmits.1]
      cases hp : c.stream.write.writePending with
      | false =>
          -- nothing to send: the provider is not called again until it is resumed
          have heq : c.stream.write.producerCallback length =
              ({ c.stream.write with writeDeferred := true }, [.deferred]) := by
            simp [WriteSide.producerCallback, hp]
          have hdeferred : Provider.effort { c.provider with deferred := true } = 0 := by
            simp [Provider.effort]
          simp only [heq, Cell.effort, List.foldl_cons, List.foldl_nil, Provider.observe,
            Provider.act, Leg.sent, Leg.credited, hdeferred, hcallable]
          rw [show WriteSide.effort (sent + 5) { c.stream.write with writeDeferred := true } =
            c.stream.write.effort (sent + 5) from rfl]
          omega
      | true =>
          obtain ⟨w', bytes, eof, heq, hless⟩ :=
            harmed.effort_producerCallback hwrite (le_refl (sent + 5)) hpos hp
          have hsent := out.body.effort_send sent bytes eof
          have hle := Provider.effort_le (c.provider.observe (.pulled bytes eof))
          simp only [heq, Cell.effort, List.foldl_cons, List.foldl_nil, Provider.act, Leg.sent,
            Leg.credited, Leg.effort, hcallable]
          omega
  | _ => simp [Action.isCallback] at hact

theorem Cell.effort_read (sent arrived : ℕ) (hread : c.stream.read.Inv)
    (hact : act.isReadOp = true) (hstep : c.step act = some (c', os)) :
    c.stream.read.Ends c'.stream.read os ∧
      c'.effort sent arrived + arrived * (returned os).length ≤ c.effort sent arrived ∧
      (act = .resumeRead →
        c'.effort sent arrived + arrived * (returned os).length < c.effort sent arrived) := by
  obtain ⟨-, hstream, hprovider⟩ := Cell.step_eq_some hstep
  have hends := (Stream.step_read hstream).ends hread hact
  have heffort := hends.effort (hread.step (Stream.step_read hstream)).1 arrived
  have hle := c.stream.read.le_effort arrived
  have hframe := Stream.step_frame_write hstream (by cases act <;> first | rfl | cases hact)
  have hsame : c.provider.act act = c.provider := by
    cases act <;> first | rfl | cases hact
  have hcell : c'.effort sent arrived + c.stream.read.effort arrived =
      c.effort sent arrived + c'.stream.read.effort arrived := by
    simp only [Cell.effort, hframe.1, hprovider, hsame, Provider.observe_silent hframe.2.2]
    omega
  refine ⟨hends, by omega, ?_⟩
  rintro rfl
  obtain ⟨⟨r, ls⟩, hresume, -⟩ := Option.map_eq_some_iff.mp hstream
  obtain ⟨f, wake, -, hposted, -⟩ := ReadSide.resumeRead_eq_some hresume
  have hmore : c.stream.read.effort arrived = arrived * c.stream.read.contents.length + 1 := by
    simp only [ReadSide.effort, hposted]
  omega

theorem Cell.effort_resumeWrite (sent arrived : ℕ) (hwrite : c.stream.write.Inv c.stream.closed)
    (harmed : c.stream.write.Armed c.stream.closed) (hstep : c.step .resumeWrite = some (c', os)) :
    c'.effort sent arrived < c.effort sent arrived ∧
      (c'.stream.write.writer = none → c'.effort sent arrived + 2 ≤ c.effort sent arrived) := by
  obtain ⟨-, hstream, hprovider⟩ := Cell.step_eq_some hstep
  have hread := (Stream.step_frame_read hstream rfl).1
  obtain ⟨⟨w, ls⟩, hresume, heq⟩ := Option.map_eq_some_iff.mp hstream
  simp only [Prod.mk.injEq] at heq
  obtain ⟨hstream', rfl⟩ := heq
  have hw : c'.stream.write = w := by rw [← hstream']
  obtain ⟨hless, hreturned⟩ :=
    harmed.effort_resumeWrite hwrite (show 2 ≤ sent + 5 by omega) hresume c.provider
  simp only [Cell.effort, hread, hprovider, hw, Provider.act]
  exact ⟨by omega, fun hnone => by have := hreturned hnone; omega⟩

theorem Cell.effort_write (sent arrived : ℕ) {op : WriteOp} {stopped : Bool}
    (hop : ∀ buffers, op ≠ .writeEofWith buffers) (hidle : c.stream.write.writer = none)
    (hstep : c.step (.write op stopped) = some (c', os)) :
    c'.effort sent arrived ≤ c.effort sent arrived + (sent + 5) * op.bytes.length + 8 ∧
      (c'.stream.write.writer = none → c'.effort sent arrived ≤ c.effort sent arrived + 1) := by
  obtain ⟨-, hstream, hprovider⟩ := Cell.step_eq_some hstep
  obtain ⟨-, hstream', hos⟩ := Stream.step_write_eq_some hstream
  obtain ⟨hmore, hreturned⟩ :=
    c.stream.write.effort_write c.stream.closed (sent + 5) hop stopped c.provider
  have hwrite : c'.stream.write = (c.stream.write.write c.stream.closed op stopped).1 := by
    rw [hstream']
  have hread : c'.stream.read = c.stream.read := by rw [hstream']
  simp only [Cell.effort, hread, hprovider, hwrite, hos, Provider.act,
    WriteSide.effort_none hidle]
  exact ⟨by omega, fun hnone => by have := hreturned hnone; omega⟩

end Cells

/-! ### `echo` -/

/-- For what `echo` does from here on, if it reads nothing more. -/
def EchoPc.effort : EchoPc → ℕ
  | .start => 18
  | .submitEager => 17
  | .read _ => 13
  | .submit _ => 25
  | .write _ => 21
  | .submitLate => 4
  | .writeEof | .done _ => 0

/-- For an operation that is yet to be started. -/
def EchoPc.toStart : EchoPc → ℕ
  | .submit bytes | .write bytes => 12 * bytes.length + 9
  | .done _ => 0
  | _ => 9

def Echo.effort (e : Echo) : ℕ :=
  e.pc.effort + (if e.awaiting then 0 else e.pc.toStart) + e.cell.effort 7 35

section Echo

variable {e e' : Echo} {tr os : List EchoLabel}

/-- A read that has returned something takes `echo` far enough to pay for the bytes. -/
theorem EchoPc.effort_readReturned (submitted : Bool) {res : ReadResult} (hclean : res.Clean) :
    (EchoPc.readReturned submitted res).effort + (EchoPc.readReturned submitted res).toStart +
      2 * res.bytes.length ≤ 13 + 35 * res.bytes.length := by
  unfold EchoPc.readReturned EchoPc.leave
  cases hec : res.ec with
  | some err => cases submitted <;> simp only [EchoPc.effort, EchoPc.toStart] <;> grind
  | none =>
      have hne := List.length_pos_of_ne_nil (hclean.mp hec)
      cases submitted <;> simp only [EchoPc.effort, EchoPc.toStart] <;> grind

theorem EchoPc.effort_opReturned {pc : EchoPc} {op : WriteOp} (hop : pc.op = some op)
    (ec : Option Error) :
    (pc.opReturned ec).effort + (pc.opReturned ec).toStart ≤ pc.effort + 1 := by
  cases pc with
  | write bytes =>
      cases ec <;>
        simp [EchoPc.opReturned, EchoPc.writeReturned, EchoPc.leave, EchoPc.effort, EchoPc.toStart]
  | writeEof => exact Nat.zero_le _
  | _ => cases hop

theorem EchoPc.effort_submitReturned {pc : EchoPc} (hpc : pc.isSubmit = true) :
    (pc.submitReturned none).effort + (pc.submitReturned none).toStart + 4 ≤
      pc.effort + pc.toStart := by
  cases pc with
  | submitEager => decide
  | submit bytes => simp only [EchoPc.submitReturned, EchoPc.effort, EchoPc.toStart]; omega
  | submitLate => decide
  | _ => cases hpc

theorem EchoPc.effort_enter (eager : Bool) : (EchoPc.enter eager).effort +
    (EchoPc.enter eager).toStart < EchoPc.start.effort + EchoPc.start.toStart := by
  cases eager <;> decide

/-- The bytes of the operation are counted until it is started. -/
theorem EchoPc.toStart_of_op {pc : EchoPc} {op : WriteOp} (hop : pc.op = some op) :
    pc.toStart = 12 * op.bytes.length + 9 ∧ ∀ buffers, op ≠ .writeEofWith buffers := by
  cases pc with
  | write bytes =>
      cases hop
      refine ⟨?_, fun _ hop => by cases hop⟩
      simp [EchoPc.toStart, WriteOp.bytes, WriteOp.buffers]
  | writeEof =>
      cases hop
      exact ⟨rfl, fun _ hop => by cases hop⟩
  | _ => cases hop

theorem Echo.Suspended.idle (h : e.Suspended)
    (hidle : (∃ submitted, e.pc = .read submitted) ∧ e.cell.stream.read.reader = none ∨
      e.pc.op.isSome = true ∧ e.cell.stream.write.writer = none) : e.awaiting = false := by
  rw [Bool.eq_false_iff]
  intro hawaiting
  rcases h hawaiting with ⟨⟨submitted, hpc⟩, hreader⟩ | ⟨hop, hwriter⟩
  · rcases hidle with ⟨-, hnone⟩ | ⟨hop, -⟩
    · rw [hnone] at hreader
      cases hreader
    · rw [hpc] at hop
      cases hop
  · rcases hidle with ⟨⟨submitted, hpc⟩, -⟩ | ⟨-, hnone⟩
    · rw [hpc] at hop
      cases hop
    · rw [hnone] at hwriter
      cases hwriter

theorem Echo.effort_read (h : e.Inv tr) (hsuspended : e.Suspended) {submitted : Bool}
    (hpc : e.pc = .read submitted) {act : Action} {cell : Cell} {ls : List Label}
    (hact : act = .readSome [echoBufferSize] e.stopped ∨ act = .resumeRead)
    (hstep : e.cell.step act = some (cell, ls)) :
    (e.settle (cell, ls)).1.effort + 2 * consumed ls < e.effort := by
  have hop : act.isReadOp = true := by rcases hact with rfl | rfl <;> rfl
  obtain ⟨hends, hle, hlt⟩ := Cell.effort_read 7 35 h.sides.1 hop hstep
  have hpaid : cell.effort 7 35 + 35 * (returned ls).length <
      (if e.awaiting then 0 else 9) + e.cell.effort 7 35 := by
    rcases hact with rfl | rfl
    · obtain ⟨hreader, -⟩ := Stream.step_readSome_eq_some (Cell.step_eq_some hstep).2.1
      rw [hsuspended.idle (.inl ⟨⟨submitted, hpc⟩, hreader⟩)]
      simp only [Bool.false_eq_true, if_false]
      omega
    · have := hlt rfl
      omega
  have hbefore : e.effort = 13 + (if e.awaiting then 0 else 9) + e.cell.effort 7 35 := by
    simp only [Echo.effort, hpc, EchoPc.effort, EchoPc.toStart]
  rw [Echo.settle_read hpc, hbefore, hends.consumed]
  cases hends with
  | completed res hclean _ hos _ =>
      have hresult : readResult ls = some res := by rw [hos, readResult_finishRead]
      have hreturned : (returned ls).length = res.bytes.length := by
        rw [hos, ReadSide.finishRead_returned]
      have hpc' := EchoPc.effort_readReturned submitted hclean
      simp only [Echo.effort, hresult, Option.map_some, Option.getD_some, Option.isNone_some,
        Bool.false_eq_true, if_false]
      omega
  | parked f _ _ hos _ _ =>
      have hresult : readResult ls = none := by rw [hos]; rfl
      have hreturned : (returned ls).length = 0 := by rw [hos]; rfl
      simp only [Echo.effort, hresult, Option.map_none, Option.getD_none, Option.isNone_none,
        if_true, EchoPc.effort]
      omega

theorem Echo.effort_write (h : e.Inv tr) (hsuspended : e.Suspended)
    (harmed : e.cell.stream.write.Armed e.cell.stream.closed) {op : WriteOp}
    (hop : e.pc.op = some op) {act : Action} {cell : Cell} {ls : List Label}
    (hact : act = .write op e.stopped ∨ act = .resumeWrite ∧ e.awaiting = true)
    (hstep : e.cell.step act = some (cell, ls)) : (e.settle (cell, ls)).1.effort < e.effort := by
  obtain ⟨stopped, -, houtcome⟩ := (Stream.step_write (Cell.step_eq_some hstep).2.1).outcome
    h.sides.2.1 (h.operates hop hact)
  obtain ⟨hstart, hplain⟩ := EchoPc.toStart_of_op hop
  -- what the stretch costs when it is over, and when it is suspended
  have hpaid : cell.effort 7 35 < (if e.awaiting then 0 else e.pc.toStart) + e.cell.effort 7 35 ∧
      (cell.stream.write.writer = none → cell.effort 7 35 + 2 ≤
        (if e.awaiting then 0 else e.pc.toStart) + e.cell.effort 7 35) := by
    rcases hact with rfl | ⟨rfl, hawaiting⟩
    · obtain ⟨hidle, -⟩ := Stream.step_write_eq_some (Cell.step_eq_some hstep).2.1
      obtain ⟨hmore, hreturned⟩ := Cell.effort_write 7 35 hplain hidle hstep
      rw [hsuspended.idle (.inr ⟨by rw [hop]; rfl, hidle⟩)]
      simp only [Bool.false_eq_true, if_false, hstart]
      exact ⟨by omega, fun hnone => by have := hreturned hnone; omega⟩
    · obtain ⟨hless, hreturned⟩ := Cell.effort_resumeWrite 7 35 h.sides.2.1 harmed hstep
      rw [hawaiting]
      simp only [if_true]
      exact ⟨by omega, fun hnone => by have := hreturned hnone; omega⟩
  rw [Echo.settle_write hop]
  cases houtcome with
  | returned calls ec n hcalls hos hidle hec hall =>
      have hresult : writeResult ls = some ec := by rw [hos, writeResult_returned hcalls]
      have hpc := EchoPc.effort_opReturned hop ec
      have hless := hpaid.2 hidle
      simp only [Echo.effort, hresult, Option.map_some, Option.getD_some, Option.isNone_some,
        Bool.false_eq_true, if_false]
      omega
  | suspended f hwriter hfop hopen hrunning hos =>
      have hless := hpaid.1
      simp only [Echo.effort, (requests_silent hos).1, Option.map_none, Option.getD_none,
        Option.isNone_none, if_true]
      omega

/-- `echo` goes on by itself, and the legs follow. -/
theorem Echo.effort_step (h : e.Inv tr) (hsuspended : e.Suspended)
    (harmed : e.cell.stream.write.Armed e.cell.stream.closed) {a : EchoAction}
    (ha : a = .go true ∨ a = .resume) (hs : e.step a = some (e', os)) (request response : Leg) :
    e'.effort + ((onStream os).foldl Leg.credited request).effort 39 +
        (os.foldl Leg.answered response).effort 7 <
      e.effort + request.effort 39 + response.effort 7 := by
  have hcredit := Leg.effort_credited (onStream os) request 39
  have hanswer {act : Action} {cell : Cell} {ls : List Label} (hact : act.isCallback = false)
      (hstep : e.cell.step act = some (cell, ls)) :
      ((ls.map EchoLabel.stream).foldl Leg.answered response).effort 7 ≤ response.effort 7 := by
    rw [List.foldl_map]
    refine Leg.effort_unsent (fun l hl => ?_) response 7
    rcases (Cell.step_emits h.sides.1 hstep).pulled with hnone | ⟨length, rfl, -⟩
    · exact hnone l hl
    · cases hact
  cases Echo.step_moves hs with
  | callback => rcases ha with ha | ha <;> cases ha
  | stopIdle => rcases ha with ha | ha <;> cases ha
  | stopOp => rcases ha with ha | ha <;> cases ha
  | enter accepted hidle hpc =>
      have hless := EchoPc.effort_enter
        (e.cell.stream.head.request.hasHeader (ascii "x-eager-submit"))
      simp only [Echo.effort, hidle, hpc, Bool.false_eq_true, if_false, onStream,
        List.filterMap_nil, List.foldl_nil]
      omega
  | submit accepted hidle hpc =>
      obtain rfl : accepted = true := by
        rcases ha with ha | ha
        · exact EchoAction.go.inj ha
        · cases ha
      have hless := EchoPc.effort_submitReturned hpc
      have hfields : (e.response.submit 200 []).length ≤ 2 := by
        cases hlength : e.response.contentLength <;>
          simp [Response.submit, submitResponseFields, contentLengthField, hlength]
      have hprovider := Provider.effort_le (e.cell.provider.act .submit)
      simp only [Echo.effort, Echo.submit, hidle, Bool.false_eq_true, if_false, if_true, onStream,
        EchoLabel.ofStream, List.filterMap_cons, List.filterMap_nil, List.foldl_cons,
        List.foldl_nil, Leg.answered, Leg.effort, List.length_append, Cell.effort]
      omega
  | read hpc hact hstep =>
      rename_i submitted act cell ls
      have hless := Echo.effort_read h hsuspended hpc hact hstep
      have hle := hanswer (by rcases hact with rfl | rfl <;> rfl) hstep
      rw [show (e.settle (cell, ls)).2 = ls.map .stream from rfl] at hcredit ⊢
      rw [onStream_map] at hcredit ⊢
      omega
  | write hop hact hstep =>
      rename_i op act cell ls
      have hless := Echo.effort_write h hsuspended harmed hop hact hstep
      have hle := hanswer (by rcases hact with rfl | ⟨rfl, -⟩ <;> rfl) hstep
      have hconsumed : consumed ls = 0 := by
        have hframe := Stream.step_frame_read (Cell.step_eq_some hstep).2.1
          (by rcases hact with rfl | ⟨rfl, -⟩ <;> rfl)
        exact (read_silent hframe.2.2).2.2
      rw [show (e.settle (cell, ls)).2 = ls.map .stream from rfl] at hcredit ⊢
      rw [onStream_map] at hcredit ⊢
      omega

end Echo

/-! ### The whole exchange -/

def Exchange.effort (x : Exchange) : ℕ :=
  x.client.effort 39 3 + x.request.effort 39 + x.server.effort + x.response.effort 7

section Exchanges

variable {up down : Limits} {block : List (Bytes × Bytes)} {tr os : List ExchangeLabel}
  {x x' : Exchange} {a : ExchangeAction}

/-- What happens by itself leaves less to do. -/
theorem Exchange.Inv.effort_step (h : x.Inv up down block tr) (ha : a.isInternal = true)
    (hs : x.step up down a = some (x', os)) : x'.effort < x.effort := by
  have hecho := (Echo.inv_run h.server).1
  cases Exchange.step_moves hs with
  | client act client response ls hhears hadmits hreceive hstep =>
      have hread := (ReadSide.balance_run h.client).1
      have hwrite := (WriteSide.queue_run h.client).1
      have harmed := WriteSide.armed_run h.client
      have hunsent (hact : act.isCallback = false) :
          (ls.foldl Leg.sent x.request).effort 39 ≤ x.request.effort 39 := by
        refine Leg.effort_unsent (fun l hl => ?_) x.request 39
        rcases (Cell.step_emits hread hstep).pulled with hnone | ⟨length, rfl, -⟩
        · exact hnone l hl
        · cases hact
      have hcredit := Leg.effort_credited ls response 7
      by_cases hact : act.isCallback = true ∧ act ≠ .onClose
      · have hless := Cell.effort_callback 39 3 hread hwrite harmed hact hstep hadmits hreceive
        simp only [Nat.reduceAdd] at hless
        simp only [Exchange.effort]
        omega
      · cases act with
        | resumeRead =>
            obtain rfl : x.response = response := Option.some.inj hreceive
            obtain ⟨hends, -, hless⟩ := Cell.effort_read 39 3 hread rfl hstep
            have := hless rfl
            have := hunsent rfl
            have := hends.consumed
            simp only [Exchange.effort]
            omega
        | resumeWrite =>
            obtain rfl : x.response = response := Option.some.inj hreceive
            have := (Cell.effort_resumeWrite 39 3 hwrite harmed hstep).1
            have := hunsent rfl
            have hframe := Stream.step_frame_read (Cell.step_eq_some hstep).2.1 rfl
            have := (read_silent hframe.2.2).2.2
            simp only [Exchange.effort]
            omega
        | onData data => exact absurd ⟨rfl, nofun⟩ hact
        | onReadEof => exact absurd ⟨rfl, nofun⟩ hact
        | onHeader name value => exact absurd ⟨rfl, nofun⟩ hact
        | producerCallback length => exact absurd ⟨rfl, nofun⟩ hact
        | _ => cases ha
  | server a server request ls hhears hreceive hstep =>
      have harmed := WriteSide.armed_run hecho.run
      cases a with
      | callback act =>
          simp only [Echo.step] at hstep
          split at hstep
          · obtain ⟨⟨cell, os⟩, hcell, heq⟩ := Option.map_eq_some_iff.mp hstep
            cases heq
            simp only [Exchange.hears, Bool.and_eq_true] at hhears
            simp only [ExchangeAction.isInternal, Bool.and_eq_true, decide_eq_true_eq] at ha
            have hless := Cell.effort_callback 7 35 hecho.sides.1 hecho.sides.2.1 harmed ha hcell
              hhears.2 hreceive
            simp only [Nat.reduceAdd] at hless
            simp only [Exchange.effort, Echo.effort, onStream_map, List.foldl_map]
            rw [show List.foldl (fun leg l => Leg.answered leg (.stream l)) x.response os =
              os.foldl Leg.sent x.response from rfl]
            omega
          · cases hstep
      | stop => cases ha
      | go accepted =>
          obtain rfl : accepted = true := ha
          obtain rfl : x.request = request := Option.some.inj hreceive
          have hless := Echo.effort_step hecho (Echo.suspended_run h.server) harmed (.inl rfl) hstep
            x.request x.response
          simp only [Exchange.effort]
          omega
      | resume =>
          obtain rfl : x.request = request := Option.some.inj hreceive
          have hless := Echo.effort_step hecho (Echo.suspended_run h.server) harmed (.inr rfl) hstep
            x.request x.response
          simp only [Exchange.effort]
          omega
  | request a leg hcredit =>
      have hless := Leg.effort_credit 39 hcredit
      simp only [Exchange.effort]
      omega
  | response a leg hcredit =>
      have hless := Leg.effort_credit 7 hcredit
      simp only [Exchange.effort]
      omega

def Exchange.Internal (up down : Limits) (x x' : Exchange) : Prop :=
  ∃ a os, ExchangeAction.isInternal a = true ∧ x.step up down a = some (x', os)

theorem Exchange.quiet_or_internal (up down : Limits) (x : Exchange) :
    x.Quiet up down ∨ ∃ x', x.Internal up down x' := by
  by_cases h : ∃ x', x.Internal up down x'
  · exact .inr h
  · refine .inl fun a ha => ?_
    by_contra hne
    obtain ⟨⟨x', os⟩, hstep⟩ := Option.ne_none_iff_exists'.mp hne
    exact h ⟨x', a, os, ha, hstep⟩

theorem undisturbed_of_isInternal (h : a.isInternal = true) : undisturbed x a := by
  cases a with
  | client act =>
      cases act <;> first | (cases h; done) | exact ⟨⟨trivial, trivial⟩, nofun⟩
  | server a =>
      cases a with
      | callback act =>
          simp only [ExchangeAction.isInternal, Bool.and_eq_true, decide_eq_true_eq] at h
          exact fun hclose => absurd hclose h.2
      | go accepted => exact h
      | resume => trivial
      | stop => cases h
  | request => trivial
  | response => trivial

/-- An undisturbed exchange comes to a rest, whatever the order in which things
happen: no more steps happen by themselves than `Exchange.effort` says, and until
nothing can happen any more, something can. -/
theorem exchange_comes_to_rest (run : (exchangeMachine up down).Run undisturbed tr x) :
    (∀ as x' os, (exchangeMachine up down).exec (fun _ a => a.isInternal = true) x as =
        some (x', os) → as.length + x'.effort ≤ x.effort) ∧
      Inevitable (Relation.TransGen (Exchange.Internal up down)) (Exchange.Quiet up down) x := by
  have hstep {x x' : Exchange} {tr os : List ExchangeLabel} {a : ExchangeAction}
      (run : (exchangeMachine up down).Run undisturbed tr x) (ha : a.isInternal = true)
      (hs : x.step up down a = some (x', os)) :
      (exchangeMachine up down).Run undisturbed (tr ++ os) x' ∧ x'.effort < x.effort := by
    obtain ⟨-, path, contentLength, headers, hinv⟩ := Exchange.smooth_run run
    exact ⟨.step run (undisturbed_of_isInternal ha) hs, hinv.effort_step ha hs⟩
  refine ⟨fun as x' os hexec => ?_, ?_⟩
  · have hall : ∀ a ∈ as, ExchangeAction.isInternal a = true :=
      Machine.exec_forall (A := fun a => ExchangeAction.isInternal a = true) (fun _ _ ha => ha)
        hexec
    refine (Machine.exec_invariant
      (I := fun as os x' => (exchangeMachine up down).Run undisturbed (tr ++ os) x' ∧
        as.length + x'.effort ≤ x.effort) ?_ ⟨by simpa using run, by simp⟩ hall hexec).2
    intro as os s a s' os' hI ha hs
    obtain ⟨hrun, hless⟩ := hstep hI.1 ha hs
    refine ⟨by simpa using hrun, ?_⟩
    have := hI.2
    simp only [List.length_append, List.length_singleton]
    omega
  · refine inevitable_of_wellFounded (I := fun x =>
      ∃ tr, (exchangeMachine up down).Run undisturbed tr x) wellFounded_lt Exchange.effort ?_ ?_
      (fun x _ => x.quiet_or_internal up down) ⟨tr, run⟩
    · rintro x x' ⟨tr, run⟩ ⟨a, os, ha, hs⟩
      exact ⟨tr ++ os, (hstep run ha hs).1⟩
    · rintro x x' ⟨tr, run⟩ ⟨a, os, ha, hs⟩
      exact (hstep run ha hs).2

/-! ### Reads that complete -/

/-- A read that stays outstanding has returned nothing, and was outstanding before if
it was not started just now. -/
theorem ReadSide.Step.outstanding {r r' : ReadSide} {closed : Bool} {a : Action}
    {os : List Label} (hs : r.Step closed a os r') (h : r.Inv)
    (hreader : r'.reader.isSome = true) :
    returned os = [] ∧ (r.reader.isSome = true ∨ ∃ sizes stopped, a = .readSome sizes stopped) := by
  have hends (hop : a.isReadOp = true) : returned os = [] := by
    cases hs.ends h hop with
    | completed res _ hnone =>
        rw [hnone] at hreader
        cases hreader
    | parked f _ _ hos =>
        rw [hos]
        rfl
  refine ⟨?_, ?_⟩
  · cases hs with
    | readSome => exact hends rfl
    | resumeRead => exact hends rfl
    | other a os ha hos => exact (read_silent hos).2.1
    | _ => rfl
  · cases hop : a.isReadOp with
    | false => exact .inl (by rwa [← hs.reader_isSome hop])
    | true =>
        cases hs with
        | readSome sizes stopped => exact .inr ⟨sizes, stopped, rfl⟩
        | resumeRead r' os hresume =>
            obtain ⟨f, wake, hf, -⟩ := ReadSide.resumeRead_eq_some hresume
            exact .inl (by rw [hf]; rfl)
        | other => exact .inl hreader
        | _ => cases hop

theorem Exchange.Inv.outstanding (h : x.Inv up down block tr) (ha : a.isInternal = true)
    (hs : x.step up down a = some (x', os)) (hreader : x'.client.stream.read.reader.isSome = true) :
    returned (atClient os) = [] ∧ x.client.stream.read.reader.isSome = true := by
  cases Exchange.step_moves hs with
  | client act client response ls hhears hadmits hreceive hstep =>
      obtain ⟨hnone, hbefore⟩ := (Stream.step_read (Cell.step_eq_some hstep).2.1).outstanding
        (ReadSide.balance_run h.client).1 hreader
      rw [atClient_map_client]
      refine ⟨hnone, hbefore.resolve_right ?_⟩
      rintro ⟨sizes, stopped, rfl⟩
      cases ha
  | server a server request ls hhears hreceive hstep =>
      rw [atClient_map_server]
      exact ⟨rfl, hreader⟩
  | request a leg hcredit => exact ⟨rfl, hreader⟩
  | response a leg hcredit => exact ⟨rfl, hreader⟩

/-- Something of the request is on its way: bytes that the client has handed to
nghttp2 and has not read back, or the end. -/
def Exchange.Expects (tr : List ExchangeLabel) : Prop :=
  returned (atClient tr) ≠ pulled (atClient tr) ∨ ∃ bytes, .pulled bytes true ∈ atClient tr

/-- A read of the client that is outstanding while something of the request is on its
way completes, whatever the order in which things happen. -/
theorem exchange_read_completes (run : (exchangeMachine up down).Run undisturbed tr x)
    (hexpects : Exchange.Expects tr) :
    Inevitable (Relation.TransGen (Exchange.Internal up down))
      (fun x => x.client.stream.read.reader = none) x := by
  refine inevitable_of_wellFounded (I := fun x =>
    ∃ tr, (exchangeMachine up down).Run undisturbed tr x ∧
      (x.client.stream.read.reader.isSome = true → Exchange.Expects tr))
    wellFounded_lt Exchange.effort ?_ ?_ ?_ ⟨tr, run, fun _ => hexpects⟩
  · rintro x x' ⟨tr, run, h⟩ ⟨a, os, ha, hs⟩
    refine ⟨tr ++ os, .step run (undisturbed_of_isInternal ha) hs, fun hreader => ?_⟩
    obtain ⟨-, path, contentLength, headers, hinv⟩ := Exchange.smooth_run run
    obtain ⟨hnone, hbefore⟩ := hinv.outstanding ha hs hreader
    unfold Exchange.Expects
    rw [atClient_append, returned_append, pulled_append, hnone, List.append_nil]
    rcases h hbefore with hne | ⟨bytes, hmem⟩
    · -- what was behind stays behind, as nothing was read
      refine .inl fun heq => hne ?_
      have hlength := congrArg List.length heq
      rw [List.length_append] at hlength
      exact hinv.read_back.eq_of_length_le (by omega)
    · exact .inr ⟨bytes, List.mem_append_left _ hmem⟩
  · rintro x x' ⟨tr, run, -⟩ ⟨a, os, ha, hs⟩
    obtain ⟨-, path, contentLength, headers, hinv⟩ := Exchange.smooth_run run
    exact hinv.effort_step ha hs
  · rintro x ⟨tr, run, h⟩
    rcases x.quiet_or_internal up down with hquiet | hcan
    · refine .inl (Option.eq_none_iff_forall_ne_some.mpr fun f hf => ?_)
      have hreader : x.client.stream.read.reader.isSome = true := by rw [hf]; rfl
      obtain ⟨hsmooth, path, contentLength, headers, hinv⟩ := Exchange.smooth_run run
      obtain ⟨-, hend, hreturned⟩ := hquiet.rest hsmooth hinv hreader
      rcases h hreader with hne | ⟨bytes, hmem⟩
      · exact hne hreturned
      · exact hend bytes hmem
    · exact .inr hcan

end Exchanges

/-- A client that waits for the answer to a write of three bytes, of which two are on
their way. -/
theorem exchange_read_completes_of_write :
    ∃ tr x, (exchangeMachine twoBytes twoBytes).Run undisturbed tr x ∧
      x.client.stream.read.reader.isSome = true ∧ returned (atClient tr) = [] ∧
      pulled (atClient tr) = [1, 2] ∧
      Inevitable (Relation.TransGen (Exchange.Internal twoBytes twoBytes))
        (fun x => x.client.stream.read.reader = none) x := by
  obtain ⟨tr, x, run, hreader, hreturned, hpulled⟩ :
      ∃ tr x, (exchangeMachine twoBytes twoBytes).Run undisturbed tr x ∧
        x.client.stream.read.reader.isSome = true ∧ returned (atClient tr) = [] ∧
        pulled (atClient tr) = [1, 2] :=
    Machine.run_of_exec (exchangeMachine_init twoBytes twoBytes 1 (ascii "/") none [])
      [.client (.readSome [8] false), .client (.write (.write [[1, 2, 3]]) false),
        .client (.producerCallback 2)] (by decide)
  exact ⟨tr, x, run, hreader, hreturned, hpulled,
    exchange_read_completes run (.inl (by simp [hreturned, hpulled]))⟩

/-- The same client has a bound on what can happen until it acts again. -/
theorem exchange_comes_to_rest_of_write :
    ∃ tr x, (exchangeMachine twoBytes twoBytes).Run undisturbed tr x ∧ x.effort = 157 ∧
      pulled (atClient tr) = [1, 2] ∧
      Inevitable (Relation.TransGen (Exchange.Internal twoBytes twoBytes))
        (Exchange.Quiet twoBytes twoBytes) x := by
  obtain ⟨tr, x, run, heffort, hpulled⟩ :
      ∃ tr x, (exchangeMachine twoBytes twoBytes).Run undisturbed tr x ∧ x.effort = 157 ∧
        pulled (atClient tr) = [1, 2] :=
    Machine.run_of_exec (exchangeMachine_init twoBytes twoBytes 1 (ascii "/") none [])
      [.client (.readSome [8] false), .client (.write (.write [[1, 2, 3]]) false),
        .client (.producerCallback 2)] (by decide)
  exact ⟨tr, x, run, heffort, hpulled, (exchange_comes_to_rest run).2⟩

end Nghttp2Corosio
