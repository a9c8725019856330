import Nghttp2Corosio.Handler.Exchange
import Nghttp2Corosio.Stream.Producer

/-!
What the bytes of an exchange go through.

Each leg is a queue between its two ends: what the provider of the one end
handed out is what the other end was given, followed by what is in flight. And
each leg has a ledger: what the sender has sent, and the credit it still holds,
make up the limit and what the receiver has consumed. Both are equations about
the two traces and the leg (`Leg.Inv`), so they do not depend on which end is
which, and every step keeps them for the reason that the leg follows the labels
of its ends.

Together with what is known of a stream and of `echo` alone, that makes a round
trip: what a client reads is what it wrote.
-/

namespace Nghttp2Corosio

open Async Buffers Flow Runs

/-! ### The provider over a whole run -/

/-- After this label nghttp2 does not call the provider any more. -/
def Label.detaches : Label → Bool
  | .pulled _ true | .closed => true
  | _ => false

theorem Provider.observe_attached (os : List Label) (p : Provider) :
    (os.foldl Provider.observe p).attached = (p.attached && !os.any Label.detaches) := by
  induction os generalizing p with
  | nil => simp
  | cons l os ih =>
      have hl : (p.observe l).attached = (p.attached && !l.detaches) := by
        cases l with
        | pulled bytes eof => cases eof <;> simp [Provider.observe, Label.detaches]
        | call c => cases c <;> simp [Provider.observe, Label.detaches]
        | _ => simp [Provider.observe, Label.detaches]
      simp only [List.foldl_cons, List.any_cons, ih, hl, Bool.not_or, Bool.and_assoc]

theorem WriteSide.proceed_not_pulled (w : WriteSide) (closed : Bool) (op : WriteOp)
    (next : WriteNext) : ∀ l ∈ (w.proceed closed op next).2, l.isPulled = false := by
  have hpoke : ∀ l ∈ w.poke, l.isPulled = false := by
    unfold WriteSide.poke
    cases w.writeDeferred <;> simp [Label.isPulled]
  cases next with
  | done n => simp [WriteSide.proceed, Label.isPulled]
  | call f =>
      rw [show w.proceed closed op (.call f) = w.runCall closed f from rfl]
      rcases w.runCall_cases closed f with ⟨-, heq⟩ | ⟨-, -, heq⟩ | ⟨-, -, heq⟩
      · rw [heq]
        simp [Label.isPulled]
      · rw [heq]
        exact hpoke
      · rw [heq]
        intro l hl
        rcases List.mem_append.mp hl with hl | hl
        · exact hpoke l hl
        · rw [List.mem_singleton.mp hl]
          rfl

/-- Bytes are handed out by `producer_callback` only, and no more than it was asked
for. -/
theorem WriteSide.Step.pulled {w w' : WriteSide} {closed : Bool} {a : Action} {os : List Label}
    (hs : w.Step closed a os w') :
    (∀ l ∈ os, l.isPulled = false) ∨
      ∃ length, a = .producerCallback length ∧ (pulled os).length ≤ length := by
  cases hs with
  | onClose => exact .inl (by simp [Label.isPulled])
  | producerCallback length =>
      refine .inr ⟨length, rfl, ?_⟩
      rcases w.producerCallback_cases length with
        ⟨-, heq⟩ | ⟨-, bytes, hb, ⟨-, heq⟩ | ⟨-, -, heq⟩⟩
      · simp [heq, Nghttp2Corosio.pulled, Label.pulledBytes]
      · simp [heq, Nghttp2Corosio.pulled, Label.pulledBytes, hb]
      · simp [heq, Nghttp2Corosio.pulled, Label.pulledBytes, hb]
  | write op stopped hidle =>
      refine .inl fun l hl => ?_
      rcases List.mem_cons.mp hl with rfl | hl
      · rfl
      · exact WriteSide.proceed_not_pulled _ _ _ _ l hl
  | stopWrite w' hstop => exact .inl (by simp)
  | resumeWrite w' os hresume =>
      obtain ⟨f, wake, -, -, ⟨-, rfl, -⟩ | ⟨-, heq⟩⟩ := WriteSide.resumeWrite_eq_some hresume
      · exact .inl (by simp [Label.isPulled])
      · refine .inl fun l hl => ?_
        rw [show os = (WriteSide.proceed _ closed f.op _).2 from congrArg Prod.snd heq] at hl
        exact WriteSide.proceed_not_pulled _ _ _ _ l hl
  | other a os ha hos =>
      refine .inl fun l hl => ?_
      have hwrite := (hos l hl).1
      cases l <;> first | rfl | cases hwrite

/-- A provider is given up for good when it has handed out the end of the body. -/
theorem Provider.detached_run {ok : Cell → Action → Prop} {tr : List Label} {c : Cell}
    (run : cellMachine.Run ok tr c) {bytes : Bytes} {eof : Bool} (h : .pulled bytes eof ∈ tr) :
    c.provider.submitted = true ∧ (eof = true → c.provider.attached = false) := by
  refine run.invariant_along (I := fun tr c => ∀ bytes eof, .pulled bytes eof ∈ tr →
    c.provider.submitted = true ∧ (eof = true → c.provider.attached = false)) ?_ ?_ bytes eof h
  · intro c _ bytes eof h
    cases h
  · intro tr c a c' os run ih _ hs bytes eof hmem
    obtain ⟨hallows, hstream, hprovider⟩ := Cell.step_eq_some hs
    have hattached := congrArg Provider.attached hprovider
    rw [Provider.observe_attached] at hattached
    rcases List.mem_append.mp hmem with hbefore | hnow
    · obtain ⟨hsubmitted, hdetached⟩ := ih bytes eof hbefore
      have hne : a ≠ .submit := by
        rintro rfl
        simp [Provider.allows, hsubmitted] at hallows
      have hact : c.provider.act a = c.provider := by
        cases a <;> first | rfl | exact absurd rfl hne
      refine ⟨(Cell.step_submitted hs hne).trans hsubmitted, fun heof => ?_⟩
      rw [hattached, hact, hdetached heof, Bool.false_and]
    · rcases (Stream.step_write hstream).pulled with hnone | ⟨length, rfl, -⟩
      · cases hnone _ hnow
      · have hsubmitted : c.provider.submitted = true := by
          simp only [Provider.allows, Bool.and_eq_true] at hallows
          exact hallows.1
        refine ⟨(Cell.step_submitted hs (by simp)).trans hsubmitted, ?_⟩
        rintro rfl
        have hdetaches : os.any Label.detaches = true := List.any_eq_true.mpr ⟨_, hnow, rfl⟩
        rw [hattached, hdetaches, Bool.not_true, Bool.and_false]

/-! ### What the labels of a step say

The labels of a step of a stream say which callback of nghttp2 it was, as far as
the legs are concerned. The steps that `echo` takes by itself are no callbacks. -/

structure Emits (act : Action) (os : List Label) : Prop where
  delivered : delivered os = act.data
  ended : .readEnded ∈ os ↔ act = .onReadEof
  fields : fields os = act.field
  pulled : (∀ l ∈ os, l.isPulled = false) ∨
    ∃ length, act = .producerCallback length ∧ (pulled os).length ≤ length

theorem Cell.step_emits {c c' : Cell} {act : Action} {os : List Label} (hread : c.stream.read.Inv)
    (hs : c.step act = some (c', os)) : Emits act os := by
  have hstream := (Cell.step_eq_some hs).2.1
  exact
    { delivered := hread.step_delivered (Stream.step_read hstream)
      ended := (Stream.step_read hstream).readEnded_mem
      fields := (Stream.step_head hstream).fields_eq
      pulled := (Stream.step_write hstream).pulled }

theorem pulled_of_none {os : List Label} (h : ∀ l ∈ os, l.isPulled = false) : pulled os = [] := by
  refine List.flatMap_eq_nil_iff.mpr fun l hl => ?_
  have := h l hl
  cases l <;> first | rfl | cases this

theorem emits_nil : Emits .submit [] where
  delivered := rfl
  ended := by simp
  fields := rfl
  pulled := .inl (by simp)

/-- A step of `echo` is a callback on its stream, or one that no leg sees. -/
theorem Echo.step_emits {e e' : Echo} {a : EchoAction} {os : List EchoLabel}
    (hread : e.cell.stream.read.Inv) (hs : e.step a = some (e', os)) :
    ∃ act, Emits act (onStream os) ∧
      (a.act = some act ∨ a.act = none ∧ act.isCallback = false) := by
  have hoperation {act : Action} {cell : Cell} {ls : List Label} (hact : act.isCallback = false)
      (hnone : a.act = none) (hstep : e.cell.step act = some (cell, ls)) :
      ∃ act, Emits act (onStream (ls.map .stream)) ∧
        (a.act = some act ∨ a.act = none ∧ act.isCallback = false) := by
    rw [onStream_map]
    exact ⟨act, Cell.step_emits hread hstep, .inr ⟨hnone, hact⟩⟩
  have hsilent (hnone : a.act = none) (hos : onStream os = []) :
      ∃ act, Emits act (onStream os) ∧
        (a.act = some act ∨ a.act = none ∧ act.isCallback = false) := by
    rw [hos]
    exact ⟨.submit, emits_nil, .inr ⟨hnone, rfl⟩⟩
  have hnone (hne : ∀ act, a ≠ .callback act) : a.act = none := by
    cases a <;> first | rfl | exact absurd rfl (hne _)
  by_cases hcallback : ∃ act, a = .callback act
  · obtain ⟨act, rfl⟩ := hcallback
    simp only [Echo.step] at hs
    split at hs
    · obtain ⟨⟨cell, ls⟩, hstep, heq⟩ := Option.map_eq_some_iff.mp hs
      cases heq
      rw [onStream_map]
      exact ⟨act, Cell.step_emits hread hstep, .inl rfl⟩
    · cases hs
  · have hnone := hnone fun act hact => hcallback ⟨act, hact⟩
    cases Echo.step_moves hs with
    | callback act => exact absurd ⟨act, rfl⟩ hcallback
    | enter => exact hsilent hnone rfl
    | submit => exact hsilent hnone rfl
    | stopIdle => exact hsilent hnone rfl
    | read hpc hact hstep => exact hoperation (by rcases hact with rfl | rfl <;> rfl) hnone hstep
    | write hop hact hstep =>
        exact hoperation (by rcases hact with rfl | ⟨rfl, -⟩ <;> rfl) hnone hstep
    | stopOp act cell ls hact hstep =>
        exact hoperation (by rcases hact with ⟨rfl, -⟩ | ⟨rfl, -⟩ <;> rfl) hnone hstep

/-! ### What a leg does with the labels of its ends -/

def Label.isEnd : Label → Bool
  | .pulled _ true => true
  | _ => false

theorem any_isEnd {os : List Label} :
    os.any Label.isEnd = true ↔ ∃ bytes, .pulled bytes true ∈ os := by
  rw [List.any_eq_true]
  constructor
  · rintro ⟨l, hl, hend⟩
    cases l with
    | pulled bytes eof =>
        cases eof with
        | true => exact ⟨bytes, hl⟩
        | false => cases hend
    | _ => cases hend
  · rintro ⟨bytes, hmem⟩
    exact ⟨_, hmem, rfl⟩

theorem Leg.foldl_sent (os : List Label) (leg : Leg) :
    os.foldl Leg.sent leg = { leg with body :=
      { inFlight := leg.body.inFlight ++ pulled os
        ending := leg.body.ending || os.any Label.isEnd
        stream := leg.body.stream.spend (pulled os).length
        connection := leg.body.connection.spend (pulled os).length } } := by
  induction os generalizing leg with
  | nil => simp [pulled, Credit.spend]
  | cons l os ih =>
      rw [List.foldl_cons, ih]
      cases l with
      | pulled bytes eof =>
          have hpulled : pulled (.pulled bytes eof :: os) = bytes ++ pulled os := by
            simp [pulled, Label.pulledBytes]
          have hend : (Label.pulled bytes eof).isEnd = eof := by cases eof <;> rfl
          simp only [Leg.sent, Channel.send, Credit.spend, hpulled, List.any_cons, hend,
            List.append_assoc, List.length_append, Bool.or_assoc, Nat.sub_sub]
      | _ => rfl

theorem Leg.foldl_credited (os : List Label) (leg : Leg) :
    os.foldl Leg.credited leg =
      { leg with body := leg.body.consume (Nghttp2Corosio.consumed os) } := by
  induction os generalizing leg with
  | nil => simp [Nghttp2Corosio.consumed, Channel.consume, Credit.consume]
  | cons l os ih =>
      rw [List.foldl_cons, ih]
      cases l with
      | call k =>
          cases k <;> simp [Leg.credited, Nghttp2Corosio.consumed, Channel.consume, Credit.consume,
            Label.consumedBytes, Nat.add_assoc]
      | _ => simp [Leg.credited, Nghttp2Corosio.consumed, Label.consumedBytes]

/-- The body of the response follows the stream, the header block follows
`submit`. -/
theorem Leg.foldl_answered_body (os : List EchoLabel) (leg : Leg) :
    (os.foldl Leg.answered leg).body = ((onStream os).foldl Leg.sent leg).body := by
  induction os generalizing leg with
  | nil => rfl
  | cons l os ih =>
      rw [List.foldl_cons, ih]
      cases l with
      | stream l => rfl
      | submitted fields accepted =>
          rw [show onStream (.submitted fields accepted :: os) = onStream os from rfl]
          cases accepted <;> simp [Leg.answered, Leg.foldl_sent]

/-- The fields of the responses that nghttp2 accepted. -/
def EchoLabel.block : EchoLabel → List (Bytes × Bytes)
  | .submitted fields true => fields
  | _ => []

theorem Leg.foldl_answered_head (os : List EchoLabel) (leg : Leg) :
    (os.foldl Leg.answered leg).head = leg.head ++ os.flatMap EchoLabel.block := by
  induction os generalizing leg with
  | nil => simp
  | cons l os ih =>
      rw [List.foldl_cons, ih, List.flatMap_cons, ← List.append_assoc]
      congr 1
      cases l with
      | stream l => cases l <;> simp [Leg.answered, Leg.sent, EchoLabel.block]
      | submitted fields accepted => cases accepted <;> simp [Leg.answered, EchoLabel.block]

/-! ### The invariant of a leg

It relates the header block that was sent and the traces of the two ends to what
the leg holds. -/

structure Leg.Inv (limits : Limits) (leg : Leg) (block : List (Bytes × Bytes))
    (sent received : List Label) : Prop where
  head : block = fields received ++ leg.head
  body : pulled sent = delivered received ++ leg.body.inFlight
  ended : (∃ bytes, .pulled bytes true ∈ sent) ↔ leg.body.ending = true ∨ .readEnded ∈ received
  last : .readEnded ∈ received → leg.body.inFlight = []
  stream : leg.body.stream.held + (pulled sent).length = limits.stream.size + consumed received
  connection : leg.body.connection.held + (pulled sent).length =
    limits.connection.size + (delivered received).length

theorem Leg.inv_fresh (limits : Limits) (block : List (Bytes × Bytes)) :
    Leg.Inv limits ⟨block, Channel.fresh limits⟩ block [] [] where
  head := rfl
  body := rfl
  ended := by simp [Channel.fresh]
  last := by simp
  stream := rfl
  connection := rfl

section Legs

variable {limits : Limits} {leg leg' : Leg} {block : List (Bytes × Bytes)}
  {sent received os : List Label} {act : Action} {p : Provider}

/-! What is not a callback takes nothing from a leg, and is always admitted. -/

theorem Leg.receive_of_not_callback (h : act.isCallback = false) :
    leg.receive act = some leg := by
  cases act <;> first | rfl | cases h

theorem Leg.admits_of_not_callback (h : act.isCallback = false) : leg.admits p act = true := by
  cases act <;> first | rfl | cases h

theorem Leg.pulled_le_room (hemits : Emits act os) (hadmits : leg.admits p act = true) :
    (pulled os).length ≤ leg.body.room := by
  rcases hemits.pulled with hnone | ⟨length, rfl, hle⟩
  · simp [pulled_of_none hnone]
  · simp only [Leg.admits, Bool.and_eq_true, decide_eq_true_eq] at hadmits
    omega

/-- Nothing is handed out any more once the provider is detached. -/
theorem Leg.pulled_of_detached (hemits : Emits act os) (hadmits : leg.admits p act = true)
    (hdetached : p.attached = false) : pulled os = [] := by
  rcases hemits.pulled with hnone | ⟨length, rfl, hle⟩
  · exact pulled_of_none hnone
  · simp [Leg.admits, hdetached] at hadmits

theorem Leg.Inv.sender (h : leg.Inv limits block sent received) (hemits : Emits act os)
    (hadmits : leg.admits p act = true)
    (hdetached : (∃ bytes, .pulled bytes true ∈ sent) → p.attached = false) :
    (os.foldl Leg.sent leg).Inv limits block (sent ++ os) received := by
  have hroom := Leg.pulled_le_room hemits hadmits
  rw [Leg.foldl_sent]
  refine ⟨h.head, ?_, ?_, fun hended => ?_, ?_, ?_⟩
  · rw [pulled_append, h.body, List.append_assoc]
  · simp only [List.mem_append, exists_or, Bool.or_eq_true, any_isEnd]
    rw [h.ended]
    tauto
  · have hnone := Leg.pulled_of_detached hemits hadmits (hdetached (h.ended.mpr (.inr hended)))
    rw [hnone, List.append_nil]
    exact h.last hended
  · have hspend := Credit.held_spend (hroom.trans (Nat.min_le_left _ _))
    have := h.stream
    simp only [pulled_append, List.length_append]
    omega
  · have hspend := Credit.held_spend (hroom.trans (Nat.min_le_right _ _))
    have := h.connection
    simp only [pulled_append, List.length_append]
    omega

/-- The sending end is `echo`, which may submit a response. -/
theorem Leg.Inv.answerer {os : List EchoLabel} (h : leg.Inv limits block sent received)
    (hemits : Emits act (onStream os)) (hadmits : leg.admits p act = true)
    (hdetached : (∃ bytes, .pulled bytes true ∈ sent) → p.attached = false) :
    (os.foldl Leg.answered leg).Inv limits (block ++ os.flatMap EchoLabel.block)
      (sent ++ onStream os) received := by
  have hsent := h.sender hemits hadmits hdetached
  have hbody := Leg.foldl_answered_body os leg
  exact
    { head := by rw [Leg.foldl_answered_head, h.head, List.append_assoc]
      body := by rw [hbody]; exact hsent.body
      ended := by rw [hbody]; exact hsent.ended
      last := by rw [hbody]; exact hsent.last
      stream := by rw [hbody]; exact hsent.stream
      connection := by rw [hbody]; exact hsent.connection }

/-- A callback at the receiving end takes from the leg what it passes on. -/
structure Leg.Takes (leg : Leg) (act : Action) (leg' : Leg) : Prop where
  head : leg.head = act.field ++ leg'.head
  body : leg.body.inFlight = act.data ++ leg'.body.inFlight
  ended : act = .onReadEof → leg.body.ending = true ∧ leg.body.inFlight = []
  ending : leg'.body.ending = true ↔ leg.body.ending = true ∧ act ≠ .onReadEof
  stream : leg'.body.stream = leg.body.stream
  connection : leg'.body.connection = leg.body.connection.consume act.data.length

theorem Leg.takes_self (leg : Leg) {act : Action} (hdata : act.data = []) (hfield : act.field = [])
    (hne : act ≠ .onReadEof) : leg.Takes act leg where
  head := by rw [hfield, List.nil_append]
  body := by rw [hdata, List.nil_append]
  ended h := absurd h hne
  ending := by simp [hne]
  stream := rfl
  connection := by simp [hdata, Credit.consume]

theorem Leg.receive_takes (h : leg.receive act = some leg') : leg.Takes act leg' := by
  cases act with
  | onHeader name value =>
      simp only [Leg.receive] at h
      split at h
      · rename_i hhead
        cases h
        refine ⟨?_, rfl, nofun, by simp, rfl, rfl⟩
        cases hleg : leg.head with
        | nil => simp [hleg] at hhead
        | cons f rest =>
            obtain rfl : f = (name, value) := by simpa [hleg] using hhead
            rfl
      · cases h
  | onData data =>
      simp only [Leg.receive] at h
      split at h
      · obtain ⟨ch, hch, rfl⟩ := Option.map_eq_some_iff.mp h
        obtain ⟨-, hinFlight, hch⟩ := Channel.deliver_eq_some hch
        exact ⟨rfl, hinFlight, nofun, by simp [hch], by rw [hch], by rw [hch]; rfl⟩
      · cases h
  | onReadEof =>
      simp only [Leg.receive] at h
      split at h
      · obtain ⟨ch, hch, rfl⟩ := Option.map_eq_some_iff.mp h
        obtain ⟨hending, hinFlight, rfl⟩ := Channel.finish_eq_some hch
        exact ⟨rfl, rfl, fun _ => ⟨hending, hinFlight⟩, by simp, rfl, rfl⟩
      · cases h
  | _ =>
      rw [← Option.some.inj h]
      exact leg.takes_self rfl rfl (by simp)

theorem Leg.Inv.receiver (h : leg.Inv limits block sent received) (hemits : Emits act os)
    (hreceive : leg.receive act = some leg') :
    (os.foldl Leg.credited leg').Inv limits block sent (received ++ os) := by
  have htakes := Leg.receive_takes hreceive
  rw [Leg.foldl_credited]
  refine ⟨?_, ?_, ?_, fun hmem => ?_, ?_, ?_⟩
  · rw [fields_append, hemits.fields, h.head, htakes.head, List.append_assoc]
  · rw [delivered_append, hemits.delivered, h.body, htakes.body, List.append_assoc]
    rfl
  · have hended := htakes.ended
    simp only [List.mem_append, hemits.ended, h.ended, Channel.consume, htakes.ending]
    by_cases hact : act = .onReadEof
    · simp [hact, hended hact]
    · simp [hact]
  · have hnil : leg.body.inFlight = [] := by
      rcases List.mem_append.mp hmem with hbefore | hnow
      · exact h.last hbefore
      · exact (htakes.ended (hemits.ended.mp hnow)).2
    rw [htakes.body] at hnil
    exact (List.append_eq_nil_iff.mp hnil).2
  · have := h.stream
    simp only [Channel.consume, Credit.held_consume, htakes.stream, consumed_append]
    omega
  · have := h.connection
    simp only [Channel.consume, htakes.connection, Credit.held_consume, delivered_append,
      hemits.delivered, List.length_append]
    omega

theorem Leg.Inv.credit (h : leg.Inv limits block sent received) {a : CreditAction}
    (hcredit : leg.credit limits a = some leg') : leg'.Inv limits block sent received := by
  obtain ⟨ch, hch, rfl⟩ := Option.map_eq_some_iff.mp hcredit
  obtain ⟨hinFlight, hending, hstream, hconnection⟩ := Channel.credit_eq_some hch
  exact
    { head := h.head
      body := by rw [hinFlight, h.body]
      ended := by rw [hending, h.ended]
      last := by rw [hinFlight]; exact h.last
      stream := by rw [hstream, h.stream]
      connection := by rw [hconnection, h.connection] }

end Legs

/-! ### The invariant of an exchange -/

/-- The client reads into a destination that holds at least one byte, in at most
`max_iovec_` buffers. -/
def clientReads (x : Exchange) : ExchangeAction → Prop
  | .client act => destinationOk x.client act
  | _ => True

instance : DecidableRel clientReads := fun x a =>
  match a with
  | .client act => inferInstanceAs (Decidable (destinationOk x.client act))
  | .server _ | .request _ | .response _ => .isTrue trivial

/-- How the client's stream is used and called in an exchange. -/
def clientOk (c : Cell) (act : Action) : Prop :=
  destinationOk c act ∧ c.stream.read.MayReceive c.stream.closed act

structure Exchange.Inv (up down : Limits) (block : List (Bytes × Bytes))
    (tr : List ExchangeLabel) (x : Exchange) : Prop where
  client : cellMachine.Run clientOk (atClient tr) x.client
  server : echoMachine.Run anyStep (atServer tr) x.server
  request : x.request.Inv up block (atClient tr) (onStream (atServer tr))
  response : x.response.Inv down ((atServer tr).flatMap EchoLabel.block)
    (onStream (atServer tr)) (atClient tr)

theorem Exchange.inv_fresh (up down : Limits) (id : ℤ) (path : Bytes) (contentLength : Option ℕ)
    (headers : List (Bytes × Bytes)) :
    Exchange.Inv up down (submitRequestFields path contentLength headers) []
      (Exchange.fresh up down id path contentLength headers) where
  client := .init (cellMachine_init id true)
  server := .init ⟨id, rfl⟩
  request := Leg.inv_fresh up _
  response := Leg.inv_fresh down []

section Steps

variable {up down : Limits} {block : List (Bytes × Bytes)} {tr : List ExchangeLabel}
  {x : Exchange}

/-- What arrives at the client comes in an order that its stream expects. -/
theorem Exchange.Inv.mayReceive (h : x.Inv up down block tr) {act : Action} {response : Leg}
    (hhears : x.client.stream.hears act = true)
    (hreceive : x.response.receive act = some response) :
    x.client.stream.read.MayReceive x.client.stream.closed act := by
  cases act with
  | onData data =>
      have hopen : x.client.stream.closed = false := by
        simpa [Stream.hears, Action.isCallback] using hhears
      refine ⟨?_, hopen⟩
      by_contra heof
      have hended := (flags_run h.client).2.mp (by simpa using heof)
      have hbody := (Leg.receive_takes hreceive).body
      rw [h.response.last hended] at hbody
      simp only [Leg.receive] at hreceive
      split at hreceive
      · obtain ⟨ch, hch, -⟩ := Option.map_eq_some_iff.mp hreceive
        exact (Channel.deliver_eq_some hch).1 (List.append_eq_nil_iff.mp hbody.symm).1
      · cases hreceive
  | onReadEof =>
      show x.client.stream.closed = false
      simpa [Stream.hears, Action.isCallback] using hhears
  | _ => trivial

theorem Exchange.Inv.detached (h : x.Inv up down block tr) :
    ((∃ bytes, .pulled bytes true ∈ atClient tr) → x.client.provider.attached = false) ∧
      ((∃ bytes, .pulled bytes true ∈ onStream (atServer tr)) →
        x.server.cell.provider.attached = false) := by
  have hserver := (Echo.inv_run h.server).1.run
  refine ⟨?_, ?_⟩
  · rintro ⟨bytes, hmem⟩
    exact (Provider.detached_run h.client hmem).2 rfl
  · rintro ⟨bytes, hmem⟩
    exact (Provider.detached_run hserver hmem).2 rfl

theorem Exchange.Inv.step (h : x.Inv up down block tr) {a : ExchangeAction} {x' : Exchange}
    {os : List ExchangeLabel} (hok : clientReads x a) (hs : x.step up down a = some (x', os)) :
    x'.Inv up down block (tr ++ os) := by
  obtain ⟨hclient, hserver⟩ := h.detached
  cases Exchange.step_moves hs with
  | client act client response ls hhears hadmits hreceive hstep =>
      have hemits := Cell.step_emits (ReadSide.balance_run h.client).1 hstep
      have hmay := h.mayReceive hhears hreceive
      refine ⟨?_, ?_, ?_, ?_⟩
      · rw [atClient_append, atClient_map_client]
        exact .step h.client ⟨hok, hmay⟩ hstep
      · rw [atServer_append, atServer_map_client, List.append_nil]
        exact h.server
      · rw [atClient_append, atClient_map_client, atServer_append, atServer_map_client,
          List.append_nil]
        exact h.request.sender hemits hadmits hclient
      · rw [atClient_append, atClient_map_client, atServer_append, atServer_map_client,
          List.append_nil]
        exact h.response.receiver hemits hreceive
  | server a server request ls hhears hreceive hstep =>
      have hread := (ReadSide.balance_run (Echo.inv_run h.server).1.run).1
      obtain ⟨act, hemits, hact⟩ := Echo.step_emits hread hstep
      -- a step that is no callback takes nothing from a leg, and is admitted by any
      obtain ⟨hreceive, hadmits⟩ : x.request.receive act = some request ∧
          x.response.admits x.server.cell.provider act = true := by
        rcases hact with hsome | ⟨hnone, hact⟩
        · obtain rfl : a = .callback act := by
            cases a with
            | callback act' => exact congrArg EchoAction.callback (Option.some.inj hsome)
            | _ => cases hsome
          simp only [Exchange.hears, Bool.and_eq_true] at hhears
          exact ⟨hreceive, hhears.2⟩
        · rw [hnone] at hreceive
          rw [← Option.some.inj hreceive]
          exact ⟨Leg.receive_of_not_callback hact, Leg.admits_of_not_callback hact⟩
      refine ⟨?_, ?_, ?_, ?_⟩
      · rw [atClient_append, atClient_map_server, List.append_nil]
        exact h.client
      · rw [atServer_append, atServer_map_server]
        exact .step h.server trivial hstep
      · rw [atClient_append, atClient_map_server, atServer_append, atServer_map_server,
          List.append_nil, onStream_append]
        exact h.request.receiver hemits hreceive
      · rw [atClient_append, atClient_map_server, atServer_append, atServer_map_server,
          List.append_nil, onStream_append, List.flatMap_append]
        exact h.response.answerer hemits hadmits hserver
  | request a leg hcredit =>
      rw [List.append_nil]
      exact ⟨h.client, h.server, h.request.credit hcredit, h.response⟩
  | response a leg hcredit =>
      rw [List.append_nil]
      exact ⟨h.client, h.server, h.request, h.response.credit hcredit⟩

/-- Every run of an exchange is in order, for the request it began with. -/
theorem Exchange.inv_run (run : (exchangeMachine up down).Run clientReads tr x) :
    ∃ path contentLength headers,
      x.Inv up down (submitRequestFields path contentLength headers) tr := by
  refine run.invariant (I := fun tr x => ∃ path contentLength headers,
    x.Inv up down (submitRequestFields path contentLength headers) tr) ?_ ?_
  · rintro x ⟨id, path, contentLength, headers, rfl⟩
    exact ⟨path, contentLength, headers, Exchange.inv_fresh up down id path contentLength headers⟩
  · rintro tr x a x' os ⟨path, contentLength, headers, h⟩ hok hs
    exact ⟨path, contentLength, headers, h.step hok hs⟩

end Steps

/-! ### The round trip -/

/-- A read that has reported the end of a body leaves nothing unread. -/
theorem over_run {tr : List Label} {c : Cell} (run : cellMachine.Run bodyOk tr c) :
    OverSince tr c := by
  refine (run.invariant_along (I := fun tr c => c.stream.read.Roomy ∧ OverSince tr c) ?_ ?_).2
  · rintro c ⟨id, submitted, rfl⟩
    exact ⟨ReadSide.roomy_of_none rfl, by simp [OverSince]⟩
  · rintro tr c a c' os run ⟨hroomy, hover⟩ hok hs
    have hinv := (ReadSide.balance_run run).1
    have hread := Stream.step_read (Cell.step_eq_some hs).2.1
    exact ⟨hinv.step_roomy hroomy hread hok.1, hover.step hinv hroomy hok hs⟩

theorem ReadSide.Over.readEof {r : ReadSide} {closed : Bool} (h : r.Over closed .eof) :
    r.readEof = true := by
  have herror := h.error
  unfold ReadSide.eofError at herror
  split at herror
  · assumption
  · cases herror

section RoundTrip

variable {up down : Limits} {block : List (Bytes × Bytes)} {tr : List ExchangeLabel}
  {x : Exchange}

/-- The stations of a byte: what the client has read is what arrived, less what is
unread; what arrived is what the server sent, less what is in flight; what the
server sent is at most what it was given; and that is what the client sent, less
what is in flight. -/
theorem Exchange.Inv.stations (h : x.Inv up down block tr) :
    delivered (atClient tr) = returned (atClient tr) ++ x.client.stream.read.contents ∧
      pulled (onStream (atServer tr)) =
        delivered (atClient tr) ++ x.response.body.inFlight ∧
      pulled (onStream (atServer tr)) <+: delivered (onStream (atServer tr)) ∧
      pulled (atClient tr) =
        delivered (onStream (atServer tr)) ++ x.request.body.inFlight :=
  ⟨(ReadSide.queue_run (h.client.weaken fun _ _ hok => hok.1)).2, h.response.body,
    Echo.Inv.pulled_prefix (Echo.inv_run h.server).1, h.request.body⟩

theorem Exchange.Inv.read_back (h : x.Inv up down block tr) :
    returned (atClient tr) <+: pulled (atClient tr) := by
  obtain ⟨hread, hresponse, hecho, hrequest⟩ := h.stations
  calc returned (atClient tr) <+: delivered (atClient tr) := ⟨_, hread.symm⟩
    _ <+: pulled (onStream (atServer tr)) := ⟨_, hresponse.symm⟩
    _ <+: delivered (onStream (atServer tr)) := hecho
    _ <+: pulled (atClient tr) := ⟨_, hrequest.symm⟩

/-- When the response has ended at the client, the request has ended at the server,
and all of it has been sent back. -/
theorem Exchange.Inv.whole (h : x.Inv up down block tr) (hended : .readEnded ∈ atClient tr) :
    (∃ bytes, .pulled bytes true ∈ atClient tr) ∧
      delivered (atClient tr) = pulled (atClient tr) := by
  obtain ⟨hinv, hsound⟩ := Echo.inv_run h.server
  obtain ⟨-, hresponse, hprefix, hrequest⟩ := h.stations
  obtain ⟨bytes, hmem⟩ := h.response.ended.mpr (.inr hended)
  -- the server was told to end the response after it had read the end of the request
  obtain ⟨l, hl, hstream⟩ := List.mem_filterMap.mp hmem
  obtain ⟨pre, post, hsplit⟩ := List.append_of_mem hl
  obtain rfl : l = .stream (.pulled bytes true) := by
    cases l with
    | stream l' => exact congrArg EchoLabel.stream (Option.some.inj hstream)
    | submitted => cases hstream
  obtain ⟨hreadEnded, hwhole⟩ := hsound pre _ post hsplit
  have hreadEnded' : .readEnded ∈ onStream (atServer tr) := by
    rw [hsplit, onStream_append]
    exact List.mem_append_left _ hreadEnded
  refine ⟨h.request.ended.mpr (.inr hreadEnded'), ?_⟩
  have hdelivered := delivered_after_end hsound hsplit hreadEnded
  have hpulled : pulled (onStream (atServer tr)) = delivered (onStream (atServer tr)) := by
    refine hprefix.eq_of_length_le ?_
    rw [hdelivered, ← hwhole, hsplit, onStream_append, pulled_append]
    simp [onStream, EchoLabel.ofStream, pulled, Label.pulledBytes]
  rw [h.response.last hended, List.append_nil] at hresponse
  rw [h.request.last hreadEnded', List.append_nil] at hrequest
  rw [← hresponse, hpulled, hrequest]

/-- A request to `echo` and back, in every interleaving of the client, of nghttp2 at
both ends and of `echo`, and whatever is closed or stopped when: what the client has
read is at all times the beginning of what it has handed to nghttp2, byte for byte;
and when a read says that the response is over, the client had ended its request,
and it has read the whole of it back. -/
theorem exchange_round_trip (run : (exchangeMachine up down).Run clientReads tr x) :
    returned (atClient tr) <+: pulled (atClient tr) ∧
      ∀ bytes, .readReturned ⟨some .eof, bytes⟩ ∈ atClient tr →
        (∃ bytes, .pulled bytes true ∈ atClient tr) ∧
          returned (atClient tr) = pulled (atClient tr) := by
  obtain ⟨path, contentLength, headers, h⟩ := Exchange.inv_run run
  refine ⟨h.read_back, fun bytes hmem => ?_⟩
  have hread := h.stations.1
  have hover := over_run (h.client.weaken fun _ _ hok => ⟨hok.1.1, hok.2⟩) .eof bytes rfl hmem
  obtain ⟨hended, hwhole⟩ := h.whole ((flags_run h.client).2.mp hover.readEof)
  rw [hover.contents, List.append_nil] at hread
  exact ⟨hended, by rw [← hread, hwhole]⟩

end RoundTrip

/-- Windows of two bytes, announced byte by byte. -/
def twoBytes : Limits := ⟨⟨2, 1, by decide, by decide⟩, ⟨2, 1, by decide, by decide⟩⟩

/-- A body of three bytes, sent through windows of two bytes and read back in two
pieces, the first of which is read while the second is not sent yet. -/
theorem exchange_round_trip_of_body :
    ∃ tr x, (exchangeMachine twoBytes twoBytes).Run clientReads tr x ∧
      .readReturned ⟨some .eof, []⟩ ∈ atClient tr ∧ pulled (atClient tr) = [1, 2, 3] ∧
      returned (atClient tr) = pulled (atClient tr) := by
  obtain ⟨tr, x, run, heof, hpulled⟩ :
      ∃ tr x, (exchangeMachine twoBytes twoBytes).Run clientReads tr x ∧
        .readReturned ⟨some .eof, []⟩ ∈ atClient tr ∧ pulled (atClient tr) = [1, 2, 3] :=
    Machine.run_of_exec (exchangeMachine_init twoBytes twoBytes 1 (ascii "/") none [])
      [.client (.write (.write [[1, 2, 3]]) false), .client (.producerCallback 2),
        .server (.callback (.onHeader (ascii ":method") (ascii "POST"))),
        .server (.callback (.onHeader (ascii ":scheme") (ascii "http"))),
        .server (.callback (.onHeader (ascii ":path") (ascii "/"))),
        .server (.callback (.onHeader (ascii ":authority") (ascii "localhost"))),
        .server (.go true), .server (.go true), .server (.callback (.onData [1, 2])),
        .server .resume, .server (.go true), .server (.go true),
        .server (.callback (.producerCallback 2)), .server .resume, .server (.go true),
        .client (.onHeader (ascii ":status") (ascii "200")), .client (.onData [1, 2]),
        .client (.readSome [8] false), .request .announceStream, .request .announceConnection,
        .request .updateStream, .request .updateConnection, .client .resumeWrite,
        .client (.producerCallback 2), .client .resumeWrite,
        .server (.callback (.onData [3])), .server .resume, .server (.go true),
        .client (.write .writeEof false), .client (.producerCallback 1),
        .server (.callback .onReadEof), .response .announceStream,
        .response .announceConnection, .response .updateStream, .response .updateConnection,
        .server (.callback (.producerCallback 2)), .server .resume, .server (.go true),
        .server (.go true), .server (.callback (.producerCallback 1)),
        .client (.onData [3]), .client .onReadEof, .client (.readSome [8] false),
        .client (.readSome [8] false)] (by decide)
  exact ⟨tr, x, run, heof, hpulled, ((exchange_round_trip run).2 [] heof).2⟩

end Nghttp2Corosio
