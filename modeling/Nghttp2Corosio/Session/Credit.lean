import Nghttp2Corosio.Session.Registry
import Nghttp2Corosio.Stream.ReadInvariant

/-!
Flow-control credit.

The connection is credited for a DATA chunk as soon as it is received, a stream
when its reader has got the bytes. `Session.Credit` keeps the two accounts: what
nghttp2 counts as received on a stream is what `on_data` was given as long as the
stream is registered, and what it counts as consumed is what the stream passed to
`consume()`. The rest is the balance of the read side. With nghttp2 keeping to
its window, the balance bounds what a stream buffers.
-/

namespace Nghttp2Corosio

open Async Buffers Runs

/-! ### DATA chunks -/

def SessionAction.chunks : SessionAction → List (ℤ × Bytes)
  | .dataChunk id data _ => [(id, data)]
  | _ => []

def SessionLabel.chunks : SessionLabel → List (ℤ × Bytes)
  | .chunk id data => [(id, data)]
  | _ => []

/-- The DATA chunks received, with their stream ids. -/
def chunks (tr : List SessionLabel) : List (ℤ × Bytes) := tr.flatMap SessionLabel.chunks

def bytesIn (cs : List (ℤ × Bytes)) : ℕ := (cs.map fun c => c.2.length).sum

def bytesOn (id : ℤ) (cs : List (ℤ × Bytes)) : ℕ := bytesIn (cs.filter fun c => c.1 = id)

@[simp] theorem chunks_append (tr os : List SessionLabel) :
    chunks (tr ++ os) = chunks tr ++ chunks os := by
  simp [chunks]

@[simp] theorem bytesIn_append (cs ds : List (ℤ × Bytes)) :
    bytesIn (cs ++ ds) = bytesIn cs + bytesIn ds := by
  simp [bytesIn]

@[simp] theorem bytesOn_append (id : ℤ) (cs ds : List (ℤ × Bytes)) :
    bytesOn id (cs ++ ds) = bytesOn id cs + bytesOn id ds := by
  simp [bytesOn]

theorem bytesOn_self (id : ℤ) (data : Bytes) : bytesOn id [(id, data)] = data.length := by
  simp [bytesOn, bytesIn]

theorem SessionAction.bytesOn_chunks_of_ne {e : SessionAction} {id : ℤ}
    (h : e.target ≠ some id) : bytesOn id e.chunks = 0 := by
  cases e with
  | dataChunk id' data adds =>
      have hne : id' ≠ id := fun heq => h (congrArg some heq)
      simp [SessionAction.chunks, bytesOn, bytesIn, hne]
  | _ => rfl

theorem Session.step_chunks {s s' : Session} {e : SessionAction} {os : List SessionLabel}
    (hs : s.step e = some (s', os)) : chunks os = e.chunks := by
  obtain ⟨rest, rfl, hrest⟩ := Session.step_arrivals hs
  have hnil : chunks rest = [] := by
    refine List.flatMap_eq_nil_iff.mpr fun l hl => ?_
    have harrival := hrest l hl
    cases l <;> first | rfl | cases harrival
  rw [chunks_append, hnil, List.append_nil]
  cases e <;> rfl

/-! ### The accounts of nghttp2 -/

theorem Nghttp2.note_received (n : Nghttp2) (e : SessionAction) (k : ℤ) :
    (n.note e).received k = n.received k + bytesOn k e.chunks := by
  cases e with
  | dataChunk id data adds =>
      by_cases hk : k = id
      · subst hk
        simp [Nghttp2.note, Nghttp2.consumeConnection, Nghttp2.call, Nghttp2.receive,
          SessionAction.chunks, bytesOn_self]
      · rw [SessionAction.bytesOn_chunks_of_ne (by simp [SessionAction.target, Ne.symm hk])]
        simp [Nghttp2.note, Nghttp2.consumeConnection, Nghttp2.call, Nghttp2.receive, hk]
  | frameRecv id request endStream => cases endStream <;> rfl
  | beginHeaders id request => cases request <;> rfl
  | _ => rfl

theorem Nghttp2.note_connection (n : Nghttp2) (e : SessionAction) :
    (n.note e).connReceived = n.connReceived + bytesIn e.chunks ∧
      (n.note e).connConsumed = n.connConsumed + bytesIn e.chunks := by
  cases e with
  | dataChunk id data adds =>
      simp [Nghttp2.note, Nghttp2.consumeConnection, Nghttp2.call, Nghttp2.receive,
        SessionAction.chunks, bytesIn]
  | frameRecv id request endStream => cases endStream <;> exact ⟨rfl, rfl⟩
  | beginHeaders id request => cases request <;> exact ⟨rfl, rfl⟩
  | _ => exact ⟨rfl, rfl⟩

theorem Session.Moves.received {s s' : Session} {e : SessionAction} {os : List SessionLabel}
    (h : s.Moves e os s') :
    (∀ k, s'.nghttp2.received k = s.nghttp2.received k + bytesOn k e.chunks) ∧
      s'.nghttp2.connReceived = s.nghttp2.connReceived + bytesIn e.chunks ∧
      s'.nghttp2.connConsumed = s.nghttp2.connConsumed + bytesIn e.chunks := by
  have hnote := s.nghttp2.note_connection e
  cases h with
  | quiet _ _ _ hn =>
      rw [hn]
      exact ⟨s.nghttp2.note_received e, hnote⟩
  | act _ _ _ _ _ _ _ _ hn =>
      rw [hn]
      exact ⟨s.nghttp2.note_received e, hnote⟩
  | register id submitted _ _ _ hn he =>
      have hchunks : e.chunks = [] := by
        rcases he with ⟨-, rfl⟩ | ⟨-, -, adds, rfl⟩ <;> rfl
      rw [hn, hchunks]
      exact ⟨fun k => rfl, rfl, rfl⟩
  | close _ _ _ _ _ hn =>
      rw [hn]
      exact ⟨s.nghttp2.note_received e, hnote⟩
  | teardown he hclose =>
      rw [(Session.closeAll_eq_some hclose).1, he]
      exact ⟨fun k => rfl, rfl, rfl⟩

theorem consumed_of_closed {ls : List Label} (h : ∀ l ∈ ls, l = .closed) :
    consumed ls = 0 ∧ delivered ls = [] ∧ returned ls = [] := by
  have hsilent : ∀ l ∈ ls, l.isRead = false := by
    intro l hl
    rw [h l hl]
    rfl
  obtain ⟨hd, hr, hc⟩ := read_silent hsilent
  exact ⟨hc, hd, hr⟩

/-- What a step adds to what was consumed on a stream is what the stream passed
to `consume()`. -/
theorem Session.Moves.consumed {s s' : Session} {e : SessionAction} {os : List SessionLabel}
    (hinv : s.toTable.Inv s.nghttp2.toNghttp2Streams) (h : s.Moves e os s') :
    (∀ k, k ∉ s.nghttp2.opened → s'.nghttp2.consumed k = s.nghttp2.consumed k) ∧
      ∀ a c, s.cells a = some c →
        s'.nghttp2.consumed c.stream.id =
          s.nghttp2.consumed c.stream.id + Nghttp2Corosio.consumed (onCell a os) := by
  have hsame {n : Nghttp2Streams} {os : List SessionLabel} (hn : n.consumed = s.nghttp2.consumed)
      (hos : ∀ a, ∀ l ∈ onCell a os, l = .closed) :
      (∀ k, k ∉ s.nghttp2.opened → n.consumed k = s.nghttp2.consumed k) ∧
        ∀ a c, s.cells a = some c → n.consumed c.stream.id =
          s.nghttp2.consumed c.stream.id + Nghttp2Corosio.consumed (onCell a os) := by
    refine ⟨fun k _ => by rw [hn], fun a c _ => ?_⟩
    rw [hn, (consumed_of_closed (hos a)).1, Nat.add_zero]
  have huntagged {os : List SessionLabel} (hos : Untagged os) :
      ∀ a, ∀ l ∈ onCell a os, l = .closed := by
    intro a l hl
    rw [onCell_untagged hos] at hl
    cases hl
  cases h with
  | quiet _ hos _ hn =>
      rw [hn]
      exact hsame (s.nghttp2.note_consumed e) (huntagged hos)
  | @act b c c₁ act ls pre post hdoes hne hc hs hpre hpost hos _ hn =>
      rw [hn]
      dsimp only
      refine ⟨fun k hk => ?_, fun a d hd => ?_⟩
      · have hne : k ≠ c.stream.id := fun heq => hk (heq ▸ hinv.opened b c hc)
        rw [Function.update_of_ne hne]
      · rw [hos, onCell_append, onCell_append, onCell_untagged hpre, onCell_untagged hpost,
          List.nil_append, List.append_nil]
        by_cases hab : a = b
        · subst hab
          obtain rfl : c = d := by simpa [hc] using hd
          rw [Function.update_self, onCell_map_stream]
        · have hne : d.stream.id ≠ c.stream.id := fun heq =>
            hab (hinv.injective a b d c hd hc heq)
          rw [Function.update_of_ne hne, onCell_map_stream_of_ne (Ne.symm hab)]
          rfl
  | register id submitted _ hos _ hn _ =>
      rw [hn]
      exact hsame rfl (huntagged hos)
  | @close id b c he hfind hc hos _ hn =>
      rw [hn]
      refine hsame (s.nghttp2.note_consumed e) fun a l hl => ?_
      have hmem := mem_onCell.mp hl
      rw [hos, List.mem_singleton] at hmem
      cases hmem
      rfl
  | teardown he hclose =>
      rw [(Session.closeAll_eq_some hclose).1]
      refine hsame rfl fun a l hl => ?_
      obtain ⟨b, -, heq⟩ := Session.closeAll_labels hclose _ (mem_onCell.mp hl)
      cases heq
      rfl

/-- What an action on an object delivers to it is what nghttp2 has just
received for it. -/
theorem Session.Does.delivered {s : Session} {e : SessionAction} {a : ℕ} {c c' : Cell}
    {act : Action} {ls : List Label} (hinv : s.toTable.Inv s.nghttp2.toNghttp2Streams)
    (hread : c.stream.read.Inv) (hdoes : s.Does e a c act) (hs : c.step act = some (c', ls)) :
    (Nghttp2Corosio.delivered ls).length = bytesOn c.stream.id e.chunks := by
  rw [hread.step_delivered (Stream.step_read (Cell.step_eq_some hs).2.1)]
  cases hdoes with
  | data data adds hfind hc =>
      rw [(hinv.id_of_lookup hfind hc).1]
      exact (bytesOn_self _ data).symm
  | user act adds hc huser => cases act <;> first | rfl | cases huser
  | _ => rfl

/-! ### Runs -/

structure Session.Credit (tr : List SessionLabel) (s : Session) : Prop where
  received : ∀ k, s.nghttp2.received k = bytesOn k (chunks tr)
  connReceived : s.nghttp2.connReceived = bytesIn (chunks tr)
  connConsumed : s.nghttp2.connConsumed = bytesIn (chunks tr)
  fresh : ∀ k, k ∉ s.nghttp2.opened → s.nghttp2.received k = 0 ∧ s.nghttp2.consumed k = 0
  consumed : ∀ a c, s.cells a = some c →
    s.nghttp2.consumed c.stream.id = Nghttp2Corosio.consumed (onCell a tr)
  delivered : ∀ a c, s.cells a = some c → c.stream.closed = false →
    s.nghttp2.received c.stream.id = (Nghttp2Corosio.delivered (onCell a tr)).length

theorem Session.credit_fresh (role : Role) : Session.Credit [] (Session.fresh role) where
  received _ := rfl
  connReceived := rfl
  connConsumed := rfl
  fresh _ _ := ⟨rfl, rfl⟩
  consumed a c h := by cases h
  delivered a c h := by cases h

theorem Session.bytesOn_chunks_of_not_opened {s : Session} {e : SessionAction}
    (hallows : s.allows e = true) {k : ℤ} (hk : k ∉ s.nghttp2.opened) :
    bytesOn k e.chunks = 0 := by
  cases e with
  | dataChunk id data adds =>
      simp only [Session.allows, Bool.and_eq_true, decide_eq_true_eq] at hallows
      have hne : id ≠ k := by
        rintro rfl
        exact hk hallows.2.1
      exact SessionAction.bytesOn_chunks_of_ne (by simpa [SessionAction.target] using hne)
  | _ => rfl

theorem Session.Credit.step {tr os : List SessionLabel} {s s' : Session} {e : SessionAction}
    {ok : Cell → Action → Prop} (h : s.Credit tr)
    (hinv : s.toTable.Inv s.nghttp2.toNghttp2Streams)
    (hcells : HeapRuns cellMachine SessionLabel.ofStream ok tr s.cells)
    (hs : s.step e = some (s', os)) : s'.Credit (tr ++ os) := by
  have hmoves := Session.step_moves hs
  have hallows := (Session.step_eq_some hs).1
  obtain ⟨hreceived, hconnReceived, hconnConsumed⟩ := hmoves.received
  obtain ⟨hkeep, hconsumed⟩ := hmoves.consumed hinv
  have hchunks : chunks (tr ++ os) = chunks tr ++ e.chunks := by
    rw [chunks_append, Session.step_chunks hs]
  refine ⟨fun k => ?_, ?_, ?_, fun k hk => ?_, fun a c' hc' => ?_, fun a c' hc' hopen => ?_⟩
  · rw [hreceived, h.received, hchunks, bytesOn_append]
  · rw [hconnReceived, h.connReceived, hchunks, bytesIn_append]
  · rw [hconnConsumed, h.connConsumed, hchunks, bytesIn_append]
  · have hk : k ∉ s.nghttp2.opened := fun hmem => hk (hmoves.opened hmem)
    rw [hreceived, hkeep k hk, Session.bytesOn_chunks_of_not_opened hallows hk]
    exact h.fresh k hk
  · rw [onCell_append, consumed_append]
    cases hmoves.cellMove hinv hc' with
    | made hnone hfresh _ _ hos =>
        rw [hkeep _ hfresh, (h.fresh _ hfresh).2, hos, onCell_unused hcells hnone]
        rfl
    | left hc _ _ => rw [hconsumed a c' hc, h.consumed a c' hc]
    | @acted c act hc _ _ hstep =>
        rw [Stream.step_id (Cell.step_eq_some hstep).2.1, hconsumed a c hc, h.consumed a c hc]
    | @closed c hc _ hid _ _ _ _ => rw [hid, hconsumed a c hc, h.consumed a c hc]
  · rw [hreceived, onCell_append, delivered_append, List.length_append]
    cases hmoves.cellMove hinv hc' with
    | made hnone hfresh _ htarget hos =>
        rw [SessionAction.bytesOn_chunks_of_ne (by simp [htarget]), (h.fresh _ hfresh).1, hos,
          onCell_unused hcells hnone]
        rfl
    | left hc htarget hos =>
        rw [SessionAction.bytesOn_chunks_of_ne (htarget hopen), h.delivered a c' hc hopen, hos]
        rfl
    | @acted c act hc hdoes hne hstep =>
        have hstream := (Cell.step_eq_some hstep).2.1
        rw [Stream.step_closed hstream, decide_eq_false hne, Bool.or_false] at hopen
        have hread := (ReadSide.balance_run (onCell_run hcells hc)).1
        rw [Stream.step_id hstream, h.delivered a c hc hopen, hdoes.delivered hinv hread hstep]
    | closed _ _ _ _ hclosed _ _ =>
        rw [hclosed] at hopen
        cases hopen

theorem Session.credit_run {ok : Session → SessionAction → Prop} {tr : List SessionLabel}
    {s : Session} (run : sessionMachine.Run ok tr s) :
    s.Credit tr ∧ HeapRuns cellMachine SessionLabel.ofStream anyStep tr s.cells := by
  refine ⟨run.invariant_along (I := fun tr s => s.Credit tr) ?_ ?_, Session.cells_run run⟩
  · rintro s ⟨role, rfl⟩
    exact Session.credit_fresh role
  · intro tr s e s' os run h _ hs
    exact h.step (Session.inv_run run) (Session.cells_run run) hs

/-! ### The window -/

/-- nghttp2 admits at most `W` bytes that are not consumed yet on a stream. -/
def Session.Admits (W : ℕ) (s : Session) : SessionAction → Prop
  | .dataChunk id data _ => s.nghttp2.received id + data.length ≤ s.nghttp2.consumed id + W
  | _ => True

instance (W : ℕ) (s : Session) : DecidablePred (s.Admits W)
  | .dataChunk id data _ =>
      inferInstanceAs
        (Decidable (s.nghttp2.received id + data.length ≤ s.nghttp2.consumed id + W))
  | .beginHeaders _ _ | .header _ _ _ | .frameRecv _ _ _ | .streamClose _ | .dataSourceRead _ _
  | .memSend _ _ _ | .written _ | .resumeSend | .startRecv _ _ | .readDone _ _ | .memRecv _ _ _
  | .stop | .teardown | .user _ _ _ | .submitResponse _ _ _ | .submitRequest _ _ =>
      instDecidableTrue

/-- What was delivered to a stream and not yet returned fits into the window. -/
theorem Session.outstanding_le {ok : Session → SessionAction → Prop} {W : ℕ}
    (hW : ∀ s e, ok s e → s.Admits W e) {tr : List SessionLabel} {s : Session}
    (run : sessionMachine.Run ok tr s) {a : ℕ} {c : Cell} (hc : s.cells a = some c) :
    (delivered (onCell a tr)).length ≤ (returned (onCell a tr)).length + W := by
  refine run.invariant_along (I := fun tr s => ∀ a c, s.cells a = some c →
    (delivered (onCell a tr)).length ≤ (returned (onCell a tr)).length + W) ?_ ?_ a c hc
  · rintro s ⟨role, rfl⟩ a c h
    cases h
  · intro tr s e s' os run h hok hs a c' hc'
    obtain ⟨hcredit, hcells⟩ := Session.credit_run run
    have hinv := Session.inv_run run
    rw [onCell_append, delivered_append, returned_append, List.length_append, List.length_append]
    cases (Session.step_moves hs).cellMove hinv hc' with
    | made hnone _ _ _ hos =>
        rw [hos, onCell_unused hcells hnone]
        exact Nat.zero_le _
    | left hc _ hos =>
        rw [hos]
        exact h a c' hc
    | @acted c act hc hdoes hne hstep =>
        obtain ⟨hread, hbalance, -⟩ := ReadSide.balance_run (onCell_run hcells hc)
        have hdelivered := hread.step_delivered (Stream.step_read (Cell.step_eq_some hstep).2.1)
        have hbefore := h a c hc
        cases hdoes with
        | data data adds hfind hc =>
            -- only DATA adds to what is outstanding, and it was admitted
            obtain ⟨hid, hopen⟩ := hinv.id_of_lookup hfind hc
            have hadmits : s.nghttp2.received _ + data.length ≤ s.nghttp2.consumed _ + W :=
              hW s _ hok
            rw [← hid, hcredit.delivered a c hc hopen, hcredit.consumed a c hc, hbalance] at hadmits
            rw [hdelivered]
            simp only [Action.data]
            omega
        | user act adds hc huser =>
            have hnil : act.data = [] := by cases act <;> first | rfl | cases huser
            rw [hdelivered, hnil, List.length_nil]
            omega
        | _ =>
            rw [hdelivered]
            simp only [Action.data, List.length_nil]
            omega
    | closed hc _ _ _ _ _ hos =>
        obtain ⟨-, hd, hr⟩ := consumed_of_closed hos
        rw [hd, hr]
        exact h a _ hc

/-- Credit is neither leaked nor granted too early. The connection is credited
for all DATA received. A registered stream is credited for what its reads
returned, and what it has received but not been credited for is what it holds.
So when nghttp2 keeps to a window, no stream holds more than the window, and a
registered stream that holds nothing has all of it. -/
theorem credit_balanced {ok : Session → SessionAction → Prop} {tr : List SessionLabel}
    {s : Session} (run : sessionMachine.Run ok tr s) :
    s.nghttp2.connConsumed = bytesIn (chunks tr) ∧
      (∀ id a c, s.findStream id = some a → s.cells a = some c →
        s.nghttp2.consumed id = (returned (onCell a tr)).length ∧
        bytesOn id (chunks tr) = s.nghttp2.consumed id +
          (c.stream.read.unread.length + c.stream.read.inSink.length)) ∧
      ∀ W, (∀ s e, ok s e → s.Admits W e) →
        (∀ a c, s.cells a = some c →
          c.stream.read.unread.length + c.stream.read.inSink.length ≤ W) ∧
        ∀ id a c, s.findStream id = some a → s.cells a = some c → c.stream.read.contents = [] →
          ∀ data adds, data.length ≤ W → s.Admits W (.dataChunk id data adds) := by
  obtain ⟨hcredit, hcells⟩ := Session.credit_run run
  have hinv := Session.inv_run run
  have hbalance (a : ℕ) (c : Cell) (hc : s.cells a = some c) :
      (delivered (onCell a tr)).length = (returned (onCell a tr)).length +
        (c.stream.read.unread.length + c.stream.read.inSink.length) := by
    have hlength := (ReadSide.balance_run (onCell_run hcells hc)).2.2.length_eq
    simp only [ReadSide.contents, List.length_append] at hlength
    rw [hlength, Nat.add_comm c.stream.read.unread.length]
  have hconsumed (a : ℕ) (c : Cell) (hc : s.cells a = some c) :
      s.nghttp2.consumed c.stream.id = (returned (onCell a tr)).length :=
    (hcredit.consumed a c hc).trans (ReadSide.balance_run (onCell_run hcells hc)).2.1
  have hreceived (id : ℤ) (a : ℕ) (c : Cell) (hfind : s.findStream id = some a)
      (hc : s.cells a = some c) : s.nghttp2.received id = s.nghttp2.consumed id +
        (c.stream.read.unread.length + c.stream.read.inSink.length) := by
    obtain ⟨rfl, hopen⟩ := hinv.id_of_lookup hfind hc
    rw [hcredit.delivered a c hc hopen, hbalance a c hc, hconsumed a c hc]
  refine ⟨hcredit.connConsumed, fun id a c hfind hc => ⟨?_, ?_⟩, fun W hW => ⟨fun a c hc => ?_,
    fun id a c hfind hc hnil data adds hdata => ?_⟩⟩
  · obtain ⟨rfl, -⟩ := hinv.id_of_lookup hfind hc
    exact hconsumed a c hc
  · rw [← hcredit.received]
    exact hreceived id a c hfind hc
  · have hle := Session.outstanding_le hW run hc
    rw [hbalance a c hc] at hle
    omega
  · have hheld : c.stream.read.unread.length + c.stream.read.inSink.length = 0 := by
      have hlength := congrArg List.length hnil
      simp only [ReadSide.contents, List.length_append, List.length_nil] at hlength
      omega
    have hall := hreceived id a c hfind hc
    show s.nghttp2.received id + data.length ≤ s.nghttp2.consumed id + W
    omega

/-- Two streams under a window of four bytes. One is read in two parts; then a
read of it is parked, stopped, and gets a delivery before it resumes. The other
is closed before its DATA arrives. -/
theorem credit_balanced_of_race :
    ∃ tr s, sessionMachine.Run (Session.Admits 4) tr s ∧ s.findStream 1 = some 0 ∧
      s.findStream 3 = none ∧ returned (onCell 0 tr) = [1, 2, 3, 4, 5] ∧
      s.nghttp2.connConsumed = bytesIn (chunks tr) ∧ bytesIn (chunks tr) = 6 ∧
      s.nghttp2.consumed 1 = 5 ∧ s.Admits 4 (.dataChunk 1 [6, 7, 8, 9] 0) := by
  obtain ⟨tr, s, run, hfind, hfind', hreturned, hbytes, hcell⟩ :
      ∃ tr s, sessionMachine.Run (Session.Admits 4) tr s ∧ s.findStream 1 = some 0 ∧
        s.findStream 3 = none ∧ returned (onCell 0 tr) = [1, 2, 3, 4, 5] ∧
        bytesIn (chunks tr) = 6 ∧
        ((s.cells 0).any fun c => decide (c.stream.read.contents = [])) = true :=
    Machine.run_of_exec (sessionMachine_init .server)
      [.memSend (some []) 0 true, .startRecv true 0, .readDone false 0, .beginHeaders 1 true,
        .dataChunk 1 [1, 2, 3] 0, .beginHeaders 3 true, .streamClose 3, .dataChunk 3 [0] 0,
        .memRecv false true 0, .user 0 (.readSome [2] false) 1, .user 0 (.readSome [2] false) 1,
        .user 0 (.readSome [4] false) 0, .user 0 .stopRead 0, .resumeSend,
        .memSend (some []) 0 true, .readDone false 0, .dataChunk 1 [4, 5] 0,
        .memRecv false true 0, .user 0 .resumeRead 1] (by decide)
  obtain ⟨hconn, hstream, hwindow⟩ := credit_balanced run
  cases hc : s.cells 0 with
  | none => simp [hc] at hcell
  | some c =>
      simp only [hc, Option.any_some, decide_eq_true_eq] at hcell
      have hconsumed := (hstream 1 0 c hfind hc).1
      rw [hreturned] at hconsumed
      exact ⟨tr, s, run, hfind, hfind', hreturned, hconn, hbytes, hconsumed,
        (hwindow 4 fun _ _ h => h).2 1 0 c hfind hc hcell _ 0 (by decide)⟩

end Nghttp2Corosio
