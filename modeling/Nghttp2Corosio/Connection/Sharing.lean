import Nghttp2Corosio.Connection.RoundTrip
import Nghttp2Corosio.Handler.Quiescence

/-!
How the streams of a connection share it.

`on_data_chunk_recv_callback` credits the connection for DATA as soon as it is
received. So the credit of the connection is with the sender, on its way back to
it, or spent on what is in flight (`Connection.Funded`), and what a stream has
received and not read is charged to the window of that stream alone. A stream that
is not read holds up itself, and no other.
-/

namespace Nghttp2Corosio

open Async Buffers Flow Runs

/-! ### The accounts over a run -/

theorem Session.Moves.consumed_le {s s' : Session} {e : SessionAction} {os : List SessionLabel}
    (h : s.Moves e os s') (id : ℤ) : s.nghttp2.consumed id ≤ s'.nghttp2.consumed id := by
  cases h with
  | quiet _ _ _ hn =>
      rw [hn]
      exact (congrFun (s.nghttp2.note_consumed e) id).ge
  | @act _ c _ _ _ _ _ _ _ _ _ _ _ _ _ hn =>
      rw [hn]
      dsimp only
      by_cases hid : id = c.stream.id
      · rw [hid, Function.update_self]
        exact Nat.le_add_right _ _
      · rw [Function.update_of_ne hid]
  | register _ _ _ _ _ hn _ => rw [hn]
  | close _ _ _ _ _ hn =>
      rw [hn]
      exact (congrFun (s.nghttp2.note_consumed e) id).ge
  | teardown _ hclose => rw [(Session.closeAll_eq_some hclose).1]

/-- What arrives is taken off the wire, and the accounts of the streams are left
alone. -/
theorem arrives_accounts {m m' : Mux ℤ UInt8} {e : SessionAction}
    (h : arrives m e = some m') :
    m'.total + bytesIn e.chunks = m.total ∧ m'.streams = m.streams := by
  have hfinish {id : ℤ} {last : Bool} (h : m.finish id last = some m') :
      m'.total = m.total ∧ m'.streams = m.streams := by
    refine ⟨Mux.total_finish h, ?_⟩
    obtain ⟨fs, -, rfl⟩ := Mux.finish_eq_some h
    rfl
  cases e with
  | dataChunk id data adds =>
      have hbytes : bytesIn (SessionAction.dataChunk id data adds).chunks = data.length := by
        simp [SessionAction.chunks, bytesIn]
      refine ⟨by rw [hbytes]; exact Mux.total_deliver h, ?_⟩
      obtain ⟨rest, last, fs, -, rfl⟩ := Mux.deliver_eq_some h
      rfl
  | frameRecv id request endStream =>
      cases endStream with
      | true =>
          simp only [arrives] at h
          split at h
          · cases h
          · exact hfinish h
      | false =>
          simp only [arrives, Option.some.injEq] at h
          cases hfin : m.finish id false with
          | none =>
              rw [hfin] at h
              rw [← h]
              exact ⟨rfl, rfl⟩
          | some m₁ =>
              rw [hfin] at h
              rw [← h] at hfinish ⊢
              exact hfinish hfin
  | _ =>
      obtain rfl := Option.some.inj h
      exact ⟨rfl, rfl⟩

/-- What is sent is taken out of the accounts. -/
theorem Connection.sent_accounts {c : Connection} {r : Role} {e : SessionAction} {s : Session}
    {os : List SessionLabel} (hadmits : c.admits r e = true)
    (hs : (c.session r).step e = some (s, os)) {frames : List (Frame ℤ UInt8)}
    (hframes : frames = os.filterMap (c.session r).frame) :
    (frames.foldl Mux.send (c.toward r.peer)).total = (c.toward r.peer).total ∧
      ∀ id, ((frames.foldl Mux.send (c.toward r.peer)).streams id).held +
        (dataOn id frames).length = ((c.toward r.peer).streams id).held := by
  subst hframes
  rcases Session.step_frames hs with hnone | ⟨a, length, x, bytes, eof, rfl, hx, hle, hone⟩
  · rw [hnone]
    exact ⟨rfl, fun _ => rfl⟩
  · have hroom : bytes.length ≤ (c.toward r.peer).room x.stream.id := by
      simp only [Connection.admits, hx, Option.all_some, Bool.and_eq_true,
        decide_eq_true_eq] at hadmits
      exact hle.trans hadmits.2
    rw [hone]
    exact ⟨Mux.total_send hroom, Mux.held_send hroom⟩

/-- All of the credit is accounted for: that of the connection at the sender, on its
way, or in flight, and that of a stream at the sender, on its way, or spent on what
the receiving session has not consumed. -/
structure Connection.Funded (limits : Role → Limits) (tr : List ConnectionLabel)
    (c : Connection) : Prop where
  connection : ∀ r, (c.toward r).total = (limits r).connection.size
  stream : ∀ r id, ((c.toward r).streams id).held + (dataOn id (sentBy r.peer tr)).length =
    (limits r).stream.size + (c.session r).nghttp2.consumed id

theorem Connection.funded_fresh (limits : Role → Limits) :
    (Connection.fresh limits).Funded limits [] where
  connection r := Mux.total_fresh (limits r)
  stream _ _ := rfl

theorem Connection.Funded.step {limits : Role → Limits} {tr : List ConnectionLabel}
    {c c' : Connection} {act : ConnectionAction} {ls : List ConnectionLabel}
    (h : c.Funded limits tr) (hs : c.step limits act = some (c', ls)) :
    c'.Funded limits (tr ++ ls) := by
  -- nothing is sent, and what is toward one of the ends keeps its accounts
  have htoward {r : Role} {m : Mux ℤ UInt8} (htotal : m.total = (c.toward r).total)
      (hheld : ∀ id, (m.streams id).held = ((c.toward r).streams id).held) :
      Connection.Funded limits (tr ++ [])
        { c with toward := Function.update c.toward r m } := by
    rw [List.append_nil]
    refine ⟨fun r' => ?_, fun r' id => ?_⟩
    · by_cases hr : r' = r
      · subst hr
        simp only [Function.update_self, htotal, h.connection]
      · simp only [Function.update_of_ne hr, h.connection]
    · by_cases hr : r' = r
      · subst hr
        simp only [Function.update_self, hheld, h.stream]
      · simp only [Function.update_of_ne hr, h.stream]
  cases Connection.step_moves hs with
  | session r e m received sent s os frames hadmits harrives hstep hframes hreceived hsent =>
      obtain ⟨htotal, hstreams⟩ := arrives_accounts harrives
      have hmoves := Session.step_moves hstep
      have hconsumed : s.nghttp2.connConsumed - (c.session r).nghttp2.connConsumed =
          bytesIn e.chunks := by rw [hmoves.received.2.2, Nat.add_sub_cancel_left]
      obtain ⟨hsentTotal, hsentHeld⟩ := Connection.sent_accounts hadmits hstep hframes
      refine ⟨fun r' => ?_, fun r' id => ?_⟩
      · rcases r.eq_or_peer r' with rfl | rfl
        · simp only [Function.update_self, Function.update_of_ne (Ne.symm r'.peer_ne)]
          rw [hreceived, Mux.total_consume, hconsumed, htotal, h.connection]
        · simp only [Function.update_self]
          rw [hsent, hsentTotal, h.connection]
      · have hbefore := h.stream r' id
        rcases r.eq_or_peer r' with rfl | rfl
        · have hle := hmoves.consumed_le id
          rw [sentBy_append, sentBy_peer_step, List.append_nil]
          simp only [Function.update_self, Function.update_of_ne (Ne.symm r'.peer_ne)]
          rw [hreceived, Mux.held_consume, hstreams]
          omega
        · have hafter := hsentHeld id
          rw [r.peer_peer] at hbefore ⊢
          rw [sentBy_append, sentBy_step, dataOn_append, List.length_append]
          simp only [Function.update_self, Function.update_of_ne r.peer_ne]
          rw [hsent]
          omega
  | ignore r id m hclosed hignore =>
      refine htoward (Mux.total_ignore hignore) fun id' => ?_
      obtain ⟨data, last, fs, -, rfl⟩ := Mux.ignore_eq_some hignore
      rfl
  | credit r id a m hcredit =>
      exact htoward (Mux.total_credit hcredit) (Mux.credit_eq_some hcredit).2.2

theorem Connection.funded_run {limits : Role → Limits}
    {ok : Connection → ConnectionAction → Prop} {tr : List ConnectionLabel} {c : Connection}
    (run : (connectionMachine limits).Run ok tr c) : c.Funded limits tr := by
  refine run.invariant (I := fun tr c => c.Funded limits tr) ?_ ?_
  · rintro c rfl
    exact Connection.funded_fresh limits
  · exact fun tr c a c' os h _ hs => h.step hs

/-! ### One stream among the others -/

/-- What a stream has not read is charged to its own window, and nothing else is. -/
theorem Connection.held_add_contents {limits : Role → Limits} {tr : List ConnectionLabel}
    {c : Connection} (run : (connectionMachine limits).Run usersRead tr c) {r : Role} {a : ℕ}
    {x : Cell} (hx : (c.session r).cells a = some x)
    (hopen : x.stream.id ∉ (c.session r).nghttp2.closed) :
    ((c.toward r).streams x.stream.id).held + (dataOn x.stream.id (c.toward r).frames).length +
      x.stream.read.contents.length = (limits r).stream.size := by
  have h := Connection.inv_run run
  have hrun := h.run r
  have hfunded := (Connection.funded_run run).stream r x.stream.id
  obtain ⟨lost, hsent, hlost⟩ := (h.carries r x.stream.id).data
  obtain rfl : lost = [] := by_contra fun hne => hopen (hlost hne)
  have hdelivered := (Session.delivered_run hrun).2 a x hx
  obtain ⟨hcredit, hcells⟩ := Session.credit_run hrun
  obtain ⟨-, hconsumed, hperm⟩ := ReadSide.balance_run (onCell_run hcells hx)
  have hreturned := hcredit.consumed a x hx
  have hlength := hperm.length_eq
  have hlengths := congrArg List.length hsent
  rw [hdelivered] at hlength
  simp only [List.append_nil, List.length_append] at hlength hlengths
  omega

/-- So a stream has room when its own reader leaves a threshold of its window, nothing
is in flight, and no credit is due. -/
theorem Connection.room_pos {limits : Role → Limits} {tr : List ConnectionLabel}
    {c : Connection} (run : (connectionMachine limits).Run usersRead tr c) {r : Role} {a : ℕ}
    {x : Cell} (hx : (c.session r).cells a = some x)
    (hopen : x.stream.id ∉ (c.session r).nghttp2.closed) (hframes : (c.toward r).frames = [])
    (hquiet : ∀ act, (c.toward r).credit (limits r) x.stream.id act = none)
    (hkept : x.stream.read.contents.length + (limits r).stream.threshold ≤
      (limits r).stream.size) : 0 < (c.toward r).room x.stream.id := by
  have htotal := (Connection.funded_run run).connection r
  have hstream := Connection.held_add_contents run hx hopen
  refine Mux.room_pos (Mux.held_of_frames_nil htotal hframes) ?_ hkept hquiet
  simpa [hframes, dataOn] using hstream

/-- A stream holds up itself, and no other. In every run, the credit of a connection is
at the sender, on its way there, or spent on what is in flight: none of it is spent on
what has been received, whether or not it is read. What a stream has received and not
read is charged to the window of that stream. So when nothing is in flight and no
credit is due, a stream may be sent on as soon as its own reader leaves a threshold of
its window, however much the other streams have not read. -/
theorem stream_held_up_by_own_reader_only {limits : Role → Limits} {tr : List ConnectionLabel}
    {c : Connection} (run : (connectionMachine limits).Run usersRead tr c) (r : Role) :
    (c.toward r).connection.held + (c.toward r).load = (limits r).connection.size ∧
      ∀ a x, (c.session r).cells a = some x → x.stream.id ∉ (c.session r).nghttp2.closed →
        ((c.toward r).streams x.stream.id).held +
            (dataOn x.stream.id (c.toward r).frames).length + x.stream.read.contents.length =
          (limits r).stream.size ∧
        ((c.toward r).frames = [] →
          (∀ act, (c.toward r).credit (limits r) x.stream.id act = none) →
          x.stream.read.contents.length + (limits r).stream.threshold ≤ (limits r).stream.size →
          0 < (c.toward r).room x.stream.id) :=
  ⟨(Connection.funded_run run).connection r, fun _ _ hx hopen =>
    ⟨Connection.held_add_contents run hx hopen, Connection.room_pos run hx hopen⟩⟩

/-- The first of two streams has used up the whole connection and is not read. Once the
connection has its credit back, the second may send. -/
theorem stream_held_up_by_own_reader_only_of_two :
    ∃ tr c, (connectionMachine fun _ => twoBytes).Run usersRead tr c ∧
      (c.toward .server).room 1 = 0 ∧ 0 < (c.toward .server).room 3 := by
  obtain ⟨tr, c, run, hroom, hstate⟩ :
      ∃ tr c, (connectionMachine fun _ => twoBytes).Run usersRead tr c ∧
        (c.toward .server).room 1 = 0 ∧
        (((c.session .server).cells 1).any fun x =>
          decide (x.stream.id = 3 ∧ 3 ∉ (c.session .server).nghttp2.closed ∧
            x.stream.read.contents = [] ∧ (c.toward .server).frames = [] ∧
            ((c.toward .server).streams 3).updates = [] ∧
            ((c.toward .server).streams 3).consumed = 0 ∧
            (c.toward .server).connection.updates = [] ∧
            (c.toward .server).connection.consumed = 0)) = true :=
    Machine.run_of_exec (s := Connection.fresh fun _ => twoBytes) rfl
      [.session .client (.memSend (some []) 0 true), .session .client (.startRecv true 0),
        .session .server (.memSend (some []) 0 true), .session .server (.startRecv true 0),
        .session .client (.submitRequest (some 1) 1), .session .client (.submitRequest (some 3) 1),
        .session .client (.user 0 (.write (.write [[1, 2]]) false) 1),
        .session .client .resumeSend, .session .client (.dataSourceRead 0 2),
        .session .client (.memSend (some []) 0 true), .session .server (.readDone false 0),
        .session .server (.beginHeaders 1 true), .session .server (.frameRecv 1 true false),
        .session .server (.beginHeaders 3 true), .session .server (.frameRecv 3 true false),
        .session .server (.dataChunk 1 [1, 2] 0), .session .server (.frameRecv 1 false false),
        .session .server (.memRecv false true 0), .credit .server 3 .announceConnection,
        .credit .server 3 .updateConnection] (by decide)
  obtain ⟨x, hx, hany⟩ := (Option.any_eq_true _ _).mp hstate
  obtain ⟨hid, hopen, hread, hframes, hupdates, hconsumed, hcupdates, hcconsumed⟩ :=
    of_decide_eq_true hany
  have hall := (stream_held_up_by_own_reader_only run .server).2 1 x hx (hid ▸ hopen)
  refine ⟨tr, c, run, hroom, ?_⟩
  rw [hid] at hall
  refine hall.2 hframes (fun act => ?_) (by rw [hread]; decide)
  cases act <;>
    simp [Mux.credit, Credit.announce, Credit.update, hupdates, hconsumed, hcupdates, hcconsumed,
      twoBytes]

/-- A suspended write and a suspended read at the two ends of a stream never wait for
each other, or for any other stream. As long as the writer has not ended the body, one
of the two is about to be resumed, or nghttp2 may ask the writer for data, or something
is in flight, or a WINDOW_UPDATE is due. -/
theorem stream_never_stuck {limits : Role → Limits} {tr : List ConnectionLabel}
    {c : Connection} (run : (connectionMachine limits).Run usersRead tr c) {r : Role} {a b : ℕ}
    {x y : Cell} (hx : (c.session r.peer).cells a = some x)
    (hy : (c.session r).cells b = some y) (hid : x.stream.id = y.stream.id)
    (hopen : y.stream.id ∉ (c.session r).nghttp2.closed)
    (hsubmitted : x.provider.submitted = true)
    (hend : ∀ bytes, .pulled bytes true ∉ onCell a (atEnd r.peer tr))
    (hwriter : x.stream.write.writer.isSome = true)
    (hreader : y.stream.read.reader.isSome = true) :
    (x.step .resumeWrite).isSome = true ∨ (y.step .resumeRead).isSome = true ∨
      c.admits r.peer (.dataSourceRead a 1) = true ∨ (c.toward r).frames ≠ [] ∨
      ∃ act, ((c.toward r).credit (limits r) y.stream.id act).isSome = true := by
  have h := Connection.inv_run run
  by_contra hstuck
  simp only [not_or, not_exists, Bool.not_eq_true, Option.isSome_eq_false_iff, ne_eq,
    not_not, Option.isNone_iff_eq_none] at hstuck
  obtain ⟨hwrite, hread, hask, hframes, hquiet⟩ := hstuck
  -- the reader has nothing, so the whole window is back
  have hcontents := (Cell.reader_quiet (Session.destination_run (h.run r) hy) hreader hread).1
  have hroom := Connection.room_pos run hy hopen hframes hquiet
    (by simpa [hcontents] using (limits r).stream.le)
  -- and the writer has something that nghttp2 knows of
  have hcell := onCell_run (Session.cells_run (h.run r.peer)) hx
  obtain ⟨hdeferred, hxopen⟩ := Cell.writer_quiet hcell hwriter hwrite
  have hattached := Provider.attached_run hcell hsubmitted hend fun hmem => by
    rw [(flags_run hcell).1.mpr hmem] at hxopen
    cases hxopen
  simp [Connection.admits, hx, hattached, hdeferred, hid, r.peer_peer,
    Nat.succ_le_of_lt hroom] at hask

/-- The reader of the second stream waits, and so does its writer, because the first
stream has used up the connection. The credit for that is due, although nobody has
read the first stream. -/
theorem stream_never_stuck_of_two :
    ∃ tr c, (connectionMachine fun _ => twoBytes).Run usersRead tr c ∧
      returned (onCell 0 (atEnd .server tr)) = [] ∧
      ∃ act, ((c.toward .server).credit twoBytes 3 act).isSome = true := by
  obtain ⟨tr, c, run, hunread, hend, hframes, hask, hstate⟩ :
      ∃ tr c, (connectionMachine fun _ => twoBytes).Run usersRead tr c ∧
        returned (onCell 0 (atEnd .server tr)) = [] ∧
        (onCell 1 (atEnd .client tr)).any Label.detaches = false ∧
        (c.toward .server).frames = [] ∧ c.admits .client (.dataSourceRead 1 1) = false ∧
        (((c.session .client).cells 1).any fun x => ((c.session .server).cells 1).any fun y =>
          decide (x.stream.id = 3 ∧ y.stream.id = 3 ∧ 3 ∉ (c.session .server).nghttp2.closed ∧
            x.provider.submitted = true ∧ x.stream.write.writer.isSome = true ∧
            y.stream.read.reader.isSome = true ∧ (x.step .resumeWrite).isSome = false ∧
            (y.step .resumeRead).isSome = false)) = true :=
    Machine.run_of_exec (s := Connection.fresh fun _ => twoBytes) rfl
      [.session .client (.memSend (some []) 0 true), .session .client (.startRecv true 0),
        .session .server (.memSend (some []) 0 true), .session .server (.startRecv true 0),
        .session .client (.submitRequest (some 1) 1), .session .client (.submitRequest (some 3) 1),
        .session .client (.user 0 (.write (.write [[1, 2]]) false) 1),
        .session .client .resumeSend, .session .client (.dataSourceRead 0 2),
        .session .client (.memSend (some []) 0 true),
        .session .client (.user 1 (.write (.write [[3]]) false) 1),
        .session .server (.readDone false 0), .session .server (.beginHeaders 1 true),
        .session .server (.frameRecv 1 true false), .session .server (.beginHeaders 3 true),
        .session .server (.frameRecv 3 true false), .session .server (.dataChunk 1 [1, 2] 0),
        .session .server (.frameRecv 1 false false), .session .server (.memRecv false true 0),
        .session .server (.user 1 (.readSome [4] false) 0)] (by decide)
  obtain ⟨x, hx, hany⟩ := (Option.any_eq_true _ _).mp hstate
  obtain ⟨y, hy, hany⟩ := (Option.any_eq_true _ _).mp hany
  obtain ⟨hxid, hyid, hopen, hsubmitted, hwriter, hreader, hwrite, hread⟩ :=
    of_decide_eq_true hany
  refine ⟨tr, c, run, hunread, ?_⟩
  have hall := stream_never_stuck run (r := .server) hx hy (hxid.trans hyid.symm) (hyid ▸ hopen)
    hsubmitted (fun bytes hmem => ?_) hwriter hreader
  · rw [hwrite, hread, hyid] at hall
    rcases hall with hfalse | hfalse | hadmits | hne | hcredit
    · cases hfalse
    · cases hfalse
    · exact absurd (hask.symm.trans hadmits) Bool.false_ne_true
    · exact absurd hframes hne
    · exact hcredit
  · have hdetaches := List.any_eq_false.mp hend _ hmem
    exact hdetaches rfl

end Nghttp2Corosio
