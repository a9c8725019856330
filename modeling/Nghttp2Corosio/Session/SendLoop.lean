import Nghttp2Corosio.Session.Moves

/-!
`send_loop` never sleeps on pending output.

The loop clears `write_ready_` and waits on it only in the stretch in which
`nghttp2_session_mem_send2` has returned 0, so nothing is pending when it goes
to sleep. Whatever adds output afterwards sets the event before the scheduler
gets control again: `Session.Side` says so for the actions of streams, handlers
and clients, `Session.Turns` for the two loops. `Session.Awake` is the
invariant that comes out of this.
-/

namespace Nghttp2Corosio

open Async Buffers Runs

structure Session.Awake (s : Session) : Prop where
  suspended : s.sendLoop = .waiting ↔ s.writeReady.waiter () ≠ .idle
  waiting : s.writeReady.waiter () = .waiting →
    s.writeReady.isSet = false ∧ s.nghttp2.drained = true
  drained : s.nghttp2.drained = true → s.nghttp2.touched = false → s.nghttp2.output = 0
  signal : s.idle = true → s.nghttp2.touched = true → s.writeReady.isSet = true

theorem Session.awake_fresh (role : Role) : (Session.fresh role).Awake where
  suspended := by simp [Session.fresh]
  waiting h := by cases h
  drained h := by cases h
  signal h := by cases h

theorem Session.idle_eq_true {s : Session} (h : s.idle = true) :
    s.sending = false ∧ s.receiving = false := by
  simpa [Session.idle] using h

theorem Session.Awake.waiter_eq_idle {s : Session} (h : s.Awake) (hs : s.sendLoop ≠ .waiting) :
    s.writeReady.waiter () = .idle := by
  by_contra hne
  exact hs (h.suspended.mpr hne)

/-! ### Actions of streams, handlers and clients -/

theorem Session.Awake.side {s s' : Session} (h : s.Awake) (hside : s.Side s') : s'.Awake where
  suspended := by
    rw [hside.sendLoop, h.suspended]
    rcases hside.ready with heq | heq
    · rw [heq]
    · rw [heq]
      simp
  waiting hwait := by
    rcases hside.ready with heq | heq
    · rw [heq] at hwait ⊢
      rw [hside.drained]
      exact h.waiting hwait
    · rw [heq] at hwait
      exact absurd hwait (by simp)
  drained hdrained htouched := by
    rw [hside.drained] at hdrained
    obtain ⟨htouched, houtput⟩ := hside.output htouched
    rw [houtput]
    exact h.drained hdrained htouched
  signal hidle htouched := by
    have hidle : s.idle = true := by
      unfold Session.idle Session.sending Session.receiving at hidle ⊢
      rwa [hside.sendLoop, hside.recvLoop] at hidle
    have hset : s.writeReady.set.isSet = true := rfl
    rcases hside.signal (Session.idle_eq_true hidle).2 htouched with htouched | heq
    · have hsignal := h.signal hidle htouched
      rcases hside.ready with heq | heq
      · rw [heq]
        exact hsignal
      · rw [heq]
        exact hset
    · rw [heq]
      exact hset

/-! ### The loops -/

/-- The event is set after output was added. -/
theorem Session.Awake.of_set {s s' : Session} (h : s.Awake) (hsend : s'.sendLoop = s.sendLoop)
    (hready : s'.writeReady = s.writeReady.set) (htouched : s'.nghttp2.touched = true) :
    s'.Awake where
  suspended := by
    rw [hsend, h.suspended, hready]
    simp
  waiting hwait := by
    rw [hready] at hwait
    exact absurd hwait (by simp)
  drained _ hfalse := by
    rw [htouched] at hfalse
    cases hfalse
  signal _ _ := by
    rw [hready]
    rfl

theorem Session.Awake.of_idle {s s' : Session} (h : s.Awake)
    (hn : s'.nghttp2 = s.nghttp2) (hset : s'.writeReady.isSet = s.writeReady.isSet)
    (hwaiter : s'.writeReady.waiter () = .idle) (hsend : s'.sendLoop ≠ .waiting)
    (hidle : s'.idle = true → s.idle = true) : s'.Awake where
  suspended := by simp [hsend, hwaiter]
  waiting hwait := by
    rw [hwaiter] at hwait
    cases hwait
  drained := by
    rw [hn]
    exact h.drained
  signal hs htouched := by
    rw [hn] at htouched
    rw [hset]
    exact h.signal (hidle hs) htouched

theorem Session.awake_of_sent {s : Session} (hsend : s.sendLoop ≠ .waiting)
    (hwaiter : s.writeReady.waiter () = .idle) (htouched : s.nghttp2.touched = false)
    (hdrained : s.nghttp2.drained = true → s.nghttp2.output = 0) : s.Awake where
  suspended := by simp [hsend, hwaiter]
  waiting hwait := by
    rw [hwaiter] at hwait
    cases hwait
  drained h _ := hdrained h
  signal _ h := by
    rw [htouched] at h
    cases h

theorem Session.Awake.stop {s : Session} (h : s.Awake) : s.stop.Awake where
  suspended := by
    rw [show s.stop.sendLoop = s.sendLoop from rfl, h.suspended]
    simp [Session.stop]
  waiting hwait := absurd hwait (by simp [Session.stop])
  drained := h.drained
  signal := h.signal

theorem Session.Awake.recvHead {s : Session} (h : s.Awake) (hidle : s.idle = true) (wants : Bool)
    (adds : ℕ) : (s.recvHead wants adds).1.Awake := by
  rcases s.recvHead_cases wants adds with ⟨-, heq⟩ | ⟨-, heq⟩
  · rw [heq]
    exact ⟨h.suspended, h.waiting, h.drained, fun _ => h.signal hidle⟩
  · rw [heq]
    exact h.of_set rfl rfl rfl

theorem Session.Awake.memRecv {s : Session} (h : s.Awake) (failed wants : Bool) (adds : ℕ) :
    (s.memRecv failed wants adds).1.Awake := by
  rcases s.memRecv_cases failed wants adds with heq | ⟨n, -, -, htouched, heq, -⟩
  · rw [heq]
    exact h.of_set rfl rfl rfl
  · rw [heq]
    exact h.of_set rfl rfl htouched

theorem Session.Awake.turn {s s' : Session} {e : SessionAction} {os : List SessionLabel}
    (h : s.Awake) (hs : s.Turns e os s') : s'.Awake := by
  cases hs with
  | sendFailed pending left wants hrun =>
      exact Session.awake_of_sent (by simp) (h.waiter_eq_idle (by simp [hrun])) rfl nofun
  | accumulated pending data left wants hrun hpos =>
      refine Session.awake_of_sent (by simp) (h.waiter_eq_idle (by simp [hrun])) rfl
        fun hdrained => ?_
      exact absurd (by simpa [Nghttp2.memSend] using hdrained) hpos
  | flushed pending data left wants hrun _ _ hleft =>
      refine Session.awake_of_sent (by simp) (h.waiter_eq_idle (by simp [hrun])) rfl
        fun hdrained => ?_
      exact hleft (by simpa [Nghttp2.memSend] using hdrained)
  | sendDone hrun =>
      exact Session.awake_of_sent (by simp) (h.waiter_eq_idle (by simp [hrun])) rfl fun _ => rfl
  | sendCanceled hrun =>
      have hwaiter := h.waiter_eq_idle (by simp [hrun])
      exact Session.awake_of_sent (by simp) (by simp [hwaiter]) rfl fun _ => rfl
  | slept hrun =>
      -- the loop goes to sleep, and only here: nothing was buffered or returned
      exact ⟨by simp, fun _ => ⟨rfl, rfl⟩, fun _ _ => rfl, fun _ ht => by cases ht⟩
  | writeFailed bytes hwrite hidle =>
      exact h.of_idle rfl rfl (h.waiter_eq_idle (by simp [hwrite])) (by simp) fun _ => hidle
  | written bytes hwrite hidle =>
      exact h.of_idle rfl rfl (h.waiter_eq_idle (by simp [hwrite])) (by simp) fun _ => hidle
  | woken _ _ hidle => exact h.of_idle rfl rfl (by simp) (by simp) fun _ => hidle
  | wakeCanceled _ _ hidle => exact h.of_idle rfl rfl (by simp) (by simp) fun _ => hidle
  | startRecv wants adds _ hidle => exact h.recvHead hidle wants adds
  | readFailed => exact h.of_set rfl rfl rfl
  | readDone =>
      refine ⟨h.suspended, h.waiting, h.drained, fun hidle => ?_⟩
      simp [Session.idle, Session.receiving] at hidle
  | memRecv failed wants adds => exact h.memRecv failed wants adds
  | stop => exact h.stop

theorem Session.Awake.step {s s' : Session} {e : SessionAction} {os : List SessionLabel}
    (h : s.Awake) (hs : s.step e = some (s', os)) : s'.Awake := by
  cases he : e.isLoop with
  | false => exact h.side (Session.step_side hs he)
  | true => exact h.turn (Session.step_turns hs he)

/-! ### What `clear` erases -/

/-- Only the `clear` of `send_loop` takes a signal back, and it does so right
after nghttp2 was drained. -/
theorem Session.step_cleared {s s' : Session} {e : SessionAction} {os : List SessionLabel}
    (hs : s.step e = some (s', os)) (hset : s.writeReady.isSet = true)
    (hclear : s'.writeReady.isSet = false) :
    s'.nghttp2.drained = true ∧ s'.nghttp2.touched = false ∧ s'.nghttp2.output = 0 := by
  have hcontra : s.writeReady.isSet ≠ false := by simp [hset]
  cases he : e.isLoop with
  | false =>
      rcases (Session.step_side hs he).ready with heq | heq
      · rw [heq] at hclear
        exact absurd hclear hcontra
      · rw [heq] at hclear
        cases hclear
  | true =>
      cases Session.step_turns hs he with
      | sendCanceled => exact ⟨rfl, rfl, rfl⟩
      | slept => exact ⟨rfl, rfl, rfl⟩
      | readFailed => cases hclear
      | startRecv wants adds =>
          rcases s.recvHead_cases wants adds with ⟨-, heq⟩ | ⟨-, heq⟩
          · rw [heq] at hclear
            exact absurd hclear hcontra
          · rw [heq] at hclear
            cases hclear
      | memRecv failed wants adds =>
          rcases s.memRecv_cases failed wants adds with heq | ⟨n, -, -, -, heq, -⟩
          · rw [heq] at hclear
            cases hclear
          · rw [heq] at hclear
            cases hclear
      | _ => exact absurd hclear hcontra

/-! ### Runs -/

/-- Whenever the scheduler decides what is next and `send_loop` is suspended
with no wake-up posted, the last `nghttp2_session_mem_send2` returned 0, nothing
was added since, and no output is pending. Whatever adds output leaves the event
set; and a signal that is taken back had its output drained. -/
theorem send_loop_never_sleeps_on_output {tr : List SessionLabel} {s : Session}
    (run : sessionMachine.Run anyStep tr s) :
    (s.idle = true → s.sendLoop = .waiting → s.writeReady.waiter () = .waiting →
      s.nghttp2.drained = true ∧ s.nghttp2.touched = false ∧ s.nghttp2.output = 0) ∧
    (s.idle = true → s.nghttp2.touched = true → s.writeReady.isSet = true) ∧
    ∀ e s' os, s.step e = some (s', os) → s.writeReady.isSet = true →
      s'.writeReady.isSet = false →
        s'.nghttp2.drained = true ∧ s'.nghttp2.touched = false ∧ s'.nghttp2.output = 0 := by
  have hawake : s.Awake := by
    refine run.invariant (I := fun _ s => s.Awake) ?_ fun tr s e s' os h _ hs => h.step hs
    rintro s ⟨role, rfl⟩
    exact Session.awake_fresh role
  refine ⟨fun hidle _ hwait => ?_, hawake.signal, fun e s' os hs => Session.step_cleared hs⟩
  obtain ⟨hclear, hdrained⟩ := hawake.waiting hwait
  have htouched : s.nghttp2.touched = false := by
    by_contra htouched
    have hset := hawake.signal hidle (by simpa using htouched)
    rw [hclear] at hset
    cases hset
  exact ⟨hdrained, htouched, hawake.drained hdrained htouched⟩

/-- A client whose request is submitted while `send_loop` writes: the signal is
set, the output of the request is drained and written, and the loop clears the
event and goes to sleep. -/
theorem send_loop_never_sleeps_on_output_of_request :
    ∃ tr s, sessionMachine.Run anyStep tr s ∧ s.sendLoop = .waiting ∧
      .requestSubmitted none (some 0) ∈ tr ∧ .transmitted [2, 3] ∈ tr ∧
      s.nghttp2.drained = true ∧ s.nghttp2.touched = false ∧ s.nghttp2.output = 0 := by
  obtain ⟨tr, s, run, hidle, hsend, hwait, hrequest, hsent⟩ :
      ∃ tr s, sessionMachine.Run anyStep tr s ∧ s.idle = true ∧ s.sendLoop = .waiting ∧
        s.writeReady.waiter () = .waiting ∧ .requestSubmitted none (some 0) ∈ tr ∧
        .transmitted [2, 3] ∈ tr :=
    Machine.run_of_exec (sessionMachine_init .client)
      [.memSend (some [1]) 0 true, .memSend (some []) 0 true, .startRecv true 0,
        .submitRequest (some 1) 1, .written false, .memSend (some [2, 3]) 0 true,
        .memSend (some []) 0 true, .written false, .memSend (some []) 0 true] (by decide)
  exact ⟨tr, s, run, hsend, hrequest, hsent,
    (send_loop_never_sleeps_on_output run).1 hidle hsend hwait⟩

/-! ### When `send_loop` has failed

`recv_loop` terminates the session and wakes `send_loop` wherever it ends. The
ends of `send_loop` do nothing of the kind: it returns no error, so `when_all`
does not cancel `recv_loop`, which goes on as long as the peer sends. -/

/-- `send_loop` has ended because nghttp2 or the transport failed. -/
def Session.SendFailed (s : Session) : Prop :=
  s.sendLoop = .ended .sendError ∨ s.sendLoop = .ended .writeError

instance (s : Session) : Decidable s.SendFailed :=
  inferInstanceAs (Decidable (s.sendLoop = .ended .sendError ∨ s.sendLoop = .ended .writeError))

/-- `send_loop` fails, or `recv_loop` starts to read after that, only under a stop
request; and a read that is pending after `send_loop` has failed is canceled by
that request. -/
def Session.MayFail (s : Session) : SessionAction → Prop
  | .memSend none _ _ | .written true => s.recvLoop = .reading → s.stopped = true
  | .startRecv true _ => s.SendFailed → s.stopped = true
  | .readDone false _ => ¬ s.SendFailed
  | _ => True

instance (s : Session) : DecidablePred s.MayFail
  | .memSend none _ _ | .written true =>
      inferInstanceAs (Decidable (s.recvLoop = .reading → s.stopped = true))
  | .startRecv true _ => inferInstanceAs (Decidable (s.SendFailed → s.stopped = true))
  | .readDone false _ => inferInstanceAs (Decidable (¬ s.SendFailed))
  | .memSend (some _) _ _ | .written false | .startRecv false _ | .readDone true _
  | .beginHeaders _ _ | .header _ _ _ | .frameRecv _ _ _ | .dataChunk _ _ _ | .streamClose _
  | .dataSourceRead _ _ | .resumeSend | .memRecv _ _ _ | .stop | .teardown | .user _ _ _
  | .submitResponse _ _ _ | .submitRequest _ _ => instDecidableTrue

/-- `recv_loop` does not run while `send_loop` does, and not after `send_loop` has
failed; then it does not wait for input either, unless it is canceled. -/
structure Session.Quits (s : Session) : Prop where
  running : s.sending = true → s.receiving = false
  failed : s.SendFailed → s.receiving = false ∧ (s.recvLoop = .reading → s.stopped = true)

theorem Session.quits_fresh (role : Role) : (Session.fresh role).Quits where
  running _ := rfl
  failed h := by rcases h with h | h <;> cases h

theorem Session.quits_of_sent {s : Session} (hrecv : s.receiving = false)
    (hok : ¬ s.SendFailed) : s.Quits where
  running _ := hrecv
  failed h := absurd h hok

theorem Session.quits_of_failed {s : Session} (hsend : s.SendFailed) (hrecv : s.receiving = false)
    (hread : s.recvLoop = .reading → s.stopped = true) : s.Quits where
  running h := by
    rcases hsend with hsend | hsend <;> simp [Session.sending, hsend] at h
  failed _ := ⟨hrecv, hread⟩

theorem Session.quits_of_ended {s : Session} (hrecv : s.recvLoop = .ended) : s.Quits where
  running _ := by simp [Session.receiving, hrecv]
  failed _ := by simp [Session.receiving, hrecv]

theorem Session.quits_recvHead {s : Session} (wants : Bool) (adds : ℕ)
    (hok : wants = true → s.SendFailed → s.stopped = true) :
    (s.recvHead wants adds).1.Quits := by
  rcases s.recvHead_cases wants adds with ⟨hwants, heq⟩ | ⟨-, heq⟩
  · rw [heq]
    exact ⟨fun _ => rfl, fun hfailed => ⟨rfl, fun _ => hok hwants hfailed⟩⟩
  · rw [heq]
    exact Session.quits_of_ended rfl

theorem Session.Quits.memRecv {s : Session} (h : s.Quits) (hrecv : s.receiving = true)
    (failed wants : Bool) (adds : ℕ) : (s.memRecv failed wants adds).1.Quits := by
  rcases s.memRecv_cases failed wants adds with heq | ⟨n, -, -, -, heq, -⟩
  · rw [heq]
    refine ⟨fun _ => rfl, fun hfailed => ?_⟩
    have hquiet := (h.failed hfailed).1
    rw [hrecv] at hquiet
    cases hquiet
  · rw [heq]
    exact Session.quits_of_ended rfl

theorem Session.Quits.turn {s s' : Session} {e : SessionAction} {os : List SessionLabel}
    (h : s.Quits) (hok : s.MayFail e) (hs : s.Turns e os s') : s'.Quits := by
  cases hs with
  | sendFailed pending left wants hrun =>
      exact Session.quits_of_failed (.inl rfl) (h.running (by simp [Session.sending, hrun])) hok
  | accumulated pending data left wants hrun =>
      exact Session.quits_of_sent (h.running (by simp [Session.sending, hrun]))
        (by simp [Session.SendFailed])
  | flushed pending data left wants hrun =>
      exact Session.quits_of_sent (h.running (by simp [Session.sending, hrun]))
        (by simp [Session.SendFailed])
  | sendDone hrun =>
      exact Session.quits_of_sent (h.running (by simp [Session.sending, hrun]))
        (by simp [Session.SendFailed])
  | sendCanceled hrun =>
      exact Session.quits_of_sent (h.running (by simp [Session.sending, hrun]))
        (by simp [Session.SendFailed])
  | slept hrun =>
      exact Session.quits_of_sent (h.running (by simp [Session.sending, hrun]))
        (by simp [Session.SendFailed])
  | writeFailed bytes _ hidle =>
      exact Session.quits_of_failed (.inr rfl) (Session.idle_eq_true hidle).2 hok
  | written bytes _ hidle =>
      exact Session.quits_of_sent (Session.idle_eq_true hidle).2 (by simp [Session.SendFailed])
  | woken _ _ hidle =>
      exact Session.quits_of_sent (Session.idle_eq_true hidle).2 (by simp [Session.SendFailed])
  | wakeCanceled _ _ hidle =>
      exact Session.quits_of_sent (Session.idle_eq_true hidle).2 (by simp [Session.SendFailed])
  | startRecv wants adds =>
      refine Session.quits_recvHead wants adds fun hwants hfailed => ?_
      subst hwants
      exact hok hfailed
  | readFailed => exact Session.quits_of_ended rfl
  | readDone adds _ hidle =>
      refine ⟨fun hsend => ?_, fun hfailed => absurd hfailed hok⟩
      have hquiet := (Session.idle_eq_true hidle).1
      rw [show s.sending = true from hsend] at hquiet
      cases hquiet
  | memRecv failed wants adds hrecv =>
      exact h.memRecv (by simp [Session.receiving, hrecv]) failed wants adds
  | stop => exact ⟨h.running, fun hfailed => ⟨(h.failed hfailed).1, fun _ => rfl⟩⟩

theorem Session.Quits.step {s s' : Session} {e : SessionAction} {os : List SessionLabel}
    (h : s.Quits) (hok : s.MayFail e) (hs : s.step e = some (s', os)) : s'.Quits := by
  cases he : e.isLoop with
  | true => exact h.turn hok (Session.step_turns hs he)
  | false =>
      have hside := Session.step_side hs he
      refine ⟨fun hsend => ?_, fun hfailed => ?_⟩
      · rw [Session.sending, hside.sendLoop] at hsend
        rw [Session.receiving, hside.recvLoop]
        exact h.running hsend
      · rw [Session.SendFailed, hside.sendLoop] at hfailed
        obtain ⟨hrecv, hread⟩ := h.failed hfailed
        rw [Session.receiving, hside.recvLoop]
        exact ⟨hrecv, fun hreading => Session.step_stopped hs (hread hreading)⟩

/-- When `send_loop` fails only under a stop request, unless `recv_loop` has ended
or finds nothing to wait for, and reads that are pending then are canceled, a
session whose `send_loop` has failed takes no more work: no step dispatches a
request, and `recv_loop` waits for input only if it is canceled. -/
theorem failed_session_takes_no_work {tr : List SessionLabel} {s : Session}
    (run : sessionMachine.Run Session.MayFail tr s) (hfailed : s.SendFailed) :
    (s.recvLoop = .reading → s.stopped = true) ∧
      ∀ e s' os, s.step e = some (s', os) → ∀ a, .dispatched a ∉ os := by
  have hquits : s.Quits := by
    refine run.invariant (I := fun _ s => s.Quits) ?_ fun tr s e s' os h hok hs => h.step hok hs
    rintro s ⟨role, rfl⟩
    exact Session.quits_fresh role
  obtain ⟨hrecv, hread⟩ := hquits.failed hfailed
  refine ⟨hread, fun e s' os hs a hmem => ?_⟩
  have hreceiving := (Session.step_dispatched hs hmem).1
  rw [hrecv] at hreceiving
  cases hreceiving

/-- A server that is stopped, and then fails to write. -/
theorem failed_session_takes_no_work_of_stop :
    ∃ tr s, sessionMachine.Run Session.MayFail tr s ∧ s.SendFailed ∧ s.recvLoop = .reading ∧
      s.stopped = true ∧ ∀ e s' os, s.step e = some (s', os) → ∀ a, .dispatched a ∉ os := by
  obtain ⟨tr, s, run, hfailed, hread⟩ :
      ∃ tr s, sessionMachine.Run Session.MayFail tr s ∧ s.SendFailed ∧ s.recvLoop = .reading :=
    Machine.run_of_exec (sessionMachine_init .server)
      [.memSend (some [1]) 0 true, .memSend (some []) 0 true, .startRecv true 0, .stop,
        .written true] (by decide)
  obtain ⟨hstopped, hquiet⟩ := failed_session_takes_no_work run hfailed
  exact ⟨tr, s, run, hfailed, hread, hstopped hread, hquiet⟩

/-- A server that fails to write its first output goes on reading, though nothing
was terminated or stopped, and dispatches the next request that arrives. -/
theorem failed_session_takes_request :
    ∃ tr s s' os, sessionMachine.Run anyStep tr s ∧ s.SendFailed ∧ s.recvLoop = .reading ∧
      s.stopped = false ∧ .terminated ∉ tr ∧
      sessionMachine.exec anyStep s
        [.readDone false 0, .beginHeaders 1 true, .frameRecv 1 true true] = some (s', os) ∧
      .dispatched 0 ∈ os := by
  obtain ⟨tr, s, run, hfailed, hread, hstopped, hterminated, hexec⟩ :
      ∃ tr s, sessionMachine.Run anyStep tr s ∧ s.SendFailed ∧ s.recvLoop = .reading ∧
        s.stopped = false ∧ .terminated ∉ tr ∧
        ((sessionMachine.exec anyStep s
          [.readDone false 0, .beginHeaders 1 true, .frameRecv 1 true true]).any
            fun r => decide (.dispatched 0 ∈ r.2)) = true :=
    Machine.run_of_exec (sessionMachine_init .server)
      [.memSend (some [1]) 0 true, .memSend (some []) 0 true, .startRecv true 0, .written true]
      (by decide)
  obtain ⟨⟨s', os⟩, hsome, hmem⟩ := (Option.any_eq_true _ _).mp hexec
  exact ⟨tr, s, s', os, run, hfailed, hread, hstopped, hterminated, hsome, of_decide_eq_true hmem⟩

end Nghttp2Corosio
