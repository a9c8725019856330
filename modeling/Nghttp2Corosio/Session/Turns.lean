import Nghttp2Corosio.Session.Step

/-!
The turns of the two loops.

`Session.Turns` is what the steps of `send_loop` and `recv_loop` can do, one
constructor for each way through the code from one suspension point, or one call
of nghttp2, to the next. The other actions leave the positions of the loops
alone, which is the matter of `Session.Moves`.
-/

namespace Nghttp2Corosio

open Async Buffers Runs

/-- The actions that are steps of the loops, or stop them. -/
def SessionAction.isLoop : SessionAction → Bool
  | .memSend _ _ _ | .written _ | .resumeSend | .startRecv _ _ | .readDone _ _ | .memRecv _ _ _
  | .stop => true
  | _ => false

def SessionLabel.isLoop : SessionLabel → Bool
  | .terminated | .memSend _ | .transmitted _ => true
  | _ => false

inductive Session.Turns (s : Session) : SessionAction → List SessionLabel → Session → Prop
  | sendFailed (pending : Bytes) (left : ℕ) (wants : Bool)
      (hrun : s.sendLoop = .running pending) :
      Turns s (.memSend none left wants) [.memSend none]
        { s with nghttp2 := s.nghttp2.memSend none left, sendLoop := .ended .sendError }
  | accumulated (pending data : Bytes) (left : ℕ) (wants : Bool)
      (hrun : s.sendLoop = .running pending) (hpos : data ≠ [])
      (hfits : data.length ≤ pendingCapacity - pending.length) :
      Turns s (.memSend (some data) left wants) [.memSend (some data)]
        { s with
          nghttp2 := s.nghttp2.memSend (some data) left, sendLoop := .running (pending ++ data) }
  | flushed (pending data : Bytes) (left : ℕ) (wants : Bool)
      (hrun : s.sendLoop = .running pending)
      (hbig : data = [] ∨ pendingCapacity - pending.length < data.length)
      (hpos : pending ++ data ≠ []) (hleft : data = [] → left = 0) :
      Turns s (.memSend (some data) left wants) [.memSend (some data)]
        { s with
          nghttp2 := s.nghttp2.memSend (some data) left, sendLoop := .writing (pending ++ data) }
  | sendDone (hrun : s.sendLoop = .running []) :
      Turns s (.memSend (some []) 0 false) [.memSend (some [])]
        { s with nghttp2 := s.nghttp2.memSend (some []) 0, sendLoop := .ended .done }
  | sendCanceled (hrun : s.sendLoop = .running []) (hstopped : s.stopped = true) :
      Turns s (.memSend (some []) 0 true) [.memSend (some [])]
        { s with
          nghttp2 := s.nghttp2.memSend (some []) 0
          writeReady := s.writeReady.clear
          sendLoop := .ended .canceled }
  | slept (hrun : s.sendLoop = .running []) (hstopped : s.stopped = false) :
      Turns s (.memSend (some []) 0 true) [.memSend (some [])]
        { s with
          nghttp2 := s.nghttp2.memSend (some []) 0
          writeReady := ⟨false, Function.update s.writeReady.waiter () .waiting⟩
          sendLoop := .waiting }
  | writeFailed (bytes : Bytes) (hwrite : s.sendLoop = .writing bytes) (hidle : s.idle = true) :
      Turns s (.written true) [] { s with sendLoop := .ended .writeError }
  | written (bytes : Bytes) (hwrite : s.sendLoop = .writing bytes) (hidle : s.idle = true) :
      Turns s (.written false) [.transmitted bytes] { s with sendLoop := .running [] }
  | woken (hwait : s.sendLoop = .waiting)
      (hposted : s.writeReady.waiter () = .posted .signalled) (hidle : s.idle = true) :
      Turns s .resumeSend []
        { s with writeReady := s.writeReady.resume (), sendLoop := .running [] }
  | wakeCanceled (hwait : s.sendLoop = .waiting)
      (hposted : s.writeReady.waiter () = .posted .canceled) (hidle : s.idle = true) :
      Turns s .resumeSend []
        { s with writeReady := s.writeReady.resume (), sendLoop := .ended .canceled }
  | startRecv (wants : Bool) (adds : ℕ) (hstart : s.recvLoop = .starting) (hidle : s.idle = true) :
      Turns s (.startRecv wants adds) (s.recvHead wants adds).2 (s.recvHead wants adds).1
  | readFailed (adds : ℕ) (hread : s.recvLoop = .reading) (hidle : s.idle = true) :
      Turns s (.readDone true adds) [.terminated]
        { s with
          nghttp2 := s.nghttp2.call adds, writeReady := s.writeReady.set, recvLoop := .ended }
  | readDone (adds : ℕ) (hread : s.recvLoop = .reading) (hidle : s.idle = true) :
      Turns s (.readDone false adds) [] { s with recvLoop := .receiving }
  | memRecv (failed wants : Bool) (adds : ℕ) (hrecv : s.recvLoop = .receiving) :
      Turns s (.memRecv failed wants adds) (s.memRecv failed wants adds).2
        (s.memRecv failed wants adds).1
  | stop (hsend : s.sending = false) : Turns s .stop [] s.stop

theorem Session.sendRound_turns {s : Session} {pending : Bytes} {data : Option Bytes} {left : ℕ}
    {wants : Bool} (hrun : s.sendLoop = .running pending) (hleft : data = some [] → left = 0) :
    s.Turns (.memSend data left wants) [.memSend data]
      (Session.sendRound { s with nghttp2 := s.nghttp2.memSend data left } pending data wants) := by
  unfold Session.sendRound
  cases data with
  | none => exact .sendFailed pending left wants hrun
  | some data =>
      dsimp only
      split
      · rename_i hfits
        exact .accumulated pending data left wants hrun (List.ne_nil_of_length_pos hfits.1) hfits.2
      · rename_i hbig
        split
        · rename_i hpos
          refine .flushed pending data left wants hrun ?_ ?_ fun hnil => hleft (by rw [hnil])
          · rcases List.eq_nil_or_concat data with hnil | ⟨init, last, hdata⟩
            · exact .inl hnil
            · refine .inr ?_
              have : 0 < data.length := by simp [hdata]
              omega
          · refine List.ne_nil_of_length_pos ?_
            rw [List.length_append]
            exact hpos
        · rename_i hnone
          obtain ⟨rfl, rfl⟩ : pending = [] ∧ data = [] :=
            ⟨List.length_eq_zero_iff.mp (by omega), List.length_eq_zero_iff.mp (by omega)⟩
          obtain rfl := hleft rfl
          cases wants with
          | false => exact .sendDone hrun
          | true =>
              by_cases hstopped : s.stopped = true
              · have hevent :
                    s.writeReady.clearWait () s.stopped = (s.writeReady.clear, false) := by
                  rw [hstopped, Event.clearWait_true]
                simpa [hevent] using Session.Turns.sendCanceled hrun hstopped
              · rw [Bool.not_eq_true] at hstopped
                have hevent : s.writeReady.clearWait () s.stopped =
                    (⟨false, Function.update s.writeReady.waiter () .waiting⟩, true) := by
                  rw [hstopped, Event.clearWait_false]
                simpa [hevent] using Session.Turns.slept hrun hstopped

theorem Session.step_turns {s s' : Session} {e : SessionAction} {os : List SessionLabel}
    (h : s.step e = some (s', os)) (he : e.isLoop = true) : s.Turns e os s' := by
  obtain ⟨hallows, h⟩ := Session.step_eq_some h
  cases e with
  | memSend data left wants =>
      simp only [Session.perform, Session.memSend] at h
      simp only [Session.allows, Bool.and_eq_true, decide_eq_true_eq] at hallows
      split at h
      · rename_i pending hrun
        cases h
        exact Session.sendRound_turns hrun hallows.2
      · cases h
  | written failed =>
      simp only [Session.perform, Session.written] at h
      split at h
      · rename_i bytes hwrite
        cases failed with
        | true =>
            cases h
            exact .writeFailed bytes hwrite hallows
        | false =>
            cases h
            exact .written bytes hwrite hallows
      · cases h
  | resumeSend =>
      simp only [Session.perform, Session.resumeSend] at h
      split at h
      · rename_i wake hwait hposted
        cases wake with
        | signalled =>
            cases h
            exact .woken hwait hposted hallows
        | canceled =>
            cases h
            exact .wakeCanceled hwait hposted hallows
      · cases h
  | startRecv wants adds =>
      simp only [Session.perform, Session.startRecv] at h
      split at h
      · rename_i hstart
        obtain ⟨rfl, rfl⟩ := Prod.ext_iff.mp (Option.some.inj h)
        exact .startRecv wants adds hstart hallows
      · cases h
  | readDone failed adds =>
      simp only [Session.perform, Session.readDone] at h
      split at h
      · rename_i hread
        cases failed with
        | true =>
            cases h
            exact .readFailed adds hread hallows
        | false =>
            cases h
            exact .readDone adds hread hallows
      · cases h
  | memRecv failed wants adds =>
      obtain ⟨rfl, rfl⟩ := Prod.ext_iff.mp (Option.some.inj h)
      exact .memRecv failed wants adds (by simpa [Session.allows, Session.receiving] using hallows)
  | stop =>
      cases h
      exact .stop (by simpa [Session.allows] using hallows)
  | _ => cases he

/-- The head of the loop in `recv_loop` leaves `send_loop` where it is, and leads
to a read or to the end. -/
theorem Session.recvHead_cases (s : Session) (wants : Bool) (adds : ℕ) :
    wants = true ∧ s.recvHead wants adds = ({ s with recvLoop := .reading }, []) ∨
      wants = false ∧ s.recvHead wants adds =
        ({ s with
            nghttp2 := s.nghttp2.call adds, writeReady := s.writeReady.set, recvLoop := .ended },
          [.terminated]) := by
  cases wants with
  | true => exact .inl ⟨rfl, rfl⟩
  | false => exact .inr ⟨rfl, rfl⟩

/-- What follows the return of `nghttp2_session_mem_recv2`. -/
theorem Session.memRecv_cases (s : Session) (failed wants : Bool) (adds : ℕ) :
    (s.memRecv failed wants adds = ({ s with
        nghttp2 := s.nghttp2.call adds, writeReady := s.writeReady.set, recvLoop := .reading },
        [])) ∨
      ∃ nghttp2 : Nghttp2, nghttp2.toNghttp2Streams = s.nghttp2.toNghttp2Streams ∧
        nghttp2.drained = s.nghttp2.drained ∧ nghttp2.touched = true ∧
        (s.memRecv failed wants adds).1 =
          { s with nghttp2 := nghttp2, writeReady := s.writeReady.set, recvLoop := .ended } ∧
        ∀ l ∈ (s.memRecv failed wants adds).2, l = .terminated := by
  cases failed with
  | true =>
      refine .inr ⟨((s.nghttp2.call adds).call adds).call adds, rfl, rfl, rfl, ?_, ?_⟩
      · simp [Session.memRecv, Session.finishRecv, Session.terminate, Session.startWrite]
      · simp [Session.memRecv, Session.finishRecv, Session.terminate]
  | false =>
      cases wants with
      | true => exact .inl rfl
      | false =>
          refine .inr ⟨(s.nghttp2.call adds).call adds, rfl, rfl, rfl, ?_, ?_⟩
          · simp [Session.memRecv, Session.recvHead, Session.finishRecv, Session.terminate,
              Session.startWrite]
          · simp [Session.memRecv, Session.recvHead, Session.finishRecv, Session.terminate]

/-! ### The ends of the loops are final -/

theorem Session.Turns.send_ended {s s' : Session} {e : SessionAction} {os : List SessionLabel}
    (h : s.Turns e os s') {why : SendEnd} (hended : s.sendLoop = .ended why) :
    s'.sendLoop = .ended why := by
  cases h with
  | startRecv wants adds =>
      rcases s.recvHead_cases wants adds with ⟨-, heq⟩ | ⟨-, heq⟩ <;>
      · rw [heq]
        exact hended
  | memRecv failed wants adds =>
      rcases s.memRecv_cases failed wants adds with heq | ⟨n, -, -, -, heq, -⟩
      · rw [heq]
        exact hended
      · rw [heq]
        exact hended
  | readFailed => exact hended
  | readDone => exact hended
  | stop => exact hended
  | _ => simp_all

theorem Session.Turns.recv_ended {s s' : Session} {e : SessionAction} {os : List SessionLabel}
    (h : s.Turns e os s') (hended : s.recvLoop = .ended) : s'.recvLoop = .ended := by
  cases h with
  | startRecv wants adds hstart => simp [hended] at hstart
  | readFailed => rfl
  | readDone adds hread => simp [hended] at hread
  | memRecv failed wants adds hrecv => simp [hended] at hrecv
  | _ => exact hended

end Nghttp2Corosio
