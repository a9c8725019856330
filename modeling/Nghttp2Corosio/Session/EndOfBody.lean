import Nghttp2Corosio.Session.Registry
import Nghttp2Corosio.Stream.EndOfBody

/-!
How the end of a body is classified in a session.

A stream of a session receives its callbacks in order: `on_close` comes with the
removal from the registry, after which nothing is found under the id any more,
and nghttp2 reports nothing on a stream after END_STREAM. So what is known of the
end of a body holds for the streams of a session. It remains to see that the
flags tell the truth about the frames: `read_eof_` is set exactly by a frame with
END_STREAM that arrives before the stream is closed (`EndSeen`).
-/

namespace Nghttp2Corosio

open Async Buffers Runs

/-- The runs in which every read has a destination of at least one byte. -/
def readsHaveRoom (_ : Session) : SessionAction → Prop
  | .user _ act _ => act.HasRoom
  | _ => True

instance (s : Session) : DecidablePred (readsHaveRoom s)
  | .user _ act _ => inferInstanceAs (Decidable act.HasRoom)
  | .beginHeaders _ _ | .header _ _ _ | .frameRecv _ _ _ | .dataChunk _ _ _ | .streamClose _
  | .dataSourceRead _ _ | .memSend _ _ _ | .written _ | .resumeSend | .startRecv _ _
  | .readDone _ _ | .memRecv _ _ _ | .stop | .teardown | .submitResponse _ _ _
  | .submitRequest _ _ => instDecidableTrue

/-! ### The order of the callbacks -/

theorem Nghttp2.note_ended (n : Nghttp2) (e : SessionAction) :
    n.ended ⊆ (n.note e).ended := by
  unfold Nghttp2.note
  split
  · exact List.Subset.refl _
  · exact List.subset_cons_self _ _
  · exact List.Subset.refl _
  · exact List.Subset.refl _
  · exact List.Subset.refl _

theorem Session.Moves.ended {s s' : Session} {e : SessionAction} {os : List SessionLabel}
    (h : s.Moves e os s') : (s.nghttp2.note e).ended ⊆ s'.nghttp2.ended := by
  cases h with
  | quiet _ _ _ hn =>
      rw [hn]
      exact List.Subset.refl _
  | act _ _ _ _ _ _ _ _ hn =>
      rw [hn]
      exact List.Subset.refl _
  | register id submitted _ _ _ hn he =>
      rw [hn]
      rcases he with ⟨-, rfl⟩ | ⟨-, -, adds, rfl⟩ <;> exact List.Subset.refl _
  | close _ _ _ _ _ hn =>
      rw [hn]
      exact List.Subset.refl _
  | teardown he hclose =>
      rw [(Session.closeAll_eq_some hclose).1, he]
      exact List.Subset.refl _

/-- nghttp2 has received END_STREAM on every stream whose end was announced. -/
theorem Session.ended_run {ok : Session → SessionAction → Prop} {tr : List SessionLabel}
    {s : Session} (run : sessionMachine.Run ok tr s) {a : ℕ} {c : Cell} (hc : s.cells a = some c)
    (heof : c.stream.read.readEof = true) : c.stream.id ∈ s.nghttp2.ended := by
  refine run.invariant_along (I := fun _ s => ∀ a c, s.cells a = some c →
    c.stream.read.readEof = true → c.stream.id ∈ s.nghttp2.ended) ?_ ?_ a c hc heof
  · rintro s ⟨role, rfl⟩ a c h
    cases h
  · intro tr s e s' os run h _ hs a c' hc' heof
    have hinv := Session.inv_run run
    have hmoves := Session.step_moves hs
    have hmono : s.nghttp2.ended ⊆ s'.nghttp2.ended :=
      fun id hid => hmoves.ended (s.nghttp2.note_ended e hid)
    cases hmoves.cellMove hinv hc' with
    | made _ _ hmade _ _ =>
        obtain ⟨submitted, hmade⟩ := hmade
        rw [hmade] at heof
        cases heof
    | left hc _ _ => exact hmono (h a c' hc heof)
    | @acted c act hc hdoes _ hstep =>
        have hstream := (Cell.step_eq_some hstep).2.1
        have hread := Stream.step_read hstream
        rw [Stream.step_id hstream]
        rcases hread.readEof.mp heof with heof | hmem
        · exact hmono (h a c hc heof)
        · obtain rfl := hread.readEnded_mem.mp hmem
          cases hdoes with
          | eof request hfind hc =>
              rw [(hinv.id_of_lookup hfind hc).1]
              exact hmoves.ended List.mem_cons_self
          | user _ _ _ huser => cases huser
    | @closed c hc _ hid heofSame _ _ _ =>
        rw [hid]
        exact hmono (h a c hc (heofSame ▸ heof))

/-- The streams of a session receive their callbacks in order. -/
theorem Session.body_run {tr : List SessionLabel} {s : Session}
    (run : sessionMachine.Run readsHaveRoom tr s) :
    HeapRuns cellMachine SessionLabel.ofStream bodyOk tr s.cells := by
  refine Session.cell_run (fun tr s e a c act run hok hallows hdoes => ?_) run
  have hinv := Session.inv_run run
  cases hdoes with
  | eof request hfind hc => exact ⟨trivial, (hinv.id_of_lookup hfind hc).2⟩
  | data data adds hfind hc =>
      obtain ⟨hid, hopen⟩ := hinv.id_of_lookup hfind hc
      refine ⟨trivial, ?_, hopen⟩
      simp only [Session.allows, Bool.and_eq_true, decide_eq_true_eq] at hallows
      -- DATA after END_STREAM is not reported
      by_contra heof
      have hended := Session.ended_run run hc (by simpa using heof)
      rw [hid] at hended
      exact hallows.2.2 hended
  | user act adds hc huser =>
      refine ⟨hok, ?_⟩
      cases act <;> trivial
  | _ => exact ⟨trivial, trivial⟩

/-! ### Frames with END_STREAM -/

/-- A frame with END_STREAM is shown first in its step. -/
theorem Session.step_frame {s s' : Session} {e : SessionAction} {os : List SessionLabel}
    (hs : s.step e = some (s', os)) {id : ℤ} {request : Bool}
    (he : e = .frameRecv id request true) : ∃ rest, os = .frame id true :: rest := by
  obtain ⟨rest, hos, -⟩ := Session.step_arrivals hs
  exact ⟨rest, by rw [hos, he]; rfl⟩

theorem Session.frame_mem {s s' : Session} {e : SessionAction} {os : List SessionLabel}
    (hs : s.step e = some (s', os)) {id : ℤ} (hmem : .frame id true ∈ os) :
    ∃ request, e = .frameRecv id request true := by
  obtain ⟨rest, rfl, hrest⟩ := Session.step_arrivals hs
  rcases List.mem_append.mp hmem with hmem | hmem
  · cases e with
    | frameRecv id' request endStream =>
        simp only [SessionAction.arrivals, List.mem_singleton, SessionLabel.frame.injEq] at hmem
        obtain ⟨rfl, rfl⟩ := hmem
        exact ⟨request, rfl⟩
    | dataChunk id' data adds => simp [SessionAction.arrivals] at hmem
    | _ => cases hmem
  · cases hrest _ hmem

theorem Session.frame_opened {ok : Session → SessionAction → Prop} {tr : List SessionLabel}
    {s : Session} (run : sessionMachine.Run ok tr s) {id : ℤ} (hmem : .frame id true ∈ tr) :
    id ∈ s.nghttp2.opened := by
  refine run.invariant (I := fun tr s => .frame id true ∈ tr → id ∈ s.nghttp2.opened) ?_ ?_ hmem
  · exact fun s _ h => by cases h
  · intro tr s e s' os h _ hs hmem
    refine (Session.step_moves hs).opened ?_
    rcases List.mem_append.mp hmem with hmem | hmem
    · exact h hmem
    · obtain ⟨request, rfl⟩ := Session.frame_mem hs hmem
      have hallows := (Session.step_eq_some hs).1
      simp only [Session.allows, Bool.and_eq_true, decide_eq_true_eq] at hallows
      exact hallows.2.1

/-- What the trace says about the end of the body of the object at `a`, which has
the given id: its end is announced after a frame with END_STREAM; when it is
closed after such a frame, its end was announced; and as long as it is not
closed, such a frame has led to an announcement. -/
structure EndSeen (tr : List SessionLabel) (id : ℤ) (a : ℕ) (closed : Bool) : Prop where
  announced : Always (fun pre l => l = .stream a .readEnded → .frame id true ∈ pre) tr
  closing : Always (fun pre l => l = .stream a .closed → .frame id true ∈ pre →
    .stream a .readEnded ∈ pre) tr
  live : closed = false → .frame id true ∈ tr → .stream a .readEnded ∈ tr

theorem EndSeen.append {tr os : List SessionLabel} {id : ℤ} {a : ℕ} {closed : Bool}
    (h : EndSeen tr id a closed) (hos : onCell a os = [])
    (hframe : closed = false → .frame id true ∉ os) : EndSeen (tr ++ os) id a closed := by
  have hnone (l : Label) : .stream a l ∉ os := fun hl => by simpa [hos] using mem_onCell.mpr hl
  refine ⟨h.announced.append (alwaysFrom_of_split tr fun p l q heq hl => ?_),
    h.closing.append (alwaysFrom_of_split tr fun p l q heq hl => ?_), fun hopen hmem => ?_⟩
  · subst hl
    exact absurd (mem_of_split heq) (hnone _)
  · subst hl
    exact absurd (mem_of_split heq) (hnone _)
  · rcases List.mem_append.mp hmem with hmem | hmem
    · exact List.mem_append_left os (h.live hopen hmem)
    · exact absurd hmem (hframe hopen)

theorem endSeen_of_unused {tr : List SessionLabel} {id : ℤ} {a : ℕ} {closed : Bool}
    (htr : onCell a tr = []) (hframe : .frame id true ∉ tr) : EndSeen tr id a closed := by
  have hnone (l : Label) : .stream a l ∉ tr := fun hl => by simpa [htr] using mem_onCell.mpr hl
  refine ⟨fun p l q heq hl => ?_, fun p l q heq hl => ?_, fun _ hmem => absurd hmem hframe⟩
  · subst hl
    exact absurd (mem_of_split heq) (hnone _)
  · subst hl
    exact absurd (mem_of_split heq) (hnone _)

theorem EndSeen.acted {tr os : List SessionLabel} {s s' : Session} {e : SessionAction} {a : ℕ}
    {c c' : Cell} {act : Action} (h : EndSeen tr c.stream.id a c.stream.closed)
    (hinv : s.toTable.Inv s.nghttp2.toNghttp2Streams) (hs : s.step e = some (s', os))
    (hdoes : s.Does e a c act) (hne : act ≠ .onClose)
    (hstep : c.step act = some (c', onCell a os)) :
    EndSeen (tr ++ os) c'.stream.id a c'.stream.closed := by
  have hstream := (Cell.step_eq_some hstep).2.1
  have hread := Stream.step_read hstream
  rw [Stream.step_id hstream, Stream.step_closed hstream, decide_eq_false hne, Bool.or_false]
  refine ⟨h.announced.append (alwaysFrom_of_split tr fun p l q heq hl => ?_),
    h.closing.append (alwaysFrom_of_split tr fun p l q heq hl => ?_), fun hopen hmem => ?_⟩
  · -- the announcement is part of the step of its frame, which is shown first
    subst hl
    obtain rfl := hread.readEnded_mem.mp (mem_onCell.mpr (mem_of_split heq))
    cases hdoes with
    | eof request hfind hc =>
        obtain ⟨rest, hos⟩ := Session.step_frame hs rfl
        rw [(hinv.id_of_lookup hfind hc).1]
        cases p with
        | nil => simp [hos] at heq
        | cons l p =>
            rw [hos, List.cons_append, List.cons.injEq] at heq
            rw [← heq.1]
            simp
    | user _ _ _ huser => cases huser
  · subst hl
    exact absurd ((Stream.step_closed_mem hstream).mp (mem_onCell.mpr (mem_of_split heq))) hne
  · rcases List.mem_append.mp hmem with hmem | hmem
    · exact List.mem_append_left os (h.live hopen hmem)
    · obtain ⟨request, rfl⟩ := Session.frame_mem hs hmem
      cases hdoes with
      | eof _ _ _ =>
          refine List.mem_append_right tr (mem_onCell.mp ?_)
          exact hread.readEnded_mem.mpr rfl

theorem EndSeen.close {tr os : List SessionLabel} {id : ℤ} {a : ℕ}
    (h : EndSeen tr id a false) (hframe : .frame id true ∉ os)
    (hos : ∀ l ∈ onCell a os, l = .closed) : EndSeen (tr ++ os) id a true := by
  refine ⟨h.announced.append (alwaysFrom_of_split tr fun p l q heq hl => ?_),
    h.closing.append (alwaysFrom_of_split tr fun p l q heq hl hmem => ?_), nofun⟩
  · subst hl
    cases hos _ (mem_onCell.mpr (mem_of_split heq))
  · rcases List.mem_append.mp hmem with hmem | hmem
    · exact List.mem_append_left p (h.live rfl hmem)
    · refine absurd ?_ hframe
      rw [heq]
      exact List.mem_append_left _ hmem

theorem Session.endSeen_run {ok : Session → SessionAction → Prop} {tr : List SessionLabel}
    {s : Session} (run : sessionMachine.Run ok tr s) {a : ℕ} {c : Cell} (hc : s.cells a = some c) :
    EndSeen tr c.stream.id a c.stream.closed := by
  refine run.invariant_along (I := fun tr s => ∀ a c, s.cells a = some c →
    EndSeen tr c.stream.id a c.stream.closed) ?_ ?_ a c hc
  · rintro s ⟨role, rfl⟩ a c h
    cases h
  · intro tr s e s' os run h _ hs a c' hc'
    have hinv := Session.inv_run run
    have hcells := Session.cells_run run
    have hframe {id : ℤ} (htarget : e.target ≠ some id) : .frame id true ∉ os := by
      intro hmem
      obtain ⟨request, rfl⟩ := Session.frame_mem hs hmem
      exact htarget rfl
    cases (Session.step_moves hs).cellMove hinv hc' with
    | made hnone hfresh _ htarget hos =>
        refine EndSeen.append (endSeen_of_unused (onCell_unused hcells hnone) fun hmem => ?_) hos
          fun _ => hframe (by simp [htarget])
        exact hfresh (Session.frame_opened run hmem)
    | left hc htarget hos => exact (h a c' hc).append hos fun hopen => hframe (htarget hopen)
    | acted hc hdoes hne hstep => exact (h a _ hc).acted hinv hs hdoes hne hstep
    | closed hc hopen hid _ hclosed he hos =>
        -- until now the object was registered, so a frame would have been announced
        have hseen := h a _ hc
        rw [hopen] at hseen
        rw [hid, hclosed]
        refine hseen.close (fun hmem => ?_) hos
        obtain ⟨request, rfl⟩ := Session.frame_mem hs hmem
        rcases he with he | ⟨id, he⟩ <;> cases he

/-! ### Runs -/

/-- What a read on the object at `a`, which has the given id, says about the body
when it completes with `res`, after the trace `pre`: with `eof`, a frame with
END_STREAM was received; with `stream_truncated`, the stream was closed when none
had been; with either, all that was delivered has been returned before; and
after either, every read completes like that. -/
structure BodyOver (id : ℤ) (a : ℕ) (pre : List SessionLabel) (res : ReadResult) : Prop where
  eof : res.ec = some .eof → .frame id true ∈ pre
  truncated : res.ec = some .streamTruncated →
    ∃ p q, pre = p ++ .stream a .closed :: q ∧ .frame id true ∉ p
  whole : ∀ e, res.ec = some e → e.endsBody = true →
    res.bytes = [] ∧ (returned (onCell a pre)).Perm (delivered (onCell a pre))
  final : ∀ e bytes, e.endsBody = true → .stream a (.readReturned ⟨some e, bytes⟩) ∈ pre →
    res = ⟨some e, []⟩

/-- The end of a body is classified exactly, and for good. -/
theorem end_of_body_exact {tr : List SessionLabel} {s : Session}
    (run : sessionMachine.Run readsHaveRoom tr s) {a : ℕ} {c : Cell} (hc : s.cells a = some c) :
    Always (fun pre l => ∀ res, l = .stream a (.readReturned res) →
      BodyOver c.stream.id a pre res) tr := by
  intro pre l post htr res hl
  subst hl
  have hseen := Session.endSeen_run run hc
  have hcell : onCell a tr = onCell a pre ++ .readReturned res :: onCell a post := by
    rw [htr, onCell_append, ← List.singleton_append, onCell_append]
    rw [show [SessionLabel.stream a (.readReturned res)] = [.readReturned res].map (.stream a) from
      rfl, onCell_map_stream]
    rfl
  have hends := ends_body_run (onCell_run (Session.body_run run) hc) _ _ _ hcell res rfl
  refine ⟨fun hec => ?_, fun hec => ?_, hends.whole, fun e bytes he hmem => ?_⟩
  · obtain ⟨p, q, rfl⟩ := List.append_of_mem (mem_onCell.mp (hends.eof hec))
    have hframe := hseen.announced p _ (q ++ .stream a (.readReturned res) :: post)
      (by rw [htr, List.append_assoc, List.cons_append]) rfl
    exact List.mem_append_left _ hframe
  · obtain ⟨hclosed, hnot⟩ := hends.truncated hec
    obtain ⟨p, q, rfl⟩ := List.append_of_mem (mem_onCell.mp hclosed)
    refine ⟨p, q, rfl, fun hframe => hnot ?_⟩
    have hannounced := hseen.closing p _ (q ++ .stream a (.readReturned res) :: post)
      (by rw [htr, List.append_assoc, List.cons_append]) rfl hframe
    exact mem_onCell.mpr (List.mem_append_left _ hannounced)
  · exact hends.final e bytes he (mem_onCell.mpr hmem)

/-- Two requests. A read of the first one's body is parked when its last frame
arrives; the second one is cut off by the end of the connection while a part of
its body is buffered, and its END_STREAM never comes. Each is read to the end, and
once more. -/
theorem end_of_body_exact_of_two :
    ∃ tr s, sessionMachine.Run readsHaveRoom tr s ∧
      .stream 0 (.readReturned ⟨some .eof, []⟩) ∈ tr ∧
      .stream 1 (.readReturned ⟨some .streamTruncated, []⟩) ∈ tr ∧
      ∃ c d, s.cells 0 = some c ∧ s.cells 1 = some d ∧
        Always (fun pre l => ∀ res, l = .stream 0 (.readReturned res) →
          BodyOver c.stream.id 0 pre res) tr ∧
        Always (fun pre l => ∀ res, l = .stream 1 (.readReturned res) →
          BodyOver d.stream.id 1 pre res) tr := by
  obtain ⟨tr, s, run, heof, htruncated, hc, hd⟩ :
      ∃ tr s, sessionMachine.Run readsHaveRoom tr s ∧
        .stream 0 (.readReturned ⟨some .eof, []⟩) ∈ tr ∧
        .stream 1 (.readReturned ⟨some .streamTruncated, []⟩) ∈ tr ∧
        (s.cells 0).isSome = true ∧ (s.cells 1).isSome = true :=
    Machine.run_of_exec (sessionMachine_init .server)
      [.memSend (some []) 0 true, .startRecv true 0, .readDone false 0, .beginHeaders 1 true,
        .frameRecv 1 true false, .beginHeaders 3 true, .frameRecv 3 true false,
        .memRecv false true 0, .user 0 (.readSome [4] false) 0, .readDone false 0,
        .dataChunk 1 [1, 2] 0, .frameRecv 1 false true, .dataChunk 3 [3] 0, .memRecv false true 0,
        .user 0 .resumeRead 1, .user 0 (.readSome [4] false) 0, .readDone true 1, .resumeSend,
        .memSend (some []) 0 false, .teardown, .user 0 (.readSome [4] false) 0,
        .user 1 (.readSome [4] false) 1, .user 1 (.readSome [4] false) 0,
        .user 1 (.readSome [4] true) 0] (by decide)
  obtain ⟨c, hc⟩ := Option.isSome_iff_exists.mp hc
  obtain ⟨d, hd⟩ := Option.isSome_iff_exists.mp hd
  exact ⟨tr, s, run, heof, htruncated, c, d, hc, hd, end_of_body_exact run hc,
    end_of_body_exact run hd⟩

end Nghttp2Corosio
