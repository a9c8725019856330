import Nghttp2Corosio.Connection.Wire
import Nghttp2Corosio.Handler.ExchangeInvariant

/-!
What the streams of a connection carry.

For every stream id, what one end has handed out under it arrives under it at the
other end. There are three parts to this. A session makes frames only of what its
streams hand out, under their ids (`Connection.Inv.sent`). The connection carries
the frames of every stream in order (`Connection.Inv.carries`, which is kept by
the lemmas of `Flow.Mux`). And a session gives what arrives under an id to the
stream that has it (`Session.delivered_run`).
-/

namespace Nghttp2Corosio

open Async Buffers Flow Runs

/-! ### One session -/

/-- How a session of a connection is used and called: reads have a destination of at
least one byte, in at most `max_iovec_` buffers, and no DATA is reported on a stream
that nghttp2 has closed. -/
def heard (s : Session) : SessionAction → Prop
  | .user _ act _ => act.HasRoom ∧ act.FewBuffers
  | .dataChunk id _ _ => id ∉ s.nghttp2.closed
  | _ => True

theorem dataIn_append (id : ℤ) (cs ds : List (ℤ × Bytes)) :
    dataIn id (cs ++ ds) = dataIn id cs ++ dataIn id ds :=
  List.flatMap_append

theorem SessionAction.dataIn_chunks {e : SessionAction} {id : ℤ}
    (h : ∀ data adds, e ≠ .dataChunk id data adds) : dataIn id e.chunks = [] := by
  cases e with
  | dataChunk id' data adds =>
      have hne : id' ≠ id := by
        rintro rfl
        exact h data adds rfl
      simp [SessionAction.chunks, dataIn, hne]
  | _ => rfl

section Sessions

variable {tr os : List SessionLabel} {s s' : Session} {e : SessionAction}

/-- What an action on an object delivers to it is what has just arrived for it. -/
theorem Session.Does.dataIn {a : ℕ} {c c' : Cell} {act : Action} {ls : List Label}
    (hinv : s.toTable.Inv s.nghttp2.toNghttp2Streams) (hread : c.stream.read.Inv)
    (hdoes : s.Does e a c act) (hs : c.step act = some (c', ls)) :
    Nghttp2Corosio.delivered ls = Nghttp2Corosio.dataIn c.stream.id e.chunks := by
  rw [hread.step_delivered (Stream.step_read (Cell.step_eq_some hs).2.1)]
  cases hdoes with
  | data data adds hfind hc =>
      simp [SessionAction.chunks, Nghttp2Corosio.dataIn, (hinv.id_of_lookup hfind hc).1,
        Action.data]
  | user act adds hc huser => cases act <;> first | rfl | cases huser
  | _ => rfl

/-- A stream gets all that is reported under its id, in order. -/
theorem Session.delivered_run (run : sessionMachine.Run heard tr s) :
    (∀ id, id ∉ s.nghttp2.opened → dataIn id (chunks tr) = []) ∧
      ∀ a c, s.cells a = some c →
        delivered (onCell a tr) = dataIn c.stream.id (chunks tr) := by
  refine run.invariant_along (I := fun tr s =>
    (∀ id, id ∉ s.nghttp2.opened → dataIn id (chunks tr) = []) ∧
      ∀ a c, s.cells a = some c →
        delivered (onCell a tr) = dataIn c.stream.id (chunks tr)) ?_ ?_
  · rintro s ⟨role, rfl⟩
    exact ⟨fun _ _ => rfl, fun a c hc => by cases hc⟩
  · rintro tr s e s' os run ⟨hfresh, hall⟩ hok hs
    have hinv := Session.inv_run run
    have hcells := Session.cells_run run
    have hallows := (Session.step_eq_some hs).1
    have hmoves := Session.step_moves hs
    rw [chunks_append, Session.step_chunks hs]
    refine ⟨fun id hid => ?_, fun a c' hc' => ?_⟩
    · have hid : id ∉ s.nghttp2.opened := fun hmem => hid (hmoves.opened hmem)
      rw [dataIn_append, hfresh id hid, List.nil_append]
      refine SessionAction.dataIn_chunks fun data adds heq => ?_
      subst heq
      simp only [Session.allows, Bool.and_eq_true, decide_eq_true_eq] at hallows
      exact hid hallows.2.1
    · rw [onCell_append, delivered_append, dataIn_append]
      cases hmoves.cellMove hinv hc' with
      | made hnone hid _ htarget hos =>
          have hother : dataIn c'.stream.id e.chunks = [] :=
            SessionAction.dataIn_chunks fun data adds heq => by
              simp [heq, SessionAction.target] at htarget
          rw [hos, onCell_unused hcells hnone, hfresh _ hid, hother]
          rfl
      | left hc htarget hos =>
          -- a stream that gets no callbacks is closed, and DATA is not reported on it
          have hother : dataIn c'.stream.id e.chunks = [] := by
            refine SessionAction.dataIn_chunks fun data adds heq => ?_
            subst heq
            have hclosed : c'.stream.closed = true := by
              by_contra hopen
              exact htarget (by simpa using hopen) rfl
            rcases (Session.kept_run run).2 a c' hc hclosed with hid | hfinished
            · exact hok hid
            · have hrecv := (Session.torn_run run hfinished).2
              simp [Session.allows, Session.receiving, hrecv] at hallows
          rw [hos, hall a c' hc, hother]
          rfl
      | @acted c act hc hdoes hne hstep =>
          have hstream := (Cell.step_eq_some hstep).2.1
          have hread := (ReadSide.balance_run (onCell_run hcells hc)).1
          rw [Stream.step_id hstream, hall a c hc, hdoes.dataIn hinv hread hstep]
      | @closed c hc hopen hid _ hclosed he hos =>
          have hchunks : e.chunks = [] := by
            rcases he with rfl | ⟨id, rfl⟩ <;> rfl
          rw [(consumed_of_closed hos).2.1, hid, hall a c hc, hchunks]
          rfl

theorem Session.destination_run (run : sessionMachine.Run heard tr s) {a : ℕ} {c : Cell}
    (hc : s.cells a = some c) : cellMachine.Run destinationOk (onCell a tr) c := by
  refine onCell_run (Session.cell_run (fun _ _ _ _ _ _ _ hok _ hdoes => ?_) run) hc
  cases hdoes with
  | user act adds _ _ => exact hok
  | _ => exact ⟨trivial, trivial⟩

/-! The frames of a step are those of the streams that hand something out. -/

theorem Session.frames_untagged (s : Session) (h : Untagged os) : os.filterMap s.frame = [] := by
  refine List.filterMap_eq_nil_iff.mpr fun l hl => ?_
  have hnone := h l hl
  cases l <;> first | rfl | cases hnone

theorem Session.filterMap_stream {a : ℕ} {c : Cell} (hc : s.cells a = some c) (ls : List Label) :
    (ls.map (.stream a)).filterMap s.frame = ls.filterMap (Label.frame c.stream.id) := by
  rw [List.filterMap_map]
  congr 1
  funext l
  simp [Session.frame, hc]

theorem Session.step_frames (hs : s.step e = some (s', os)) :
    os.filterMap s.frame = [] ∨
      ∃ a length c bytes eof, e = .dataSourceRead a length ∧ s.cells a = some c ∧
        bytes.length ≤ length ∧ os.filterMap s.frame = [⟨c.stream.id, bytes, eof⟩] := by
  have hclosed {os : List SessionLabel} (h : ∀ l ∈ os, ∃ a, l = .stream a .closed) :
      os.filterMap s.frame = [] := by
    refine List.filterMap_eq_nil_iff.mpr fun l hl => ?_
    obtain ⟨a, rfl⟩ := h l hl
    simp only [Session.frame]
    cases s.cells a <;> rfl
  cases Session.step_moves hs with
  | quiet _ hos _ _ => exact .inl (s.frames_untagged hos)
  | @act a c c' act ls pre post hdoes _ hc hstep hpre hpost hos _ _ =>
      have hframes : os.filterMap s.frame = ls.filterMap (Label.frame c.stream.id) := by
        rw [hos, List.filterMap_append, List.filterMap_append, s.frames_untagged hpre,
          s.frames_untagged hpost, Session.filterMap_stream hc, List.nil_append, List.append_nil]
      have hstream := (Cell.step_eq_some hstep).2.1
      rw [hframes]
      rcases (Stream.step_write hstream).pulled with hnone | ⟨length, rfl, -⟩
      · refine .inl (List.filterMap_eq_nil_iff.mpr fun l hl => ?_)
        have hnot := hnone l hl
        cases l <;> first | rfl | cases hnot
      · cases hdoes with
        | pull _ _ =>
            obtain ⟨-, rfl⟩ := Stream.step_producerCallback_eq_some hstream
            rcases c.stream.write.producerCallback_cases length with
              ⟨-, heq⟩ | ⟨-, bytes, hbytes, ⟨-, heq⟩ | ⟨-, -, heq⟩⟩
            · exact .inl (by rw [heq]; rfl)
            · exact .inr ⟨a, length, c, bytes, _, rfl, hc, by simp [hbytes], by rw [heq]; rfl⟩
            · exact .inr ⟨a, length, c, bytes, _, rfl, hc, by simp [hbytes], by rw [heq]; rfl⟩
        | user _ _ _ huser => cases huser
  | register _ _ _ hos _ _ _ => exact .inl (s.frames_untagged hos)
  | close _ _ _ hos _ _ =>
      refine .inl (hclosed fun l hl => ?_)
      rw [hos, List.mem_singleton] at hl
      exact ⟨_, hl⟩
  | teardown _ hclose =>
      refine .inl (hclosed fun l hl => ?_)
      obtain ⟨b, -, heq⟩ := Session.closeAll_labels hclose l hl
      exact ⟨b, heq⟩

theorem Label.frame_stream {id : ℤ} {l : Label} {f : Frame ℤ UInt8} (h : l.frame id = some f) :
    f.stream = id := by
  cases l with
  | pulled bytes eof =>
      cases h
      rfl
  | _ => cases h

theorem Session.frames_opened (hinv : s.toTable.Inv s.nghttp2.toNghttp2Streams)
    {f : Frame ℤ UInt8} (hf : f ∈ os.filterMap s.frame) : f.stream ∈ s.nghttp2.opened := by
  obtain ⟨l, -, hl⟩ := List.mem_filterMap.mp hf
  cases l with
  | stream a l =>
      obtain ⟨c, hc, hl⟩ := Option.bind_eq_some_iff.mp hl
      rw [Label.frame_stream hl]
      exact hinv.opened a c hc
  | _ => cases hl

theorem Session.filter_frames (hinv : s.toTable.Inv s.nghttp2.toNghttp2Streams) {a : ℕ} {c : Cell}
    (hc : s.cells a = some c) (os : List SessionLabel) :
    (os.filterMap s.frame).filter (fun f => f.stream = c.stream.id) =
      (onCell a os).filterMap (Label.frame c.stream.id) := by
  induction os with
  | nil => rfl
  | cons l os ih =>
      cases l with
      | stream b l =>
          by_cases hb : b = a
          · subst hb
            have hcons : onCell b (.stream b l :: os) = l :: onCell b os := by
              simp [onCell, project, SessionLabel.ofStream]
            have hframe : s.frame (.stream b l) = l.frame c.stream.id := by
              simp [Session.frame, hc]
            rw [hcons, List.filterMap_cons, List.filterMap_cons, hframe]
            cases hf : l.frame c.stream.id with
            | none => exact ih
            | some f => simp [Label.frame_stream hf, ih]
          · have hcons : onCell a (.stream b l :: os) = onCell a os := by
              simp [onCell, project, SessionLabel.ofStream, hb]
            rw [hcons, List.filterMap_cons, ← ih]
            cases hf : s.frame (.stream b l) with
            | none => rfl
            | some f =>
                obtain ⟨d, hd, hf⟩ := Option.bind_eq_some_iff.mp hf
                have hne : f.stream ≠ c.stream.id := fun heq =>
                  hb (hinv.injective b a d c hd hc ((Label.frame_stream hf).symm.trans heq))
                simp [hne]
      | _ => exact ih

theorem Session.Moves.closed (h : s.Moves e os s') : s.nghttp2.closed ⊆ s'.nghttp2.closed := by
  cases h with
  | quiet _ _ _ hn =>
      rw [hn]
      exact s.nghttp2.note_closed e
  | act _ _ _ _ _ _ _ _ hn =>
      rw [hn]
      exact s.nghttp2.note_closed e
  | register _ _ _ _ _ hn _ =>
      rw [hn]
      exact List.Subset.refl _
  | close _ _ _ _ _ hn =>
      rw [hn]
      exact s.nghttp2.note_closed e
  | teardown _ hclose =>
      rw [(Session.closeAll_eq_some hclose).1]
      exact List.Subset.refl _

end Sessions

/-! ### Both ends -/

/-- The reads of both ends have a destination of at least one byte, in at most
`max_iovec_` buffers. -/
def usersRead (_ : Connection) : ConnectionAction → Prop
  | .session _ (.user _ act _) => act.HasRoom ∧ act.FewBuffers
  | _ => True

instance : DecidableRel usersRead := fun _ a =>
  match a with
  | .session _ (.user _ act _) => inferInstanceAs (Decidable (act.HasRoom ∧ act.FewBuffers))
  | .session _ (.beginHeaders _ _) | .session _ (.header _ _ _) | .session _ (.frameRecv _ _ _)
  | .session _ (.dataChunk _ _ _) | .session _ (.streamClose _) | .session _ (.dataSourceRead _ _)
  | .session _ (.memSend _ _ _) | .session _ (.written _) | .session _ .resumeSend
  | .session _ (.startRecv _ _) | .session _ (.readDone _ _) | .session _ (.memRecv _ _ _)
  | .session _ .stop | .session _ .teardown | .session _ (.submitResponse _ _ _)
  | .session _ (.submitRequest _ _) | .ignore _ _ | .credit _ _ _ => .isTrue trivial

def EndSent (id : ℤ) (fs : List (Frame ℤ UInt8)) : Prop :=
  ∃ f ∈ fs, f.stream = id ∧ f.last = true

structure Connection.Inv (tr : List ConnectionLabel) (c : Connection) : Prop where
  run : ∀ r, sessionMachine.Run heard (atEnd r tr) (c.session r)
  opened : ∀ r, ∀ f ∈ sentBy r tr, f.stream ∈ (c.session r).nghttp2.opened
  sent : ∀ r a x, (c.session r).cells a = some x →
    (sentBy r tr).filter (fun f => f.stream = x.stream.id) =
      (onCell a (atEnd r tr)).filterMap (Label.frame x.stream.id)
  carries : ∀ r id, (c.toward r).Carries id (dataOn id (sentBy r.peer tr))
    (dataIn id (chunks (atEnd r tr))) (EndSent id (sentBy r.peer tr))
    (.frame id true ∈ atEnd r tr) (id ∈ (c.session r).nghttp2.closed)

theorem Connection.inv_fresh (limits : Role → Limits) : (Connection.fresh limits).Inv [] where
  run r := .init (sessionMachine_init r)
  opened r f hf := by cases hf
  sent r a x hx := by cases hx
  carries r id :=
    { data := ⟨[], rfl, fun hne => absurd rfl hne⟩
      last := fun f hf => by cases hf
      tail := List.Pairwise.nil
      ended := fun hmem => by cases hmem }

section Steps

variable {tr : List ConnectionLabel} {c : Connection} {r : Role} {e : SessionAction} {s : Session}
  {os : List SessionLabel} {a : ℕ} {x : Cell}

theorem filterMap_frame_eq (id : ℤ) (ls : List Label) :
    (ls.filterMap (Label.frame id)).flatMap Frame.data = pulled ls := by
  induction ls with
  | nil => rfl
  | cons l ls ih =>
      cases l with
      | pulled bytes eof =>
          rw [show (Label.pulled bytes eof :: ls).filterMap (Label.frame id) =
            ⟨id, bytes, eof⟩ :: ls.filterMap (Label.frame id) from rfl, List.flatMap_cons, ih]
          rfl
      | _ => exact ih

/-- What an end has sent on a stream is what the stream has handed out. -/
theorem Connection.Inv.dataOn_sentBy (h : c.Inv tr) (hx : (c.session r).cells a = some x) :
    dataOn x.stream.id (sentBy r tr) = pulled (onCell a (atEnd r tr)) := by
  have hfilter (fs : List (Frame ℤ UInt8)) :
      dataOn x.stream.id fs =
        (fs.filter (fun f => f.stream = x.stream.id)).flatMap Frame.data := by
    induction fs with
    | nil => rfl
    | cons f fs ih =>
        rw [dataOn_cons, ih, List.filter_cons]
        by_cases hf : f.stream = x.stream.id <;> simp [hf]
  rw [hfilter, h.sent r a x hx, filterMap_frame_eq]

theorem Connection.Inv.endSent (h : c.Inv tr) (hx : (c.session r).cells a = some x) :
    EndSent x.stream.id (sentBy r tr) ↔ ∃ bytes, .pulled bytes true ∈ onCell a (atEnd r tr) := by
  have hmem (f : Frame ℤ UInt8) : f ∈ sentBy r tr ∧ f.stream = x.stream.id ↔
      ∃ l ∈ onCell a (atEnd r tr), l.frame x.stream.id = some f := by
    rw [← List.mem_filterMap, ← h.sent r a x hx, List.mem_filter, decide_eq_true_iff]
  constructor
  · rintro ⟨f, hf, hid, hlast⟩
    obtain ⟨l, hl, heq⟩ := (hmem f).mp ⟨hf, hid⟩
    cases l with
    | pulled bytes eof =>
        cases heq
        obtain rfl : eof = true := hlast
        exact ⟨bytes, hl⟩
    | _ => cases heq
  · rintro ⟨bytes, hl⟩
    obtain ⟨hf, hid⟩ := (hmem ⟨x.stream.id, bytes, true⟩).mpr ⟨_, hl, rfl⟩
    exact ⟨_, hf, hid, rfl⟩

/-- A provider that nghttp2 may call has not handed out the end. -/
theorem Connection.Inv.not_endSent (h : c.Inv tr) {length : ℕ}
    (hadmits : c.admits r (.dataSourceRead a length) = true)
    (hx : (c.session r).cells a = some x) : ¬EndSent x.stream.id (sentBy r tr) := by
  rw [h.endSent hx]
  rintro ⟨bytes, hmem⟩
  have hrun := onCell_run (Session.cells_run (h.run r)) hx
  have hdetached := (Provider.detached_run hrun hmem).2 rfl
  simp [Connection.admits, hx, hdetached] at hadmits

theorem Connection.Inv.carries_send (h : c.Inv tr) (hadmits : c.admits r e = true)
    (hs : (c.session r).step e = some (s, os)) (id : ℤ) :
    ((os.filterMap (c.session r).frame).foldl Mux.send (c.toward r.peer)).Carries id
      (dataOn id (sentBy r tr ++ os.filterMap (c.session r).frame))
      (dataIn id (chunks (atEnd r.peer tr)))
      (EndSent id (sentBy r tr ++ os.filterMap (c.session r).frame))
      (.frame id true ∈ atEnd r.peer tr) (id ∈ (c.session r.peer).nghttp2.closed) := by
  have hcarries := h.carries r.peer id
  rw [r.peer_peer] at hcarries
  rcases Session.step_frames hs with hnil | ⟨a, length, x, bytes, eof, rfl, hx, -, hone⟩
  · rw [hnil, List.append_nil]
    exact hcarries
  · rw [hone, dataOn_append, dataOn_singleton, List.foldl_cons, List.foldl_nil]
    by_cases hid : x.stream.id = id
    · subst hid
      rw [if_pos rfl]
      refine (hcarries.send rfl (h.not_endSent hadmits hx)).weaken (fun hlast => ?_)
        (fun hmem => hmem) fun hmem => hmem
      exact ⟨_, List.mem_append_right _ (List.mem_singleton_self _), rfl, hlast⟩
    · rw [if_neg hid, List.append_nil]
      refine (hcarries.send_other hid).weaken ?_ (fun hmem => hmem) fun hmem => hmem
      rintro ⟨f, hf, hstream⟩
      exact ⟨f, List.mem_append_left _ hf, hstream⟩

/-- What arrives at an end is what was carried there. -/
theorem Connection.Inv.carries_arrives (h : c.Inv tr) {m : Mux ℤ UInt8}
    (hadmits : c.admits r e = true) (harrives : arrives (c.toward r) e = some m)
    (hs : (c.session r).step e = some (s, os)) (id : ℤ) :
    m.Carries id (dataOn id (sentBy r.peer tr)) (dataIn id (chunks (atEnd r tr ++ os)))
      (EndSent id (sentBy r.peer tr)) (.frame id true ∈ atEnd r tr ++ os)
      (id ∈ s.nghttp2.closed) := by
  have hcarries := h.carries r id
  have hclosed := (Session.step_moves hs).closed
  rw [chunks_append, Session.step_chunks hs, dataIn_append]
  -- nothing arrives under this id
  have hother (hcarries : m.Carries id (dataOn id (sentBy r.peer tr))
        (dataIn id (chunks (atEnd r tr))) (EndSent id (sentBy r.peer tr))
        (.frame id true ∈ atEnd r tr) (id ∈ (c.session r).nghttp2.closed))
      (hdata : ∀ data adds, e ≠ .dataChunk id data adds)
      (hend : ∀ request, e ≠ .frameRecv id request true) :
      m.Carries id (dataOn id (sentBy r.peer tr))
        (dataIn id (chunks (atEnd r tr)) ++ dataIn id e.chunks) (EndSent id (sentBy r.peer tr))
        (.frame id true ∈ atEnd r tr ++ os) (id ∈ s.nghttp2.closed) := by
    rw [SessionAction.dataIn_chunks hdata, List.append_nil]
    refine hcarries.weaken (fun hsent => hsent) (fun hmem => ?_) fun hmem => hclosed hmem
    refine (List.mem_append.mp hmem).resolve_right fun hmem => ?_
    obtain ⟨request, heq⟩ := Session.frame_mem hs hmem
    exact hend request heq
  cases e with
  | dataChunk id' data adds =>
      simp only [Connection.admits, decide_eq_true_eq] at hadmits
      by_cases hid : id' = id
      · subst hid
        have hdata : dataIn id' (SessionAction.dataChunk id' data adds).chunks = data := by
          simp [SessionAction.chunks, dataIn]
        rw [hdata]
        refine (hcarries.deliver harrives hadmits).weaken (fun hsent => hsent) (fun hmem => ?_)
          fun hmem => hclosed hmem
        refine (List.mem_append.mp hmem).resolve_right fun hmem => ?_
        obtain ⟨request, heq⟩ := Session.frame_mem hs hmem
        cases heq
      · refine hother (hcarries.deliver_other harrives hid) (fun _ _ heq => ?_) fun _ heq => ?_
        · cases heq
          exact hid rfl
        · cases heq
  | frameRecv id' request endStream =>
      simp only [Connection.admits, decide_eq_true_eq] at hadmits
      cases endStream with
      | true =>
          simp only [arrives] at harrives
          split at harrives
          · cases harrives
          · by_cases hid : id' = id
            · subst hid
              rw [SessionAction.dataIn_chunks (fun _ _ heq => by cases heq), List.append_nil]
              exact (hcarries.finish harrives hadmits).weaken (fun hsent => hsent)
                (fun _ => trivial) fun hmem => hclosed hmem
            · refine hother (hcarries.finish_other harrives) (fun _ _ heq => ?_) fun _ heq => ?_
              · cases heq
              · cases heq
                exact hid rfl
      | false =>
          refine hother ?_ (fun _ _ heq => by cases heq) fun _ heq => by cases heq
          simp only [arrives, Option.some.injEq] at harrives
          rw [← harrives]
          cases hfin : (c.toward r).finish id' false with
          | none => exact hcarries
          | some m' => exact hcarries.finish_other hfin
  | _ =>
      obtain rfl := Option.some.inj harrives
      exact hother hcarries (fun _ _ heq => by cases heq) fun _ heq => by cases heq

theorem heard_of_admits (hok : usersRead c (.session r e)) (hadmits : c.admits r e = true) :
    heard (c.session r) e := by
  cases e with
  | user a act adds => exact hok
  | dataChunk id data adds =>
      show id ∉ (c.session r).nghttp2.closed
      simpa [Connection.admits] using hadmits
  | _ => exact trivial

/-- The frames of a step are those of what its streams hand out. -/
theorem Connection.Inv.sent_step (h : c.Inv tr) (hs : (c.session r).step e = some (s, os))
    (hx : s.cells a = some x) :
    (sentBy r tr ++ os.filterMap (c.session r).frame).filter
        (fun f => f.stream = x.stream.id) =
      (onCell a (atEnd r tr ++ os)).filterMap (Label.frame x.stream.id) := by
  have hinv := Session.inv_run (h.run r)
  have hcells := Session.cells_run (h.run r)
  have hkept {y : Cell} (hy : (c.session r).cells a = some y)
      (hid : x.stream.id = y.stream.id) :
      (sentBy r tr ++ os.filterMap (c.session r).frame).filter
          (fun f => f.stream = x.stream.id) =
        (onCell a (atEnd r tr ++ os)).filterMap (Label.frame x.stream.id) := by
    rw [hid, List.filter_append, h.sent r a y hy, Session.filter_frames hinv hy, onCell_append,
      List.filterMap_append]
  cases (Session.step_moves hs).cellMove hinv hx with
  | made hnone hfresh _ _ hos =>
      rw [onCell_append, hos, onCell_unused hcells hnone]
      refine List.filter_eq_nil_iff.mpr fun f hf heq => ?_
      rw [decide_eq_true_iff] at heq
      rw [← heq] at hfresh
      rcases List.mem_append.mp hf with hf | hf
      · exact hfresh (h.opened r f hf)
      · exact hfresh (Session.frames_opened hinv hf)
  | left hc _ _ => exact hkept hc rfl
  | acted hc _ _ hstep => exact hkept hc (Stream.step_id (Cell.step_eq_some hstep).2.1)
  | closed hc _ hid _ _ _ _ => exact hkept hc hid

theorem Connection.Inv.step {limits : Role → Limits} {c' : Connection} {act : ConnectionAction}
    {ls : List ConnectionLabel} (h : c.Inv tr) (hok : usersRead c act)
    (hs : c.step limits act = some (c', ls)) : c'.Inv (tr ++ ls) := by
  -- what is toward one of the ends changes, and nothing else
  have htoward {r : Role} {m : Mux ℤ UInt8}
      (hm : ∀ id, m.Carries id (dataOn id (sentBy r.peer tr)) (dataIn id (chunks (atEnd r tr)))
        (EndSent id (sentBy r.peer tr)) (.frame id true ∈ atEnd r tr)
        (id ∈ (c.session r).nghttp2.closed)) :
      Connection.Inv (tr ++ []) { c with toward := Function.update c.toward r m } := by
    rw [List.append_nil]
    refine ⟨h.run, h.opened, h.sent, fun r' id => ?_⟩
    by_cases hr : r' = r
    · subst hr
      simp only [Function.update_self]
      exact hm id
    · simp only [Function.update_of_ne hr]
      exact h.carries r' id
  cases Connection.step_moves hs with
  | session r e m received sent s os frames hadmits harrives hstep hframes hreceived hsent =>
      subst hframes
      have hmoves := Session.step_moves hstep
      have hinv := Session.inv_run (h.run r)
      refine ⟨fun r' => ?_, fun r' f hf => ?_, fun r' a x hx => ?_, fun r' id => ?_⟩
      · rcases r.eq_or_peer r' with rfl | rfl
        · rw [atEnd_append, atEnd_step]
          simp only [Function.update_self]
          exact .step (h.run r') (heard_of_admits hok hadmits) hstep
        · rw [atEnd_append, atEnd_peer_step, List.append_nil]
          simp only [Function.update_of_ne r.peer_ne]
          exact h.run r.peer
      · rcases r.eq_or_peer r' with rfl | rfl
        · rw [sentBy_append, sentBy_step] at hf
          simp only [Function.update_self]
          refine hmoves.opened ?_
          rcases List.mem_append.mp hf with hf | hf
          · exact h.opened r' f hf
          · exact Session.frames_opened hinv hf
        · rw [sentBy_append, sentBy_peer_step, List.append_nil] at hf
          simp only [Function.update_of_ne r.peer_ne]
          exact h.opened r.peer f hf
      · rcases r.eq_or_peer r' with rfl | rfl
        · rw [sentBy_append, sentBy_step, atEnd_append, atEnd_step]
          simp only [Function.update_self] at hx
          exact h.sent_step hstep hx
        · rw [sentBy_append, sentBy_peer_step, atEnd_append, atEnd_peer_step, List.append_nil,
            List.append_nil]
          simp only [Function.update_of_ne r.peer_ne] at hx
          exact h.sent r.peer a x hx
      · rcases r.eq_or_peer r' with rfl | rfl
        · rw [sentBy_append, sentBy_peer_step, atEnd_append, atEnd_step, List.append_nil]
          simp only [Function.update_self, Function.update_of_ne (Ne.symm r'.peer_ne)]
          rw [hreceived]
          exact (h.carries_arrives hadmits harrives hstep id).of_frames rfl
        · rw [r.peer_peer, sentBy_append, sentBy_step, atEnd_append, atEnd_peer_step,
            List.append_nil]
          simp only [Function.update_self, Function.update_of_ne r.peer_ne]
          rw [hsent]
          exact h.carries_send hadmits hstep id
  | ignore r id m hclosed hignore =>
      refine htoward fun id' => (h.carries r id').ignore hignore ?_
      rintro rfl
      exact hclosed
  | credit r id a m hcredit =>
      exact htoward fun id' => (h.carries r id').of_frames (Mux.credit_eq_some hcredit).1

theorem Connection.inv_run {limits : Role → Limits}
    (run : (connectionMachine limits).Run usersRead tr c) : c.Inv tr := by
  refine run.invariant (I := fun tr c => c.Inv tr) ?_ ?_
  · rintro c rfl
    exact Connection.inv_fresh limits
  · exact fun tr c a c' os h hok hs => h.step hok hs

end Steps

/-- A stream whose end was announced has received a frame with END_STREAM. -/
theorem Session.frame_of_readEnded {ok : Session → SessionAction → Prop}
    {tr : List SessionLabel} {s : Session} (run : sessionMachine.Run ok tr s) {a : ℕ} {c : Cell}
    (hc : s.cells a = some c) (hmem : .readEnded ∈ onCell a tr) :
    .frame c.stream.id true ∈ tr := by
  obtain ⟨pre, post, hsplit⟩ := List.append_of_mem (mem_onCell.mp hmem)
  have hbefore := (Session.endSeen_run run hc).announced pre _ post hsplit rfl
  rw [hsplit]
  exact List.mem_append_left _ hbefore

/-- Every stream of a connection, in both directions, whatever goes on on the other
streams, and whoever uses them: what has been read at one end is at all times the
beginning of what the stream with the same id has handed to nghttp2 at the other
end, byte for byte; and when a read says that the body is over, the other end had
ended it, and the whole of it has been read. -/
theorem connection_round_trip {limits : Role → Limits} {tr : List ConnectionLabel}
    {c : Connection} (run : (connectionMachine limits).Run usersRead tr c) {r : Role} {a b : ℕ}
    {x y : Cell} (hx : (c.session r.peer).cells a = some x)
    (hy : (c.session r).cells b = some y) (hid : x.stream.id = y.stream.id) :
    returned (onCell b (atEnd r tr)) <+: pulled (onCell a (atEnd r.peer tr)) ∧
      ∀ bytes, .readReturned ⟨some .eof, bytes⟩ ∈ onCell b (atEnd r tr) →
        (∃ bytes, .pulled bytes true ∈ onCell a (atEnd r.peer tr)) ∧
          returned (onCell b (atEnd r tr)) = pulled (onCell a (atEnd r.peer tr)) := by
  have h := Connection.inv_run run
  have hrun := h.run r
  have hread := (ReadSide.queue_run (Session.destination_run hrun hy)).2
  rw [(Session.delivered_run hrun).2 b y hy] at hread
  have hcarries := h.carries r y.stream.id
  have hsent := h.dataOn_sentBy hx
  rw [hid] at hsent
  rw [hsent] at hcarries
  refine ⟨?_, fun bytes hmem => ?_⟩
  · exact List.IsPrefix.trans ⟨_, hread.symm⟩ hcarries.received_prefix
  · have hroom : sessionMachine.Run readsHaveRoom (atEnd r tr) (c.session r) :=
      hrun.weaken fun _ e hok => by cases e <;> simp_all [heard, readsHaveRoom]
    have hbody : cellMachine.Run bodyOk (onCell b (atEnd r tr)) y :=
      onCell_run (Session.body_run hroom) hy
    have hover := over_run hbody .eof bytes rfl hmem
    have hframe := Session.frame_of_readEnded hrun hy ((flags_run hbody).2.mp hover.readEof)
    obtain ⟨hend, hwhole⟩ := hcarries.ended hframe
    rw [hover.contents, List.append_nil] at hread
    rw [← hid, h.endSent hx] at hend
    exact ⟨hend, by rw [hwhole, hread]⟩

/-- Two requests under a window of two bytes for both together. The second is sent
first, is ended while the first is not, and is read to its end. -/
theorem connection_round_trip_of_two :
    ∃ tr c, (connectionMachine fun _ => twoBytes).Run usersRead tr c ∧
      .readReturned ⟨some .eof, []⟩ ∈ onCell 1 (atEnd .server tr) ∧
      returned (onCell 0 (atEnd .server tr)) = [1] ∧
      pulled (onCell 1 (atEnd .client tr)) = [3] ∧
      returned (onCell 1 (atEnd .server tr)) = pulled (onCell 1 (atEnd .client tr)) := by
  obtain ⟨tr, c, run, heof, hfirst, hsecond, hids⟩ :
      ∃ tr c, (connectionMachine fun _ => twoBytes).Run usersRead tr c ∧
        .readReturned ⟨some .eof, []⟩ ∈ onCell 1 (atEnd .server tr) ∧
        returned (onCell 0 (atEnd .server tr)) = [1] ∧
        pulled (onCell 1 (atEnd .client tr)) = [3] ∧
        (((c.session .client).cells 1).any fun x => ((c.session .server).cells 1).any fun y =>
          decide (x.stream.id = y.stream.id)) = true :=
    Machine.run_of_exec (s := Connection.fresh fun _ => twoBytes) rfl
      [.session .client (.memSend (some []) 0 true), .session .client (.startRecv true 0),
        .session .server (.memSend (some []) 0 true), .session .server (.startRecv true 0),
        .session .client (.submitRequest (some 1) 1), .session .client (.submitRequest (some 3) 1),
        .session .client (.user 0 (.write (.write [[1, 2]]) false) 1),
        .session .client (.user 1 (.write (.write [[3]]) false) 1),
        .session .client .resumeSend, .session .client (.dataSourceRead 1 2),
        .session .client (.dataSourceRead 0 1), .session .client (.memSend (some []) 0 true),
        .session .server (.readDone false 0), .session .server (.beginHeaders 1 true),
        .session .server (.frameRecv 1 true false), .session .server (.beginHeaders 3 true),
        .session .server (.frameRecv 3 true false), .session .server (.dataChunk 3 [3] 0),
        .session .server (.frameRecv 3 false false), .session .server (.dataChunk 1 [1] 0),
        .session .server (.frameRecv 1 false false), .session .server (.memRecv false true 0),
        .session .server (.user 1 (.readSome [4] false) 0),
        .session .server (.user 0 (.readSome [4] false) 0),
        .credit .server 3 .announceConnection, .credit .server 3 .updateConnection,
        .session .client (.user 1 .resumeWrite 0),
        .session .client (.user 1 (.write .writeEof false) 1), .session .client .resumeSend,
        .session .client (.dataSourceRead 1 1), .session .client (.memSend (some []) 0 true),
        .session .server .resumeSend, .session .server (.memSend (some []) 0 true),
        .session .server (.readDone false 0), .session .server (.frameRecv 3 false true),
        .session .server (.memRecv false true 0),
        .session .server (.user 1 (.readSome [4] false) 0)] (by decide)
  obtain ⟨x, hx, hany⟩ := (Option.any_eq_true _ _).mp hids
  obtain ⟨y, hy, hid⟩ := (Option.any_eq_true _ _).mp hany
  have hall := connection_round_trip run (r := .server) hx hy (of_decide_eq_true hid)
  exact ⟨tr, c, run, heof, hfirst, hsecond, (hall.2 [] heof).2⟩

end Nghttp2Corosio
