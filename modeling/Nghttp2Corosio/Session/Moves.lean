import Nghttp2Corosio.Session.Turns

/-!
What the steps of a session can do.

`Session.Moves` are the steps as seen from the streams: from the registry, the
`Stream` objects and nghttp2's account of its streams. The loops do not occur
there; they leave all of that alone. `Session.Side` is what the other actions do
to the loops and to the output that nghttp2 has pending: nothing, unless they
wake `send_loop` or run inside `nghttp2_session_mem_recv2`, which is followed by
a wake-up.
-/

namespace Nghttp2Corosio

open Async Buffers Runs

/-- The action on the `Stream` object at `a` that is part of the action `e` of
the session. -/
inductive Session.Does (s : Session) : SessionAction → ℕ → Cell → Action → Prop
  | header {id : ℤ} {a : ℕ} {c : Cell} (name value : Bytes) (hfind : s.findStream id = some a)
      (hc : s.cells a = some c) : Does s (.header id name value) a c (.onHeader name value)
  | eof {id : ℤ} {a : ℕ} {c : Cell} (request : Bool) (hfind : s.findStream id = some a)
      (hc : s.cells a = some c) : Does s (.frameRecv id request true) a c .onReadEof
  | data {id : ℤ} {a : ℕ} {c : Cell} (data : Bytes) (adds : ℕ) (hfind : s.findStream id = some a)
      (hc : s.cells a = some c) : Does s (.dataChunk id data adds) a c (.onData data)
  | close {id : ℤ} {a : ℕ} {c : Cell} (hfind : s.findStream id = some a)
      (hc : s.cells a = some c) : Does s (.streamClose id) a c .onClose
  | teardown (a : ℕ) (c : Cell) : Does s .teardown a c .onClose
  | pull {a : ℕ} {c : Cell} (length : ℕ) (hc : s.cells a = some c) :
      Does s (.dataSourceRead a length) a c (.producerCallback length)
  | user {a : ℕ} {c : Cell} (act : Action) (adds : ℕ) (hc : s.cells a = some c)
      (huser : act.isUser = true) : Does s (.user a act adds) a c act
  | submit {a : ℕ} {c : Cell} (adds : ℕ) (hc : s.cells a = some c) :
      Does s (.submitResponse a true adds) a c .submit

/-- The calls of a stream change what nghttp2 has queued and consumed, and wake
`send_loop`, but nothing else. -/
theorem Session.foldl_observe (id : ℤ) (adds : ℕ) (ls : List Label) (s : Session) :
    ∃ output touched ev, ls.foldl (Session.observe id adds) s =
      { s with
        writeReady := ev
        nghttp2 :=
          { s.nghttp2 with
            output := output
            touched := touched
            consumed :=
              Function.update s.nghttp2.consumed id (s.nghttp2.consumed id + consumed ls) } } := by
  induction ls generalizing s with
  | nil =>
      refine ⟨s.nghttp2.output, s.nghttp2.touched, s.writeReady, ?_⟩
      rw [show consumed [] = 0 from rfl, Nat.add_zero, Function.update_eq_self]
      rfl
  | cons l ls ih =>
      obtain ⟨output, touched, ev, heq⟩ := ih (s.observe id adds l)
      refine ⟨output, touched, ev, ?_⟩
      rw [List.foldl_cons, heq]
      have hcons : consumed (l :: ls) = l.consumedBytes + consumed ls := by simp [consumed]
      rw [hcons]
      cases l with
      | call c =>
          cases c with
          | consumeStream k =>
              simp [Session.observe, Nghttp2.consumeStream, Nghttp2.call, Label.consumedBytes,
                Nat.add_assoc]
          | resumeData => simp [Session.observe, Nghttp2.call, Label.consumedBytes]
          | startWrite => simp [Session.observe, Session.startWrite, Label.consumedBytes]
      | _ => simp [Session.observe, Label.consumedBytes]

theorem Session.act_eq_some {s s' : Session} {a : ℕ} {act : Action} {adds : ℕ}
    {os : List SessionLabel} (h : s.act a act adds = some (s', os)) :
    ∃ c c' ls, s.cells a = some c ∧ c.step act = some (c', ls) ∧ os = ls.map (.stream a) ∧
      s' = ls.foldl (Session.observe c.stream.id adds)
        { s with cells := Function.update s.cells a (some c') } ∧
      ∃ output touched ev, s' =
        { s with
          cells := Function.update s.cells a (some c')
          writeReady := ev
          nghttp2 :=
            { s.nghttp2 with
              output := output
              touched := touched
              consumed := Function.update s.nghttp2.consumed c.stream.id
                (s.nghttp2.consumed c.stream.id + consumed ls) } } := by
  obtain ⟨c, hc, h⟩ := Option.bind_eq_some_iff.mp h
  obtain ⟨⟨c', ls⟩, hs, heq⟩ := Option.map_eq_some_iff.mp h
  simp only [Prod.mk.injEq] at heq
  refine ⟨c, c', ls, hc, hs, heq.2.symm, heq.1.symm, ?_⟩
  rw [← heq.1]
  exact Session.foldl_observe c.stream.id adds ls _

/-- An action that is possible on a `Stream` object is possible in its session. -/
theorem Session.act_of_step {s : Session} {a : ℕ} {c c' : Cell} {act : Action} {ls : List Label}
    (hc : s.cells a = some c) (hs : c.step act = some (c', ls)) (adds : ℕ) :
    ∃ s', s.act a act adds = some (s', ls.map (.stream a)) := by
  refine ⟨ls.foldl (Session.observe c.stream.id adds)
    { s with cells := Function.update s.cells a (some c') }, ?_⟩
  rw [Session.act, hc, Option.bind_some, hs, Option.map_some]

/-! ### The loops leave the streams alone -/

/-- Same streams, and the same streams for nghttp2. -/
def Session.SameStreams (s s' : Session) : Prop :=
  s'.toTable = s.toTable ∧ s'.nghttp2.toNghttp2Streams = s.nghttp2.toNghttp2Streams

theorem Session.Turns.sameStreams {s s' : Session} {e : SessionAction} {os : List SessionLabel}
    (h : s.Turns e os s') : s.SameStreams s' ∧ ∀ l ∈ os, l.isLoop = true := by
  cases h with
  | startRecv wants adds =>
      rcases s.recvHead_cases wants adds with ⟨-, heq⟩ | ⟨-, heq⟩
      · rw [heq]
        exact ⟨⟨rfl, rfl⟩, by simp⟩
      · rw [heq]
        exact ⟨⟨rfl, rfl⟩, by simp [SessionLabel.isLoop]⟩
  | memRecv failed wants adds =>
      rcases s.memRecv_cases failed wants adds with heq | ⟨n, hn, -, -, heq, hos⟩
      · rw [heq]
        exact ⟨⟨rfl, rfl⟩, by simp⟩
      · rw [heq]
        exact ⟨⟨rfl, hn⟩, fun l hl => by rw [hos l hl]; rfl⟩
  | _ => exact ⟨⟨rfl, rfl⟩, by simp [SessionLabel.isLoop]⟩

/-! ### What the streams do to the loops -/

/-- What an action that is not one of the loops' may do to them: it may add
output and it may wake `send_loop`, and if it does the former outside of
`nghttp2_session_mem_recv2`, it does the latter. -/
structure Session.Side (s s' : Session) : Prop where
  sendLoop : s'.sendLoop = s.sendLoop
  recvLoop : s'.recvLoop = s.recvLoop
  drained : s'.nghttp2.drained = s.nghttp2.drained
  output : s'.nghttp2.touched = false →
    s.nghttp2.touched = false ∧ s'.nghttp2.output = s.nghttp2.output
  ready : s'.writeReady = s.writeReady ∨ s'.writeReady = s.writeReady.set
  signal : s.receiving = false → s'.nghttp2.touched = true →
    s.nghttp2.touched = true ∨ s'.writeReady = s.writeReady.set

theorem Session.Side.refl (s : Session) : s.Side s where
  sendLoop := rfl
  recvLoop := rfl
  drained := rfl
  output h := ⟨h, rfl⟩
  ready := .inl rfl
  signal _ h := .inl h

/-- The signal of the first step is not lost in the second. -/
theorem Session.Side.trans {s s' s'' : Session} (h : s.Side s') (h' : s'.Side s'') :
    s.Side s'' where
  sendLoop := h'.sendLoop.trans h.sendLoop
  recvLoop := h'.recvLoop.trans h.recvLoop
  drained := h'.drained.trans h.drained
  output hfalse := by
    obtain ⟨hfalse', heq'⟩ := h'.output hfalse
    obtain ⟨hfalse, heq⟩ := h.output hfalse'
    exact ⟨hfalse, heq'.trans heq⟩
  ready := by
    rcases h.ready with heq | heq
    · rw [← heq]
      exact h'.ready
    · exact .inr (Event.eq_set_of_left heq h'.ready)
  signal hrecv htouched := by
    have hrecv' : s'.receiving = false := by
      rw [Session.receiving, h.recvLoop]
      exact hrecv
    rcases h'.signal hrecv' htouched with htouched' | heq'
    · rcases h.signal hrecv htouched' with htouched | heq
      · exact .inl htouched
      · exact .inr (Event.eq_set_of_left heq h'.ready)
    · exact .inr (Event.eq_set_of_right h.ready heq')

theorem Session.Side.of_eq {s s' : Session} (hsend : s'.sendLoop = s.sendLoop)
    (hrecv : s'.recvLoop = s.recvLoop) (hready : s'.writeReady = s.writeReady)
    (hdrained : s'.nghttp2.drained = s.nghttp2.drained)
    (htouched : s'.nghttp2.touched = s.nghttp2.touched)
    (houtput : s'.nghttp2.output = s.nghttp2.output) : s.Side s' where
  sendLoop := hsend
  recvLoop := hrecv
  drained := hdrained
  output h := ⟨htouched ▸ h, houtput⟩
  ready := .inl hready
  signal _ h := .inl (htouched ▸ h)

theorem Session.Side.of_set {s s' : Session} (hsend : s'.sendLoop = s.sendLoop)
    (hrecv : s'.recvLoop = s.recvLoop) (hready : s'.writeReady = s.writeReady.set)
    (hdrained : s'.nghttp2.drained = s.nghttp2.drained)
    (htouched : s'.nghttp2.touched = true) : s.Side s' where
  sendLoop := hsend
  recvLoop := hrecv
  drained := hdrained
  output h := by
    rw [htouched] at h
    cases h
  ready := .inr hready
  signal _ _ := .inr hready

theorem Session.foldl_observe_ready (id : ℤ) (adds : ℕ) (ls : List Label) (s : Session) :
    (ls.foldl (Session.observe id adds) s).writeReady =
      if .call .startWrite ∈ ls then s.writeReady.set else s.writeReady := by
  induction ls generalizing s with
  | nil => rfl
  | cons l ls ih =>
      rw [List.foldl_cons, ih]
      by_cases hl : l = .call .startWrite
      · subst hl
        simp [Session.observe, Session.startWrite]
      · have hsame : (s.observe id adds l).writeReady = s.writeReady := by
          unfold Session.observe
          split <;> first | rfl | exact absurd rfl hl
        simp [hsame, Ne.symm hl]

theorem Session.foldl_observe_output (id : ℤ) (adds : ℕ) (ls : List Label) (s : Session)
    (h : (ls.foldl (Session.observe id adds) s).nghttp2.touched = false) :
    s.nghttp2.touched = false ∧
      (ls.foldl (Session.observe id adds) s).nghttp2.output = s.nghttp2.output := by
  induction ls generalizing s with
  | nil => exact ⟨h, rfl⟩
  | cons l ls ih =>
      rw [List.foldl_cons] at h ⊢
      obtain ⟨htouched, houtput⟩ := ih (s.observe id adds l) h
      rw [houtput]
      unfold Session.observe at htouched ⊢
      split at htouched
      · cases htouched
      · cases htouched
      · exact ⟨htouched, rfl⟩
      · exact ⟨htouched, rfl⟩

theorem Session.foldl_observe_of_no_call (id : ℤ) (adds : ℕ) {ls : List Label}
    (h : ∀ l ∈ ls, ∀ k, l ≠ .call k) (s : Session) : ls.foldl (Session.observe id adds) s = s := by
  induction ls with
  | nil => rfl
  | cons l ls ih =>
      have hl : s.observe id adds l = s := by
        unfold Session.observe
        split <;> first | rfl | exact absurd rfl (h _ List.mem_cons_self _)
      rw [List.foldl_cons, hl]
      exact ih fun l' hl' => h l' (List.mem_cons_of_mem l hl')

theorem Session.act_side {s s' : Session} {a : ℕ} {act : Action} {adds : ℕ}
    {os : List SessionLabel} (h : s.act a act adds = some (s', os)) : s.Side s' := by
  obtain ⟨c, c', ls, -, hs, -, heq, output, touched, ev, heq'⟩ := Session.act_eq_some h
  have hready := Session.foldl_observe_ready c.stream.id adds ls
    { s with cells := Function.update s.cells a (some c') }
  have houtput := Session.foldl_observe_output c.stream.id adds ls
    { s with cells := Function.update s.cells a (some c') }
  rw [← heq] at hready houtput
  refine ⟨by rw [heq'], by rw [heq'], by rw [heq'], houtput, ?_, fun _ htouched => ?_⟩
  · rw [hready]
    split
    · exact .inr rfl
    · exact .inl rfl
  · -- either the stream made no call at all, or one of its calls was `start_write`
    rcases Stream.step_poked (Cell.step_eq_some hs).2.1 with hnone | hsome
    · rw [heq, Session.foldl_observe_of_no_call c.stream.id adds hnone] at htouched
      exact .inl htouched
    · rw [if_pos hsome] at hready
      exact .inr hready

theorem Session.closeAll_side {s s' : Session} {as : List ℕ} {os : List SessionLabel}
    (h : s.closeAll as = some (s', os)) : s.Side s' := by
  induction as generalizing s os with
  | nil =>
      cases h
      exact .refl _
  | cons a as ih =>
      obtain ⟨⟨s₁, os₁⟩, hact, h⟩ := Option.bind_eq_some_iff.mp h
      obtain ⟨⟨s₂, os₂⟩, hrest, heq⟩ := Option.map_eq_some_iff.mp h
      cases heq
      exact (Session.act_side hact).trans (ih hrest)

theorem Session.onFrameRecv_side {s s' : Session} {id : ℤ} {request endStream : Bool}
    {os : List SessionLabel} (h : s.onFrameRecv id request endStream = some (s', os)) :
    s.Side s' := by
  unfold Session.onFrameRecv at h
  dsimp only at h
  split at h
  · split at h
    · cases h
      exact .of_eq rfl rfl rfl rfl rfl rfl
    · obtain ⟨⟨s₁, os₁⟩, hact, heq⟩ := Option.map_eq_some_iff.mp h
      cases heq
      refine .trans ?_ (Session.act_side hact)
      exact .of_eq rfl rfl rfl rfl rfl rfl
  · cases h
    exact .refl s

theorem Session.onDataChunkRecv_side {s s' : Session} {id : ℤ} {data : Bytes} {adds : ℕ}
    {os : List SessionLabel} (h : s.onDataChunkRecv id data adds = some (s', os))
    (hrecv : s.receiving = true) : s.Side s' := by
  have hnote : s.Side { s with
      nghttp2 := (s.nghttp2.receive id data.length).consumeConnection data.length adds } := by
    refine ⟨rfl, rfl, rfl, nofun, .inl rfl, fun hrecv' => ?_⟩
    rw [hrecv] at hrecv'
    cases hrecv'
  unfold Session.onDataChunkRecv at h
  dsimp only at h
  split at h
  · cases h
    exact hnote
  · obtain ⟨⟨s₁, os₁⟩, hact, heq⟩ := Option.map_eq_some_iff.mp h
    cases heq
    exact hnote.trans (Session.act_side hact)

theorem Session.onStreamClose_side {s s' : Session} {id : ℤ} {os : List SessionLabel}
    (h : s.onStreamClose id = some (s', os)) : s.Side s' := by
  unfold Session.onStreamClose Session.closeStream at h
  split at h
  · cases h
    exact .of_eq rfl rfl rfl rfl rfl rfl
  · obtain ⟨⟨s₁, os₁⟩, hact, heq⟩ := Option.map_eq_some_iff.mp h
    cases heq
    have hside := Session.act_side hact
    exact ⟨hside.sendLoop, hside.recvLoop, hside.drained, hside.output, hside.ready,
      hside.signal⟩

theorem Session.submitResponse_side {s s' : Session} {a : ℕ} {accepted : Bool} {adds : ℕ}
    {os : List SessionLabel} (h : s.submitResponse a accepted adds = some (s', os)) :
    s.Side s' := by
  unfold Session.submitResponse at h
  split at h
  · obtain ⟨⟨s₁, os₁⟩, hact, heq⟩ := Option.map_eq_some_iff.mp h
    cases heq
    refine (Session.act_side hact).trans ?_
    exact .of_set rfl rfl rfl rfl rfl
  · cases h
    exact .refl s

theorem Session.submitRequest_side (s : Session) (accepted : Option ℤ) (adds : ℕ) :
    s.Side (s.submitRequest accepted adds).1 := by
  unfold Session.submitRequest
  split
  · exact .refl s
  · cases accepted with
    | none => exact .refl s
    | some id => exact .of_set rfl rfl rfl rfl rfl

theorem Session.step_side {s s' : Session} {e : SessionAction} {os : List SessionLabel}
    (h : s.step e = some (s', os)) (he : e.isLoop = false) : s.Side s' := by
  obtain ⟨hallows, h⟩ := Session.step_eq_some h
  cases e with
  | beginHeaders id request =>
      cases h
      cases request <;> exact .of_eq rfl rfl rfl rfl rfl rfl
  | header id name value =>
      simp only [Session.perform, Session.onHeader] at h
      split at h
      · cases h
        exact .refl s
      · exact Session.act_side h
  | frameRecv id request endStream => exact Session.onFrameRecv_side h
  | dataChunk id data adds =>
      simp only [Session.allows, Bool.and_eq_true] at hallows
      exact Session.onDataChunkRecv_side h hallows.1
  | streamClose id => exact Session.onStreamClose_side h
  | dataSourceRead a length => exact Session.act_side h
  | teardown =>
      simp only [Session.perform, Session.teardown] at h
      split at h
      · have hside := Session.closeAll_side h
        exact ⟨hside.sendLoop, hside.recvLoop, hside.drained, hside.output, hside.ready,
          hside.signal⟩
      · cases h
  | user a act adds => exact Session.act_side h
  | submitResponse a accepted adds => exact Session.submitResponse_side h
  | submitRequest accepted adds =>
      obtain ⟨rfl, rfl⟩ := Prod.ext_iff.mp (Option.some.inj h)
      exact s.submitRequest_side accepted adds
  | _ => cases he

/-! ### The ends of the loops are final -/

theorem Session.step_send_ended {s s' : Session} {e : SessionAction} {os : List SessionLabel}
    (hs : s.step e = some (s', os)) {why : SendEnd} (hended : s.sendLoop = .ended why) :
    s'.sendLoop = .ended why := by
  cases he : e.isLoop with
  | false => rw [(Session.step_side hs he).sendLoop, hended]
  | true => exact (Session.step_turns hs he).send_ended hended

theorem Session.step_recv_ended {s s' : Session} {e : SessionAction} {os : List SessionLabel}
    (hs : s.step e = some (s', os)) (hended : s.recvLoop = .ended) : s'.recvLoop = .ended := by
  cases he : e.isLoop with
  | false => rw [(Session.step_side hs he).recvLoop, hended]
  | true => exact (Session.step_turns hs he).recv_ended hended

/-! ### What a step does to the streams

`Session.Moves` are the steps of the session as seen from its streams and from
nghttp2's account of them. -/

/-- What nghttp2 notes about an event before its callback acts on a stream. -/
def Nghttp2.note (n : Nghttp2) : SessionAction → Nghttp2
  | .beginHeaders id false => { n with opened := n.opened.insert id }
  | .frameRecv id _ true => { n with ended := id :: n.ended }
  | .dataChunk id data adds => (n.receive id data.length).consumeConnection data.length adds
  | .streamClose id => { n with closed := id :: n.closed }
  | _ => n

/-- A stream object after `on_close`. -/
def Cell.close (c : Cell) : Cell := ⟨c.stream.onClose, { c.provider with attached := false }⟩

theorem Cell.step_onClose (c : Cell) : c.step .onClose = some (c.close, [.closed]) := rfl

def Untagged (os : List SessionLabel) : Prop := ∀ l ∈ os, l.ofStream = none

/-- The stream that an event is about, if something is to be done with its
`Stream` object. -/
def SessionAction.target : SessionAction → Option ℤ
  | .header id _ _ | .frameRecv id _ true | .dataChunk id _ _ | .streamClose id => some id
  | _ => none

theorem SessionAction.target_of_isLoop {e : SessionAction} (h : e.isLoop = true) :
    e.target = none := by
  cases e <;> first | rfl | cases h

inductive Session.Moves (s : Session) (e : SessionAction) (os : List SessionLabel)
    (s' : Session) : Prop
  | quiet (hunknown : ∀ id, e.target = some id → s.findStream id = none) (hos : Untagged os)
      (htable : s'.toTable = s.toTable)
      (hn : s'.nghttp2.toNghttp2Streams = (s.nghttp2.note e).toNghttp2Streams)
  | act {a : ℕ} {c c' : Cell} {act : Action} {ls : List Label} {pre post : List SessionLabel}
      (hdoes : s.Does e a c act) (hne : act ≠ .onClose) (hc : s.cells a = some c)
      (hs : c.step act = some (c', ls)) (hpre : Untagged pre) (hpost : Untagged post)
      (hos : os = pre ++ ls.map (.stream a) ++ post)
      (htable : s'.toTable = { s.toTable with cells := Function.update s.cells a (some c') })
      (hn : s'.nghttp2.toNghttp2Streams =
        { (s.nghttp2.note e).toNghttp2Streams with
          consumed := Function.update s.nghttp2.consumed c.stream.id
            (s.nghttp2.consumed c.stream.id + consumed ls) })
  | register (id : ℤ) (submitted : Bool) (hfresh : id ∉ s.nghttp2.opened) (hos : Untagged os)
      (htable : s'.toTable =
        { s.toTable with
          cells := Function.update s.cells s.next (some (Cell.fresh id submitted))
          next := s.next + 1
          streams := s.streams.emplace id s.next })
      (hn : s'.nghttp2.toNghttp2Streams =
        { s.nghttp2.toNghttp2Streams with opened := id :: s.nghttp2.opened })
      (he : (submitted = false ∧ e = .beginHeaders id true) ∨
        submitted = true ∧ s.role = .client ∧ ∃ adds, e = .submitRequest (some id) adds)
  | close {id : ℤ} {a : ℕ} {c : Cell} (he : e = .streamClose id)
      (hfind : s.findStream id = some a) (hc : s.cells a = some c)
      (hos : os = [.stream a .closed])
      (htable : s'.toTable =
        { s.toTable with
          cells := Function.update s.cells a (some c.close)
          streams := s.streams.erase id })
      (hn : s'.nghttp2.toNghttp2Streams = (s.nghttp2.note e).toNghttp2Streams)
  | teardown (he : e = .teardown)
      (hclose : Session.closeAll { s with streams := ∅, finished := true }
        (s.streams.entries.map Sigma.snd) = some (s', os))

theorem Nghttp2.note_consumed (n : Nghttp2) (e : SessionAction) :
    (n.note e).consumed = n.consumed := by
  unfold Nghttp2.note
  split <;> rfl

/-- An action on a stream, after nghttp2 has noted the event and before anything
that does not concern the streams. -/
theorem Session.Moves.of_act {s s₁ s₂ s' : Session} {e : SessionAction} {a : ℕ} {act : Action}
    {adds : ℕ} {pre os post : List SessionLabel} (hact : s₁.act a act adds = some (s₂, os))
    (htable₁ : s₁.toTable = s.toTable)
    (hn₁ : s₁.nghttp2.toNghttp2Streams = (s.nghttp2.note e).toNghttp2Streams)
    (hdoes : ∀ c, s.cells a = some c → s.Does e a c act) (hne : act ≠ .onClose)
    (htable₂ : s'.toTable = s₂.toTable)
    (hn₂ : s'.nghttp2.toNghttp2Streams = s₂.nghttp2.toNghttp2Streams) (hpre : Untagged pre)
    (hpost : Untagged post) : s.Moves e (pre ++ os ++ post) s' := by
  obtain ⟨c, c', ls, hc, hs, rfl, -, output, touched, ev, rfl⟩ := Session.act_eq_some hact
  have hcells : s₁.cells = s.cells := congrArg Table.cells htable₁
  have hconsumed : s₁.nghttp2.consumed = s.nghttp2.consumed :=
    (congrArg Nghttp2Streams.consumed hn₁).trans (s.nghttp2.note_consumed e)
  rw [hcells] at hc
  refine .act (hdoes c hc) hne hc hs hpre hpost rfl ?_ ?_
  · rw [htable₂, ← htable₁]
  · rw [hn₂, ← hn₁]
    dsimp only
    rw [hconsumed]

theorem untagged_nil : Untagged [] := by simp [Untagged]

theorem untagged_singleton {l : SessionLabel} (h : l.ofStream = none) : Untagged [l] := by
  simpa [Untagged] using h

theorem untagged_dispatched (s : Session) (id : ℤ) (request endStream : Bool) :
    Untagged (.frame id endStream ::
      (if request then (s.findStream id).toList.map .dispatched else [])) := by
  intro l hl
  rcases List.mem_cons.mp hl with rfl | hl
  · rfl
  · split at hl
    · obtain ⟨a, -, rfl⟩ := List.mem_map.mp hl
      rfl
    · cases hl

theorem Session.onHeader_moves {s s' : Session} {id : ℤ} {name value : Bytes}
    {os : List SessionLabel} (h : s.onHeader id name value = some (s', os)) :
    s.Moves (.header id name value) os s' := by
  unfold Session.onHeader at h
  split at h
  · rename_i hfind
    cases h
    exact .quiet (by rintro _ ⟨⟩; exact hfind) untagged_nil rfl rfl
  · rename_i a hfind
    rw [show os = [] ++ os ++ [] by simp]
    exact .of_act h rfl rfl (fun c hc => .header name value hfind hc) (by simp) rfl rfl
      untagged_nil untagged_nil

theorem Session.onFrameRecv_moves {s s' : Session} {id : ℤ} {request endStream : Bool}
    {os : List SessionLabel} (h : s.onFrameRecv id request endStream = some (s', os)) :
    s.Moves (.frameRecv id request endStream) os s' := by
  have hos := untagged_dispatched s id request endStream
  unfold Session.onFrameRecv at h
  cases endStream with
  | false =>
      cases h
      exact .quiet nofun hos rfl rfl
  | true =>
      dsimp only at h
      rw [if_pos rfl] at h
      split at h
      · rename_i hfind
        cases h
        exact .quiet (by rintro _ ⟨⟩; exact hfind) hos rfl rfl
      · rename_i a hfind
        obtain ⟨⟨s₁, os₁⟩, hact, heq⟩ := Option.map_eq_some_iff.mp h
        cases heq
        rw [← List.append_nil (_ ++ os₁)]
        exact .of_act hact rfl rfl (fun c hc => .eof request hfind hc) (by simp) rfl rfl hos
          untagged_nil

theorem Session.onDataChunkRecv_moves {s s' : Session} {id : ℤ} {data : Bytes} {adds : ℕ}
    {os : List SessionLabel} (h : s.onDataChunkRecv id data adds = some (s', os)) :
    s.Moves (.dataChunk id data adds) os s' := by
  have hos : Untagged [.chunk id data] := untagged_singleton rfl
  unfold Session.onDataChunkRecv at h
  dsimp only at h
  split at h
  · rename_i hfind
    cases h
    exact .quiet (by rintro _ ⟨⟩; exact hfind) hos rfl rfl
  · rename_i a hfind
    obtain ⟨⟨s₁, os₁⟩, hact, heq⟩ := Option.map_eq_some_iff.mp h
    cases heq
    rw [show SessionLabel.chunk id data :: os₁ = [.chunk id data] ++ os₁ ++ [] by simp]
    exact .of_act hact rfl rfl (fun c hc => .data data adds hfind hc) (by simp) rfl rfl hos
      untagged_nil

theorem Session.onStreamClose_moves {s s' : Session} {id : ℤ} {os : List SessionLabel}
    (h : s.onStreamClose id = some (s', os)) : s.Moves (.streamClose id) os s' := by
  unfold Session.onStreamClose Session.closeStream at h
  split at h
  · rename_i hfind
    cases h
    exact .quiet (by rintro _ ⟨⟩; exact hfind) untagged_nil rfl rfl
  · rename_i a hfind
    obtain ⟨⟨s₁, os₁⟩, hact, heq⟩ := Option.map_eq_some_iff.mp h
    cases heq
    obtain ⟨c, c', ls, hc, hs, rfl, rfl, -⟩ := Session.act_eq_some hact
    rw [Cell.step_onClose] at hs
    cases hs
    exact .close rfl hfind hc rfl rfl rfl

theorem Session.submitResponse_moves {s s' : Session} {a : ℕ} {accepted : Bool} {adds : ℕ}
    {os : List SessionLabel} (h : s.submitResponse a accepted adds = some (s', os)) :
    s.Moves (.submitResponse a accepted adds) os s' := by
  unfold Session.submitResponse at h
  cases accepted with
  | false =>
      cases h
      exact .quiet nofun (untagged_singleton rfl) rfl rfl
  | true =>
      rw [if_pos rfl] at h
      obtain ⟨⟨s₁, os₁⟩, hact, heq⟩ := Option.map_eq_some_iff.mp h
      cases heq
      rw [← List.nil_append os₁]
      exact .of_act hact rfl rfl (fun c hc => .submit adds hc) (by simp) rfl rfl untagged_nil
        (untagged_singleton rfl)

theorem Session.submitRequest_moves {s : Session} {accepted : Option ℤ} {adds : ℕ}
    (hfresh : ∀ id, accepted = some id → id ∉ s.nghttp2.opened) :
    s.Moves (.submitRequest accepted adds) (s.submitRequest accepted adds).2
      (s.submitRequest accepted adds).1 := by
  unfold Session.submitRequest
  split
  · exact .quiet nofun (untagged_singleton rfl) rfl rfl
  · rename_i hclient
    cases accepted with
    | none => exact .quiet nofun (untagged_singleton rfl) rfl rfl
    | some id =>
        exact .register id true (hfresh id rfl) (untagged_singleton rfl) rfl rfl
          (.inr ⟨rfl, not_not.mp hclient, adds, rfl⟩)

theorem Session.step_moves {s s' : Session} {e : SessionAction} {os : List SessionLabel}
    (h : s.step e = some (s', os)) : s.Moves e os s' := by
  have hstep := h
  obtain ⟨hallows, h⟩ := Session.step_eq_some h
  cases he : e.isLoop with
  | true =>
      obtain ⟨⟨htable, hn⟩, hos⟩ := (Session.step_turns hstep he).sameStreams
      refine .quiet (fun id hid => ?_) (fun l hl => ?_) htable ?_
      · rw [SessionAction.target_of_isLoop he] at hid
        cases hid
      · have := hos l hl
        cases l <;> first | rfl | cases this
      · rw [hn]
        cases e <;> first | rfl | cases he
  | false =>
      cases e with
      | beginHeaders id request =>
          cases h
          cases request with
          | false => exact .quiet nofun untagged_nil rfl rfl
          | true =>
              have hfresh : id ∉ s.nghttp2.opened := by
                simp only [Session.allows, Bool.and_eq_true, Bool.not_true, Bool.false_or,
                  decide_eq_true_eq] at hallows
                exact hallows.2.2
              exact .register id false hfresh untagged_nil rfl rfl (.inl ⟨rfl, rfl⟩)
      | header id name value => exact Session.onHeader_moves h
      | frameRecv id request endStream => exact Session.onFrameRecv_moves h
      | dataChunk id data adds => exact Session.onDataChunkRecv_moves h
      | streamClose id => exact Session.onStreamClose_moves h
      | dataSourceRead a length =>
          rw [show os = [] ++ os ++ [] by simp]
          exact .of_act h rfl rfl (fun c hc => .pull length hc) (by simp) rfl rfl
            untagged_nil untagged_nil
      | teardown =>
          simp only [Session.perform, Session.teardown] at h
          split at h
          · exact .teardown rfl h
          · cases h
      | user a act adds =>
          have huser : act.isUser = true := by
            simp only [Session.allows, Bool.and_eq_true] at hallows
            exact hallows.2
          rw [show os = [] ++ os ++ [] by simp]
          refine .of_act h rfl rfl (fun c hc => .user act adds hc huser) ?_ rfl rfl
            untagged_nil untagged_nil
          rintro rfl
          cases huser
      | submitResponse a accepted adds => exact Session.submitResponse_moves h
      | submitRequest accepted adds =>
          obtain ⟨rfl, rfl⟩ := Prod.ext_iff.mp (Option.some.inj h)
          refine Session.submitRequest_moves fun id hid => ?_
          simp only [Session.allows, hid, Bool.and_eq_true, Option.all_some,
            decide_eq_true_eq] at hallows
          exact hallows.2
      | _ => cases he

/-! ### The teardown -/

/-- `run()` tears a session down once, when both loops have ended. -/
theorem Session.step_teardown {s s' : Session} {os : List SessionLabel}
    (hs : s.step .teardown = some (s', os)) :
    (∃ why, s.sendLoop = .ended why) ∧ s.recvLoop = .ended ∧ s.finished = false ∧
      Session.closeAll { s with streams := ∅, finished := true }
        (s.streams.entries.map Sigma.snd) = some (s', os) := by
  have h := (Session.step_eq_some hs).2
  simp only [Session.perform, Session.teardown] at h
  split at h
  · rename_i hloops
    refine ⟨?_, hloops.2.1, hloops.2.2, h⟩
    cases hsend : s.sendLoop with
    | ended why => exact ⟨why, rfl⟩
    | _ => simp [hsend, SendLoop.isEnded] at hloops
  · cases h

/-- The teardown closes the objects it is given, and does nothing else. -/
theorem Session.closeAll_eq_some {s s' : Session} {as : List ℕ} {os : List SessionLabel}
    (h : s.closeAll as = some (s', os)) :
    s' = { s with cells := s'.cells } ∧
      (∀ a, s'.cells a = none ↔ s.cells a = none) ∧
      ∀ a c', s'.cells a = some c' → ∃ c, s.cells a = some c ∧ c'.stream.id = c.stream.id ∧
        c'.stream.read.readEof = c.stream.read.readEof ∧
        (c.stream.closed = true ∨ a ∈ as → c'.stream.closed = true) ∧ (a ∉ as → c' = c) := by
  induction as generalizing s os with
  | nil =>
      cases h
      exact ⟨rfl, fun _ => Iff.rfl, fun a c' hc' => ⟨c', hc', rfl, rfl, by simp, fun _ => rfl⟩⟩
  | cons b as ih =>
      -- `b` is closed first; the induction hypothesis is about what that leaves
      obtain ⟨⟨s₁, os₁⟩, hact, h⟩ := Option.bind_eq_some_iff.mp h
      obtain ⟨⟨s₂, os₂⟩, hrest, heq⟩ := Option.map_eq_some_iff.mp h
      cases heq
      obtain ⟨c₀, c₁, ls, hc₀, hs, rfl, rfl, -⟩ := Session.act_eq_some hact
      rw [Cell.step_onClose] at hs
      cases hs
      obtain ⟨heq, hnone, hsome⟩ := ih hrest
      refine ⟨heq, fun a => ?_, fun a c' hc' => ?_⟩
      · rw [hnone a]
        by_cases hab : a = b
        · subst hab
          simp [Session.observe, hc₀]
        · simp [Session.observe, Function.update_of_ne hab]
      · obtain ⟨c, hc, hid, heof, hclosed, hsame⟩ := hsome a c' hc'
        by_cases hab : a = b
        · subst hab
          have hcc : c₀.close = c := by simpa [Session.observe] using hc
          subst hcc
          exact ⟨c₀, hc₀, hid, heof, fun _ => hclosed (.inl rfl), fun ha => absurd (by simp) ha⟩
        · have hcc : s.cells a = some c := by
            simpa [Session.observe, Function.update_of_ne hab] using hc
          refine ⟨c, hcc, hid, heof, fun ha => hclosed ?_, fun ha => hsame fun hmem => ha ?_⟩
          · simpa [hab] using ha
          · exact List.mem_cons_of_mem b hmem

/-- The trace shows the closes, and nothing else. -/
theorem Session.closeAll_labels {s s' : Session} {as : List ℕ} {os : List SessionLabel}
    (h : s.closeAll as = some (s', os)) : ∀ l ∈ os, ∃ a ∈ as, l = .stream a .closed := by
  induction as generalizing s os with
  | nil =>
      cases h
      simp
  | cons a as ih =>
      obtain ⟨⟨s₁, os₁⟩, hact, h⟩ := Option.bind_eq_some_iff.mp h
      obtain ⟨⟨s₂, os₂⟩, hrest, heq⟩ := Option.map_eq_some_iff.mp h
      cases heq
      obtain ⟨c, c', ls, hc, hs, rfl, -⟩ := Session.act_eq_some hact
      rw [Cell.step_onClose] at hs
      cases hs
      intro l hl
      rcases List.mem_append.mp hl with hl | hl
      · exact ⟨a, List.mem_cons_self, by simpa using hl⟩
      · obtain ⟨b, hb, heq⟩ := ih hrest l hl
        exact ⟨b, List.mem_cons_of_mem a hb, heq⟩

theorem Session.closeAll_heap {s s' : Session} {may : ℕ → Cell → Action → Prop} {as : List ℕ}
    {os : List SessionLabel} (hmay : ∀ a c, may a c .onClose)
    (h : s.closeAll as = some (s', os)) :
    HeapStep cellMachine SessionLabel.ofStream SessionLabel.stream may s.cells os s'.cells := by
  induction as generalizing s os with
  | nil =>
      cases h
      exact .idle (by simp)
  | cons a as ih =>
      obtain ⟨⟨s₁, os₁⟩, hact, h⟩ := Option.bind_eq_some_iff.mp h
      obtain ⟨⟨s₂, os₂⟩, hrest, heq⟩ := Option.map_eq_some_iff.mp h
      cases heq
      obtain ⟨c, c', ls, hc, hs, rfl, -, output, touched, ev, rfl⟩ := Session.act_eq_some hact
      exact .trans (.act hc (hmay a c) hs) (ih hrest)

/-- All that a step does to the `Stream` objects are actions on them, and the
making of new ones. -/
theorem Session.Moves.heap {s s' : Session} {e : SessionAction} {os : List SessionLabel}
    (hnext : s.cells s.next = none) (h : s.Moves e os s') :
    HeapStep cellMachine SessionLabel.ofStream SessionLabel.stream (s.Does e) s.cells os
      s'.cells := by
  cases h with
  | quiet _ hos htable _ =>
      rw [show s'.cells = s.cells from congrArg Table.cells htable]
      exact .idle hos
  | act hdoes _ hc hs hpre hpost hos htable _ =>
      rw [congrArg Table.cells htable, hos]
      exact .trans (.trans (.idle hpre) (.act hc hdoes hs)) (.idle hpost)
  | register id submitted _ hos htable _ _ =>
      rw [congrArg Table.cells htable]
      exact .trans (.alloc hnext (cellMachine_init id submitted)) (.idle hos)
  | @close id a c he hfind hc hos htable _ =>
      have hstep : cellMachine.step c .onClose = some (c.close, [.closed]) := c.step_onClose
      rw [congrArg Table.cells htable, hos, he]
      exact HeapStep.act hc (Session.Does.close hfind hc) hstep
  | teardown he hclose =>
      subst he
      have hheap := Session.closeAll_heap (fun a c => Session.Does.teardown (s := s) a c) hclose
      exact hheap

/-! ### A stop request is not taken back -/

theorem Session.act_stopped {s s' : Session} {a : ℕ} {act : Action} {adds : ℕ}
    {os : List SessionLabel} (h : s.act a act adds = some (s', os)) : s'.stopped = s.stopped := by
  obtain ⟨c, c', ls, -, -, -, -, output, touched, ev, rfl⟩ := Session.act_eq_some h
  rfl

theorem Session.Turns.stopped {s s' : Session} {e : SessionAction} {os : List SessionLabel}
    (h : s.Turns e os s') (hstopped : s.stopped = true) : s'.stopped = true := by
  cases h with
  | startRecv wants adds =>
      rcases s.recvHead_cases wants adds with ⟨-, heq⟩ | ⟨-, heq⟩
      · rw [heq]
        exact hstopped
      · rw [heq]
        exact hstopped
  | memRecv failed wants adds =>
      rcases s.memRecv_cases failed wants adds with heq | ⟨n, -, -, -, heq, -⟩
      · rw [heq]
        exact hstopped
      · rw [heq]
        exact hstopped
  | stop => rfl
  | _ => exact hstopped

theorem Session.step_stopped {s s' : Session} {e : SessionAction} {os : List SessionLabel}
    (hs : s.step e = some (s', os)) (hstopped : s.stopped = true) : s'.stopped = true := by
  cases he : e.isLoop with
  | true => exact (Session.step_turns hs he).stopped hstopped
  | false =>
      obtain ⟨-, h⟩ := Session.step_eq_some hs
      rw [← hstopped]
      cases e with
      | beginHeaders id request =>
          cases h
          cases request <;> rfl
      | header id name value =>
          simp only [Session.perform, Session.onHeader] at h
          split at h
          · cases h
            rfl
          · exact Session.act_stopped h
      | frameRecv id request endStream =>
          simp only [Session.perform, Session.onFrameRecv] at h
          split at h
          · split at h
            · cases h
              rfl
            · obtain ⟨⟨s₁, os₁⟩, hact, heq⟩ := Option.map_eq_some_iff.mp h
              cases heq
              have hkeep := Session.act_stopped hact
              exact hkeep
          · cases h
            rfl
      | dataChunk id data adds =>
          simp only [Session.perform, Session.onDataChunkRecv] at h
          split at h
          · cases h
            rfl
          · obtain ⟨⟨s₁, os₁⟩, hact, heq⟩ := Option.map_eq_some_iff.mp h
            cases heq
            have hkeep := Session.act_stopped hact
            exact hkeep
      | streamClose id =>
          simp only [Session.perform, Session.onStreamClose, Session.closeStream] at h
          split at h
          · cases h
            rfl
          · obtain ⟨⟨s₁, os₁⟩, hact, heq⟩ := Option.map_eq_some_iff.mp h
            cases heq
            have hkeep := Session.act_stopped hact
            exact hkeep
      | dataSourceRead a length => exact Session.act_stopped h
      | teardown => rw [(Session.closeAll_eq_some (Session.step_teardown hs).2.2.2).1]
      | user a act adds => exact Session.act_stopped h
      | submitResponse a accepted adds =>
          simp only [Session.perform, Session.submitResponse] at h
          split at h
          · obtain ⟨⟨s₁, os₁⟩, hact, heq⟩ := Option.map_eq_some_iff.mp h
            cases heq
            have hkeep := Session.act_stopped hact
            exact hkeep
          · cases h
            rfl
      | submitRequest accepted adds =>
          obtain ⟨rfl, rfl⟩ := Prod.ext_iff.mp (Option.some.inj h)
          unfold Session.submitRequest
          split
          · rfl
          · cases accepted <;> rfl
      | _ => cases he

/-! ### What a step shows

A step that is not one of the loops' shows what arrives, then what it does to
streams, then its result. -/

/-- What is shown before anything that the callback does. -/
def Session.announced (s : Session) : SessionAction → List SessionLabel
  | .dataChunk id data _ => [.chunk id data]
  | .frameRecv id request endStream =>
      .frame id endStream :: (if request then (s.findStream id).toList.map .dispatched else [])
  | _ => []

def Session.concluded (s : Session) : SessionAction → List SessionLabel
  | .submitResponse a accepted _ =>
      [.responseSubmitted a (if accepted then none else some .invalidArgument)]
  | .submitRequest accepted adds => (s.submitRequest accepted adds).2
  | _ => []

def Tagged (os : List SessionLabel) : Prop := ∀ l ∈ os, ∃ a l', l = .stream a l'

theorem Session.act_tagged {s s' : Session} {a : ℕ} {act : Action} {adds : ℕ}
    {os : List SessionLabel} (h : s.act a act adds = some (s', os)) : Tagged os := by
  obtain ⟨c, c', ls, -, -, rfl, -⟩ := Session.act_eq_some h
  intro l hl
  obtain ⟨l', -, rfl⟩ := List.mem_map.mp hl
  exact ⟨a, l', rfl⟩

theorem Session.step_labels {s s' : Session} {e : SessionAction} {os : List SessionLabel}
    (hs : s.step e = some (s', os)) (he : e.isLoop = false) :
    ∃ mid, os = s.announced e ++ mid ++ s.concluded e ∧ Tagged mid := by
  obtain ⟨-, h⟩ := Session.step_eq_some hs
  have hnone : Tagged [] := by simp [Tagged]
  cases e with
  | beginHeaders id request =>
      cases h
      exact ⟨[], rfl, hnone⟩
  | header id name value =>
      simp only [Session.perform, Session.onHeader] at h
      split at h
      · cases h
        exact ⟨[], rfl, hnone⟩
      · exact ⟨os, (List.append_nil os).symm, Session.act_tagged h⟩
  | frameRecv id request endStream =>
      simp only [Session.perform, Session.onFrameRecv] at h
      split at h
      · rename_i hend
        subst hend
        split at h
        · cases h
          exact ⟨[], by simp [Session.announced, Session.concluded], hnone⟩
        · obtain ⟨⟨s₁, os₁⟩, hact, heq⟩ := Option.map_eq_some_iff.mp h
          cases heq
          exact ⟨os₁, (List.append_nil _).symm, Session.act_tagged hact⟩
      · rename_i hend
        rw [Bool.not_eq_true] at hend
        subst hend
        cases h
        exact ⟨[], by simp [Session.announced, Session.concluded], hnone⟩
  | dataChunk id data adds =>
      simp only [Session.perform, Session.onDataChunkRecv] at h
      split at h
      · cases h
        exact ⟨[], rfl, hnone⟩
      · obtain ⟨⟨s₁, os₁⟩, hact, heq⟩ := Option.map_eq_some_iff.mp h
        cases heq
        exact ⟨os₁, (List.append_nil _).symm, Session.act_tagged hact⟩
  | streamClose id =>
      simp only [Session.perform, Session.onStreamClose, Session.closeStream] at h
      split at h
      · cases h
        exact ⟨[], rfl, hnone⟩
      · obtain ⟨⟨s₁, os₁⟩, hact, heq⟩ := Option.map_eq_some_iff.mp h
        cases heq
        exact ⟨os₁, (List.append_nil _).symm, Session.act_tagged hact⟩
  | dataSourceRead a length => exact ⟨os, (List.append_nil os).symm, Session.act_tagged h⟩
  | teardown =>
      refine ⟨os, (List.append_nil os).symm, fun l hl => ?_⟩
      obtain ⟨a, -, heq⟩ := Session.closeAll_labels (Session.step_teardown hs).2.2.2 l hl
      exact ⟨a, .closed, heq⟩
  | user a act adds => exact ⟨os, (List.append_nil os).symm, Session.act_tagged h⟩
  | submitResponse a accepted adds =>
      cases accepted with
      | false =>
          cases h
          exact ⟨[], rfl, hnone⟩
      | true =>
          obtain ⟨⟨s₁, os₁⟩, hact, heq⟩ := Option.map_eq_some_iff.mp h
          cases heq
          exact ⟨os₁, rfl, Session.act_tagged hact⟩
  | submitRequest accepted adds =>
      obtain ⟨rfl, rfl⟩ := Prod.ext_iff.mp (Option.some.inj h)
      exact ⟨[], rfl, hnone⟩
  | _ => cases he

theorem Session.mem_submitRequest {s : Session} {accepted : Option ℤ} {adds : ℕ}
    {l : SessionLabel} (h : l ∈ (s.submitRequest accepted adds).2) :
    ∃ ec a, l = .requestSubmitted ec a := by
  unfold Session.submitRequest at h
  split at h
  · exact ⟨_, _, List.mem_singleton.mp h⟩
  · cases accepted <;> exact ⟨_, _, List.mem_singleton.mp h⟩

/-! A DATA chunk and a HEADERS or DATA frame are shown once, and first. -/

def SessionLabel.isArrival : SessionLabel → Bool
  | .chunk _ _ | .frame _ _ => true
  | _ => false

def SessionAction.arrivals : SessionAction → List SessionLabel
  | .dataChunk id data _ => [.chunk id data]
  | .frameRecv id _ endStream => [.frame id endStream]
  | _ => []

theorem Session.announced_arrivals (s : Session) (e : SessionAction) :
    ∃ rest, s.announced e = e.arrivals ++ rest ∧ ∀ l ∈ rest, l.isArrival = false := by
  cases e with
  | frameRecv id request endStream =>
      cases request with
      | false => exact ⟨[], rfl, by simp⟩
      | true =>
          refine ⟨(s.findStream id).toList.map .dispatched, rfl, fun l hl => ?_⟩
          obtain ⟨a, -, rfl⟩ := List.mem_map.mp hl
          rfl
  | _ => exact ⟨[], rfl, by simp⟩

theorem Session.concluded_arrivals (s : Session) (e : SessionAction) :
    ∀ l ∈ s.concluded e, l.isArrival = false := by
  intro l hl
  cases e with
  | submitResponse a accepted adds =>
      rw [List.mem_singleton.mp hl]
      rfl
  | submitRequest accepted adds =>
      obtain ⟨ec, a, rfl⟩ := Session.mem_submitRequest hl
      rfl
  | _ => cases hl

theorem Session.step_arrivals {s s' : Session} {e : SessionAction} {os : List SessionLabel}
    (hs : s.step e = some (s', os)) :
    ∃ rest, os = e.arrivals ++ rest ∧ ∀ l ∈ rest, l.isArrival = false := by
  cases he : e.isLoop with
  | true =>
      refine ⟨os, ?_, fun l hl => ?_⟩
      · cases e <;> first | rfl | cases he
      · have hloop := (Session.step_turns hs he).sameStreams.2 l hl
        cases l <;> first | rfl | cases hloop
  | false =>
      obtain ⟨mid, rfl, hmid⟩ := Session.step_labels hs he
      obtain ⟨rest, hrest, hquiet⟩ := s.announced_arrivals e
      refine ⟨rest ++ mid ++ s.concluded e, by simp [hrest], fun l hl => ?_⟩
      rcases List.mem_append.mp hl with hl | hl
      · rcases List.mem_append.mp hl with hl | hl
        · exact hquiet l hl
        · obtain ⟨a, l', rfl⟩ := hmid l hl
          rfl
      · exact s.concluded_arrivals e l hl

/-- A request is dispatched when its HEADERS frame is complete, while nghttp2 is
in `nghttp2_session_mem_recv2`. -/
theorem Session.step_dispatched {s s' : Session} {e : SessionAction} {os : List SessionLabel}
    (hs : s.step e = some (s', os)) {a : ℕ} (hmem : .dispatched a ∈ os) :
    s.receiving = true ∧ ∃ id endStream, e = .frameRecv id true endStream ∧
      s.findStream id = some a := by
  have hallows := (Session.step_eq_some hs).1
  cases he : e.isLoop with
  | true => cases (Session.step_turns hs he).sameStreams.2 _ hmem
  | false =>
      obtain ⟨mid, rfl, hmid⟩ := Session.step_labels hs he
      rcases List.mem_append.mp hmem with hmem | hmem
      · rcases List.mem_append.mp hmem with hmem | hmem
        · cases e with
          | frameRecv id request endStream =>
              simp only [Session.allows, Bool.and_eq_true] at hallows
              cases request with
              | false => simp [Session.announced] at hmem
              | true =>
                  have hfind : s.findStream id = some a := by
                    simpa [Session.announced] using hmem
                  exact ⟨hallows.1, id, endStream, rfl, hfind⟩
          | _ => simp [Session.announced] at hmem
        · obtain ⟨b, l, heq⟩ := hmid _ hmem
          cases heq
      · cases e with
        | submitRequest accepted adds =>
            obtain ⟨ec, b, heq⟩ := Session.mem_submitRequest hmem
            cases heq
        | _ => simp [Session.concluded] at hmem

end Nghttp2Corosio
