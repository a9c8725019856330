import Nghttp2Corosio.Session.Registry

/-!
Streams do not see each other.

All streams of a session go through one registry, by their ids, and through one
heap. `streams_isolated` compares two runs: any run of a session, and the one that
is left of it when every step is deleted that belongs to another stream than the
one looked at. In the second run the same `Stream` object comes to be, except that
it is the first object made, and the same operations on it return the same
results.

What is left of a run need not be a run of the two loops, since `send_loop` may
have been woken by another stream. So the second run is one of `callbackMachine`,
which is the session without the question who has the processor: the callbacks of
nghttp2 and the operations of users come in any order that nghttp2's own account
of its streams admits.
-/

namespace Nghttp2Corosio

open Async Buffers Runs

/-- The part of `Session.allows` that is about nghttp2's account of its streams. -/
def Session.admits (s : Session) : SessionAction → Bool
  | .beginHeaders id request => !request || decide (s.role = .server ∧ id ∉ s.nghttp2.opened)
  | .frameRecv id _ _ | .dataChunk id _ _ =>
      decide (id ∈ s.nghttp2.opened ∧ id ∉ s.nghttp2.ended)
  | .dataSourceRead a _ => (s.cells a).all fun c => decide (c.stream.id ∉ s.nghttp2.closed)
  | .user _ act _ => act.isUser
  | .submitRequest accepted _ => accepted.all fun id => decide (id ∉ s.nghttp2.opened)
  | .header _ _ _ | .streamClose _ | .submitResponse _ _ _ | .teardown => true
  -- the loops are not callbacks
  | _ => false

/-- The teardown, without looking at the loops. -/
def Session.discard (s : Session) : Option (Session × List SessionLabel) :=
  Session.closeAll { s with streams := ∅, finished := true } (s.streams.entries.map Sigma.snd)

def Session.callback (s : Session) : SessionAction → Option (Session × List SessionLabel)
  | .teardown => s.discard
  | e => s.perform e

/-- The callbacks and operations of a session, whoever has the processor. -/
def callbackMachine : Machine Session SessionAction SessionLabel where
  init s := ∃ role, s = Session.fresh role
  step s e := if s.admits e then s.callback e else none

/-! ### What belongs to a stream -/

/-- The steps that belong to the stream with the id `k`, whose object is at
`a`. -/
def SessionAction.belongs (k : ℤ) (a : ℕ) : SessionAction → Bool
  | .beginHeaders id _ | .header id _ _ | .frameRecv id _ _ | .dataChunk id _ _
  | .streamClose id => decide (id = k)
  | .dataSourceRead b _ | .user b _ _ | .submitResponse b _ _ => decide (b = a)
  | .submitRequest accepted _ => decide (accepted = some k)
  -- a session that is torn down closes all its streams
  | .teardown => true
  | _ => false

/-- The step, when the object of its stream is the first one. -/
def SessionAction.relocate : SessionAction → SessionAction
  | .dataSourceRead _ length => .dataSourceRead 0 length
  | .user _ act adds => .user 0 act adds
  | .submitResponse _ accepted adds => .submitResponse 0 accepted adds
  | e => e

/-- What is left of a run when the steps of all other streams are deleted. -/
def restrict (k : ℤ) (a : ℕ) (as : List SessionAction) : List SessionAction :=
  (as.filter (SessionAction.belongs k a)).map SessionAction.relocate

/-- What a label says about the stream. -/
def SessionLabel.about (k : ℤ) (a : ℕ) : SessionLabel → Option SessionLabel
  | .stream b l => if b = a then some (.stream 0 l) else none
  | .chunk id data => if id = k then some (.chunk id data) else none
  | .frame id endStream => if id = k then some (.frame id endStream) else none
  | .dispatched b => if b = a then some (.dispatched 0) else none
  | .responseSubmitted b ec => if b = a then some (.responseSubmitted 0 ec) else none
  | .requestSubmitted ec b => if b = some a then some (.requestSubmitted ec (some 0)) else none
  | _ => none

/-- What a trace says about the stream. -/
def view (k : ℤ) (a : ℕ) (tr : List SessionLabel) : List SessionLabel :=
  tr.filterMap (SessionLabel.about k a)

@[simp] theorem view_append (k : ℤ) (a : ℕ) (tr os : List SessionLabel) :
    view k a (tr ++ os) = view k a tr ++ view k a os := by
  simp [view]

@[simp] theorem view_nil (k : ℤ) (a : ℕ) : view k a [] = [] := rfl

theorem view_cons (k : ℤ) (a : ℕ) (l : SessionLabel) (os : List SessionLabel) :
    view k a (l :: os) = (l.about k a).toList ++ view k a os := by
  cases hl : l.about k a <;> simp [view, hl]

theorem view_stream (k : ℤ) (a : ℕ) (ls : List Label) :
    view k a (ls.map (.stream a)) = ls.map (.stream 0) := by
  simp [view, List.filterMap_map, SessionLabel.about, Function.comp_def]

theorem view_stream_of_ne (k : ℤ) {a b : ℕ} (h : b ≠ a) (ls : List Label) :
    view k a (ls.map (.stream b)) = [] := by
  simp [view, SessionLabel.about, h]

theorem view_loop (k : ℤ) (a : ℕ) {os : List SessionLabel} (h : ∀ l ∈ os, l.isLoop = true) :
    view k a os = [] := by
  refine List.filterMap_eq_nil_iff.mpr fun l hl => ?_
  have hloop := h l hl
  cases l <;> first | rfl | cases hloop

/-! ### Two sessions with the same stream -/

/-- The session `t` has the stream with the id `k` of `s`, has it first, and has
no other. -/
structure Mirrors (k : ℤ) (a : ℕ) (s t : Session) : Prop where
  role : t.role = s.role
  opened : k ∈ t.nghttp2.opened ↔ k ∈ s.nghttp2.opened
  ended : k ∈ t.nghttp2.ended ↔ k ∈ s.nghttp2.ended
  closed : k ∈ t.nghttp2.closed ↔ k ∈ s.nghttp2.closed
  cell : t.cells 0 = s.cells a
  next : s.cells a = none → t.next = 0
  lookup : t.streams.lookup k = (s.streams.lookup k).map fun _ => 0
  only : ∀ id ∈ t.streams, id = k

theorem mirrors_fresh (k : ℤ) (a : ℕ) (role : Role) :
    Mirrors k a (Session.fresh role) (Session.fresh role) :=
  ⟨rfl, .rfl, .rfl, .rfl, rfl, fun _ => rfl, rfl, nofun⟩

/-- The object with the id `k` is the one at `a`. -/
def Session.Places (k : ℤ) (a : ℕ) (s : Session) : Prop :=
  ∀ b c, s.cells b = some c → (c.stream.id = k ↔ b = a)

section Steps

variable {k : ℤ} {a : ℕ} {s s' t : Session} {os : List SessionLabel}

theorem Mirrors.note_other (h : Mirrors k a s t) (hrole : s'.role = s.role)
    (htable : s'.toTable = s.toTable)
    (hopened : k ∈ s'.nghttp2.opened ↔ k ∈ s.nghttp2.opened)
    (hended : k ∈ s'.nghttp2.ended ↔ k ∈ s.nghttp2.ended)
    (hclosed : k ∈ s'.nghttp2.closed ↔ k ∈ s.nghttp2.closed) : Mirrors k a s' t := by
  refine ⟨h.role.trans hrole.symm, h.opened.trans hopened.symm, h.ended.trans hended.symm,
    h.closed.trans hclosed.symm, ?_, ?_, ?_, h.only⟩
  · rw [htable]
    exact h.cell
  · rw [htable]
    exact h.next
  · rw [htable]
    exact h.lookup

/-- The id `k` is registered for both, for the mirrored object, or for neither. -/
theorem Mirrors.find (h : Mirrors k a s t) (hinv : s.toTable.Inv s.nghttp2.toNghttp2Streams)
    (hplaces : s.Places k a) :
    (s.findStream k = none ∧ t.findStream k = none) ∨
      s.findStream k = some a ∧ t.findStream k = some 0 := by
  have hlookup := h.lookup
  cases hfind : s.streams.lookup k with
  | none => exact .inl ⟨hfind, by rw [Session.findStream, hlookup, hfind, Option.map_none]⟩
  | some b =>
      obtain ⟨c, hc, hid⟩ := hinv.entry k b hfind
      obtain rfl := (hplaces b c hc).mp hid
      exact .inr ⟨hfind, by rw [Session.findStream, hlookup, hfind, Option.map_some]⟩

theorem Session.Places.find_ne (hplaces : s.Places k a)
    (hinv : s.toTable.Inv s.nghttp2.toNghttp2Streams) {id : ℤ} (hid : id ≠ k) {b : ℕ}
    (hfind : s.findStream id = some b) : b ≠ a := by
  obtain ⟨c, hc, hcid⟩ := hinv.entry id b hfind
  exact fun hb => hid (hcid.symm.trans ((hplaces b c hc).mpr hb))

theorem Mirrors.act_other (h : Mirrors k a s t) {b : ℕ} (hb : b ≠ a) {act : Action} {adds : ℕ}
    (hact : s.act b act adds = some (s', os)) : Mirrors k a s' t ∧ view k a os = [] := by
  obtain ⟨c, c', ls, -, -, rfl, -, output, touched, ev, rfl⟩ := Session.act_eq_some hact
  have hcell : Function.update s.cells b (some c') a = s.cells a :=
    Function.update_of_ne (Ne.symm hb) ..
  refine ⟨⟨h.role, h.opened, h.ended, h.closed, h.cell.trans hcell.symm, fun hnone => ?_,
    h.lookup, h.only⟩, view_stream_of_ne k hb ls⟩
  exact h.next (hcell.symm.trans hnone)

theorem Mirrors.act_own (h : Mirrors k a s t) {act : Action} {adds : ℕ}
    (hact : s.act a act adds = some (s', os)) :
    ∃ t' os', t.act 0 act adds = some (t', os') ∧ Mirrors k a s' t' ∧
      view k 0 os' = view k a os := by
  obtain ⟨c, c', ls, hc, hs, rfl, -, output, touched, ev, rfl⟩ := Session.act_eq_some hact
  obtain ⟨t', hact'⟩ := Session.act_of_step (h.cell.trans hc) hs adds
  obtain ⟨d, d', ls', hd, hs', hos, -, output', touched', ev', rfl⟩ := Session.act_eq_some hact'
  obtain rfl : c = d := by simpa [h.cell, hc] using hd
  rw [hs, Option.some.injEq, Prod.mk.injEq] at hs'
  obtain ⟨rfl, rfl⟩ := hs'
  refine ⟨_, _, hact', ⟨h.role, h.opened, h.ended, h.closed, ?_, ?_, h.lookup, h.only⟩, ?_⟩
  · dsimp only
    rw [Function.update_self, Function.update_self]
  · intro hnone
    dsimp only at hnone
    rw [Function.update_self] at hnone
    cases hnone
  · rw [view_stream, view_stream]

theorem Registry.lookup_emplace {r : Registry} {id : ℤ} (h : id ∉ r) (b : ℕ) :
    (r.emplace id b).lookup id = some b := by
  rw [Registry.emplace, if_neg h, AList.lookup_insert]

theorem Registry.lookup_emplace_ne {r : Registry} {id id' : ℤ} (h : id' ≠ id) (b : ℕ) :
    (r.emplace id b).lookup id' = r.lookup id' := by
  unfold Registry.emplace
  split
  · rfl
  · exact AList.lookup_insert_ne h

theorem Registry.mem_emplace {r : Registry} {id id' : ℤ} {b : ℕ} (h : id' ∈ r.emplace id b) :
    id' = id ∨ id' ∈ r := by
  unfold Registry.emplace at h
  split at h
  · exact .inr h
  · exact (AList.mem_insert _).mp h

theorem Mirrors.register_other (h : Mirrors k a s t) {id : ℤ} (hid : id ≠ k) (hnext : s.next ≠ a)
    (submitted : Bool) : Mirrors k a (s.register id submitted) t := by
  have hcell : (s.register id submitted).cells a = s.cells a :=
    Function.update_of_ne (Ne.symm hnext) ..
  refine ⟨h.role, ?_, h.ended, h.closed, h.cell.trans hcell.symm, fun hnone => ?_, ?_, h.only⟩
  · rw [h.opened]
    exact ⟨List.mem_cons_of_mem id, fun hmem => List.mem_of_ne_of_mem (Ne.symm hid) hmem⟩
  · exact h.next (hcell.symm.trans hnone)
  · exact h.lookup.trans (by rw [← Registry.lookup_emplace_ne (Ne.symm hid) s.next]; rfl)

theorem Mirrors.register_own (h : Mirrors k a s t)
    (hinv : s.toTable.Inv s.nghttp2.toNghttp2Streams) (hfresh : k ∉ s.nghttp2.opened)
    (hnext : s.next = a) (submitted : Bool) :
    t.next = 0 ∧ Mirrors k a (s.register k submitted) (t.register k submitted) := by
  have hnone : s.streams.lookup k = none := AList.lookup_eq_none.mpr (hinv.not_mem hfresh)
  have hnone' : k ∉ t.streams := by
    rw [← AList.lookup_eq_none, h.lookup, hnone, Option.map_none]
  have hzero : t.next = 0 := h.next (hinv.unused a hnext.le)
  subst hnext
  refine ⟨hzero, h.role, ?_, h.ended, h.closed, ?_, ?_, ?_, ?_⟩
  · exact ⟨fun _ => List.mem_cons_self, fun _ => List.mem_cons_self⟩
  · simp [Session.register, hzero]
  · simp [Session.register]
  · simp only [Session.register, hzero]
    rw [Registry.lookup_emplace hnone', Registry.lookup_emplace (hinv.not_mem hfresh),
      Option.map_some]
  · intro id hmem
    exact (Registry.mem_emplace hmem).elim (fun heq => heq) (h.only id)

/-! ### Steps of other streams -/

theorem Session.Turns.role {e : SessionAction} (h : s.Turns e os s') : s'.role = s.role := by
  cases h with
  | startRecv wants adds =>
      rcases s.recvHead_cases wants adds with ⟨-, heq⟩ | ⟨-, heq⟩ <;> rw [heq]
  | memRecv failed wants adds =>
      rcases s.memRecv_cases failed wants adds with heq | ⟨n, -, -, -, heq, -⟩ <;> rw [heq]
  | _ => rfl

theorem view_dispatched_of_ne (request : Bool) {found : Option ℕ}
    (h : ∀ b, found = some b → b ≠ a) :
    view k a (if request then found.toList.map .dispatched else []) = [] := by
  cases request with
  | false => rfl
  | true =>
      cases found with
      | none => rfl
      | some b => simp [view, SessionLabel.about, h b rfl]

theorem mem_cons_iff_of_ne {id : ℤ} (h : id ≠ k) (ids : List ℤ) : k ∈ id :: ids ↔ k ∈ ids := by
  simp [Ne.symm h]

theorem Mirrors.beginHeaders_other (h : Mirrors k a s t) {id : ℤ} (hid : id ≠ k) {request : Bool}
    (hplaces : (s.onBeginHeaders id request).Places k a) :
    Mirrors k a (s.onBeginHeaders id request) t := by
  cases request with
  | false => exact h.note_other rfl rfl (by simp [Session.onBeginHeaders, Ne.symm hid]) .rfl .rfl
  | true =>
      have hnext : s.next ≠ a := fun ha =>
        hid ((hplaces s.next _ (Function.update_self ..)).mpr ha)
      exact (h.register_other hid hnext false).note_other rfl rfl .rfl .rfl .rfl

theorem Mirrors.header_other (h : Mirrors k a s t)
    (hinv : s.toTable.Inv s.nghttp2.toNghttp2Streams) (hplaces : s.Places k a) {id : ℤ}
    (hid : id ≠ k) {name value : Bytes} (hs : s.onHeader id name value = some (s', os)) :
    Mirrors k a s' t ∧ view k a os = [] := by
  unfold Session.onHeader at hs
  split at hs
  · cases hs
    exact ⟨h, rfl⟩
  · rename_i b hfind
    exact h.act_other (hplaces.find_ne hinv hid hfind) hs

theorem Mirrors.frameRecv_other (h : Mirrors k a s t)
    (hinv : s.toTable.Inv s.nghttp2.toNghttp2Streams) (hplaces : s.Places k a) {id : ℤ}
    (hid : id ≠ k) {request endStream : Bool}
    (hs : s.onFrameRecv id request endStream = some (s', os)) :
    Mirrors k a s' t ∧ view k a os = [] := by
  have hdispatched := view_dispatched_of_ne (k := k) request
    fun b hfind => hplaces.find_ne hinv hid hfind
  have hnoted : Mirrors k a
      { s with nghttp2 := { s.nghttp2 with ended := id :: s.nghttp2.ended } } t :=
    h.note_other rfl rfl .rfl (mem_cons_iff_of_ne hid _) .rfl
  unfold Session.onFrameRecv at hs
  cases endStream with
  | false =>
      cases hs
      refine ⟨h, ?_⟩
      rw [view_cons, hdispatched]
      simp [SessionLabel.about, hid]
  | true =>
      simp only [if_true] at hs
      split at hs
      · cases hs
        refine ⟨hnoted, ?_⟩
        rw [view_cons, hdispatched]
        simp [SessionLabel.about, hid]
      · rename_i b hfind
        obtain ⟨⟨s₁, os₁⟩, hact, heq⟩ := Option.map_eq_some_iff.mp hs
        cases heq
        obtain ⟨hmirrors, hview⟩ := hnoted.act_other (hplaces.find_ne hinv hid hfind) hact
        refine ⟨hmirrors, ?_⟩
        rw [List.cons_append, view_cons, view_append, hdispatched, hview]
        simp [SessionLabel.about, hid]

theorem Mirrors.dataChunk_other (h : Mirrors k a s t)
    (hinv : s.toTable.Inv s.nghttp2.toNghttp2Streams) (hplaces : s.Places k a) {id : ℤ}
    (hid : id ≠ k) {data : Bytes} {adds : ℕ}
    (hs : s.onDataChunkRecv id data adds = some (s', os)) :
    Mirrors k a s' t ∧ view k a os = [] := by
  have hnoted : Mirrors k a
      { s with
        nghttp2 := (s.nghttp2.receive id data.length).consumeConnection data.length adds } t :=
    h.note_other rfl rfl .rfl .rfl .rfl
  unfold Session.onDataChunkRecv at hs
  dsimp only at hs
  split at hs
  · cases hs
    exact ⟨hnoted, by simp [view_cons, SessionLabel.about, hid]⟩
  · rename_i b hfind
    obtain ⟨⟨s₁, os₁⟩, hact, heq⟩ := Option.map_eq_some_iff.mp hs
    cases heq
    obtain ⟨hmirrors, hview⟩ := hnoted.act_other (hplaces.find_ne hinv hid hfind) hact
    exact ⟨hmirrors, by simp [view_cons, SessionLabel.about, hid, hview]⟩

theorem Mirrors.streamClose_other (h : Mirrors k a s t)
    (hinv : s.toTable.Inv s.nghttp2.toNghttp2Streams) (hplaces : s.Places k a) {id : ℤ}
    (hid : id ≠ k) (hs : s.onStreamClose id = some (s', os)) :
    Mirrors k a s' t ∧ view k a os = [] := by
  have hnoted : Mirrors k a
      { s with nghttp2 := { s.nghttp2 with closed := id :: s.nghttp2.closed } } t :=
    h.note_other rfl rfl .rfl .rfl (mem_cons_iff_of_ne hid _)
  unfold Session.onStreamClose Session.closeStream at hs
  split at hs
  · cases hs
    exact ⟨hnoted, rfl⟩
  · rename_i b hfind
    obtain ⟨⟨s₁, os₁⟩, hact, heq⟩ := Option.map_eq_some_iff.mp hs
    cases heq
    obtain ⟨hm, hview⟩ := hnoted.act_other (hplaces.find_ne hinv hid hfind) hact
    refine ⟨⟨hm.role, hm.opened, hm.ended, hm.closed, hm.cell, hm.next, ?_, hm.only⟩, hview⟩
    dsimp only
    rw [AList.lookup_erase_ne (Ne.symm hid)]
    exact hm.lookup

theorem Mirrors.submitResponse_other (h : Mirrors k a s t) {b : ℕ} (hb : b ≠ a)
    {accepted : Bool} {adds : ℕ} (hs : s.submitResponse b accepted adds = some (s', os)) :
    Mirrors k a s' t ∧ view k a os = [] := by
  cases accepted with
  | false =>
      cases hs
      exact ⟨h, by simp [view_cons, SessionLabel.about, hb]⟩
  | true =>
      obtain ⟨⟨s₁, os₁⟩, hact, heq⟩ := Option.map_eq_some_iff.mp hs
      cases heq
      obtain ⟨hm, hview⟩ := h.act_other hb hact
      refine ⟨hm.note_other rfl rfl .rfl .rfl .rfl, ?_⟩
      rw [view_append, hview]
      simp [view_cons, SessionLabel.about, hb]

theorem Mirrors.submitRequest_other (h : Mirrors k a s t) {accepted : Option ℤ}
    (hid : accepted ≠ some k) {adds : ℕ} (hplaces : (s.submitRequest accepted adds).1.Places k a) :
    Mirrors k a (s.submitRequest accepted adds).1 t ∧
      view k a (s.submitRequest accepted adds).2 = [] := by
  unfold Session.submitRequest at hplaces ⊢
  by_cases hrole : s.role ≠ .client
  · rw [if_pos hrole]
    exact ⟨h, rfl⟩
  · rw [if_neg hrole] at hplaces ⊢
    cases accepted with
    | none => exact ⟨h, rfl⟩
    | some id =>
        have hid' : id ≠ k := fun heq => hid (by rw [heq])
        have hnext : s.next ≠ a := fun ha =>
          hid' ((hplaces s.next _ (Function.update_self ..)).mpr ha)
        refine ⟨?_, by simp [view_cons, SessionLabel.about, hnext]⟩
        exact (h.register_other hid' hnext true).note_other rfl rfl .rfl .rfl .rfl

/-- A step of another stream, or of a loop, leaves the stream alone. -/
theorem Mirrors.step_other (h : Mirrors k a s t)
    (hinv : s.toTable.Inv s.nghttp2.toNghttp2Streams) (hplaces : s.Places k a)
    (hplaces' : s'.Places k a) {e : SessionAction} (hs : s.step e = some (s', os))
    (hother : e.belongs k a = false) : Mirrors k a s' t ∧ view k a os = [] := by
  cases hloop : e.isLoop with
  | true =>
      have hturns := Session.step_turns hs hloop
      obtain ⟨⟨htable, hn⟩, hos⟩ := hturns.sameStreams
      refine ⟨h.note_other hturns.role htable ?_ ?_ ?_, view_loop k a hos⟩ <;> rw [hn]
  | false =>
      have hperform := (Session.step_eq_some hs).2
      cases e with
      | beginHeaders id request =>
          cases hperform
          exact ⟨h.beginHeaders_other (of_decide_eq_false hother) hplaces', rfl⟩
      | header id name value =>
          exact h.header_other hinv hplaces (of_decide_eq_false hother) hperform
      | frameRecv id request endStream =>
          exact h.frameRecv_other hinv hplaces (of_decide_eq_false hother) hperform
      | dataChunk id data adds =>
          exact h.dataChunk_other hinv hplaces (of_decide_eq_false hother) hperform
      | streamClose id =>
          exact h.streamClose_other hinv hplaces (of_decide_eq_false hother) hperform
      | dataSourceRead b length => exact h.act_other (of_decide_eq_false hother) hperform
      | user b act adds => exact h.act_other (of_decide_eq_false hother) hperform
      | submitResponse b accepted adds =>
          exact h.submitResponse_other (of_decide_eq_false hother) hperform
      | submitRequest accepted adds =>
          obtain ⟨rfl, rfl⟩ := Prod.ext_iff.mp (Option.some.inj hperform)
          exact h.submitRequest_other (of_decide_eq_false hother) hplaces'
      | teardown => cases hother
      | _ => cases hloop

/-! ### Steps of the stream itself -/

theorem view_dispatched (request : Bool) {found found' : Option ℕ}
    (h : (found = none ∧ found' = none) ∨ found = some a ∧ found' = some 0) :
    view k 0 (if request then found'.toList.map .dispatched else []) =
      view k a (if request then found.toList.map .dispatched else []) := by
  cases request with
  | false => rfl
  | true =>
      rcases h with ⟨rfl, rfl⟩ | ⟨rfl, rfl⟩
      · rfl
      · simp [view, SessionLabel.about]

theorem Mirrors.beginHeaders_own (h : Mirrors k a s t)
    (hinv : s.toTable.Inv s.nghttp2.toNghttp2Streams) {request : Bool}
    (hfresh : request = true → k ∉ s.nghttp2.opened)
    (hplaces : (s.onBeginHeaders k request).Places k a) :
    Mirrors k a (s.onBeginHeaders k request) (t.onBeginHeaders k request) := by
  cases request with
  | false =>
      exact ⟨h.role, by simp [Session.onBeginHeaders], h.ended, h.closed, h.cell, h.next,
        h.lookup, h.only⟩
  | true =>
      have hnext : s.next = a := (hplaces s.next _ (Function.update_self ..)).mp rfl
      have hm := (h.register_own hinv (hfresh rfl) hnext false).2
      exact ⟨hm.role, hm.opened, hm.ended, hm.closed, hm.cell, hm.next, hm.lookup, hm.only⟩

theorem Mirrors.header_own (h : Mirrors k a s t)
    (hinv : s.toTable.Inv s.nghttp2.toNghttp2Streams) (hplaces : s.Places k a)
    {name value : Bytes} (hs : s.onHeader k name value = some (s', os)) :
    ∃ t' os', t.onHeader k name value = some (t', os') ∧ Mirrors k a s' t' ∧
      view k 0 os' = view k a os := by
  unfold Session.onHeader at hs ⊢
  rcases h.find hinv hplaces with ⟨hfind, hfind'⟩ | ⟨hfind, hfind'⟩
  · rw [hfind] at hs
    cases hs
    exact ⟨t, [], by rw [hfind'], h, rfl⟩
  · rw [hfind] at hs
    rw [hfind']
    exact h.act_own hs

theorem Mirrors.frameRecv_own (h : Mirrors k a s t)
    (hinv : s.toTable.Inv s.nghttp2.toNghttp2Streams) (hplaces : s.Places k a)
    {request endStream : Bool} (hs : s.onFrameRecv k request endStream = some (s', os)) :
    ∃ t' os', t.onFrameRecv k request endStream = some (t', os') ∧ Mirrors k a s' t' ∧
      view k 0 os' = view k a os := by
  have hfound := h.find hinv hplaces
  have hdispatched := view_dispatched (k := k) request hfound
  have hnoted : Mirrors k a
      { s with nghttp2 := { s.nghttp2 with ended := k :: s.nghttp2.ended } }
      { t with nghttp2 := { t.nghttp2 with ended := k :: t.nghttp2.ended } } :=
    ⟨h.role, h.opened, by simp, h.closed, h.cell, h.next, h.lookup, h.only⟩
  unfold Session.onFrameRecv at hs ⊢
  cases endStream with
  | false =>
      cases hs
      refine ⟨t, _, rfl, h, ?_⟩
      rw [view_cons, view_cons, hdispatched]
      rfl
  | true =>
      simp only [if_true] at hs ⊢
      simp only [Session.findStream] at hs hdispatched hfound ⊢
      rcases hfound with ⟨hfind, hfind'⟩ | ⟨hfind, hfind'⟩
      · rw [hfind] at hs hdispatched
        rw [hfind'] at hdispatched ⊢
        cases hs
        refine ⟨_, _, rfl, hnoted, ?_⟩
        rw [view_cons, view_cons, hdispatched]
        rfl
      · rw [hfind] at hs hdispatched
        rw [hfind'] at hdispatched ⊢
        obtain ⟨⟨s₁, os₁⟩, hact, heq⟩ := Option.map_eq_some_iff.mp hs
        cases heq
        obtain ⟨t', os', hact', hm, hview⟩ := hnoted.act_own hact
        refine ⟨t', _, Option.map_eq_some_iff.mpr ⟨_, hact', rfl⟩, hm, ?_⟩
        rw [List.cons_append, List.cons_append, view_cons, view_cons, view_append, view_append,
          hdispatched, hview]
        rfl

theorem Mirrors.dataChunk_own (h : Mirrors k a s t)
    (hinv : s.toTable.Inv s.nghttp2.toNghttp2Streams) (hplaces : s.Places k a) {data : Bytes}
    {adds : ℕ} (hs : s.onDataChunkRecv k data adds = some (s', os)) :
    ∃ t' os', t.onDataChunkRecv k data adds = some (t', os') ∧ Mirrors k a s' t' ∧
      view k 0 os' = view k a os := by
  have hnoted : Mirrors k a
      { s with
        nghttp2 := (s.nghttp2.receive k data.length).consumeConnection data.length adds }
      { t with
        nghttp2 := (t.nghttp2.receive k data.length).consumeConnection data.length adds } :=
    ⟨h.role, h.opened, h.ended, h.closed, h.cell, h.next, h.lookup, h.only⟩
  have hfound := h.find hinv hplaces
  simp only [Session.onDataChunkRecv, Session.findStream] at hs hfound ⊢
  rcases hfound with ⟨hfind, hfind'⟩ | ⟨hfind, hfind'⟩
  · rw [hfind] at hs
    rw [hfind']
    cases hs
    exact ⟨_, _, rfl, hnoted, rfl⟩
  · rw [hfind] at hs
    rw [hfind']
    obtain ⟨⟨s₁, os₁⟩, hact, heq⟩ := Option.map_eq_some_iff.mp hs
    cases heq
    obtain ⟨t', os', hact', hm, hview⟩ := hnoted.act_own hact
    refine ⟨t', _, Option.map_eq_some_iff.mpr ⟨_, hact', rfl⟩, hm, ?_⟩
    rw [view_cons, view_cons, hview]
    rfl

theorem Mirrors.streamClose_own (h : Mirrors k a s t)
    (hinv : s.toTable.Inv s.nghttp2.toNghttp2Streams) (hplaces : s.Places k a)
    (hs : s.onStreamClose k = some (s', os)) :
    ∃ t' os', t.onStreamClose k = some (t', os') ∧ Mirrors k a s' t' ∧
      view k 0 os' = view k a os := by
  have hnoted : Mirrors k a
      { s with nghttp2 := { s.nghttp2 with closed := k :: s.nghttp2.closed } }
      { t with nghttp2 := { t.nghttp2 with closed := k :: t.nghttp2.closed } } :=
    ⟨h.role, h.opened, h.ended, by simp, h.cell, h.next, h.lookup, h.only⟩
  have hfound := h.find hinv hplaces
  simp only [Session.onStreamClose, Session.closeStream, Session.findStream] at hs hfound ⊢
  rcases hfound with ⟨hfind, hfind'⟩ | ⟨hfind, hfind'⟩
  · rw [hfind] at hs
    rw [hfind']
    cases hs
    exact ⟨_, _, rfl, hnoted, rfl⟩
  · rw [hfind] at hs
    rw [hfind']
    obtain ⟨⟨s₁, os₁⟩, hact, heq⟩ := Option.map_eq_some_iff.mp hs
    cases heq
    obtain ⟨t', os', hact', hm, hview⟩ := hnoted.act_own hact
    refine ⟨_, _, Option.map_eq_some_iff.mpr ⟨_, hact', rfl⟩, ?_, hview⟩
    refine ⟨hm.role, hm.opened, hm.ended, hm.closed, hm.cell, hm.next, ?_, fun id hmem => ?_⟩
    · dsimp only
      rw [AList.lookup_erase, AList.lookup_erase, Option.map_none]
    · exact hm.only id (AList.mem_erase.mp hmem).2

theorem Mirrors.submitResponse_own (h : Mirrors k a s t) {accepted : Bool} {adds : ℕ}
    (hs : s.submitResponse a accepted adds = some (s', os)) :
    ∃ t' os', t.submitResponse 0 accepted adds = some (t', os') ∧ Mirrors k a s' t' ∧
      view k 0 os' = view k a os := by
  cases accepted with
  | false =>
      cases hs
      exact ⟨t, _, rfl, h, by simp [view_cons, SessionLabel.about]⟩
  | true =>
      obtain ⟨⟨s₁, os₁⟩, hact, heq⟩ := Option.map_eq_some_iff.mp hs
      cases heq
      obtain ⟨t', os', hact', hm, hview⟩ := h.act_own hact
      refine ⟨_, _, Option.map_eq_some_iff.mpr ⟨_, hact', rfl⟩, ?_, ?_⟩
      · exact ⟨hm.role, hm.opened, hm.ended, hm.closed, hm.cell, hm.next, hm.lookup, hm.only⟩
      · rw [view_append, view_append, hview]
        simp [view_cons, SessionLabel.about]

theorem Mirrors.submitRequest_own (h : Mirrors k a s t)
    (hinv : s.toTable.Inv s.nghttp2.toNghttp2Streams) (hfresh : k ∉ s.nghttp2.opened) {adds : ℕ}
    (hplaces : (s.submitRequest (some k) adds).1.Places k a) :
    Mirrors k a (s.submitRequest (some k) adds).1 (t.submitRequest (some k) adds).1 ∧
      view k 0 (t.submitRequest (some k) adds).2 =
        view k a (s.submitRequest (some k) adds).2 := by
  unfold Session.submitRequest at hplaces ⊢
  by_cases hrole : s.role ≠ .client
  · have hrole' : t.role ≠ .client := by rwa [h.role]
    rw [if_pos hrole, if_pos hrole']
    exact ⟨h, rfl⟩
  · have hrole' : ¬ t.role ≠ .client := by rwa [h.role]
    rw [if_neg hrole] at hplaces ⊢
    rw [if_neg hrole']
    have hnext : s.next = a := (hplaces s.next _ (Function.update_self ..)).mp rfl
    obtain ⟨hzero, hm⟩ := h.register_own hinv hfresh hnext true
    refine ⟨?_, ?_⟩
    · exact ⟨hm.role, hm.opened, hm.ended, hm.closed, hm.cell, hm.next, hm.lookup, hm.only⟩
    · simp [view_cons, SessionLabel.about, hzero, hnext]

/-! ### The teardown -/

/-- The teardown of some objects, each once, as seen by one of them. -/
theorem Session.closeAll_view {as : List ℕ} (hnodup : as.Nodup)
    (h : s.closeAll as = some (s', os)) :
    s'.cells a = (if a ∈ as then (s.cells a).map Cell.close else s.cells a) ∧
      view k a os = if a ∈ as then [.stream 0 .closed] else [] := by
  induction as generalizing s os with
  | nil =>
      cases h
      exact ⟨by simp, by simp⟩
  | cons b as ih =>
      obtain ⟨⟨s₁, os₁⟩, hact, h⟩ := Option.bind_eq_some_iff.mp h
      obtain ⟨⟨s₂, os₂⟩, hrest, heq⟩ := Option.map_eq_some_iff.mp h
      cases heq
      obtain ⟨c, c', ls, hc, hs, rfl, rfl, -⟩ := Session.act_eq_some hact
      rw [Cell.step_onClose] at hs
      cases hs
      obtain ⟨hb, hnodup⟩ := List.nodup_cons.mp hnodup
      obtain ⟨hcell, hview⟩ := ih hnodup hrest
      rw [hcell, view_append, hview]
      by_cases hab : a = b
      · subst hab
        simp [Session.observe, hb, hc, view, SessionLabel.about]
      · simp [Session.observe, hab, Ne.symm hab, view, SessionLabel.about]

/-- A teardown of objects that exist succeeds. -/
theorem Session.closeAll_isSome {as : List ℕ} (h : ∀ b ∈ as, s.cells b ≠ none) :
    ∃ s' os, s.closeAll as = some (s', os) := by
  induction as generalizing s with
  | nil => exact ⟨s, [], rfl⟩
  | cons b as ih =>
      obtain ⟨c, hc⟩ := Option.ne_none_iff_exists'.mp (h b List.mem_cons_self)
      obtain ⟨s₁, hact⟩ := Session.act_of_step hc c.step_onClose 0
      have hthere : ∀ b' ∈ as, s₁.cells b' ≠ none := by
        intro b' hb'
        obtain ⟨d, d', ls, -, -, -, -, output, touched, ev, rfl⟩ := Session.act_eq_some hact
        dsimp only
        by_cases hne : b' = b
        · simp [hne]
        · rw [Function.update_of_ne hne]
          exact h b' (List.mem_cons_of_mem b hb')
      obtain ⟨s₂, os₂, hrest⟩ := ih hthere
      refine ⟨s₂, [.stream b .closed] ++ os₂, ?_⟩
      rw [Session.closeAll, hact, Option.bind_some]
      dsimp only
      rw [hrest]
      rfl

theorem Registry.mem_places {r : Registry} {b : ℕ} :
    b ∈ r.entries.map Sigma.snd ↔ ∃ id, r.lookup id = some b := by
  constructor
  · intro hb
    obtain ⟨⟨id, b'⟩, hmem, rfl⟩ := List.mem_map.mp hb
    exact ⟨id, AList.mem_lookup_iff.mpr hmem⟩
  · rintro ⟨id, hid⟩
    exact List.mem_map.mpr ⟨⟨id, b⟩, AList.mem_lookup_iff.mp hid, rfl⟩

theorem Registry.places_nodup {r : Registry}
    (h : ∀ id id' b, r.lookup id = some b → r.lookup id' = some b → id = id') :
    (r.entries.map Sigma.snd).Nodup := by
  refine List.Nodup.map_on ?_ r.nodupKeys.nodup
  rintro ⟨id, b⟩ hmem ⟨id', b'⟩ hmem' heq
  obtain rfl : b = b' := heq
  obtain rfl := h id id' b (AList.mem_lookup_iff.mpr hmem) (AList.mem_lookup_iff.mpr hmem')
  rfl

theorem Table.Inv.places_nodup {t : Table} {n : Nghttp2Streams} (h : t.Inv n) :
    (t.streams.entries.map Sigma.snd).Nodup := by
  refine Registry.places_nodup fun id id' b hid hid' => ?_
  obtain ⟨c, hc, rfl⟩ := h.entry id b hid
  exact (h.id_of_lookup hid' hc).1

/-- The mirrored stream is the one that is registered. -/
theorem Mirrors.lookup_eq (h : Mirrors k a s t) {id : ℤ} {b : ℕ}
    (hid : t.streams.lookup id = some b) : id = k ∧ b = 0 := by
  have hmem : id ∈ t.streams := AList.lookup_isSome.mp (by rw [hid]; rfl)
  obtain rfl := h.only id hmem
  rw [h.lookup] at hid
  obtain ⟨-, -, rfl⟩ := Option.map_eq_some_iff.mp hid
  exact ⟨rfl, rfl⟩

theorem Mirrors.discard_own (h : Mirrors k a s t)
    (hinv : s.toTable.Inv s.nghttp2.toNghttp2Streams) (hplaces : s.Places k a)
    (hs : s.discard = some (s', os)) :
    ∃ t' os', t.discard = some (t', os') ∧ Mirrors k a s' t' ∧
      view k 0 os' = view k a os := by
  -- the object at `a` is registered in `s` if and only if that at 0 is in `t`
  have hfound : 0 ∈ t.streams.entries.map Sigma.snd ↔ a ∈ s.streams.entries.map Sigma.snd := by
    rw [Registry.mem_places, Registry.mem_places]
    rcases h.find hinv hplaces with ⟨hfind, hfind'⟩ | ⟨hfind, hfind'⟩
    · refine iff_of_false ?_ ?_
      · rintro ⟨id, hid⟩
        obtain ⟨rfl, -⟩ := h.lookup_eq hid
        exact absurd (hfind'.symm.trans hid) nofun
      · rintro ⟨id, hid⟩
        obtain ⟨c, hc, rfl⟩ := hinv.entry id a hid
        rw [(hplaces a c hc).mpr rfl] at hid
        exact absurd (hfind.symm.trans hid) nofun
    · exact iff_of_true ⟨k, hfind'⟩ ⟨k, hfind⟩
  have hnodup : (t.streams.entries.map Sigma.snd).Nodup :=
    Registry.places_nodup fun id id' b hid hid' =>
      (h.lookup_eq hid).1.trans (h.lookup_eq hid').1.symm
  have hthere : ∀ b ∈ t.streams.entries.map Sigma.snd, t.cells b ≠ none := by
    intro b hb
    obtain ⟨id, hid⟩ := Registry.mem_places.mp hb
    obtain ⟨rfl, rfl⟩ := h.lookup_eq hid
    obtain ⟨id', hid'⟩ := Registry.mem_places.mp (hfound.mp hb)
    obtain ⟨c, hc, -⟩ := hinv.entry id' a hid'
    rw [h.cell, hc]
    simp
  obtain ⟨t', os', ht⟩ : ∃ t' os', t.discard = some (t', os') := Session.closeAll_isSome hthere
  obtain ⟨hcell, hview⟩ := Session.closeAll_view (k := k) (a := a) hinv.places_nodup hs
  obtain ⟨hcell', hview'⟩ := Session.closeAll_view (k := k) (a := 0) hnodup ht
  have hs' := (Session.closeAll_eq_some hs).1
  have ht' := (Session.closeAll_eq_some ht).1
  refine ⟨t', os', ht, ⟨?_, ?_, ?_, ?_, ?_, ?_, ?_, ?_⟩, ?_⟩
  · rw [hs', ht']
    exact h.role
  · rw [hs', ht']
    exact h.opened
  · rw [hs', ht']
    exact h.ended
  · rw [hs', ht']
    exact h.closed
  · rw [hcell, hcell']
    simp only [hfound, h.cell]
  · intro hnone
    rw [ht']
    exact h.next (((Session.closeAll_eq_some hs).2.1 a).mp hnone)
  · rw [hs', ht']
    rfl
  · rw [ht']
    exact nofun
  · rw [hview, hview']
    simp only [hfound]

/-! ### Runs -/

/-- The object that has the id in the end is the one that has it now. -/
theorem Session.places_of_exec {tr : List SessionLabel} {as : List SessionAction}
    (run : sessionMachine.Run anyStep tr s) (h : sessionMachine.exec anyStep s as = some (s', os))
    {c : Cell} (hc : s'.cells a = some c) (hid : c.stream.id = k) : s.Places k a := by
  intro b d hd
  obtain ⟨d', hd', hdid⟩ := Session.exec_keeps run h hd
  constructor
  · intro hk
    exact (Session.inv_run (run.exec h)).injective b a d' c hd' hc
      ((hdid.trans hk).trans hid.symm)
  · rintro rfl
    obtain rfl : d' = c := by simpa [hd'] using hc
    exact hdid.symm.trans hid

/-- A step of the stream is possible in the other session, and the same happens
there. -/
theorem Mirrors.step_own (h : Mirrors k a s t)
    (hinv : s.toTable.Inv s.nghttp2.toNghttp2Streams) (hplaces : s.Places k a)
    (hplaces' : s'.Places k a) {e : SessionAction} (hs : s.step e = some (s', os))
    (hown : e.belongs k a = true) :
    ∃ t' os', callbackMachine.step t e.relocate = some (t', os') ∧ Mirrors k a s' t' ∧
      view k 0 os' = view k a os := by
  obtain ⟨hallows, hperform⟩ := Session.step_eq_some hs
  -- what is admitted in `s` is admitted in `t`; what then happens is the matter of the lemmas
  have hstep (hadmits : t.admits e.relocate = true)
      (hcallback : ∃ t' os', t.callback e.relocate = some (t', os') ∧ Mirrors k a s' t' ∧
        view k 0 os' = view k a os) :
      ∃ t' os', callbackMachine.step t e.relocate = some (t', os') ∧ Mirrors k a s' t' ∧
        view k 0 os' = view k a os := by
    obtain ⟨t', os', hcb, hm⟩ := hcallback
    exact ⟨t', os', (if_pos hadmits).trans hcb, hm⟩
  cases e with
  | beginHeaders id request =>
      obtain rfl : id = k := of_decide_eq_true hown
      simp only [Session.allows, Bool.and_eq_true, Bool.or_eq_true, Bool.not_eq_true',
        decide_eq_true_eq] at hallows
      cases hperform
      refine hstep ?_ ⟨_, [], rfl, h.beginHeaders_own hinv (fun hreq => ?_) hplaces', rfl⟩
      · simpa [SessionAction.relocate, Session.admits, h.role, h.opened] using hallows.2
      · simp only [hreq, Bool.true_eq_false, false_or] at hallows
        exact hallows.2.2
  | header id name value =>
      obtain rfl : id = k := of_decide_eq_true hown
      exact hstep rfl (h.header_own hinv hplaces hperform)
  | frameRecv id request endStream =>
      obtain rfl : id = k := of_decide_eq_true hown
      simp only [Session.allows, Bool.and_eq_true, decide_eq_true_eq] at hallows
      refine hstep ?_ (h.frameRecv_own hinv hplaces hperform)
      simpa [SessionAction.relocate, Session.admits, h.opened, h.ended] using hallows.2
  | dataChunk id data adds =>
      obtain rfl : id = k := of_decide_eq_true hown
      simp only [Session.allows, Bool.and_eq_true, decide_eq_true_eq] at hallows
      refine hstep ?_ (h.dataChunk_own hinv hplaces hperform)
      simpa [SessionAction.relocate, Session.admits, h.opened, h.ended] using hallows.2
  | streamClose id =>
      obtain rfl : id = k := of_decide_eq_true hown
      exact hstep rfl (h.streamClose_own hinv hplaces hperform)
  | dataSourceRead b length =>
      obtain rfl : b = a := of_decide_eq_true hown
      simp only [Session.allows, Bool.and_eq_true] at hallows
      refine hstep ?_ (h.act_own hperform)
      simp only [SessionAction.relocate, Session.admits, h.cell]
      cases hc : s.cells b with
      | none => rfl
      | some c =>
          obtain rfl := (hplaces b c hc).mpr rfl
          simpa [hc, h.closed] using hallows.2
  | user b act adds =>
      obtain rfl : b = a := of_decide_eq_true hown
      simp only [Session.allows, Bool.and_eq_true] at hallows
      exact hstep hallows.2 (h.act_own hperform)
  | submitResponse b accepted adds =>
      obtain rfl : b = a := of_decide_eq_true hown
      exact hstep rfl (h.submitResponse_own hperform)
  | submitRequest accepted adds =>
      obtain rfl : accepted = some k := of_decide_eq_true hown
      simp only [Session.allows, Option.all_some, Bool.and_eq_true, decide_eq_true_eq] at hallows
      obtain ⟨rfl, rfl⟩ := Prod.ext_iff.mp (Option.some.inj hperform)
      refine hstep ?_ ⟨_, _, rfl, h.submitRequest_own hinv hallows.2 hplaces'⟩
      simpa [SessionAction.relocate, Session.admits, h.opened] using hallows.2
  | teardown => exact hstep rfl (h.discard_own hinv hplaces (Session.step_teardown hs).2.2.2)
  | _ => cases hown

end Steps

theorem Mirrors.exec {k : ℤ} {a : ℕ} {tr os : List SessionLabel} {s s' t : Session}
    {as : List SessionAction} (h : Mirrors k a s t) (run : sessionMachine.Run anyStep tr s)
    (hexec : sessionMachine.exec anyStep s as = some (s', os)) {c : Cell}
    (hc : s'.cells a = some c) (hid : c.stream.id = k) :
    ∃ t' os', callbackMachine.exec anyStep t (restrict k a as) = some (t', os') ∧
      Mirrors k a s' t' ∧ view k 0 os' = view k a os := by
  induction as generalizing tr os s t with
  | nil =>
      simp only [Machine.exec, Option.some.injEq, Prod.mk.injEq] at hexec
      obtain ⟨rfl, rfl⟩ := hexec
      exact ⟨t, [], rfl, h, rfl⟩
  | cons e as ih =>
      have hplaces := Session.places_of_exec run hexec hc hid
      obtain ⟨hok, s₁, os₁, os₂, hstep, hrest, rfl⟩ := Machine.exec_cons hexec
      have run₁ := Machine.Run.step run hok hstep
      have hplaces₁ := Session.places_of_exec run₁ hrest hc hid
      cases hown : e.belongs k a with
      | true =>
          obtain ⟨t₁, os₁', hstep', h₁, hview₁⟩ :=
            h.step_own (Session.inv_run run) hplaces hplaces₁ hstep hown
          obtain ⟨t', os', hexec', h', hview⟩ := ih h₁ run₁ hrest
          refine ⟨t', os₁' ++ os', ?_, h', by rw [view_append, view_append, hview₁, hview]⟩
          rw [restrict, List.filter_cons, if_pos hown, List.map_cons]
          exact Machine.exec_of_cons trivial hstep' hexec'
      | false =>
          obtain ⟨h₁, hview₁⟩ := h.step_other (Session.inv_run run) hplaces hplaces₁ hstep hown
          obtain ⟨t', os', hexec', h', hview⟩ := ih h₁ run₁ hrest
          refine ⟨t', os', ?_, h', by rw [view_append, hview₁, hview, List.nil_append]⟩
          rw [restrict, List.filter_cons, if_neg (by rw [hown]; exact Bool.false_ne_true)]
          exact hexec'

/-- Streams are isolated: let a session do anything, and look at one of its
`Stream` objects. With all steps deleted that belong to other streams, what is
left can be done, it leads to the same object, and everything that is returned or
reported about the stream is the same. -/
theorem streams_isolated {role : Role} {as : List SessionAction} {s : Session}
    {tr : List SessionLabel}
    (hexec : sessionMachine.exec anyStep (Session.fresh role) as = some (s, tr)) {a : ℕ} {c : Cell}
    (hc : s.cells a = some c) :
    ∃ t tr', callbackMachine.exec anyStep (Session.fresh role) (restrict c.stream.id a as) =
        some (t, tr') ∧
      t.cells 0 = some c ∧ view c.stream.id 0 tr' = view c.stream.id a tr := by
  obtain ⟨t, tr', hexec', h, hview⟩ :=
    (mirrors_fresh c.stream.id a role).exec (.init (sessionMachine_init role)) hexec hc rfl
  exact ⟨t, tr', hexec', h.cell.trans hc, hview⟩

/-- Two requests: the body of the first is read, the second is closed while its
reader waits. -/
def interleavedRequests : List SessionAction :=
  [.memSend (some []) 0 true, .startRecv true 0, .readDone false 0, .beginHeaders 1 true,
    .beginHeaders 3 true, .header 3 (ascii ":path") (ascii "/b"),
    .header 1 (ascii ":path") (ascii "/a"), .frameRecv 1 true false, .frameRecv 3 true false,
    .dataChunk 3 [7] 0, .dataChunk 1 [5, 6] 0, .user 1 (.readSome [10] false) 0,
    .user 1 (.readSome [10] false) 0, .streamClose 3, .user 0 (.readSome [1] false) 0]

/-- The first of the two requests, as if there had been no other. -/
theorem streams_isolated_of_interleaved :
    ∃ s tr c t tr', sessionMachine.exec anyStep (Session.fresh .server) interleavedRequests =
        some (s, tr) ∧
      s.cells 0 = some c ∧
      callbackMachine.exec anyStep (Session.fresh .server)
        [.beginHeaders 1 true, .header 1 (ascii ":path") (ascii "/a"), .frameRecv 1 true false,
          .dataChunk 1 [5, 6] 0, .user 0 (.readSome [1] false) 0] = some (t, tr') ∧
      t.cells 0 = some c ∧ view 1 0 tr' = view 1 0 tr := by
  have hsome : ((sessionMachine.exec anyStep (Session.fresh .server) interleavedRequests).any
      fun r => (r.1.cells 0).any fun c => decide (c.stream.id = 1)) = true := by decide
  obtain ⟨⟨s, tr⟩, hexec, hr⟩ := (Option.any_eq_true _ _).mp hsome
  obtain ⟨c, hc, hid⟩ := (Option.any_eq_true _ _).mp hr
  obtain ⟨t, tr', hexec', ht, hview⟩ := streams_isolated hexec hc
  rw [of_decide_eq_true hid] at hexec' hview
  exact ⟨s, tr, c, t, tr', hexec, hc, hexec', ht, hview⟩

end Nghttp2Corosio
