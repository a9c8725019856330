import Nghttp2Corosio.Stream.Cell

/-!
The invariant of the read side.

`ReadSide.Inv` holds in every state a stream can reach, whatever the
destinations of the reads are: the chunks are well formed, the sink is
published exactly while a read is suspended, and the event knows about that
read. Two further conditions depend on the destinations. `Roomy` says that a
suspended read which has received nothing yet has room, and that nothing is
buffered then; it needs destinations of at least one byte. `Ordered` says that
while something is buffered the suspended read has no room left, which is what
keeps direct delivery from overtaking the buffer; it needs destinations of at
most `max_iovec_` buffers.
-/

namespace Nghttp2Corosio

open Async Buffers Runs

structure ReadSide.Inv (r : ReadSide) : Prop where
  chunks : ChunksOk r.chunks r.frontOffset
  offset : r.chunks = [] → r.frontOffset = 0
  sink : r.readSink = r.reader.isSome
  suspended : r.reader = none ↔ r.readReady.waiter () = .idle

def ReadSide.Roomy (r : ReadSide) : Prop :=
  ∀ f ∈ r.reader, f.copied = [] → 0 < f.bp.room ∧ r.chunks = []

def ReadSide.Ordered (r : ReadSide) : Prop :=
  ∀ f ∈ r.reader, f.bp.Whole ∧ (r.chunks ≠ [] → f.bp.room = 0)

theorem ReadSide.roomy_of_none {r : ReadSide} (hr : r.reader = none) : r.Roomy := by
  intro f hf
  simp [hr] at hf

theorem ReadSide.ordered_of_none {r : ReadSide} (hr : r.reader = none) : r.Ordered := by
  intro f hf
  simp [hr] at hf

theorem ReadSide.inv_fresh : ({} : ReadSide).Inv where
  chunks := ⟨by simp, by simp⟩
  offset _ := rfl
  sink := rfl
  suspended := by simp

theorem ReadSide.Inv.offset_le {r : ReadSide} (h : r.Inv) :
    r.frontOffset ≤ r.chunks.flatten.length :=
  h.chunks.offset_le h.offset

/-! ### Deliveries -/

theorem ReadSide.Inv.onData {r : ReadSide} (h : r.Inv) (data : Bytes) : (r.onData data).Inv := by
  have hwaiter : ((r.readReady.set).waiter () = .idle) ↔ r.readReady.waiter () = .idle := by simp
  unfold ReadSide.onData
  split
  · rename_i f hsink hf
    refine ⟨h.chunks.push h.offset _, fun hnil => h.offset (pushChunk_eq_nil.mp hnil).1, hsink, ?_⟩
    rw [hwaiter, ← h.suspended, hf]
    simp
  · refine ⟨h.chunks.push h.offset _, fun hnil => h.offset (pushChunk_eq_nil.mp hnil).1, h.sink, ?_⟩
    rw [hwaiter]
    exact h.suspended

theorem ReadSide.onData_of_none {r : ReadSide} (hr : r.reader = none) (data : Bytes) :
    r.onData data =
      { r with chunks := pushChunk r.chunks data, readReady := r.readReady.set } := by
  unfold ReadSide.onData
  rw [hr]
  split
  · rename_i heq
    cases heq
  · rfl

theorem ReadSide.Inv.onData_of_some {r : ReadSide} (h : r.Inv) {f : ReadFrame}
    (hf : r.reader = some f) (data : Bytes) :
    r.onData data =
      { r with
        reader := some (f.put data).1
        chunks := pushChunk r.chunks (data.drop (f.put data).2)
        readReady := r.readReady.set } := by
  have hsink : r.readSink = true := by rw [h.sink, hf]; rfl
  unfold ReadSide.onData
  rw [hsink, hf]

theorem ReadSide.Inv.unread_push {r : ReadSide} (h : r.Inv) (data : Bytes) :
    (pushChunk r.chunks data).flatten.drop r.frontOffset = r.unread ++ data := by
  rw [flatten_pushChunk, List.drop_append_of_le_length h.offset_le]
  rfl

/-- No byte of a delivery is lost or made up, whatever the destination is. -/
theorem ReadSide.Inv.onData_perm {r : ReadSide} (h : r.Inv) (data : Bytes) :
    (r.onData data).contents.Perm (r.contents ++ data) := by
  cases hr : r.reader with
  | none =>
      rw [ReadSide.onData_of_none hr]
      simp [ReadSide.contents, ReadSide.inSink, ReadSide.unread, h.unread_push, hr]
  | some f =>
      rw [h.onData_of_some hr]
      simp only [ReadSide.contents, ReadSide.inSink, ReadSide.unread, h.unread_push, hr,
        ReadFrame.put, Option.map_some, Option.getD_some, List.append_assoc]
      refine List.Perm.append_left f.copied ?_
      -- the part for the sink moves past what is buffered
      have hswap : (data.take (f.bp.fits data.length) ++ r.chunks.flatten.drop r.frontOffset).Perm
          (r.chunks.flatten.drop r.frontOffset ++ data.take (f.bp.fits data.length)) :=
        List.perm_append_comm
      simpa only [List.append_assoc, List.take_append_drop] using
        hswap.append_right (data.drop (f.bp.fits data.length))

/-- A delivery goes behind everything the read side holds. -/
theorem ReadSide.Inv.onData_contents {r : ReadSide} (h : r.Inv) (hord : r.Ordered)
    (data : Bytes) : (r.onData data).contents = r.contents ++ data := by
  cases hr : r.reader with
  | none =>
      rw [ReadSide.onData_of_none hr]
      simp only [ReadSide.contents, ReadSide.inSink, hr, ReadSide.unread, h.unread_push,
        List.append_assoc]
  | some f =>
      rw [h.onData_of_some hr]
      simp only [ReadSide.contents, ReadSide.inSink, ReadSide.unread, h.unread_push, hr,
        ReadFrame.put, Option.map_some, Option.getD_some, List.append_assoc]
      by_cases hchunks : r.chunks = []
      · -- nothing is buffered: what the sink does not take is the only chunk
        simp [hchunks]
      · -- something is buffered: the sink is full and takes nothing
        have hn : f.bp.fits data.length = 0 :=
          Nat.eq_zero_of_le_zero
            ((f.bp.fits_le_room _).trans ((hord f hr).2 hchunks).le)
        simp [hn]

theorem ReadSide.Inv.onData_roomy {r : ReadSide} (h : r.Inv) (hroomy : r.Roomy) (data : Bytes) :
    (r.onData data).Roomy := by
  cases hr : r.reader with
  | none =>
      rw [ReadSide.onData_of_none hr]
      exact ReadSide.roomy_of_none hr
  | some f =>
      rw [h.onData_of_some hr]
      intro f' hf' hcopied
      obtain rfl : (f.put data).1 = f' := by simpa using hf'
      have hparts : f.copied = [] ∧ data.take (f.bp.fits data.length) = [] := by
        simpa [ReadFrame.put] using hcopied
      obtain ⟨hroom, hchunks⟩ := hroomy f hr hparts.1
      have hdata : data = [] := by
        by_contra hne
        have := Window.fits_pos maxIovec_pos hroom (List.length_pos_of_ne_nil hne)
        rcases List.take_eq_nil_iff.mp hparts.2 with hz | hz
        · omega
        · exact hne hz
      subst hdata
      refine ⟨?_, by simp [hchunks, pushChunk]⟩
      have hz : f.bp.fits 0 = 0 := Nat.eq_zero_of_le_zero (f.bp.fits_le 0)
      simpa [ReadFrame.put, hz] using hroom

theorem ReadSide.Inv.onData_ordered {r : ReadSide} (h : r.Inv) (hord : r.Ordered)
    (data : Bytes) : (r.onData data).Ordered := by
  cases hr : r.reader with
  | none =>
      rw [ReadSide.onData_of_none hr]
      exact ReadSide.ordered_of_none hr
  | some f =>
      obtain ⟨hwhole, hfull⟩ := hord f hr
      rw [h.onData_of_some hr]
      intro f' hf'
      obtain rfl : (f.put data).1 = f' := by simpa using hf'
      refine ⟨hwhole.put _, fun hchunks => ?_⟩
      simp only [ReadFrame.put, Window.room_put]
      by_cases hnil : r.chunks = []
      · -- some of the delivery was left over, so the destination is full
        have hleft : data.drop (f.bp.fits data.length) ≠ [] := by
          intro hd
          exact hchunks (pushChunk_eq_nil.mpr ⟨hnil, hd⟩)
        have hlt : f.bp.fits data.length < data.length := by
          by_contra hge
          exact hleft (List.drop_eq_nil_of_le (not_lt.mp hge))
        rw [hwhole.fits_eq] at hlt ⊢
        omega
      · have := hfull hnil
        omega

/-! ### Completions and suspensions -/

@[simp] theorem ReadSide.finishRead_fst (r : ReadSide) (res : ReadResult) :
    (r.finishRead res).1 = r := rfl

theorem ReadSide.finishRead_returned (r : ReadSide) (res : ReadResult) :
    returned (r.finishRead res).2 = res.bytes := by
  unfold ReadSide.finishRead
  simp only [returned_append]
  split <;> simp [returned, Label.returnedBytes]

theorem ReadSide.finishRead_delivered (r : ReadSide) (res : ReadResult) :
    delivered (r.finishRead res).2 = [] := by
  unfold ReadSide.finishRead
  simp only [delivered_append]
  split <;> simp [delivered, Label.deliveredBytes]

/-- Credit is granted for what a read returns, and for nothing else. -/
theorem ReadSide.finishRead_consumed (r : ReadSide) {res : ReadResult}
    (hres : res.ec ≠ none → res.bytes = []) :
    consumed (r.finishRead res).2 = (returned (r.finishRead res).2).length := by
  rw [ReadSide.finishRead_returned]
  unfold ReadSide.finishRead
  simp only [consumed_append]
  split
  · simp [consumed, Label.consumedBytes]
  · rename_i hec
    simp [consumed, Label.consumedBytes, hres hec]

/-- A result is either bytes without an error, or an error without bytes. -/
def ReadResult.Clean (res : ReadResult) : Prop := res.ec = none ↔ res.bytes ≠ []

theorem ReadFrame.canceled_clean (f : ReadFrame) : f.canceled.Clean := by
  unfold ReadFrame.canceled ReadResult.Clean
  split
  · simp
  · rename_i h
    simpa using h

theorem ReadSide.woken_clean {r : ReadSide} {closed : Bool} {f : ReadFrame} {res : ReadResult}
    (h : r.woken closed f = some res) : res.Clean := by
  unfold ReadSide.woken at h
  split at h
  · rename_i hne
    cases h
    simpa [ReadResult.Clean] using hne
  · split at h
    · cases h
      simp [ReadResult.Clean]
    · cases h

theorem ReadFrame.canceled_bytes (f : ReadFrame) : f.canceled.bytes = f.copied := by
  unfold ReadFrame.canceled
  split
  · rename_i h
    exact (List.isEmpty_iff.mp h).symm
  · rfl

theorem ReadSide.woken_bytes {r : ReadSide} {closed : Bool} {f : ReadFrame} {res : ReadResult}
    (h : r.woken closed f = some res) : res.bytes = f.copied := by
  unfold ReadSide.woken at h
  split at h
  · cases h
    rfl
  · rename_i hnil
    have hnil : f.copied = [] := by simpa using hnil
    split at h
    · cases h
      exact hnil.symm
    · cases h

theorem ReadSide.woken_eq_none {r : ReadSide} {closed : Bool} {f : ReadFrame}
    (h : r.woken closed f = none) : f.copied = [] ∧ r.readEof = false ∧ closed = false := by
  unfold ReadSide.woken at h
  split at h
  · cases h
  · rename_i hnil
    split at h
    · cases h
    · rename_i hopen
      simp only [Bool.or_eq_true, not_or, Bool.not_eq_true] at hopen
      exact ⟨by simpa using hnil, hopen⟩

/-- The two outcomes of parking: suspended with the frame, or completed at once
because the token was stopped. -/
theorem ReadSide.parkRead_cases (r : ReadSide) (f : ReadFrame) :
    f.stopped = false ∧ r.parkRead f =
        ({ r with
            readSink := true
            readReady := ⟨false, Function.update r.readReady.waiter () .waiting⟩
            reader := some f }, []) ∨
      f.stopped = true ∧ r.parkRead f = ReadSide.finishRead
        { r with readSink := false, readReady := r.readReady.clear, reader := none }
        f.canceled := by
  unfold ReadSide.parkRead
  cases hs : f.stopped with
  | false => exact .inl ⟨rfl, rfl⟩
  | true => exact .inr ⟨rfl, rfl⟩

/-- What a stretch of `read_some` leaves behind, when it starts with `r`, ends
with `r'` and emits `os`: it has completed with a result, or it is suspended. -/
inductive ReadSide.Ends (r : ReadSide) (r' : ReadSide) (os : List Label) : Prop
  | completed (res : ReadResult) (hclean : res.Clean) (hreader : r'.reader = none)
      (hos : os = (r'.finishRead res).2) (hcontents : r.contents = res.bytes ++ r'.contents)
  | parked (f : ReadFrame) (hreader : r'.reader = some f) (hcopied : f.copied = [])
      (hos : os = []) (hwait : r'.readReady.waiter () = .waiting)
      (hcontents : r.contents = r'.contents)

theorem ReadSide.Ends.of_contents {r r₁ r' : ReadSide} {os : List Label} (h : r₁.Ends r' os)
    (hcontents : r.contents = r₁.contents) : r.Ends r' os := by
  cases h with
  | completed res hclean hreader hos hc =>
      exact .completed res hclean hreader hos (hcontents.trans hc)
  | parked f hreader hcopied hos hwait hc =>
      exact .parked f hreader hcopied hos hwait (hcontents.trans hc)

theorem ReadSide.Ends.contents {r r' : ReadSide} {os : List Label} (h : r.Ends r' os) :
    r.contents ++ delivered os = returned os ++ r'.contents := by
  cases h with
  | completed res _ _ hos hcontents =>
      rw [hos, ReadSide.finishRead_delivered, ReadSide.finishRead_returned, List.append_nil]
      exact hcontents
  | parked f _ _ hos _ hcontents =>
      rw [hos, hcontents]
      simp [delivered, returned]

theorem ReadSide.Ends.consumed {r r' : ReadSide} {os : List Label} (h : r.Ends r' os) :
    consumed os = (returned os).length := by
  cases h with
  | completed res hclean _ hos _ =>
      rw [hos]
      refine ReadSide.finishRead_consumed _ fun hec => ?_
      by_contra hne
      exact hec (hclean.mpr hne)
  | parked f _ _ hos _ _ =>
      rw [hos]
      rfl

theorem ReadSide.Ends.delivered {r r' : ReadSide} {os : List Label} (h : r.Ends r' os) :
    delivered os = [] := by
  cases h with
  | completed res _ _ hos _ => rw [hos, ReadSide.finishRead_delivered]
  | parked f _ _ hos _ _ =>
      rw [hos]
      rfl

/-- Parking keeps the invariant; the two further conditions are those of the
frame that is parked. -/
theorem ReadSide.Inv.parkRead {r : ReadSide} (h : r.Inv) (hr : r.reader = none) {f : ReadFrame}
    (hcopied : f.copied = []) :
    (r.parkRead f).1.Inv ∧ r.Ends (r.parkRead f).1 (r.parkRead f).2 ∧
      (0 < f.bp.room → r.chunks = [] → (r.parkRead f).1.Roomy) ∧
      (f.bp.Whole → (r.chunks ≠ [] → f.bp.room = 0) → (r.parkRead f).1.Ordered) := by
  rcases r.parkRead_cases f with ⟨-, heq⟩ | ⟨-, heq⟩
  · rw [heq]
    refine ⟨⟨h.chunks, h.offset, rfl, by simp⟩, ?_, fun hroom hnil => ?_, fun hwhole hfull => ?_⟩
    · refine .parked f rfl hcopied rfl (by simp) ?_
      simp [ReadSide.contents, ReadSide.inSink, ReadSide.unread, hr, hcopied]
    · intro f' hf' _
      obtain rfl : f = f' := by simpa using hf'
      exact ⟨hroom, hnil⟩
    · intro f' hf'
      obtain rfl : f = f' := by simpa using hf'
      exact ⟨hwhole, hfull⟩
  · rw [heq]
    have hidle := h.suspended.mp hr
    refine ⟨⟨h.chunks, h.offset, rfl, by simp [hidle]⟩, ?_, ?_, ?_⟩
    · refine .completed f.canceled f.canceled_clean rfl rfl ?_
      simp [f.canceled_bytes, hcopied, ReadSide.contents, ReadSide.inSink, ReadSide.unread, hr]
    · exact fun _ _ => ReadSide.roomy_of_none rfl
    · exact fun _ _ => ReadSide.ordered_of_none rfl

theorem ReadSide.Inv.readSome {r : ReadSide} (h : r.Inv) (hr : r.reader = none) (closed : Bool)
    (sizes : List ℕ) (stopped : Bool) :
    (r.readSome closed sizes stopped).1.Inv ∧
      r.Ends (r.readSome closed sizes stopped).1 (r.readSome closed sizes stopped).2 ∧
      (0 < sizes.sum → (r.readSome closed sizes stopped).1.Roomy) ∧
      (sizes.length ≤ maxIovec → (r.readSome closed sizes stopped).1.Ordered) := by
  obtain ⟨hdrain, hbreak⟩ :=
    ReadSide.drain_spec h.chunks h.offset (Window.ofSizes maxIovec sizes)
  have hwhole (hlen : sizes.length ≤ maxIovec) :
      (r.drain (Window.ofSizes maxIovec sizes)).bp.Whole :=
    ReadSide.drain_whole (Window.whole_ofSizes hlen)
  set d := r.drain (Window.ofSizes maxIovec sizes) with hd
  set r₁ : ReadSide := { r with chunks := d.chunks, frontOffset := d.frontOffset } with hr₁
  have hinv : r₁.Inv := ⟨hdrain.chunks, hdrain.offset, h.sink, h.suspended⟩
  have hcontents : r.contents = d.got ++ r₁.contents := by
    simp only [ReadSide.contents, ReadSide.inSink]
    rw [show r₁.reader = none from hr]
    exact hdrain.contents.symm
  unfold ReadSide.readSome
  simp only [← hd, ← hr₁]
  split
  · rename_i hgot
    exact ⟨hinv, .completed _ (by simpa [ReadResult.Clean] using hgot) hr rfl hcontents,
      fun _ => ReadSide.roomy_of_none hr, fun _ => ReadSide.ordered_of_none hr⟩
  · rename_i hgot
    have hgot : d.got = [] := by simpa using hgot
    rw [hgot, List.nil_append] at hcontents
    split
    · exact ⟨hinv, .completed _ (by simp [ReadResult.Clean]) hr rfl hcontents,
        fun _ => ReadSide.roomy_of_none hr, fun _ => ReadSide.ordered_of_none hr⟩
    · -- nothing was taken, so the room is what it was
      have hroom : d.bp.room = sizes.sum := by
        have := hdrain.room
        rw [hgot, Window.room_ofSizes] at this
        simpa using this
      obtain ⟨hpark, hends, hroomy, hordered⟩ :=
        hinv.parkRead (f := ⟨d.bp, [], stopped⟩) hr rfl
      refine ⟨hpark, hends.of_contents hcontents, fun hpos => ?_, fun hlen => ?_⟩
      · have hchunks : d.chunks = [] := hbreak.resolve_right (by omega)
        exact hroomy (hroom ▸ hpos) hchunks
      · exact hordered (hwhole hlen) fun hne => hbreak.resolve_left hne

theorem ReadSide.Inv.resumeRead {r r' : ReadSide} (h : r.Inv) {closed : Bool} {os : List Label}
    (hresume : r.resumeRead closed = some (r', os)) :
    r'.Inv ∧ r.Ends r' os ∧ (r.Roomy → r'.Roomy) ∧ (r.Ordered → r'.Ordered) := by
  obtain ⟨f, w, hf, hw, hcases⟩ := ReadSide.resumeRead_eq_some hresume
  set r₁ : ReadSide :=
    { r with readSink := false, readReady := r.readReady.resume (), reader := none } with hr₁
  have hinv : r₁.Inv := ⟨h.chunks, h.offset, rfl, by simp [hr₁]⟩
  have hcontents : r.contents = f.copied ++ r₁.contents := by
    simp [ReadSide.contents, ReadSide.inSink, ReadSide.unread, hr₁, hf]
  rcases hcases with ⟨res, heq, hres⟩ | ⟨-, hnone, heq⟩
  · obtain ⟨rfl, rfl⟩ : r' = r₁ ∧ os = (r₁.finishRead res).2 := Prod.ext_iff.mp heq
    have hspec : res.Clean ∧ res.bytes = f.copied := by
      rcases hres with ⟨-, rfl⟩ | ⟨-, hwoken⟩
      · exact ⟨f.canceled_clean, f.canceled_bytes⟩
      · exact ⟨ReadSide.woken_clean hwoken, ReadSide.woken_bytes hwoken⟩
    exact ⟨hinv, .completed res hspec.1 rfl rfl (by rw [hspec.2]; exact hcontents),
      fun _ => ReadSide.roomy_of_none rfl, fun _ => ReadSide.ordered_of_none rfl⟩
  · obtain ⟨rfl, rfl⟩ : r' = (r₁.parkRead f).1 ∧ os = (r₁.parkRead f).2 := Prod.ext_iff.mp heq
    have hcopied := (ReadSide.woken_eq_none hnone).1
    rw [hcopied, List.nil_append] at hcontents
    obtain ⟨hpark, hends, hroomy, hordered⟩ := hinv.parkRead rfl hcopied
    refine ⟨hpark, hends.of_contents hcontents, fun hr => ?_, fun ho => ?_⟩
    · exact hroomy (hr f hf hcopied).1 (hr f hf hcopied).2
    · exact hordered (ho f hf).1 (ho f hf).2

/-! ### Steps

The remaining actions move no byte: they set flags and wake or stop the
suspended read. -/

def ReadSide.SameBytes (r r' : ReadSide) : Prop :=
  r'.chunks = r.chunks ∧ r'.frontOffset = r.frontOffset ∧
    r'.reader.map (fun f => (f.bp, f.copied)) = r.reader.map (fun f => (f.bp, f.copied))

theorem ReadSide.SameBytes.contents {r r' : ReadSide} (h : r.SameBytes r') :
    r'.contents = r.contents := by
  obtain ⟨hchunks, hoff, hreader⟩ := h
  have hcopied := congrArg (Option.map Prod.snd) hreader
  simp only [Option.map_map, Function.comp_def] at hcopied
  simp only [ReadSide.contents, ReadSide.inSink, ReadSide.unread, hchunks, hoff]
  rw [show r'.reader.map ReadFrame.copied = r.reader.map ReadFrame.copied from hcopied]

theorem ReadSide.SameBytes.frame {r r' : ReadSide} (h : r.SameBytes r') {f' : ReadFrame}
    (hf' : r'.reader = some f') : ∃ f, r.reader = some f ∧ f'.bp = f.bp ∧ f'.copied = f.copied := by
  have hreader := h.2.2
  rw [hf'] at hreader
  cases hr : r.reader with
  | none => simp [hr] at hreader
  | some f =>
      simp only [hr, Option.map_some, Option.some.injEq, Prod.mk.injEq] at hreader
      exact ⟨f, rfl, hreader.1, hreader.2⟩

theorem ReadSide.SameBytes.roomy {r r' : ReadSide} (h : r.SameBytes r') (hroomy : r.Roomy) :
    r'.Roomy := by
  intro f' hf' hcopied
  obtain ⟨f, hf, hbp, hcop⟩ := h.frame hf'
  rw [hbp, h.1]
  exact hroomy f hf (hcop ▸ hcopied)

theorem ReadSide.SameBytes.ordered {r r' : ReadSide} (h : r.SameBytes r') (hord : r.Ordered) :
    r'.Ordered := by
  intro f' hf'
  obtain ⟨f, hf, hbp, -⟩ := h.frame hf'
  rw [hbp, h.1]
  exact hord f hf

theorem ReadSide.Inv.stopRead {r r' : ReadSide} (h : r.Inv) (hstop : r.stopRead = some r') :
    r'.Inv ∧ r.SameBytes r' := by
  obtain ⟨f, hf, rfl⟩ := Option.map_eq_some_iff.mp hstop
  have hsink := h.sink
  have hsus := h.suspended
  rw [hf] at hsink hsus
  refine ⟨⟨h.chunks, h.offset, hsink, ?_⟩, rfl, rfl, by simp [hf]⟩
  simpa using hsus

theorem ReadSide.Inv.wake {r : ReadSide} (h : r.Inv) (eof : Bool) :
    ReadSide.Inv { r with readEof := eof, readReady := r.readReady.set } :=
  ⟨h.chunks, h.offset, h.sink, by simpa using h.suspended⟩

/-- The destination of a read that is started holds at least one byte. -/
def Action.HasRoom : Action → Prop
  | .readSome sizes _ => 0 < sizes.sum
  | _ => True

/-- The destination of a read that is started has at most `max_iovec_`
buffers. -/
def Action.FewBuffers : Action → Prop
  | .readSome sizes _ => sizes.length ≤ maxIovec
  | _ => True

instance : DecidablePred Action.HasRoom
  | .readSome sizes _ => inferInstanceAs (Decidable (0 < sizes.sum))
  | .onData _ | .onReadEof | .onClose | .onHeader _ _ | .submit | .producerCallback _ | .stopRead
  | .resumeRead | .write _ _ | .stopWrite | .resumeWrite | .getResponse _ _ | .stopResponse _
  | .resumeResponse _ => instDecidableTrue

instance : DecidablePred Action.FewBuffers
  | .readSome sizes _ => inferInstanceAs (Decidable (sizes.length ≤ maxIovec))
  | .onData _ | .onReadEof | .onClose | .onHeader _ _ | .submit | .producerCallback _ | .stopRead
  | .resumeRead | .write _ _ | .stopWrite | .resumeWrite | .getResponse _ _ | .stopResponse _
  | .resumeResponse _ => instDecidableTrue

/-- Every step keeps the invariant, loses no byte and grants credit for exactly
what a read returns. -/
theorem ReadSide.Inv.step {r r' : ReadSide} {closed : Bool} {a : Action} {os : List Label}
    (h : r.Inv) (hs : r.Step closed a os r') :
    r'.Inv ∧ consumed os = (returned os).length ∧
      (r.contents ++ delivered os).Perm (returned os ++ r'.contents) := by
  have hends {r' : ReadSide} {os : List Label} (hends : r.Ends r' os) :
      consumed os = (returned os).length ∧
        (r.contents ++ delivered os).Perm (returned os ++ r'.contents) :=
    ⟨hends.consumed, .of_eq hends.contents⟩
  have hsilent : (r.contents ++ []).Perm ([] ++ r.contents) := .of_eq (List.append_nil _)
  cases hs with
  | onData data =>
      refine ⟨h.onData data, rfl, ?_⟩
      have hperm := (h.onData_perm data).symm
      simpa [delivered, returned, Label.deliveredBytes, Label.returnedBytes] using hperm
  | onReadEof => exact ⟨h.wake true, rfl, hsilent⟩
  | onClose => exact ⟨h.wake r.readEof, rfl, hsilent⟩
  | readSome sizes stopped hidle =>
      obtain ⟨hinv, hend, -, -⟩ := h.readSome hidle closed sizes stopped
      exact ⟨hinv, hends hend⟩
  | stopRead r' hstop =>
      obtain ⟨hinv, hsame⟩ := h.stopRead hstop
      refine ⟨hinv, rfl, ?_⟩
      rw [hsame.contents]
      exact hsilent
  | resumeRead r' os hresume =>
      obtain ⟨hinv, hend, -, -⟩ := h.resumeRead hresume
      exact ⟨hinv, hends hend⟩
  | other a os ha hos =>
      obtain ⟨hd, hr, hc⟩ := read_silent hos
      rw [hd, hr, hc]
      exact ⟨h, rfl, hsilent⟩

def Action.data : Action → Bytes
  | .onData data => data
  | _ => []

theorem ReadSide.Inv.step_delivered {r r' : ReadSide} {closed : Bool} {a : Action}
    {os : List Label} (h : r.Inv) (hs : r.Step closed a os r') : delivered os = a.data := by
  cases hs with
  | onData data => simp [delivered, Label.deliveredBytes, Action.data]
  | readSome sizes stopped hidle => exact (h.readSome hidle closed sizes stopped).2.1.delivered
  | resumeRead r' os hresume => exact (h.resumeRead hresume).2.1.delivered
  | other a os ha hos =>
      rw [(read_silent hos).1]
      cases a <;> first | rfl | cases ha
  | _ => rfl

theorem ReadSide.Inv.step_roomy {r r' : ReadSide} {closed : Bool} {a : Action} {os : List Label}
    (h : r.Inv) (hroomy : r.Roomy) (hs : r.Step closed a os r') (ha : a.HasRoom) : r'.Roomy := by
  cases hs with
  | onData data => exact h.onData_roomy hroomy data
  | onReadEof => exact hroomy
  | onClose => exact hroomy
  | readSome sizes stopped hidle =>
      obtain ⟨-, -, hroomy', -⟩ := h.readSome hidle closed sizes stopped
      exact hroomy' ha
  | stopRead r' hstop => exact (h.stopRead hstop).2.roomy hroomy
  | resumeRead r' os hresume => exact (h.resumeRead hresume).2.2.1 hroomy
  | other a os ha hos => exact hroomy

/-- One step of the queue: what is delivered goes in at the back, what a read
returns comes out at the front. -/
theorem ReadSide.Inv.step_ordered {r r' : ReadSide} {closed : Bool} {a : Action}
    {os : List Label} (h : r.Inv) (hord : r.Ordered) (hs : r.Step closed a os r')
    (ha : a.FewBuffers) :
    r'.Ordered ∧ r.contents ++ delivered os = returned os ++ r'.contents := by
  cases hs with
  | onData data =>
      refine ⟨h.onData_ordered hord data, ?_⟩
      rw [h.onData_contents hord]
      simp [delivered, returned, Label.deliveredBytes, Label.returnedBytes]
  | onReadEof => exact ⟨hord, List.append_nil _⟩
  | onClose => exact ⟨hord, List.append_nil _⟩
  | readSome sizes stopped hidle =>
      obtain ⟨-, hend, -, hord'⟩ := h.readSome hidle closed sizes stopped
      exact ⟨hord' ha, hend.contents⟩
  | stopRead r' hstop =>
      have hsame := (h.stopRead hstop).2
      refine ⟨hsame.ordered hord, ?_⟩
      rw [hsame.contents]
      exact List.append_nil _
  | resumeRead r' os hresume =>
      obtain ⟨-, hend, -, hord'⟩ := h.resumeRead hresume
      exact ⟨hord' hord, hend.contents⟩
  | other a os ha hos =>
      obtain ⟨hd, hr, -⟩ := read_silent hos
      exact ⟨hord, by rw [hd, hr]; simp⟩

theorem ReadSide.Step.clean {r r' : ReadSide} {closed : Bool} {a : Action} {os : List Label}
    (hs : r.Step closed a os r') (h : r.Inv) {res : ReadResult}
    (hres : Label.readReturned res ∈ os) : res.Clean := by
  have hends {r' : ReadSide} {os : List Label} (hend : r.Ends r' os)
      (hres : Label.readReturned res ∈ os) : res.Clean := by
    cases hend with
    | completed res' hclean _ hos _ =>
        obtain rfl : res = res' := by
          rw [hos] at hres
          unfold ReadSide.finishRead at hres
          split at hres <;> simpa using hres
        exact hclean
    | parked f _ _ hos _ _ =>
        rw [hos] at hres
        cases hres
  cases hs with
  | onData data => simp at hres
  | onReadEof => simp at hres
  | onClose => simp at hres
  | readSome sizes stopped hidle =>
      obtain ⟨-, hend, -, -⟩ := h.readSome hidle closed sizes stopped
      exact hends hend hres
  | stopRead r' hstop => simp at hres
  | resumeRead r' os hresume => exact hends (h.resumeRead hresume).2.1 hres
  | other a os ha hos => exact absurd (hos _ hres) (by simp [Label.isRead])

/-! ### Waiting

A suspended read whose resumption is not posted has nothing to report. -/

def ReadSide.Waits (closed : Bool) (r : ReadSide) : Prop :=
  r.readReady.waiter () = .waiting → r.readEof = false ∧ closed = false ∧
    ∀ f, r.reader = some f → f.copied = [] ∧ f.stopped = false

theorem ReadSide.waits_of_ne {closed : Bool} {r : ReadSide}
    (h : r.readReady.waiter () ≠ .waiting) : r.Waits closed :=
  fun hw => absurd hw h

theorem ReadSide.parkRead_waits {closed : Bool} {r : ReadSide} {f : ReadFrame}
    (hidle : r.readReady.waiter () = .idle) (heof : r.readEof = false) (hopen : closed = false)
    (hcopied : f.copied = []) : (r.parkRead f).1.Waits closed := by
  rcases r.parkRead_cases f with ⟨hstopped, heq⟩ | ⟨-, heq⟩
  · rw [heq]
    refine fun _ => ⟨heof, hopen, fun f' hf' => ?_⟩
    obtain rfl : f = f' := by simpa using hf'
    exact ⟨hcopied, hstopped⟩
  · rw [heq]
    exact ReadSide.waits_of_ne (by simp [hidle])

theorem ReadSide.Waits.step {r r' : ReadSide} {closed : Bool} {a : Action} {os : List Label}
    (hw : r.Waits closed) (h : r.Inv) (hs : r.Step closed a os r') :
    r'.Waits (closed || decide (a = .onClose)) := by
  cases hs with
  | onData data =>
      refine ReadSide.waits_of_ne ?_
      unfold ReadSide.onData
      split <;> simp
  | onReadEof => exact ReadSide.waits_of_ne (by simp [ReadSide.onReadEof])
  | onClose => exact ReadSide.waits_of_ne (by simp [ReadSide.onClose])
  | readSome sizes stopped hidle =>
      have hwaiter := h.suspended.mp hidle
      rw [show (closed || decide (Action.readSome sizes stopped = .onClose)) = closed by simp]
      unfold ReadSide.readSome
      dsimp only
      split
      · exact ReadSide.waits_of_ne (by simp [hwaiter])
      · split
        · exact ReadSide.waits_of_ne (by simp [hwaiter])
        · rename_i hopen
          simp only [Bool.or_eq_true, not_or, Bool.not_eq_true] at hopen
          exact ReadSide.parkRead_waits hwaiter hopen.1 hopen.2 rfl
  | stopRead r' hstop =>
      obtain ⟨f, -, rfl⟩ := Option.map_eq_some_iff.mp hstop
      exact ReadSide.waits_of_ne (by simp)
  | resumeRead r' os hresume =>
      rw [show (closed || decide (Action.resumeRead = .onClose)) = closed by simp]
      obtain ⟨f, w, -, -, ⟨res, heq, -⟩ | ⟨-, hnone, heq⟩⟩ := ReadSide.resumeRead_eq_some hresume
      · obtain ⟨rfl, rfl⟩ := Prod.ext_iff.mp heq
        exact ReadSide.waits_of_ne (by simp)
      · obtain ⟨rfl, rfl⟩ := Prod.ext_iff.mp heq
        obtain ⟨hcopied, heof, hopen⟩ := ReadSide.woken_eq_none hnone
        exact ReadSide.parkRead_waits (by simp) heof hopen hcopied
  | other a os ha hos =>
      have hne : a ≠ .onClose := by
        rintro rfl
        cases ha
      rw [decide_eq_false hne, Bool.or_false]
      exact hw

/-! ### The flags

`read_eof_` and `closed_` are set by one callback each and never reset, so a
trace says what they are. -/

theorem ReadSide.finishRead_not_readEnded (r : ReadSide) (res : ReadResult) :
    .readEnded ∉ (r.finishRead res).2 := by
  unfold ReadSide.finishRead
  split <;> simp

theorem ReadSide.parkRead_readEof (r : ReadSide) (f : ReadFrame) :
    (r.parkRead f).1.readEof = r.readEof ∧ .readEnded ∉ (r.parkRead f).2 := by
  rcases r.parkRead_cases f with ⟨-, heq⟩ | ⟨-, heq⟩ <;> rw [heq]
  · exact ⟨rfl, List.not_mem_nil⟩
  · exact ⟨rfl, ReadSide.finishRead_not_readEnded _ _⟩

theorem ReadSide.Step.readEof {r r' : ReadSide} {closed : Bool} {a : Action} {os : List Label}
    (hs : r.Step closed a os r') :
    (r'.readEof = true ↔ r.readEof = true ∨ .readEnded ∈ os) := by
  have hkeep {r' : ReadSide} {os : List Label} (heof : r'.readEof = r.readEof)
      (hos : .readEnded ∉ os) : r'.readEof = true ↔ r.readEof = true ∨ .readEnded ∈ os := by
    simp [heof, hos]
  cases hs with
  | onData data =>
      refine hkeep ?_ (by simp)
      unfold ReadSide.onData
      split <;> rfl
  | onReadEof => simp [ReadSide.onReadEof]
  | onClose => exact hkeep rfl (by simp)
  | readSome sizes stopped hidle =>
      unfold ReadSide.readSome
      dsimp only
      split
      · exact hkeep rfl (ReadSide.finishRead_not_readEnded _ _)
      · split
        · exact hkeep rfl (ReadSide.finishRead_not_readEnded _ _)
        · obtain ⟨heof, hos⟩ := ReadSide.parkRead_readEof
            { r with
              chunks := (r.drain (Window.ofSizes maxIovec sizes)).chunks
              frontOffset := (r.drain (Window.ofSizes maxIovec sizes)).frontOffset }
            ⟨(r.drain (Window.ofSizes maxIovec sizes)).bp, [], stopped⟩
          exact hkeep heof hos
  | stopRead r' hstop =>
      obtain ⟨f, -, rfl⟩ := Option.map_eq_some_iff.mp hstop
      exact hkeep rfl (by simp)
  | resumeRead r' os hresume =>
      obtain ⟨f, w, -, -, ⟨res, heq, -⟩ | ⟨-, -, heq⟩⟩ := ReadSide.resumeRead_eq_some hresume
      · obtain ⟨rfl, rfl⟩ := Prod.ext_iff.mp heq
        exact hkeep rfl (ReadSide.finishRead_not_readEnded _ _)
      · obtain ⟨rfl, rfl⟩ := Prod.ext_iff.mp heq
        obtain ⟨heof, hos⟩ := ReadSide.parkRead_readEof _ f
        exact hkeep heof hos
  | other a os ha hos =>
      exact hkeep rfl fun hmem => absurd (hos _ hmem) (by simp [Label.isRead])

theorem ReadSide.Step.readEnded_mem {r r' : ReadSide} {closed : Bool} {a : Action}
    {os : List Label} (hs : r.Step closed a os r') : .readEnded ∈ os ↔ a = .onReadEof := by
  cases hs with
  | readSome sizes stopped hidle =>
      refine iff_of_false (fun hmem => ?_) (by simp)
      unfold ReadSide.readSome at hmem
      dsimp only at hmem
      split at hmem
      · exact ReadSide.finishRead_not_readEnded _ _ hmem
      · split at hmem
        · exact ReadSide.finishRead_not_readEnded _ _ hmem
        · exact (ReadSide.parkRead_readEof _ _).2 hmem
  | resumeRead r' os hresume =>
      refine iff_of_false (fun hmem => ?_) (by simp)
      obtain ⟨f, w, -, -, ⟨res, heq, -⟩ | ⟨-, -, heq⟩⟩ := ReadSide.resumeRead_eq_some hresume
      · rw [show os = (ReadSide.finishRead _ res).2 from congrArg Prod.snd heq] at hmem
        exact ReadSide.finishRead_not_readEnded _ _ hmem
      · rw [show os = (ReadSide.parkRead _ f).2 from congrArg Prod.snd heq] at hmem
        exact (ReadSide.parkRead_readEof _ _).2 hmem
  | other a os ha hos =>
      refine iff_of_false (fun hmem => absurd (hos _ hmem) (by simp [Label.isRead])) ?_
      rintro rfl
      cases ha
  | _ => simp

theorem Stream.step_closed_mem {s s' : Stream} {a : Action} {os : List Label}
    (h : s.step a = some (s', os)) : .closed ∈ os ↔ a = .onClose := by
  refine ⟨fun hmem => ?_, ?_⟩
  · by_contra ha
    rcases hw : a.isWrite with _ | _
    · exact ((Stream.step_frame_write h hw).2.2 _ hmem).2 rfl
    · exact ((Stream.step_of_isWrite h hw ha).2 _ hmem).silent.2.2 rfl
  · rintro rfl
    cases h
    exact List.mem_singleton_self _

theorem Stream.step_closed_label {s s' : Stream} {a : Action} {os : List Label}
    (h : s.step a = some (s', os)) :
    (s'.closed = true ↔ s.closed = true ∨ .closed ∈ os) := by
  rw [Stream.step_closed h, Bool.or_eq_true, decide_eq_true_eq, Stream.step_closed_mem h]

theorem flags_run {ok : Cell → Action → Prop} {tr : List Label} {c : Cell}
    (run : cellMachine.Run ok tr c) :
    (c.stream.closed = true ↔ .closed ∈ tr) ∧
      (c.stream.read.readEof = true ↔ .readEnded ∈ tr) := by
  refine run.invariant (I := fun tr c => (c.stream.closed = true ↔ .closed ∈ tr) ∧
    (c.stream.read.readEof = true ↔ .readEnded ∈ tr)) ?_ ?_
  · rintro c ⟨id, submitted, rfl⟩
    simp [Cell.fresh]
  · rintro tr c a c' os ⟨hclosed, heof⟩ - hs
    have hstream := (Cell.step_eq_some hs).2.1
    rw [Stream.step_closed_label hstream, (Stream.step_read hstream).readEof, hclosed, heof]
    simp

/-! ### Runs -/

/-- In every run the bytes delivered are those returned and those still held,
and credit was granted for those returned. -/
theorem ReadSide.balance_run {ok : Cell → Action → Prop} {tr : List Label} {c : Cell}
    (run : cellMachine.Run ok tr c) :
    c.stream.read.Inv ∧ consumed tr = (returned tr).length ∧
      (delivered tr).Perm (returned tr ++ c.stream.read.contents) := by
  refine run.invariant (I := fun tr c => c.stream.read.Inv ∧ consumed tr = (returned tr).length ∧
    (delivered tr).Perm (returned tr ++ c.stream.read.contents)) ?_ ?_
  · rintro c ⟨id, submitted, rfl⟩
    exact ⟨ReadSide.inv_fresh, rfl, .nil⟩
  · rintro tr c a c' os ⟨hinv, hconsumed, hperm⟩ - hs
    obtain ⟨hinv', hconsumed', hperm'⟩ := hinv.step (Stream.step_read (Cell.step_eq_some hs).2.1)
    refine ⟨hinv', ?_, ?_⟩
    · rw [consumed_append, returned_append, List.length_append, hconsumed, hconsumed']
    · rw [delivered_append, returned_append, List.append_assoc]
      refine (hperm.append_right (delivered os)).trans ?_
      rw [List.append_assoc]
      exact hperm'.append_left (returned tr)

/-- The runs in which every read has a destination of at least one byte in at
most `max_iovec_` buffers. -/
def destinationOk (_ : Cell) (a : Action) : Prop := a.HasRoom ∧ a.FewBuffers

instance : DecidableRel destinationOk := fun _ a =>
  inferInstanceAs (Decidable (a.HasRoom ∧ a.FewBuffers))

/-- In a run with sufficient destinations no byte overtakes another. -/
theorem ReadSide.queue_run {tr : List Label} {c : Cell} (run : cellMachine.Run destinationOk tr c) :
    c.stream.read.Ordered ∧ delivered tr = returned tr ++ c.stream.read.contents := by
  have hqueue := run.queue (I := fun c => c.stream.read.Inv ∧ c.stream.read.Ordered)
    Label.deliveredBytes Label.returnedBytes (fun c => c.stream.read.contents) ?_ ?_
  · exact ⟨hqueue.1.2, hqueue.2⟩
  · rintro c ⟨id, submitted, rfl⟩
    exact ⟨⟨ReadSide.inv_fresh, ReadSide.ordered_of_none rfl⟩, rfl⟩
  · intro c a c' os hI hok hs
    have hread := Stream.step_read (Cell.step_eq_some hs).2.1
    obtain ⟨hord, hcontents⟩ := hI.1.step_ordered hI.2 hread hok.2
    exact ⟨⟨(hI.1.step hread).1, hord⟩, hcontents⟩

/-- The read side is a queue of bytes: what `on_data` was given is what the
completed reads returned, followed by what the suspended read has received,
followed by what is still buffered. And a read that completes without an error
returns something. -/
theorem read_side_is_fifo {tr : List Label} {c : Cell} (run : cellMachine.Run destinationOk tr c) :
    returned tr ++ c.stream.read.inSink ++ c.stream.read.unread = delivered tr ∧
      ∀ bytes, .readReturned ⟨none, bytes⟩ ∈ tr → bytes ≠ [] := by
  refine ⟨?_, ?_⟩
  · rw [List.append_assoc]
    exact (ReadSide.queue_run run).2.symm
  · refine (run.invariant (I := fun tr c => c.stream.read.Inv ∧
      ∀ bytes, .readReturned ⟨none, bytes⟩ ∈ tr → bytes ≠ []) ?_ ?_).2
    · rintro c ⟨id, submitted, rfl⟩
      exact ⟨ReadSide.inv_fresh, by simp⟩
    · rintro tr c a c' os hI - hs
      have hread := Stream.step_read (Cell.step_eq_some hs).2.1
      refine ⟨(hI.1.step hread).1, fun bytes hmem => ?_⟩
      rcases List.mem_append.mp hmem with hmem | hmem
      · exact hI.2 bytes hmem
      · exact (hread.clean hI.1 hmem).mp rfl

/-- A run that takes both delivery paths: a chunk is taken in two parts, then a
read is parked, stopped, and receives a delivery that is too large for it and a
second one before it resumes. -/
theorem read_side_is_fifo_of_race :
    ∃ tr c, cellMachine.Run destinationOk tr c ∧ returned tr = [1, 2, 3] ∧
      c.stream.read.inSink = [4, 5, 6] ∧ c.stream.read.unread = [7, 8] ∧
      returned tr ++ c.stream.read.inSink ++ c.stream.read.unread = delivered tr := by
  obtain ⟨tr, c, run, hreturned, hsink, hunread⟩ :
      ∃ tr c, cellMachine.Run destinationOk tr c ∧ returned tr = [1, 2, 3] ∧
        c.stream.read.inSink = [4, 5, 6] ∧ c.stream.read.unread = [7, 8] :=
    Machine.run_of_exec (cellMachine_init 1 true)
      [.onData [1, 2, 3], .readSome [2] false, .readSome [4] false, .readSome [2, 1] false,
        .stopRead, .onData [4, 5, 6, 7], .onData [8]] (by decide)
  exact ⟨tr, c, run, hreturned, hsink, hunread, (read_side_is_fifo run).1⟩

/-! ### No wake-up is lost -/

theorem ReadSide.finishRead_mem (r : ReadSide) (res : ReadResult) :
    .readReturned res ∈ (r.finishRead res).2 := by
  simp [ReadSide.finishRead]

/-- A resumption that finds something to report completes the read. -/
theorem ReadSide.Roomy.resumeRead_completes {r r' : ReadSide} {closed : Bool} {os : List Label}
    {f : ReadFrame} (hroomy : r.Roomy) (hf : r.reader = some f)
    (hchanged : r.chunks ≠ [] ∨ f.copied ≠ [] ∨ r.readEof = true ∨ closed = true ∨
      f.stopped = true)
    (hresume : r.resumeRead closed = some (r', os)) :
    r'.reader = none ∧ ∃ res, .readReturned res ∈ os := by
  obtain ⟨f', w, hf', -, ⟨res, heq, -⟩ | ⟨-, hnone, heq⟩⟩ := ReadSide.resumeRead_eq_some hresume
  · obtain ⟨rfl, rfl⟩ := Prod.ext_iff.mp heq
    exact ⟨rfl, res, ReadSide.finishRead_mem _ res⟩
  · obtain rfl : f = f' := by simpa [hf] using hf'
    obtain ⟨rfl, rfl⟩ := Prod.ext_iff.mp heq
    -- all that is left to have changed is the token, and under a stopped token no wait begins
    obtain ⟨hcopied, heof, hopen⟩ := ReadSide.woken_eq_none hnone
    have hstopped : f.stopped = true := by
      simpa [(hroomy f hf hcopied).2, hcopied, heof, hopen] using hchanged
    rcases ReadSide.parkRead_cases
        { r with readSink := false, readReady := r.readReady.resume (), reader := none } f with
      ⟨hrunning, -⟩ | ⟨-, hpark⟩
    · rw [hrunning] at hstopped
      cases hstopped
    · rw [hpark]
      exact ⟨rfl, f.canceled, ReadSide.finishRead_mem _ _⟩

/-- A resumption that is posted can run. -/
theorem Cell.resumeRead_of_posted {c : Cell} (hinv : c.stream.read.Inv) {w : Wake}
    (hw : c.stream.read.readReady.waiter () = .posted w) :
    (c.step .resumeRead).isSome = true := by
  have hresume : (c.stream.read.resumeRead c.stream.closed).isSome = true := by
    cases hr : c.stream.read.reader with
    | none =>
        rw [hinv.suspended.mp hr] at hw
        cases hw
    | some f =>
        unfold ReadSide.resumeRead
        rw [hr, hw]
        cases w with
        | canceled => rfl
        | signalled =>
            dsimp only
            split <;> rfl
  simpa [Cell.step, Provider.allows, Stream.step] using hresume

theorem ReadSide.waits_run {tr : List Label} {c : Cell} (run : cellMachine.Run destinationOk tr c) :
    c.stream.read.Roomy ∧ c.stream.read.Waits c.stream.closed := by
  refine run.invariant_along
    (I := fun _ c => c.stream.read.Roomy ∧ c.stream.read.Waits c.stream.closed) ?_ ?_
  · rintro c ⟨id, submitted, rfl⟩
    exact ⟨ReadSide.roomy_of_none rfl, fun hwait => by cases hwait⟩
  · rintro tr c a c' os run ⟨hroomy, hwaits⟩ hok hs
    have hinv := (ReadSide.balance_run run).1
    have hstream := (Cell.step_eq_some hs).2.1
    have hread := Stream.step_read hstream
    refine ⟨hinv.step_roomy hroomy hread hok.1, ?_⟩
    rw [Stream.step_closed hstream]
    exact hwaits.step hinv hread

/-- No wake-up of a reader is lost. A read that waits with no resumption posted
has nothing to report; a resumption that is posted can run, and one that finds
something to report completes the read; and the sink is published exactly while a
read is suspended. -/
theorem no_lost_read_wakeup {tr : List Label} {c : Cell}
    (run : cellMachine.Run destinationOk tr c) :
    (c.stream.read.readReady.waiter () = .waiting →
        c.stream.read.chunks = [] ∧ c.stream.read.inSink = [] ∧ c.stream.read.readEof = false ∧
        c.stream.closed = false ∧ ∀ f, c.stream.read.reader = some f → f.stopped = false) ∧
      (∀ w, c.stream.read.readReady.waiter () = .posted w →
        (cellMachine.step c .resumeRead).isSome = true) ∧
      (∀ f c' os, c.stream.read.reader = some f →
        c.stream.read.chunks ≠ [] ∨ f.copied ≠ [] ∨ c.stream.read.readEof = true ∨
          c.stream.closed = true ∨ f.stopped = true →
        cellMachine.step c .resumeRead = some (c', os) →
        c'.stream.read.reader = none ∧ ∃ res, .readReturned res ∈ os) ∧
      (c.stream.read.readSink = true ↔ c.stream.read.reader.isSome = true) ∧
      (c.stream.read.reader.isSome = true ↔ c.stream.read.readReady.waiter () ≠ .idle) := by
  obtain ⟨hroomy, hwaits⟩ := ReadSide.waits_run run
  have hinv := (ReadSide.balance_run run).1
  refine ⟨fun hwait => ?_, fun w => Cell.resumeRead_of_posted hinv,
    fun f c' os hf hchanged hs => ?_, ?_, ?_⟩
  · obtain ⟨heof, hopen, hframe⟩ := hwaits hwait
    cases hr : c.stream.read.reader with
    | none =>
        rw [hinv.suspended.mp hr] at hwait
        cases hwait
    | some f =>
        obtain ⟨hcopied, hstopped⟩ := hframe f hr
        refine ⟨(hroomy f hr hcopied).2, ?_, heof, hopen, fun f' hf' => ?_⟩
        · simpa [ReadSide.inSink, hr] using hcopied
        · obtain rfl : f = f' := by simpa using hf'
          exact hstopped
  · have hstep : c.step .resumeRead = some (c', os) := hs
    obtain ⟨⟨r', os'⟩, hresume, heq⟩ := Option.map_eq_some_iff.mp (Cell.step_eq_some hstep).2.1
    rw [Prod.mk.injEq] at heq
    rw [← heq.1, ← heq.2]
    exact hroomy.resumeRead_completes hf hchanged hresume
  · rw [hinv.sink]
  · rw [Option.isSome_iff_ne_none, ne_eq, hinv.suspended]

/-- An empty delivery wakes a read for nothing. A stop request that comes before
the resumption is still noticed by it: it runs, and the read does not wait again. -/
theorem no_lost_read_wakeup_of_stop :
    ∃ tr c f, cellMachine.Run destinationOk tr c ∧ c.stream.read.reader = some f ∧
      f.stopped = true ∧ c.stream.read.readReady.waiter () = .posted .signalled ∧
      ∃ c' os, cellMachine.step c .resumeRead = some (c', os) ∧
        c'.stream.read.reader = none ∧ ∃ res, .readReturned res ∈ os := by
  obtain ⟨tr, c, run, hstopped, hposted⟩ :
      ∃ tr c, cellMachine.Run destinationOk tr c ∧
        c.stream.read.reader.any ReadFrame.stopped = true ∧
        c.stream.read.readReady.waiter () = .posted .signalled :=
    Machine.run_of_exec (cellMachine_init 1 true)
      [.readSome [2] false, .onData [], .stopRead] (by decide)
  obtain ⟨f, hf, hstopped⟩ : ∃ f, c.stream.read.reader = some f ∧ f.stopped = true := by
    cases hr : c.stream.read.reader with
    | none => simp [hr] at hstopped
    | some f => exact ⟨f, rfl, by simpa [hr] using hstopped⟩
  have hall := no_lost_read_wakeup run
  obtain ⟨⟨c', os⟩, hs⟩ := Option.isSome_iff_exists.mp (hall.2.1 _ hposted)
  exact ⟨tr, c, f, run, hf, hstopped, hposted, c', os, hs,
    hall.2.2.1 f c' os hf (.inr (.inr (.inr (.inr hstopped)))) hs⟩

end Nghttp2Corosio
