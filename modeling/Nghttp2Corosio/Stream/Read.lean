import Nghttp2Corosio.Stream.Basic

/-!
The read side of a `Stream`: `on_data`, `on_read_eof`, `on_close` as far as it
concerns reading, and the coroutine `read_some`.

`read_some` runs without interruption from its start, or from a resumption, to
its next `co_await read_ready_.wait()` or to its end. Each such stretch is one
function here. A suspended call keeps its locals in a `ReadFrame`: the
destination `bp`, what its `Sink` has received, and whether a stop was
requested on its token. The source counts the bytes in the sink, `copied`; the
frame has the bytes themselves, which are in the caller's buffers.

`read_sink_` is a pointer that is either null or points at the sink of the one
suspended call, so the model keeps whether it is null.

`closed_` belongs to both sides of the stream and is passed in.
-/

namespace Nghttp2Corosio

open Async Buffers Runs

structure ReadFrame where
  bp : Window maxIovec
  copied : Bytes
  stopped : Bool

structure ReadSide where
  chunks : List Bytes := []
  frontOffset : ℕ := 0
  readSink : Bool := false
  readEof : Bool := false
  readReady : Event Unit := {}
  /-- The frame of the suspended `read_some`. -/
  reader : Option ReadFrame := none

/-- `Sink::put`, which copies into the window that `bp.data()` exposes. -/
def ReadFrame.put (f : ReadFrame) (data : Bytes) : ReadFrame × ℕ :=
  let n := f.bp.fits data.length
  ({ f with bp := f.bp.put data.length, copied := f.copied ++ data.take n }, n)

/-- `if (len) chunks_.emplace_back(…)` -/
def pushChunk (chunks : List Bytes) (data : Bytes) : List Bytes :=
  if data.isEmpty then chunks else chunks ++ [data]

def ReadSide.onData (r : ReadSide) (data : Bytes) : ReadSide :=
  match r.readSink, r.reader with
  | true, some f =>
      { r with
        reader := some (f.put data).1
        chunks := pushChunk r.chunks (data.drop (f.put data).2)
        readReady := r.readReady.set }
  | _, _ => { r with chunks := pushChunk r.chunks data, readReady := r.readReady.set }

def ReadSide.onReadEof (r : ReadSide) : ReadSide :=
  { r with readEof := true, readReady := r.readReady.set }

/-- The part of `on_close` that wakes a suspended read. -/
def ReadSide.onClose (r : ReadSide) : ReadSide := { r with readReady := r.readReady.set }

def ReadSide.eofError (r : ReadSide) : Error :=
  if r.readEof then .eof else .streamTruncated

structure Drain where
  chunks : List Bytes
  frontOffset : ℕ
  bp : Window maxIovec
  got : Bytes

/-- One round of the drain loop; `none` when it breaks. -/
def Drain.round (d : Drain) : Option Drain :=
  match d.chunks with
  | [] => none
  | chunk :: rest =>
      if d.bp.refill.front = [] then none
      else
        let src := chunk.drop d.frontOffset
        let n := d.bp.fits src.length
        let d' := { d with bp := d.bp.put src.length, got := d.got ++ src.take n }
        if d.frontOffset + n = chunk.length then
          some { d' with chunks := rest, frontOffset := 0 }
        else some { d' with frontOffset := d.frontOffset + n }

/-- The drain loop. Every round takes a byte or pops a chunk, which is where
the bound on the rounds comes from. -/
def ReadSide.drain (r : ReadSide) (bp : Window maxIovec) : Drain :=
  loop Drain.round (r.chunks.flatten.length + r.chunks.length + 1)
    ⟨r.chunks, r.frontOffset, bp, []⟩

/-- `read_some` completes; with bytes, it has passed their number to
`consume()` before. -/
def ReadSide.finishRead (r : ReadSide) (res : ReadResult) : ReadSide × List Label :=
  let consume := [.call (.consumeStream res.bytes.length), .call .startWrite]
  (r, (if res.ec = none then consume else []) ++ [.readReturned res])

/-- What `read_some` returns when its wait was canceled: a delivery that got
in first still counts. -/
def ReadFrame.canceled (f : ReadFrame) : ReadResult :=
  if f.copied.isEmpty then ⟨some .canceled, []⟩ else ⟨none, f.copied⟩

/-- What `read_some` returns when it was woken; `none` if it waits again. -/
def ReadSide.woken (r : ReadSide) (closed : Bool) (f : ReadFrame) : Option ReadResult :=
  if !f.copied.isEmpty then some ⟨none, f.copied⟩
  else if r.readEof || closed then some ⟨some r.eofError, []⟩
  else none

/-- The top of the waiting loop: publish the sink, clear the event and wait. -/
def ReadSide.parkRead (r : ReadSide) (f : ReadFrame) : ReadSide × List Label :=
  let (ev, suspended) := r.readReady.clearWait () f.stopped
  if suspended then ({ r with readSink := true, readReady := ev, reader := some f }, [])
  else { r with readSink := false, readReady := ev, reader := none }.finishRead f.canceled

/-- `read_some` is called with destination buffers of the given sizes, under a
token that is `stopped` or not. -/
def ReadSide.readSome (r : ReadSide) (closed : Bool) (sizes : List ℕ) (stopped : Bool) :
    ReadSide × List Label :=
  let d := r.drain (Window.ofSizes maxIovec sizes)
  let r := { r with chunks := d.chunks, frontOffset := d.frontOffset }
  if !d.got.isEmpty then r.finishRead ⟨none, d.got⟩
  else if r.readEof || closed then r.finishRead ⟨some r.eofError, []⟩
  else r.parkRead ⟨d.bp, [], stopped⟩

def ReadSide.stopRead (r : ReadSide) : Option ReadSide :=
  r.reader.map fun f =>
    { r with reader := some { f with stopped := true }, readReady := r.readReady.stop () }

/-- The posted resumption of `read_some` runs. -/
def ReadSide.resumeRead (r : ReadSide) (closed : Bool) : Option (ReadSide × List Label) :=
  match r.reader, r.readReady.waiter () with
  | some f, .posted w =>
      let r := { r with readSink := false, readReady := r.readReady.resume (), reader := none }
      match w with
      -- canceled or not, a delivery may have reached the sink in the meantime
      | .canceled => some (r.finishRead f.canceled)
      | .signalled =>
          match r.woken closed f with
          | some res => some (r.finishRead res)
          | none => some (r.parkRead f)
  | _, _ => none

/-! ### Labels -/

theorem ReadSide.finishRead_labels (r : ReadSide) (res : ReadResult) :
    ∀ l ∈ (r.finishRead res).2, l.OfRead := by
  intro l hl
  simp only [ReadSide.finishRead, List.mem_append, List.mem_singleton] at hl
  rcases hl with hl | rfl
  · split at hl
    · rcases List.mem_cons.mp hl with rfl | hl
      · exact .inl rfl
      · exact .inr (List.mem_singleton.mp hl)
    · cases hl
  · exact .inl rfl

theorem ReadSide.parkRead_labels (r : ReadSide) (f : ReadFrame) :
    ∀ l ∈ (r.parkRead f).2, l.OfRead := by
  unfold ReadSide.parkRead
  cases f.stopped with
  | true => exact ReadSide.finishRead_labels _ _
  | false => simp

theorem ReadSide.readSome_labels (r : ReadSide) (closed : Bool) (sizes : List ℕ)
    (stopped : Bool) : ∀ l ∈ (r.readSome closed sizes stopped).2, l.OfRead := by
  simp only [ReadSide.readSome]
  split
  · exact ReadSide.finishRead_labels _ _
  · split
    · exact ReadSide.finishRead_labels _ _
    · exact ReadSide.parkRead_labels _ _

theorem ReadSide.resumeRead_eq_some {r r' : ReadSide} {closed : Bool} {os : List Label}
    (h : r.resumeRead closed = some (r', os)) :
    ∃ f w, r.reader = some f ∧ r.readReady.waiter () = .posted w ∧
      ((∃ res, (r', os) = ReadSide.finishRead
          { r with readSink := false, readReady := r.readReady.resume (), reader := none } res ∧
          (w = .canceled ∧ res = f.canceled ∨ w = .signalled ∧ r.woken closed f = some res)) ∨
        w = .signalled ∧ r.woken closed f = none ∧ (r', os) = ReadSide.parkRead
          { r with readSink := false, readReady := r.readReady.resume (), reader := none } f) := by
  unfold ReadSide.resumeRead at h
  split at h
  · rename_i f w hf hw
    refine ⟨f, w, hf, hw, ?_⟩
    cases w with
    | canceled =>
        simp only [Option.some.injEq] at h
        exact .inl ⟨_, h.symm, .inl ⟨rfl, rfl⟩⟩
    | signalled =>
        simp only at h
        split at h
        · rename_i res hres
          simp only [Option.some.injEq] at h
          exact .inl ⟨res, h.symm, .inr ⟨rfl, hres⟩⟩
        · rename_i hres
          simp only [Option.some.injEq] at h
          exact .inr ⟨rfl, hres, h.symm⟩
  · cases h

theorem ReadSide.resumeRead_labels {r r' : ReadSide} {closed : Bool} {os : List Label}
    (h : r.resumeRead closed = some (r', os)) : ∀ l ∈ os, l.OfRead := by
  obtain ⟨f, w, -, -, ⟨res, heq, -⟩ | ⟨-, -, heq⟩⟩ := ReadSide.resumeRead_eq_some h
  · rw [show os = (ReadSide.finishRead _ res).2 from congrArg Prod.snd heq]
    exact ReadSide.finishRead_labels _ _
  · rw [show os = (ReadSide.parkRead _ f).2 from congrArg Prod.snd heq]
    exact ReadSide.parkRead_labels _ _

/-! ### The queue that the read side is

The bytes already in the sink of the suspended call, and the bytes in
`chunks_` that no call has taken yet. -/

def ReadSide.inSink (r : ReadSide) : Bytes := (r.reader.map ReadFrame.copied).getD []

def ReadSide.unread (r : ReadSide) : Bytes := r.chunks.flatten.drop r.frontOffset

def ReadSide.contents (r : ReadSide) : Bytes := r.inSink ++ r.unread

/-- The chunks are non-empty and at most the front one is partially taken. -/
def ChunksOk (chunks : List Bytes) (frontOffset : ℕ) : Prop :=
  (∀ c ∈ chunks, c ≠ []) ∧ ∀ c ∈ chunks.head?, frontOffset < c.length

theorem ChunksOk.offset_lt {c : Bytes} {rest : List Bytes} {off : ℕ}
    (h : ChunksOk (c :: rest) off) : off < c.length := h.2 c rfl

theorem chunksOk_zero {chunks : List Bytes} (h : ∀ c ∈ chunks, c ≠ []) : ChunksOk chunks 0 :=
  ⟨h, fun c hc => List.length_pos_of_ne_nil (h c (List.mem_of_mem_head? hc))⟩

theorem flatten_pushChunk (chunks : List Bytes) (data : Bytes) :
    (pushChunk chunks data).flatten = chunks.flatten ++ data := by
  unfold pushChunk
  split
  · rename_i h
    simp [List.isEmpty_iff.mp h]
  · simp

theorem pushChunk_eq_nil {chunks : List Bytes} {data : Bytes} :
    pushChunk chunks data = [] ↔ chunks = [] ∧ data = [] := by
  unfold pushChunk
  split
  · rename_i h
    simp [List.isEmpty_iff.mp h]
  · rename_i h
    simpa using fun _ => h

theorem ChunksOk.push {chunks : List Bytes} {off : ℕ} (h : ChunksOk chunks off)
    (hoff : chunks = [] → off = 0) (data : Bytes) : ChunksOk (pushChunk chunks data) off := by
  unfold pushChunk
  split
  · exact h
  · rename_i hdata
    have hdata : data ≠ [] := by simpa using hdata
    refine ⟨fun c hc => ?_, fun c hc => ?_⟩
    · rcases List.mem_append.mp hc with hc | hc
      · exact h.1 c hc
      · rwa [List.mem_singleton.mp hc]
    · cases chunks with
      | nil =>
          obtain rfl : data = c := by simpa using hc
          rw [hoff rfl]
          exact List.length_pos_of_ne_nil hdata
      | cons c' rest => exact h.2 c (by simpa using hc)

theorem ChunksOk.offset_le {chunks : List Bytes} {off : ℕ} (h : ChunksOk chunks off)
    (hoff : chunks = [] → off = 0) : off ≤ chunks.flatten.length := by
  cases chunks with
  | nil => simp [hoff rfl]
  | cons c rest =>
      have := h.offset_lt
      simp only [List.flatten_cons, List.length_append]
      omega

/-! ### The drain loop -/

def Drain.unread (d : Drain) : Bytes := d.chunks.flatten.drop d.frontOffset

/-- What every round of the drain loop preserves, from a start with the given
contents and room. -/
structure Drain.Inv (contents : Bytes) (room : ℕ) (d : Drain) : Prop where
  chunks : ChunksOk d.chunks d.frontOffset
  offset : d.chunks = [] → d.frontOffset = 0
  contents : d.got ++ d.unread = contents
  room : d.got.length + d.bp.room = room

theorem Drain.round_inv {contents : Bytes} {room : ℕ} {d d' : Drain}
    (h : d.Inv contents room) (hround : d.round = some d') :
    d'.Inv contents room ∧
      d'.unread.length + d'.chunks.length < d.unread.length + d.chunks.length := by
  obtain ⟨chunks, off, bp, got⟩ := d
  obtain ⟨hchunks, -, hcontents, hroom⟩ := h
  cases chunks with
  | nil => simp [Drain.round] at hround
  | cons chunk rest =>
      have hoff : off < chunk.length := hchunks.offset_lt
      have hrest : ∀ c ∈ rest, c ≠ [] := fun c hc => hchunks.1 c (List.mem_cons_of_mem _ hc)
      have hunread : (chunk :: rest).flatten.drop off = chunk.drop off ++ rest.flatten :=
        List.drop_append_of_le_length hoff.le
      have hle : bp.fits (chunk.drop off).length ≤ chunk.length - off :=
        (bp.fits_le _).trans (List.length_drop ..).le
      set n := bp.fits (chunk.drop off).length with hn
      have hleroom : n ≤ bp.room := bp.fits_le_room _
      simp only [Drain.round] at hround
      split at hround
      · cases hround
      · rename_i hfront
        -- the window is not exhausted and the front chunk is not either, so something is copied
        have hpos : 0 < n := by
          refine Window.fits_pos maxIovec_pos ?_ (by simp; omega)
          rw [Window.refill_front_eq_nil maxIovec_pos] at hfront
          omega
        have hgot : (got ++ (chunk.drop off).take n).length = got.length + n := by
          simp
          omega
        have hroom' : (got ++ (chunk.drop off).take n).length +
            (bp.put (chunk.drop off).length).room = room := by
          rw [hgot, Window.room_put, ← hn]
          simp only at hroom
          omega
        simp only [Drain.unread, hunread] at hcontents
        split at hround
        · rename_i hfull
          cases hround
          have htake : (chunk.drop off).take n = chunk.drop off :=
            List.take_of_length_le (by simp; omega)
          refine ⟨⟨chunksOk_zero hrest, fun _ => rfl, ?_, hroom'⟩, ?_⟩
          · simp only [Drain.unread, ← hn, htake, List.drop_zero, List.append_assoc]
            exact hcontents
          · simp only [Drain.unread, hunread, List.drop_zero, List.length_append,
              List.length_cons]
            omega
        · rename_i hpart
          cases hround
          have hlt : off + n < chunk.length := by omega
          have hdrop : (chunk :: rest).flatten.drop (off + n) =
              (chunk.drop off).drop n ++ rest.flatten := by
            rw [List.drop_drop]
            exact List.drop_append_of_le_length hlt.le
          refine ⟨⟨⟨hchunks.1, fun c hc => ?_⟩, by simp, ?_, hroom'⟩, ?_⟩
          · obtain rfl : chunk = c := by simpa using hc
            exact hlt
          · simp only [Drain.unread, hdrop, ← hn, List.append_assoc]
            rw [← List.append_assoc (List.take _ _), List.take_append_drop]
            exact hcontents
          · simp only [Drain.unread, ← hn, hunread, hdrop]
            simp only [List.length_append, List.length_drop]
            omega

/-- A loop that breaks has emptied `chunks_` or filled the destination. -/
theorem Drain.round_eq_none {d : Drain} (h : d.round = none) : d.chunks = [] ∨ d.bp.room = 0 := by
  obtain ⟨chunks, off, bp, got⟩ := d
  cases chunks with
  | nil => exact .inl rfl
  | cons chunk rest =>
      simp only [Drain.round] at h
      split at h
      · rename_i hfront
        exact .inr ((Window.refill_front_eq_nil maxIovec_pos bp).mp hfront)
      · split at h <;> cases h

theorem Drain.round_whole {d d' : Drain} (h : d.bp.Whole) (hround : d.round = some d') :
    d'.bp.Whole := by
  obtain ⟨chunks, off, bp, got⟩ := d
  cases chunks with
  | nil => simp [Drain.round] at hround
  | cons chunk rest =>
      simp only [Drain.round] at hround
      split at hround
      · cases hround
      · split at hround <;> cases hround <;> exact h.put _

/-- What the drain loop does: it takes a prefix of the unread bytes, and stops
only when there are none left or the destination is full. -/
theorem ReadSide.drain_spec {r : ReadSide} (hchunks : ChunksOk r.chunks r.frontOffset)
    (hoff : r.chunks = [] → r.frontOffset = 0) (bp : Window maxIovec) :
    (r.drain bp).Inv r.unread bp.room ∧
      ((r.drain bp).chunks = [] ∨ (r.drain bp).bp.room = 0) := by
  have hstart : Drain.Inv r.unread bp.room ⟨r.chunks, r.frontOffset, bp, []⟩ :=
    ⟨hchunks, hoff, rfl, by simp⟩
  have hstep : ∀ d d' : Drain, d.Inv r.unread bp.room → d.round = some d' →
      d'.Inv r.unread bp.room ∧
        d'.unread.length + d'.chunks.length < d.unread.length + d.chunks.length :=
    fun d d' h hround => Drain.round_inv h hround
  refine ⟨loop_invariant (fun d d' h hround => (hstep d d' h hround).1) _ hstart, ?_⟩
  refine Drain.round_eq_none (loop_breaks _ hstep hstart ?_)
  simp only [Drain.unread, List.length_drop]
  omega

theorem ReadSide.drain_whole {r : ReadSide} {bp : Window maxIovec} (h : bp.Whole) :
    (r.drain bp).bp.Whole :=
  loop_invariant (I := fun d : Drain => d.bp.Whole) (fun _ _ hd => Drain.round_whole hd) _ h

end Nghttp2Corosio
