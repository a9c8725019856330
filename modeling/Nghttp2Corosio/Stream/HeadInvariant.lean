import Nghttp2Corosio.Stream.ReadInvariant

/-!
What the header side of a stream knows, and what `get_response()` makes of it.

`Head.Captured` relates the captured head to the fields that were received. A
`get_response()` reads the head at the moment it goes on, so its result is a
function of the fields received by then: `response_complete_iff` says exactly
when that is the response the peer sent.

A call of `status()` clears `status_ready_` and waits, without a look at
`closed_`. On a stream that was closed without a status nothing is going to set
the event again. `statusAsked` rules such calls out, and
`get_response_never_stuck` is what holds of the others.
-/

namespace Nghttp2Corosio

open Async Buffers Runs

/-- The status that the fields carry, the last one if there are several. -/
def statusOf (fs : List (Bytes × Bytes)) : Option ℕ :=
  (fs.filterMap fun f => if f.1 = ascii ":status" then some (parseStatus f.2) else none).getLast?

/-- The content length that the fields carry, the last well-formed one. -/
def contentLengthOf (fs : List (Bytes × Bytes)) : Option ℕ :=
  (fs.filterMap fun f =>
    if f.1 = ascii "content-length" then parseContentLength f.2 else none).getLast?

def headersOf (fs : List (Bytes × Bytes)) : List (Bytes × Bytes) :=
  fs.filter fun f => ¬IsPseudo f.1

theorem statusOf_append (fs : List (Bytes × Bytes)) (name value : Bytes) :
    statusOf (fs ++ [(name, value)]) =
      if name = ascii ":status" then some (parseStatus value) else statusOf fs := by
  unfold statusOf
  rw [List.filterMap_append, List.getLast?_append]
  by_cases hname : name = ascii ":status" <;> simp [hname]

theorem contentLengthOf_append (fs : List (Bytes × Bytes)) (name value : Bytes) :
    contentLengthOf (fs ++ [(name, value)]) =
      if name = ascii "content-length" then (parseContentLength value).or (contentLengthOf fs)
      else contentLengthOf fs := by
  unfold contentLengthOf
  rw [List.filterMap_append, List.getLast?_append]
  by_cases hname : name = ascii "content-length"
  · cases hparse : parseContentLength value <;> simp [hname, hparse]
  · simp [hname]

/-- The head is what the fields `fs` leave in it. -/
structure Head.Captured (fs : List (Bytes × Bytes)) (h : Head) : Prop where
  headers : h.headers = headersOf fs
  contentLength : h.contentLength = contentLengthOf fs
  status : h.status = ((statusOf fs).map castInt).getD (-1)

theorem Head.captured_fresh : Head.Captured [] {} := ⟨rfl, rfl, rfl⟩

theorem Head.Captured.pseudo {fs : List (Bytes × Bytes)} {h : Head} (hc : h.Captured fs)
    {name : Bytes} (hname : IsPseudo name) (value : Bytes) :
    h.headers = headersOf (fs ++ [(name, value)]) ∧
      h.contentLength = contentLengthOf (fs ++ [(name, value)]) := by
  have hlen : name ≠ ascii "content-length" := by
    rintro rfl
    exact absurd hname (by decide)
  refine ⟨?_, ?_⟩
  · rw [hc.headers]
    simp [headersOf, hname]
  · rw [contentLengthOf_append, if_neg hlen, hc.contentLength]

theorem Head.Captured.onHeader {fs : List (Bytes × Bytes)} {h : Head} (hc : h.Captured fs)
    (name value : Bytes) : (h.onHeader name value).Captured (fs ++ [(name, value)]) := by
  by_cases hname : IsPseudo name
  · obtain ⟨hheaders, hlen⟩ := hc.pseudo hname value
    by_cases hstatus : name = ascii ":status"
    · subst hstatus
      rw [Head.onHeader_status]
      refine ⟨hheaders, hlen, ?_⟩
      rw [statusOf_append, if_pos rfl]
      rfl
    · have hsame : h.status = ((statusOf (fs ++ [(name, value)])).map castInt).getD (-1) := by
        rw [statusOf_append, if_neg hstatus, hc.status]
      unfold Head.onHeader
      by_cases hpath : name = ascii ":path"
      · rw [if_pos hpath]
        exact ⟨hheaders, hlen, hsame⟩
      · rw [if_neg hpath, if_neg hstatus, if_pos hname]
        exact ⟨hheaders, hlen, hsame⟩
  · have hstatus : name ≠ ascii ":status" := by
      rintro rfl
      exact hname (by decide)
    rw [Head.onHeader_of_not_pseudo h hname]
    refine ⟨?_, ?_, ?_⟩
    · simp [headersOf, hname, hc.headers]
    · rw [contentLengthOf_append, hc.contentLength]
    · rw [statusOf_append, if_neg hstatus]
      exact hc.status

theorem Head.Captured.of_event {fs : List (Bytes × Bytes)} {h : Head} (hc : h.Captured fs)
    (ev : Event ℕ) : ({ h with statusReady := ev } : Head).Captured fs :=
  ⟨hc.headers, hc.contentLength, hc.status⟩

/-- The parser takes the whole value, and no error is reported. -/
theorem fromChars_eq_iff {limit n : ℕ} {s : Bytes} :
    fromChars limit s = (some n, []) ↔
      s ≠ [] ∧ (∀ b ∈ s, isDigit b = true) ∧ decimal s = n ∧ n < limit := by
  constructor
  · intro h
    unfold fromChars at h
    dsimp only at h
    split at h
    · cases h
    · rename_i hne
      split at h
      · rename_i hlt
        rw [Prod.mk.injEq, Option.some.injEq] at h
        obtain ⟨rfl, hrest⟩ := h
        have hdigits := List.dropWhile_eq_nil_iff.mp hrest
        rw [List.takeWhile_eq_self_iff.mpr hdigits] at hne hlt ⊢
        exact ⟨by simpa using hne, hdigits, rfl, hlt⟩
      · cases h
  · rintro ⟨hne, hdigits, rfl, hlt⟩
    have hsome : s.isEmpty = false := by simpa using hne
    simp only [fromChars, List.takeWhile_eq_self_iff.mpr hdigits,
      List.dropWhile_eq_nil_iff.mpr hdigits, hsome, if_pos hlt]
    rfl

theorem fromChars_lt {limit n : ℕ} {s : Bytes} (h : (fromChars limit s).1 = some n) :
    n < limit := by
  unfold fromChars at h
  dsimp only at h
  split at h
  · cases h
  · split at h
    · cases h
      assumption
    · cases h

theorem parseStatus_lt (value : Bytes) : parseStatus value < 2 ^ 32 := by
  unfold parseStatus
  cases hparse : (fromChars (2 ^ 32) value).1 with
  | none => exact Nat.two_pow_pos 32
  | some n => exact fromChars_lt hparse

theorem statusOf_lt {fs : List (Bytes × Bytes)} {n : ℕ} (h : statusOf fs = some n) :
    n < 2 ^ 32 := by
  obtain ⟨f, -, hf⟩ := List.mem_filterMap.mp (List.mem_of_getLast? h)
  split at hf
  · cases hf
    exact parseStatus_lt f.2
  · cases hf

theorem Head.Captured.statusOf_eq {fs : List (Bytes × Bytes)} {h : Head} (hc : h.Captured fs)
    (hpos : ¬h.status < 0) : statusOf fs = some h.status.toNat := by
  cases hstatus : statusOf fs with
  | none =>
      rw [hc.status, hstatus] at hpos
      exact absurd (by decide) hpos
  | some n =>
      have heq : h.status = castInt n := by rw [hc.status, hstatus]; rfl
      rw [heq] at hpos ⊢
      rw [castInt_toNat hpos (statusOf_lt hstatus)]

/-! ### Completions of `get_response()` -/

/-- A call completes without an error only with a status, and its response is
what has been captured then. -/
def Answered (pre : List Label) : Label → Prop
  | .responseReturned _ none response =>
      statusOf (fields pre) = some response.status ∧
        response.contentLength = contentLengthOf (fields pre) ∧
        response.headers = headersOf (fields pre)
  | _ => True

theorem Head.Captured.answer {pre : List Label} {h : Head} (hc : h.Captured (fields pre))
    (hpos : ¬h.status < 0) (i : ℕ) : Answered pre (h.answer i) :=
  ⟨hc.statusOf_eq hpos, hc.contentLength, hc.headers⟩

def Action.field : Action → List (Bytes × Bytes)
  | .onHeader name value => [(name, value)]
  | _ => []

theorem Head.Step.fields_eq {h h' : Head} {e : Error} {a : Action} {os : List Label}
    (hs : h.Step e a os h') : fields os = a.field := by
  cases hs with
  | onClose => rfl
  | onHeader name value => rfl
  | getResponse i stopped hidle =>
      unfold Head.getResponse
      split
      · cases stopped <;> rfl
      · rfl
  | stopResponse i => rfl
  | resumeResponse i h' os hresume =>
      obtain ⟨w, -, -, ⟨-, rfl⟩ | ⟨-, -, rfl⟩ | ⟨-, -, rfl⟩⟩ :=
        Head.resumeResponse_eq_some hresume <;> rfl
  | other a os ha hos =>
      rw [head_silent hos]
      cases a <;> first | rfl | cases ha

theorem Head.Step.captured {fs : List (Bytes × Bytes)} {h h' : Head} {e : Error} {a : Action}
    {os : List Label} (hs : h.Step e a os h') (hc : h.Captured fs) :
    h'.Captured (fs ++ a.field) := by
  have hkeep {h' : Head} (hc' : h'.Captured fs) : h'.Captured (fs ++ []) := by
    rwa [List.append_nil]
  cases hs with
  | onClose => exact hkeep (hc.of_event _)
  | onHeader name value => exact hc.onHeader name value
  | getResponse i stopped hidle =>
      refine hkeep ?_
      unfold Head.getResponse
      split
      · cases stopped with
        | true => exact hc.of_event _
        | false => exact hc.of_event _
      · exact hc
  | stopResponse i => exact hkeep (hc.of_event _)
  | resumeResponse i h' os hresume =>
      obtain ⟨w, -, rfl, -⟩ := Head.resumeResponse_eq_some hresume
      exact hkeep (hc.of_event _)
  | other a os ha hos =>
      rw [show a.field = [] by cases a <;> first | rfl | cases ha]
      exact hkeep hc

theorem Head.Step.answered {tr : List Label} {h h' : Head} {e : Error} {a : Action}
    {os : List Label} (hs : h.Step e a os h') (hc : h.Captured (fields tr)) :
    AlwaysFrom Answered tr os := by
  cases hs with
  | onClose => exact ⟨trivial, trivial⟩
  | onHeader name value => exact ⟨trivial, trivial⟩
  | getResponse i stopped hidle =>
      unfold Head.getResponse
      split
      · cases stopped with
        | true => exact ⟨trivial, trivial⟩
        | false => exact trivial
      · rename_i hpos
        exact ⟨hc.answer hpos i, trivial⟩
  | stopResponse i => exact trivial
  | resumeResponse i h' os hresume =>
      obtain ⟨w, -, -, ⟨-, rfl⟩ | ⟨-, -, rfl⟩ | ⟨-, hpos, rfl⟩⟩ :=
        Head.resumeResponse_eq_some hresume
      · exact ⟨trivial, trivial⟩
      · exact ⟨trivial, trivial⟩
      · exact ⟨hc.answer hpos i, trivial⟩
  | other a os ha hos =>
      refine alwaysFrom_of_forall (fun l hl pre => ?_) tr
      cases l <;> first | trivial | exact absurd (hos _ hl) (by simp [Label.isHead])

theorem Head.captured_run {ok : Cell → Action → Prop} {tr : List Label} {c : Cell}
    (run : cellMachine.Run ok tr c) :
    c.stream.head.Captured (fields tr) ∧ Always Answered tr := by
  refine run.always (I := fun tr c => c.stream.head.Captured (fields tr)) ?_ ?_
  · rintro c ⟨id, submitted, rfl⟩
    exact Head.captured_fresh
  · intro tr c a c' os _ hc _ hs
    have hhead := Stream.step_head (Cell.step_eq_some hs).2.1
    rw [fields_append, hhead.fields_eq]
    exact ⟨hhead.captured hc, hhead.answered hc⟩

/-! ### A response in one header block -/

/-- The response that consists of the status `v` and the fields `fs`. -/
def blockResponse (v : Bytes) (fs : List (Bytes × Bytes)) : ClientResponse :=
  ⟨parseStatus v, contentLengthOf fs, fs⟩

/-- What the beginning of a header block amounts to. -/
theorem block_prefix (v : Bytes) {fs : List (Bytes × Bytes)} (hfs : ∀ f ∈ fs, ¬IsPseudo f.1) :
    statusOf ((ascii ":status", v) :: fs) = some (parseStatus v) ∧
      contentLengthOf ((ascii ":status", v) :: fs) = contentLengthOf fs ∧
      headersOf ((ascii ":status", v) :: fs) = fs := by
  refine ⟨?_, ?_, ?_⟩
  · have hnone : (fs.filterMap fun f =>
        if f.1 = ascii ":status" then some (parseStatus f.2) else none) = [] := by
      refine List.filterMap_eq_nil_iff.mpr fun f hf => if_neg ?_
      intro hname
      exact hfs f hf (hname ▸ by decide)
    simp [statusOf, hnone]
  · have hne : ascii ":status" ≠ ascii "content-length" := by decide
    simp [contentLengthOf, hne]
  · have hpseudo : IsPseudo (ascii ":status") := by decide
    simpa [headersOf, hpseudo] using hfs

/-- The response that `get_response()` returns is the one the peer sent if and
only if all fields of the block had been received by then. -/
theorem response_complete_iff {v : Bytes} {fs : List (Bytes × Bytes)}
    (hfs : ∀ f ∈ fs, ¬IsPseudo f.1) {tr : List Label} {c : Cell}
    (run : cellMachine.Run anyStep tr c) (hblock : fields tr <+: (ascii ":status", v) :: fs)
    {pre post : List Label} {i : ℕ} {response : ClientResponse}
    (htr : tr = pre ++ .responseReturned i none response :: post) :
    response = blockResponse v fs ↔ fields pre = (ascii ":status", v) :: fs := by
  obtain ⟨hstatus, hlen, hheaders⟩ := (Head.captured_run run).2 pre _ post htr
  obtain ⟨status, contentLength, headers⟩ := response
  dsimp only at hstatus hlen hheaders
  have hpre : fields pre <+: (ascii ":status", v) :: fs := by
    refine List.IsPrefix.trans ?_ hblock
    rw [htr, fields_append]
    exact List.prefix_append _ _
  rcases List.prefix_cons_iff.mp hpre with hnil | ⟨gs, hgs, hpre⟩
  · rw [hnil] at hstatus
    cases hstatus
  · obtain ⟨hs, hl, hh⟩ := block_prefix v fun f hf => hfs f (hpre.subset hf)
    rw [hgs] at hstatus hlen hheaders ⊢
    rw [hs, Option.some.injEq] at hstatus
    rw [hl] at hlen
    rw [hh] at hheaders
    subst hstatus hlen hheaders
    constructor
    · intro heq
      rw [show headers = fs from congrArg ClientResponse.headers heq]
    · intro heq
      rw [List.cons.injEq] at heq
      rw [heq.2]
      rfl

/-- Two fields follow the status before the waiting call goes on. -/
theorem response_complete_iff_of_wait :
    ∃ tr c, cellMachine.Run anyStep tr c ∧
      fields tr = [(ascii ":status", ascii "200"), (ascii "content-length", ascii "12"),
        (ascii "x", ascii "y")] ∧
      .responseReturned 0 none (blockResponse (ascii "200")
        [(ascii "content-length", ascii "12"), (ascii "x", ascii "y")]) ∈ tr := by
  obtain ⟨tr, c, run, hfields, hlast⟩ :
      ∃ tr c, cellMachine.Run anyStep tr c ∧
        fields tr = [(ascii ":status", ascii "200"), (ascii "content-length", ascii "12"),
          (ascii "x", ascii "y")] ∧
        tr.getLast? = some (.responseReturned 0 none ⟨200, some 12,
          [(ascii "content-length", ascii "12"), (ascii "x", ascii "y")]⟩) :=
    Machine.run_of_exec (cellMachine_init 1 true)
      [.getResponse 0 false, .onHeader (ascii ":status") (ascii "200"),
        .onHeader (ascii "content-length") (ascii "12"), .onHeader (ascii "x") (ascii "y"),
        .resumeResponse 0] (by decide)
  obtain ⟨pre, rfl⟩ := List.getLast?_eq_some_iff.mp hlast
  have hpre : fields pre = [(ascii ":status", ascii "200"), (ascii "content-length", ascii "12"),
      (ascii "x", ascii "y")] := by
    rw [fields_append] at hfields
    exact (List.append_nil _).symm.trans hfields
  refine ⟨_, c, run, hfields, ?_⟩
  rw [← (response_complete_iff (by decide) run (hfields ▸ List.prefix_rfl) rfl).mpr hpre]
  simp

/-- The waiting call goes on between the status and the next field: the same
block, and a response without that field. -/
theorem response_loses_header :
    ∃ tr c, cellMachine.Run anyStep tr c ∧
      fields tr = [(ascii ":status", ascii "200"), (ascii "x", ascii "y")] ∧
      .responseReturned 0 none ⟨200, none, []⟩ ∈ tr ∧
      (⟨200, none, []⟩ : ClientResponse) ≠
        blockResponse (ascii "200") [(ascii "x", ascii "y")] := by
  obtain ⟨tr, c, run, hfields, hreturned⟩ :
      ∃ tr c, cellMachine.Run anyStep tr c ∧
        fields tr = [(ascii ":status", ascii "200"), (ascii "x", ascii "y")] ∧
        .responseReturned 0 none ⟨200, none, []⟩ ∈ tr :=
    Machine.run_of_exec (cellMachine_init 1 true)
      [.getResponse 0 false, .onHeader (ascii ":status") (ascii "200"), .resumeResponse 0,
        .onHeader (ascii "x") (ascii "y")] (by decide)
  exact ⟨tr, c, run, hfields, hreturned, by decide⟩

/-! ### Calls that wait for the status -/

/-- nghttp2 passes on a `:status` field only if its value has three digits; all
that matters here is that it is not too large for an `int`. -/
def Action.StatusValid : Action → Prop
  | .onHeader name value => name = ascii ":status" → parseStatus value < 2 ^ 31
  | _ => True

instance : DecidablePred Action.StatusValid
  | .onHeader name value =>
      inferInstanceAs (Decidable (name = ascii ":status" → parseStatus value < 2 ^ 31))
  | .onData _ | .onReadEof | .onClose | .submit | .producerCallback _ | .readSome _ _ | .stopRead
  | .resumeRead | .write _ _ | .stopWrite | .resumeWrite | .getResponse _ _ | .stopResponse _
  | .resumeResponse _ => instDecidableTrue

/-- No call starts to wait on a stream that was closed without a status. -/
def Stream.MayAsk (s : Stream) : Action → Prop
  | .getResponse _ stopped => stopped = true ∨ 0 ≤ s.head.status ∨ s.closed = false
  | _ => True

instance (s : Stream) : DecidablePred s.MayAsk
  | .getResponse _ stopped =>
      inferInstanceAs (Decidable (stopped = true ∨ 0 ≤ s.head.status ∨ s.closed = false))
  | .onData _ | .onReadEof | .onClose | .onHeader _ _ | .submit | .producerCallback _
  | .readSome _ _ | .stopRead | .resumeRead | .write _ _ | .stopWrite | .resumeWrite
  | .stopResponse _ | .resumeResponse _ => instDecidableTrue

def statusAsked (c : Cell) (a : Action) : Prop := a.StatusValid ∧ c.stream.MayAsk a

instance : DecidableRel statusAsked := fun c a =>
  inferInstanceAs (Decidable (a.StatusValid ∧ c.stream.MayAsk a))

theorem castInt_nonneg {n : ℕ} (h : n < 2 ^ 31) : 0 ≤ castInt n := by
  rw [castInt, if_pos h]
  exact Int.natCast_nonneg n

theorem Head.onHeader_of_ne_status (h : Head) {name : Bytes} (hname : name ≠ ascii ":status")
    (value : Bytes) :
    (h.onHeader name value).status = h.status ∧
      (h.onHeader name value).statusReady = h.statusReady := by
  unfold Head.onHeader
  by_cases hpath : name = ascii ":path"
  · rw [if_pos hpath]
    exact ⟨rfl, rfl⟩
  · rw [if_neg hpath, if_neg hname]
    by_cases hpseudo : IsPseudo name
    · rw [if_pos hpseudo]
      exact ⟨rfl, rfl⟩
    · rw [if_neg hpseudo]
      by_cases hlen : name = ascii "content-length"
      · cases parseContentLength value <;> simp [hlen, Head.addHeader]
      · simp [hlen, Head.addHeader]

theorem Head.Step.waiting {h h' : Head} {e : Error} {a : Action} {os : List Label}
    (hs : h.Step e a os h') {i : ℕ} (hi : h'.statusReady.waiter i = .waiting) :
    h'.status = h.status ∧ a ≠ .onClose ∧
      (h.statusReady.waiter i = .waiting ∨ a = .getResponse i false ∧ h.status < 0) := by
  cases hs with
  | onClose => simp [Head.onClose] at hi
  | onHeader name value =>
      by_cases hname : name = ascii ":status"
      · subst hname
        rw [Head.onHeader_status] at hi
        simp [Head.setStatus] at hi
      · obtain ⟨hstatus, hready⟩ := h.onHeader_of_ne_status hname value
        exact ⟨hstatus, by simp, .inl (hready ▸ hi)⟩
  | getResponse j stopped hidle =>
      unfold Head.getResponse at hi ⊢
      split at hi
      · rename_i hneg
        rw [if_pos hneg]
        cases stopped with
        | true => exact ⟨rfl, by simp, .inl hi⟩
        | false =>
            refine ⟨rfl, by simp, ?_⟩
            by_cases hij : i = j
            · subst hij
              exact .inr ⟨rfl, hneg⟩
            · exact .inl (by simpa [hij] using hi)
      · rename_i hpos
        rw [if_neg hpos]
        exact ⟨rfl, by simp, .inl hi⟩
  | stopResponse j => exact ⟨rfl, by simp, .inl (Event.waiting_of_stop hi)⟩
  | resumeResponse j h' os hresume =>
      obtain ⟨w, -, rfl, -⟩ := Head.resumeResponse_eq_some hresume
      exact ⟨rfl, by simp, .inl (Event.waiter_of_resume hi (by simp))⟩
  | other a os ha hos =>
      refine ⟨rfl, ?_, .inl hi⟩
      rintro rfl
      cases ha

theorem Head.Step.signalled {h h' : Head} {e : Error} {a : Action} {os : List Label}
    (hs : h.Step e a os h') {i : ℕ} (hi : h'.statusReady.waiter i = .posted .signalled) :
    a = .onClose ∨
      (∃ v, a = .onHeader (ascii ":status") v ∧ h'.status = castInt (parseStatus v)) ∨
      h'.status = h.status ∧ h.statusReady.waiter i = .posted .signalled := by
  cases hs with
  | onClose => exact .inl rfl
  | onHeader name value =>
      by_cases hname : name = ascii ":status"
      · subst hname
        exact .inr (.inl ⟨value, rfl, by rw [Head.onHeader_status]; rfl⟩)
      · obtain ⟨hstatus, hready⟩ := h.onHeader_of_ne_status hname value
        exact .inr (.inr ⟨hstatus, hready ▸ hi⟩)
  | getResponse j stopped hidle =>
      refine .inr (.inr ?_)
      unfold Head.getResponse at hi ⊢
      split at hi
      · rename_i hneg
        rw [if_pos hneg]
        cases stopped with
        | true => exact ⟨rfl, hi⟩
        | false =>
            have hij : i ≠ j := by
              rintro rfl
              simp at hi
            exact ⟨rfl, by simpa [hij] using hi⟩
      · rename_i hpos
        rw [if_neg hpos]
        exact ⟨rfl, hi⟩
  | stopResponse j => exact .inr (.inr ⟨rfl, Event.signalled_of_stop hi⟩)
  | resumeResponse j h' os hresume =>
      obtain ⟨w, -, rfl, -⟩ := Head.resumeResponse_eq_some hresume
      exact .inr (.inr ⟨rfl, Event.waiter_of_resume hi (by simp)⟩)
  | other a os ha hos => exact .inr (.inr ⟨rfl, hi⟩)

/-- A call waits only while there is something to wait for. -/
def Head.Waits (closed : Bool) (h : Head) : Prop :=
  ∀ i, h.statusReady.waiter i = .waiting → h.status < 0 ∧ closed = false

/-- A call is woken only when there is something to report. -/
def Head.Woken (closed : Bool) (h : Head) : Prop :=
  ∀ i, h.statusReady.waiter i = .posted .signalled → 0 ≤ h.status ∨ closed = true

theorem Head.Waits.step {s s' : Stream} {a : Action} {os : List Label}
    (hw : s.head.Waits s.closed) (hs : s.step a = some (s', os)) (hask : s.MayAsk a) :
    s'.head.Waits s'.closed := by
  intro i hi
  obtain ⟨hstatus, hne, hbefore⟩ := (Stream.step_head hs).waiting hi
  rw [hstatus, Stream.step_closed hs, decide_eq_false hne, Bool.or_false]
  rcases hbefore with hbefore | ⟨rfl, hneg⟩
  · exact hw i hbefore
  · refine ⟨hneg, ?_⟩
    rcases hask with hstop | hpos | hopen
    · cases hstop
    · omega
    · exact hopen

theorem Head.Woken.step {s s' : Stream} {a : Action} {os : List Label}
    (hw : s.head.Woken s.closed) (hs : s.step a = some (s', os)) (ha : a.StatusValid) :
    s'.head.Woken s'.closed := by
  intro i hi
  rw [Stream.step_closed hs]
  rcases (Stream.step_head hs).signalled hi with rfl | ⟨v, rfl, hstatus⟩ | ⟨hstatus, hbefore⟩
  · exact .inr (by simp)
  · rw [hstatus]
    exact .inl (castInt_nonneg (ha rfl))
  · rw [hstatus]
    exact (hw i hbefore).imp id fun hclosed => by simp [hclosed]

/-- How a call of `get_response()` may complete: with the status if it has
arrived; with the error that the read side would report if the stream was
closed without one; or with the cancellation error. -/
def Settled (pre : List Label) : Label → Prop
  | .responseReturned _ none response => statusOf (fields pre) = some response.status
  | .responseReturned _ (some .canceled) _ => True
  | .responseReturned _ (some e) _ =>
      statusOf (fields pre) = none ∧ .closed ∈ pre ∧
        e = if .readEnded ∈ pre then .eof else .streamTruncated
  | _ => True

theorem Head.Captured.nonneg {fs : List (Bytes × Bytes)} {h : Head} (hc : h.Captured fs)
    (hvalid : ∀ n, statusOf fs = some n → n < 2 ^ 31) :
    0 ≤ h.status ↔ statusOf fs ≠ none := by
  constructor
  · intro hpos
    rw [hc.statusOf_eq (by omega)]
    simp
  · intro hsome
    obtain ⟨n, hn⟩ := Option.ne_none_iff_exists'.mp hsome
    rw [hc.status, hn]
    exact castInt_nonneg (hvalid n hn)

theorem Head.Woken.settled {tr : List Label} {c : Cell} {ok : Cell → Action → Prop}
    (run : cellMachine.Run ok tr c) (hvalid : ∀ n, statusOf (fields tr) = some n → n < 2 ^ 31)
    (hw : c.stream.head.Woken c.stream.closed) {a : Action} {os : List Label} {h' : Head}
    (hs : c.stream.head.Step c.stream.read.eofError a os h') : AlwaysFrom Settled tr os := by
  obtain ⟨hc, -⟩ := Head.captured_run run
  cases hs with
  | onClose => exact ⟨trivial, trivial⟩
  | onHeader name value => exact ⟨trivial, trivial⟩
  | getResponse i stopped hidle =>
      unfold Head.getResponse
      split
      · cases stopped with
        | true => exact ⟨trivial, trivial⟩
        | false => exact trivial
      · rename_i hpos
        exact ⟨hc.statusOf_eq hpos, trivial⟩
  | stopResponse i => exact trivial
  | resumeResponse i h' os hresume =>
      obtain ⟨w, hwaiter, -, ⟨-, rfl⟩ | ⟨rfl, hneg, rfl⟩ | ⟨-, hpos, rfl⟩⟩ :=
        Head.resumeResponse_eq_some hresume
      · exact ⟨trivial, trivial⟩
      · -- woken without a status: the stream was closed
        have hclosed : c.stream.closed = true := (hw i hwaiter).resolve_left (by omega)
        have hnone : statusOf (fields tr) = none := by
          by_contra hsome
          have := (hc.nonneg hvalid).mpr hsome
          omega
        obtain ⟨hclosedTr, heofTr⟩ := flags_run run
        have herror : c.stream.read.eofError =
            if .readEnded ∈ tr then .eof else .streamTruncated := by
          simp only [ReadSide.eofError, heofTr]
        refine ⟨?_, trivial⟩
        show Settled tr (.responseReturned i (some c.stream.read.eofError) _)
        rw [herror]
        split
        · rename_i hended
          exact ⟨hnone, hclosedTr.mp hclosed, (if_pos hended).symm⟩
        · rename_i hended
          exact ⟨hnone, hclosedTr.mp hclosed, (if_neg hended).symm⟩
      · exact ⟨hc.statusOf_eq hpos, trivial⟩
  | other a os ha hos =>
      refine alwaysFrom_of_forall (fun l hl pre => ?_) tr
      cases l <;> first | trivial | exact absurd (hos _ hl) (by simp [Label.isHead])

theorem Action.StatusValid.statusOf_lt {fs : List (Bytes × Bytes)} {a : Action}
    (ha : a.StatusValid) (hvalid : ∀ n, statusOf fs = some n → n < 2 ^ 31) :
    ∀ n, statusOf (fs ++ a.field) = some n → n < 2 ^ 31 := by
  intro n hn
  cases a with
  | onHeader name value =>
      rw [Action.field, statusOf_append] at hn
      split at hn
      · rename_i hname
        cases hn
        exact ha hname
      · exact hvalid n hn
  | _ => exact hvalid n (by simpa [Action.field] using hn)

theorem Head.getResponse_decided {h : Head} {i : ℕ} {stopped : Bool}
    (hidle : h.statusReady.waiter i = .idle) (hask : stopped = true ∨ 0 ≤ h.status) :
    (h.getResponse i stopped).1.statusReady.waiter i = .idle ∧
      ∃ ec response, (h.getResponse i stopped).2 = [.responseReturned i ec response] := by
  unfold Head.getResponse
  split
  · rename_i hneg
    obtain rfl : stopped = true := hask.resolve_right (by omega)
    exact ⟨hidle, _, _, rfl⟩
  · exact ⟨hidle, _, _, rfl⟩

theorem Head.resumeResponse_posted {h : Head} (e : Error) {i : ℕ} {w : Wake}
    (hposted : h.statusReady.waiter i = .posted w) :
    ∃ h' ec response, h.resumeResponse e i = some (h', [.responseReturned i ec response]) ∧
      h'.statusReady.waiter i = .idle := by
  unfold Head.resumeResponse
  rw [hposted]
  cases w with
  | canceled => exact ⟨_, _, _, rfl, by simp⟩
  | signalled =>
      dsimp only
      split
      · exact ⟨_, _, _, rfl, by simp⟩
      · exact ⟨_, _, _, rfl, by simp⟩

/-- When no call starts to wait on a stream that was closed without a status,
no call is stuck. Once the status has arrived or the stream is closed, no call
waits without its resumption posted and a new call completes at once; a call
whose resumption is posted completes when it is resumed; and every completion
reports the status, or the close, or a cancellation. -/
theorem get_response_never_stuck {tr : List Label} {c : Cell}
    (run : cellMachine.Run statusAsked tr c) :
    (statusOf (fields tr) ≠ none ∨ c.stream.closed = true →
        (∀ i, c.stream.head.statusReady.waiter i ≠ .waiting) ∧
        ∀ i stopped c' os, statusAsked c (.getResponse i stopped) →
          cellMachine.step c (.getResponse i stopped) = some (c', os) →
          c'.stream.head.statusReady.waiter i = .idle ∧
            ∃ ec response, os = [.responseReturned i ec response]) ∧
      (∀ i w, c.stream.head.statusReady.waiter i = .posted w →
        ∃ c' ec response,
          cellMachine.step c (.resumeResponse i) = some (c', [.responseReturned i ec response]) ∧
          c'.stream.head.statusReady.waiter i = .idle) ∧
      Always Settled tr := by
  obtain ⟨⟨hw, -, hvalid⟩, halways⟩ := run.always (P := Settled)
    (I := fun tr c => c.stream.head.Waits c.stream.closed ∧ c.stream.head.Woken c.stream.closed ∧
      ∀ n, statusOf (fields tr) = some n → n < 2 ^ 31)
    (by
      rintro c ⟨id, submitted, rfl⟩
      exact ⟨nofun, nofun, nofun⟩)
    (by
      rintro tr c a c' os run ⟨hw, hwoken, hvalid⟩ ⟨ha, hask⟩ hs
      have hstream := (Cell.step_eq_some hs).2.1
      have hhead := Stream.step_head hstream
      rw [fields_append, hhead.fields_eq]
      exact ⟨⟨hw.step hstream hask, hwoken.step hstream ha, ha.statusOf_lt hvalid⟩,
        hwoken.settled run hvalid hhead⟩)
  obtain ⟨hc, -⟩ := Head.captured_run run
  refine ⟨fun hdecided => ⟨fun i hi => ?_, fun i stopped c' os hok hs => ?_⟩, fun i w hi => ?_,
    halways⟩
  · obtain ⟨hneg, hopen⟩ := hw i hi
    rcases hdecided with harrived | hclosed
    · have := (hc.nonneg hvalid).mpr harrived
      omega
    · rw [hopen] at hclosed
      cases hclosed
  · have hask : stopped = true ∨ 0 ≤ c.stream.head.status := by
      rcases hok.2 with hstop | hpos | hopen
      · exact .inl hstop
      · exact .inr hpos
      · refine .inr ((hc.nonneg hvalid).mpr (hdecided.resolve_right ?_))
        simp [hopen]
    have hs : c.step (.getResponse i stopped) = some (c', os) := hs
    have hhead := Stream.step_head (Cell.step_eq_some hs).2.1
    generalize hc' : c'.stream.head = h' at hhead ⊢
    cases hhead with
    | getResponse _ _ hidle => exact Head.getResponse_decided hidle hask
    | other _ _ ha _ => cases ha
  · obtain ⟨h', ec, response, heq, hidle⟩ :=
      Head.resumeResponse_posted c.stream.read.eofError hi
    refine ⟨⟨{ c.stream with head := h' }, c.provider⟩, ec, response, ?_, hidle⟩
    simp [cellMachine, Cell.step, Provider.allows, Provider.act, Stream.step, heq,
      Provider.observe]

/-- Two calls wait, one of them is stopped, and the stream is closed. -/
theorem get_response_never_stuck_of_close :
    ∃ tr c, cellMachine.Run statusAsked tr c ∧ c.stream.closed = true ∧
      (∃ response, .responseReturned 0 (some .streamTruncated) response ∈ tr) ∧
      (∃ response, .responseReturned 1 (some .canceled) response ∈ tr) ∧
      ∀ i, c.stream.head.statusReady.waiter i ≠ .waiting := by
  obtain ⟨tr, c, run, hclosed, h0, h1⟩ :
      ∃ tr c, cellMachine.Run statusAsked tr c ∧ c.stream.closed = true ∧
        .responseReturned 0 (some .streamTruncated) ⟨0, none, []⟩ ∈ tr ∧
        .responseReturned 1 (some .canceled) ⟨0, none, []⟩ ∈ tr :=
    Machine.run_of_exec (cellMachine_init 1 true)
      [.getResponse 0 false, .getResponse 1 false, .stopResponse 1, .onClose, .resumeResponse 0,
        .resumeResponse 1] (by decide)
  exact ⟨tr, c, run, hclosed, ⟨_, h0⟩, ⟨_, h1⟩,
    ((get_response_never_stuck run).1 (.inr hclosed)).1⟩

/-- A call that is started after the stream was closed without a status waits
for ever. -/
theorem get_response_waits_when_closed :
    ∃ tr c, cellMachine.Run anyStep tr c ∧ c.stream.closed = true ∧
      c.stream.head.statusReady.waiter 0 = .waiting :=
  Machine.run_of_exec (cellMachine_init 1 true) [.onClose, .getResponse 0 false] (by decide)

end Nghttp2Corosio
