import Nghttp2Corosio.Session.Registry
import Nghttp2Corosio.Stream.HeaderBlocks

/-!
The head of a message, from one end of the library to the other.

`submit_request` and `Response::submit` build the list of fields that nghttp2
sends, and `on_header_callback` takes the fields that it delivers apart again. The
request writes its content length before the other headers, the response after
them; both print it with `std::to_string`, and `std::from_chars` reads it. That
nghttp2 delivers the fields unchanged and in order is assumed: the fields that a
stream has received are the fields that were submitted at the other end.
-/

namespace Nghttp2Corosio

open Async Buffers Runs

/-! ### Decimal numbers -/

/-- `std::to_string` of an unsigned number. -/
def stdToString (n : ℕ) : Bytes := ascii n.repr

theorem toNat_of_isDigit {c : Char} (hc : c.isDigit = true) :
    (UInt8.ofNat c.toNat).toNat = c.toNat ∧ isDigit (UInt8.ofNat c.toNat) = true := by
  have hrange : 48 ≤ c.toNat ∧ c.toNat ≤ 57 := by
    simpa [Char.isDigit, UInt32.le_iff_toNat_le] using hc
  have hbyte : (UInt8.ofNat c.toNat).toNat = c.toNat := by
    rw [UInt8.toNat_ofNat']
    omega
  refine ⟨hbyte, ?_⟩
  rw [isDigit, hbyte]
  simpa using hrange

theorem isDigit_of_mem_stdToString {n : ℕ} {b : UInt8} (hb : b ∈ stdToString n) :
    isDigit b = true := by
  rw [stdToString, ascii, Nat.toList_repr] at hb
  obtain ⟨c, hc, rfl⟩ := List.mem_map.mp hb
  exact (toNat_of_isDigit (Nat.isDigit_of_mem_toDigits (by omega) (by omega) hc)).2

theorem stdToString_ne_nil (n : ℕ) : stdToString n ≠ [] := by
  rw [stdToString, ascii, Nat.toList_repr]
  simp [Nat.toDigits_ne_nil]

theorem foldl_ascii {cs : List Char} (hcs : ∀ c ∈ cs, c.isDigit = true) (m : ℕ) :
    (cs.map fun c => UInt8.ofNat c.toNat).foldl (fun n b => 10 * n + (b.toNat - 48)) m =
      Nat.ofDigitChars 10 cs m := by
  induction cs generalizing m with
  | nil => rw [List.map_nil, List.foldl_nil, Nat.ofDigitChars_nil]
  | cons c cs ih =>
      have hc := (toNat_of_isDigit (hcs c List.mem_cons_self)).1
      rw [List.map_cons, List.foldl_cons, hc, ih fun c' hc' => hcs c' (List.mem_cons_of_mem c hc'),
        Nat.ofDigitChars_cons]
      rfl

theorem decimal_stdToString (n : ℕ) : decimal (stdToString n) = n := by
  rw [decimal, stdToString, ascii, Nat.toList_repr, foldl_ascii, Nat.ofDigitChars_ten_toDigits]
  exact fun c hc => Nat.isDigit_of_mem_toDigits (by omega) (by omega) hc

/-- What `std::to_string` prints, `std::from_chars` reads back to the last
character. -/
theorem fromChars_stdToString {limit n : ℕ} (hn : n < limit) :
    fromChars limit (stdToString n) = (some n, []) :=
  fromChars_eq_iff.mpr ⟨stdToString_ne_nil n, fun _ hb => isDigit_of_mem_stdToString hb,
    decimal_stdToString n, hn⟩

theorem parseContentLength_stdToString {n : ℕ} (hn : n < 2 ^ 64) :
    parseContentLength (stdToString n) = some n := by
  rw [parseContentLength, fromChars_stdToString hn]

theorem parseStatus_stdToString {n : ℕ} (hn : n < 2 ^ 32) : parseStatus (stdToString n) = n := by
  rw [parseStatus, fromChars_stdToString hn]
  rfl

/-! ### The two encoders -/

def contentLengthField (contentLength : Option ℕ) : List (Bytes × Bytes) :=
  contentLength.toList.map fun n => (ascii "content-length", stdToString n)

/-- The fields that `Session::Impl::submit_request` submits. -/
def submitRequestFields (path : Bytes) (contentLength : Option ℕ)
    (headers : List (Bytes × Bytes)) : List (Bytes × Bytes) :=
  [(ascii ":method", ascii "POST"), (ascii ":scheme", ascii "http"), (ascii ":path", path),
    (ascii ":authority", ascii "localhost")] ++ contentLengthField contentLength ++ headers

/-- The fields that `Session::Impl::submit_response` submits. -/
def submitResponseFields (status : ℕ) (headers : List (Bytes × Bytes)) : List (Bytes × Bytes) :=
  (ascii ":status", stdToString status) :: headers

/-- A `Response`, less the body: the content length that was set on it. -/
structure Response where
  contentLength : Option ℕ := none
  deriving DecidableEq, Repr

/-- The fields that `Response::submit` leads to. -/
def Response.submit (r : Response) (status : ℕ) (headers : List (Bytes × Bytes)) :
    List (Bytes × Bytes) :=
  submitResponseFields status (headers ++ contentLengthField r.contentLength)

/-- Headers as a user may set them: no pseudo-headers, and no content length. -/
def PlainHeaders (headers : List (Bytes × Bytes)) : Prop :=
  ∀ f ∈ headers, ¬IsPseudo f.1 ∧ f.1 ≠ ascii "content-length"

instance (headers : List (Bytes × Bytes)) : Decidable (PlainHeaders headers) :=
  inferInstanceAs (Decidable (∀ f ∈ headers, ¬IsPseudo f.1 ∧ f.1 ≠ ascii "content-length"))

theorem contentLengthField_plain (contentLength : Option ℕ) :
    ∀ f ∈ contentLengthField contentLength, ¬IsPseudo f.1 := by
  intro f hf
  obtain ⟨n, -, rfl⟩ := List.mem_map.mp hf
  exact show ¬IsPseudo (ascii "content-length") by decide

/-! ### The decoder -/

theorem contentLengthOf_eq_nil {fs : List (Bytes × Bytes)}
    (hfs : ∀ f ∈ fs, f.1 ≠ ascii "content-length") :
    (fs.filterMap fun f =>
      if f.1 = ascii "content-length" then parseContentLength f.2 else none) = [] :=
  List.filterMap_eq_nil_iff.mpr fun f hf => if_neg (hfs f hf)

theorem contentLengthOf_field {fs gs : List (Bytes × Bytes)}
    (hfs : ∀ f ∈ fs, f.1 ≠ ascii "content-length") (hgs : ∀ f ∈ gs, f.1 ≠ ascii "content-length")
    {contentLength : Option ℕ} (hn : ∀ n ∈ contentLength, n < 2 ^ 64) :
    contentLengthOf (fs ++ contentLengthField contentLength ++ gs) = contentLength := by
  unfold contentLengthOf
  rw [List.filterMap_append, List.filterMap_append, contentLengthOf_eq_nil hfs,
    contentLengthOf_eq_nil hgs, List.nil_append, List.append_nil]
  cases contentLength with
  | none => rfl
  | some n => simp [contentLengthField, parseContentLength_stdToString (hn n rfl)]

/-- The path that the fields carry, the last one if there are several. -/
def pathOf (fs : List (Bytes × Bytes)) : Bytes :=
  ((fs.filterMap fun f => if f.1 = ascii ":path" then some f.2 else none).getLast?).getD []

theorem pathOf_append (fs : List (Bytes × Bytes)) (name value : Bytes) :
    pathOf (fs ++ [(name, value)]) = if name = ascii ":path" then value else pathOf fs := by
  unfold pathOf
  rw [List.filterMap_append, List.getLast?_append]
  by_cases hname : name = ascii ":path" <;> simp [hname]

theorem Head.onHeader_path (h : Head) (name value : Bytes) :
    (h.onHeader name value).path = if name = ascii ":path" then value else h.path := by
  unfold Head.onHeader
  by_cases hpath : name = ascii ":path"
  · rw [if_pos hpath, if_pos hpath]
  · rw [if_neg hpath, if_neg hpath]
    by_cases hstatus : name = ascii ":status"
    · rw [if_pos hstatus]
      rfl
    · rw [if_neg hstatus]
      by_cases hpseudo : IsPseudo name
      · rw [if_pos hpseudo]
      · rw [if_neg hpseudo]
        by_cases hlen : name = ascii "content-length"
        · cases parseContentLength value <;> simp [hlen, Head.addHeader]
        · simp [hlen, Head.addHeader]

theorem Head.Step.path {h h' : Head} {e : Error} {a : Action} {os : List Label}
    (hs : h.Step e a os h') {fs : List (Bytes × Bytes)} (hpath : h.path = pathOf fs) :
    h'.path = pathOf (fs ++ a.field) := by
  have hkeep : h.path = pathOf (fs ++ []) := by rwa [List.append_nil]
  cases hs with
  | onClose => exact hkeep
  | onHeader name value => rw [Head.onHeader_path, Action.field, pathOf_append, hpath]
  | getResponse i stopped hidle =>
      refine Eq.trans ?_ hkeep
      unfold Head.getResponse
      split
      · cases stopped <;> rfl
      · rfl
  | stopResponse i => exact hkeep
  | resumeResponse i h' os hresume =>
      obtain ⟨w, -, rfl, -⟩ := Head.resumeResponse_eq_some hresume
      exact hkeep
  | other a os ha hos =>
      rw [show a.field = [] by cases a <;> first | rfl | cases ha]
      exact hkeep

theorem Head.path_run {ok : Cell → Action → Prop} {tr : List Label} {c : Cell}
    (run : cellMachine.Run ok tr c) : c.stream.head.path = pathOf (fields tr) := by
  refine run.invariant (I := fun tr c => c.stream.head.path = pathOf (fields tr)) ?_ ?_
  · rintro c ⟨id, submitted, rfl⟩
    rfl
  · intro tr c a c' os hpath _ hs
    have hhead := Stream.step_head (Cell.step_eq_some hs).2.1
    rw [fields_append, hhead.fields_eq]
    exact hhead.path hpath

/-- What `handle_request` makes of the stream: a `Request`, less the body. -/
structure Request where
  path : Bytes
  contentLength : Option ℕ
  headers : List (Bytes × Bytes)
  deriving DecidableEq, Repr

def Head.request (h : Head) : Request := ⟨h.path, h.contentLength, h.headers⟩

theorem Head.request_of_fields {ok : Cell → Action → Prop} {tr : List Label} {c : Cell}
    (run : cellMachine.Run ok tr c) {path : Bytes} {contentLength : Option ℕ}
    {headers : List (Bytes × Bytes)} (hn : ∀ n ∈ contentLength, n < 2 ^ 64)
    (hheaders : PlainHeaders headers)
    (hfields : fields tr = submitRequestFields path contentLength headers) :
    c.stream.head.request = ⟨path, contentLength, contentLengthField contentLength ++ headers⟩ := by
  obtain ⟨hc, -⟩ := Head.captured_run run
  have hplain : ∀ f ∈ contentLengthField contentLength ++ headers, ¬IsPseudo f.1 := by
    intro f hf
    rcases List.mem_append.mp hf with hf | hf
    · exact contentLengthField_plain contentLength f hf
    · exact (hheaders f hf).1
  have hpath : c.stream.head.path = path := by
    have hnone : ((contentLengthField contentLength ++ headers).filterMap fun f =>
        if f.1 = ascii ":path" then some f.2 else none) = [] := by
      refine List.filterMap_eq_nil_iff.mpr fun f hf => if_neg fun hname => ?_
      exact hplain f hf (hname ▸ by decide)
    rw [Head.path_run run, hfields, submitRequestFields, List.append_assoc, pathOf,
      List.filterMap_append, hnone]
    simp [show ascii ":method" ≠ ascii ":path" by decide,
      show ascii ":scheme" ≠ ascii ":path" by decide,
      show ascii ":authority" ≠ ascii ":path" by decide]
  have hlength : c.stream.head.contentLength = contentLength := by
    rw [hc.contentLength, hfields, submitRequestFields]
    refine contentLengthOf_field ?_ (fun f hf => (hheaders f hf).2) hn
    simp only [List.forall_mem_cons, List.not_mem_nil, false_implies, implies_true, and_true]
    decide
  have hrest : c.stream.head.headers = contentLengthField contentLength ++ headers := by
    rw [hc.headers, hfields, submitRequestFields, List.append_assoc, headersOf_append,
      headersOf_plain hplain]
    rfl
  rw [Head.request, hpath, hlength, hrest]

/-- The response that a client is to get. -/
def Response.received (r : Response) (status : ℕ) (headers : List (Bytes × Bytes)) :
    ClientResponse :=
  ⟨status, r.contentLength, headers ++ contentLengthField r.contentLength⟩

theorem Head.answer_of_fields {ok : Cell → Action → Prop} {tr : List Label} {c : Cell}
    (run : cellMachine.Run ok tr c) {r : Response} {status : ℕ} {headers : List (Bytes × Bytes)}
    (hstatus : status < 2 ^ 31) (hn : ∀ n ∈ r.contentLength, n < 2 ^ 64)
    (hheaders : PlainHeaders headers) (hfields : fields tr = r.submit status headers) :
    ¬c.stream.head.status < 0 ∧ ∀ i, c.stream.head.answer i =
      .responseReturned i none (r.received status headers) := by
  obtain ⟨hc, -⟩ := Head.captured_run run
  have hplain : ∀ f ∈ headers ++ contentLengthField r.contentLength, ¬IsPseudo f.1 := by
    intro f hf
    rcases List.mem_append.mp hf with hf | hf
    · exact (hheaders f hf).1
    · exact contentLengthField_plain r.contentLength f hf
  obtain ⟨hs, hl, hh⟩ := block_prefix (stdToString status) hplain
  have hcaptured : c.stream.head.status = status := by
    rw [hc.status, hfields, Response.submit, submitResponseFields, hs,
      parseStatus_stdToString (by omega), Option.map_some, Option.getD_some, castInt,
      if_pos hstatus]
  have hlength : c.stream.head.contentLength = r.contentLength := by
    have hfield : contentLengthOf (headers ++ contentLengthField r.contentLength ++ []) =
        r.contentLength := contentLengthOf_field (fun f hf => (hheaders f hf).2) (by simp) hn
    rw [List.append_nil] at hfield
    rw [hc.contentLength, hfields, Response.submit, submitResponseFields, hl, hfield]
  have hrest : c.stream.head.headers = headers ++ contentLengthField r.contentLength := by
    rw [hc.headers, hfields, Response.submit, submitResponseFields, hh]
  refine ⟨by omega, fun i => ?_⟩
  rw [Head.answer, Head.response, hcaptured, hlength, hrest]
  rfl

/-! ### Dispatched once -/

/-- Without a request's HEADERS frame on its id, nothing dispatches a stream. -/
theorem Session.exec_not_dispatched {tr os : List SessionLabel} {s s' : Session}
    {as : List SessionAction} (run : sessionMachine.Run anyStep tr s)
    (h : sessionMachine.exec anyStep s as = some (s', os)) {a : ℕ} {c : Cell}
    (hc : s'.cells a = some c) (hno : ∀ e, .frameRecv c.stream.id true e ∉ as) :
    .dispatched a ∉ os := by
  induction as generalizing tr os s with
  | nil =>
      simp only [Machine.exec, Option.some.injEq, Prod.mk.injEq] at h
      simp [← h.2]
  | cons e as ih =>
      obtain ⟨hok, s₁, os₁, os₂, hstep, hexec, rfl⟩ := Machine.exec_cons h
      have hrun : sessionMachine.Run anyStep (tr ++ os₁) s₁ := .step run hok hstep
      intro hmem
      rcases List.mem_append.mp hmem with hmem | hmem
      · -- the id of the frame is that of the object, then and at the end
        have hinv := Session.inv_run run
        obtain ⟨-, id, endStream, rfl, hfind⟩ := Session.step_dispatched hstep hmem
        obtain ⟨c₀, hc₀, hid₀⟩ := hinv.entry id a hfind
        obtain ⟨c₁, hc₁, hid₁⟩ := (Session.step_moves hstep).keeps hinv hc₀
        obtain ⟨c', hc', hid'⟩ := Session.exec_keeps hrun hexec hc₁
        obtain rfl : c = c' := by simpa [hc] using hc'
        refine hno endStream ?_
        rw [hid', hid₁, hid₀]
        exact List.mem_cons_self
      · exact ih hrun hexec (fun e' he' => hno e' (List.mem_cons_of_mem e he')) hmem

/-- The callback for a complete request returns, and dispatches the stream. -/
theorem Session.step_frameRecv {s : Session} {id : ℤ} {a : ℕ} {c : Cell} {endStream : Bool}
    (hallows : s.allows (.frameRecv id true endStream) = true) (hfind : s.findStream id = some a)
    (hc : s.cells a = some c) :
    ∃ s' os, s.step (.frameRecv id true endStream) = some (s', os) ∧
      os.count (.dispatched a) = 1 := by
  obtain ⟨s', os, hs⟩ : ∃ s' os, s.step (.frameRecv id true endStream) = some (s', os) := by
    rw [Session.step, if_pos hallows]
    cases endStream with
    | false => exact ⟨_, _, rfl⟩
    | true =>
        have hlookup : s.streams.lookup id = some a := hfind
        simp only [Session.perform, Session.onFrameRecv, Session.findStream, hlookup, Session.act,
          hc, Option.bind_some, if_true]
        exact ⟨_, _, rfl⟩
  refine ⟨s', os, hs, ?_⟩
  obtain ⟨mid, rfl, hmid⟩ := Session.step_labels hs rfl
  have hnone : .dispatched a ∉ mid := by
    intro hmem
    obtain ⟨b, l, heq⟩ := hmid _ hmem
    cases heq
  simp [Session.announced, Session.concluded, hfind, List.count_eq_zero_of_not_mem hnone]

/-! ### The round trip -/

theorem Head.waiting_neg {ok : Cell → Action → Prop} {tr : List Label} {c : Cell}
    (run : cellMachine.Run ok tr c) {i : ℕ}
    (hi : c.stream.head.statusReady.waiter i = .waiting) : c.stream.head.status < 0 := by
  refine run.invariant (I := fun _ c => ∀ i, c.stream.head.statusReady.waiter i = .waiting →
    c.stream.head.status < 0) ?_ ?_ i hi
  · rintro c ⟨id, submitted, rfl⟩ i h
    cases h
  · intro tr c a c' os h _ hs i hi
    obtain ⟨hstatus, -, hbefore⟩ := (Stream.step_head (Cell.step_eq_some hs).2.1).waiting hi
    rw [hstatus]
    rcases hbefore with hbefore | ⟨-, hneg⟩
    · exact h i hbefore
    · exact hneg

theorem Cell.getResponse_answers {c : Cell} (hpos : ¬c.stream.head.status < 0) {i : ℕ}
    (hidle : c.stream.head.statusReady.waiter i = .idle) (stopped : Bool) :
    ∃ c', c.step (.getResponse i stopped) = some (c', [c.stream.head.answer i]) := by
  refine ⟨⟨c.stream, c.provider⟩, ?_⟩
  simp [Cell.step, Provider.allows, Stream.step, hidle, Head.getResponse, hpos, Head.answer,
    Provider.observe, Provider.act]

theorem Cell.resumeResponse_answers {c : Cell} (hpos : ¬c.stream.head.status < 0) {i : ℕ}
    (hposted : c.stream.head.statusReady.waiter i = .posted .signalled) :
    ∃ c', c.step (.resumeResponse i) = some (c', [c.stream.head.answer i]) := by
  refine ⟨⟨{ c.stream with head :=
    { c.stream.head with statusReady := c.stream.head.statusReady.resume i } }, c.provider⟩, ?_⟩
  simp [Cell.step, Provider.allows, Stream.step, Head.resumeResponse, hposted, hpos, Head.answer,
    Head.response, Provider.observe, Provider.act]

/-- The head of a message arrives as it was sent.

On a server, a stream that has received the fields of a request when its HEADERS
frame is complete is dispatched, with the path, the content length and the headers
that were submitted, and only once if nghttp2 reports that frame once. On a
client, a stream that has received the fields of a response answers: a
`get_response()` that is started now returns at once, one that is suspended has
been woken, and what they return is the status, the content length and the headers
that were submitted. -/
theorem message_head_round_trip :
    (∀ (path : Bytes) (contentLength : Option ℕ) (headers : List (Bytes × Bytes)),
      (∀ n ∈ contentLength, n < 2 ^ 64) → PlainHeaders headers →
      ∀ (as : List SessionAction) (s : Session) (tr : List SessionLabel) (id : ℤ) (a : ℕ)
        (endStream : Bool),
        sessionMachine.exec anyStep (Session.fresh .server) as = some (s, tr) →
        s.findStream id = some a →
        fields (onCell a tr) = submitRequestFields path contentLength headers →
        s.allows (.frameRecv id true endStream) = true →
        ∃ c s' os, s.cells a = some c ∧
          c.stream.head.request =
            ⟨path, contentLength, contentLengthField contentLength ++ headers⟩ ∧
          s.step (.frameRecv id true endStream) = some (s', os) ∧ .dispatched a ∈ os ∧
          ∀ later s'' os', sessionMachine.exec anyStep s' later = some (s'', os') →
            (∀ e, .frameRecv id true e ∉ as ++ later) →
            (tr ++ os ++ os').count (.dispatched a) = 1) ∧
    ∀ (status : ℕ) (r : Response) (headers : List (Bytes × Bytes)),
      status < 2 ^ 31 → (∀ n ∈ r.contentLength, n < 2 ^ 64) → PlainHeaders headers →
      ∀ (s : Session) (tr : List SessionLabel) (a : ℕ) (c : Cell),
        sessionMachine.Run anyStep tr s → s.cells a = some c →
        fields (onCell a tr) = r.submit status headers →
        (∀ i stopped adds, c.stream.head.statusReady.waiter i = .idle →
          ∃ s', s.act a (.getResponse i stopped) adds =
            some (s', [.stream a (.responseReturned i none (r.received status headers))])) ∧
        ∀ i, c.stream.head.statusReady.waiter i ≠ .idle →
          ∃ w, c.stream.head.statusReady.waiter i = .posted w ∧
            (w = .signalled → ∀ adds, ∃ s', s.act a (.resumeResponse i) adds =
              some (s', [.stream a (.responseReturned i none (r.received status headers))])) := by
  refine ⟨?_, ?_⟩
  · intro path contentLength headers hn hheaders as s tr id a endStream hexec hfind hfields hallows
    have run : sessionMachine.Run anyStep tr s :=
      Machine.Run.exec (.init (sessionMachine_init .server)) hexec
    obtain ⟨c, hc, rfl⟩ := (Session.inv_run run).entry id a hfind
    have hcell := onCell_run (Session.cells_run run) hc
    obtain ⟨s', os, hs, hcount⟩ := Session.step_frameRecv hallows hfind hc
    have hmem : .dispatched a ∈ os := List.count_pos_iff.mp (by omega)
    have hbefore (h : ∀ e, .frameRecv c.stream.id true e ∉ as) : .dispatched a ∉ tr :=
      Session.exec_not_dispatched (.init (sessionMachine_init .server)) hexec hc h
    refine ⟨c, s', os, hc, Head.request_of_fields hcell hn hheaders hfields, hs, hmem, ?_⟩
    intro later s'' os' hlater honce
    have run' : sessionMachine.Run anyStep (tr ++ os) s' := .step run trivial hs
    obtain ⟨c', hc', hid'⟩ := (Session.step_moves hs).keeps (Session.inv_run run) hc
    obtain ⟨c'', hc'', hid''⟩ := Session.exec_keeps run' hlater hc'
    have hafter : .dispatched a ∉ os' := by
      refine Session.exec_not_dispatched run' hlater hc'' fun e he => ?_
      rw [hid'', hid'] at he
      exact honce e (List.mem_append_right as he)
    rw [List.count_append, List.count_append, hcount, List.count_eq_zero_of_not_mem hafter,
      List.count_eq_zero_of_not_mem (hbefore fun e he => honce e (List.mem_append_left later he))]
  · intro status r headers hstatus hn hheaders s tr a c run hc hfields
    have hcell := onCell_run (Session.cells_run run) hc
    obtain ⟨hpos, hanswer⟩ := Head.answer_of_fields hcell hstatus hn hheaders hfields
    refine ⟨fun i stopped adds hidle => ?_, fun i hne => ?_⟩
    · obtain ⟨c', hs⟩ := Cell.getResponse_answers hpos hidle stopped
      obtain ⟨s', hact⟩ := Session.act_of_step hc hs adds
      rw [hanswer i] at hact
      exact ⟨s', hact⟩
    · cases hw : c.stream.head.statusReady.waiter i with
      | idle => exact absurd hw hne
      | waiting => exact absurd (Head.waiting_neg hcell hw) hpos
      | posted w =>
          refine ⟨w, rfl, fun hsignal adds => ?_⟩
          subst hsignal
          obtain ⟨c', hs⟩ := Cell.resumeResponse_answers hpos hw
          obtain ⟨s', hact⟩ := Session.act_of_step hc hs adds
          rw [hanswer i] at hact
          exact ⟨s', hact⟩

/-- A request with a content length and a header that comes twice, received while
another stream is open, and a response to it that two calls ask for. -/
theorem message_head_round_trip_of_exchange :
    (∃ s tr c s' os, sessionMachine.Run anyStep tr s ∧ s.cells 1 = some c ∧
      c.stream.head.request = ⟨ascii "/p", some 12,
        [(ascii "content-length", ascii "12"), (ascii "x", ascii "y"), (ascii "x", ascii "z")]⟩ ∧
      s.step (.frameRecv 3 true false) = some (s', os) ∧ .dispatched 1 ∈ os) ∧
    ∃ s tr s', sessionMachine.Run anyStep tr s ∧
      s.act 0 (.getResponse 1 false) 0 = some (s', [.stream 0 (.responseReturned 1 none
        ⟨200, some 7, [(ascii "x", ascii "y"), (ascii "content-length", ascii "7")]⟩)]) := by
  refine ⟨?_, ?_⟩
  · have hsome : ((sessionMachine.exec anyStep (Session.fresh .server)
        [.memSend (some []) 0 true, .startRecv true 0, .readDone false 0, .beginHeaders 1 true,
          .beginHeaders 3 true, .header 3 (ascii ":method") (ascii "POST"),
          .header 3 (ascii ":scheme") (ascii "http"), .header 1 (ascii ":path") (ascii "/q"),
          .header 3 (ascii ":path") (ascii "/p"), .header 3 (ascii ":authority") (ascii "localhost"),
          .header 3 (ascii "content-length") (ascii "12"), .header 3 (ascii "x") (ascii "y"),
          .header 3 (ascii "x") (ascii "z")]).any fun r =>
        decide (r.1.findStream 3 = some 1 ∧ fields (onCell 1 r.2) = submitRequestFields
          (ascii "/p") (some 12) [(ascii "x", ascii "y"), (ascii "x", ascii "z")] ∧
          r.1.allows (.frameRecv 3 true false) = true)) = true := by decide
    obtain ⟨⟨s, tr⟩, hexec, hr⟩ := (Option.any_eq_true _ _).mp hsome
    obtain ⟨hfind, hfields, hallows⟩ := of_decide_eq_true hr
    obtain ⟨c, s', os, hc, hrequest, hs, hmem, -⟩ := message_head_round_trip.1 (ascii "/p") (some 12)
      [(ascii "x", ascii "y"), (ascii "x", ascii "z")] (by decide) (by decide) _ s tr 3 1 false hexec
      hfind hfields hallows
    exact ⟨s, tr, c, s', os, Machine.Run.exec (.init (sessionMachine_init .server)) hexec, hc,
      hrequest, hs, hmem⟩
  · obtain ⟨tr, s, run, hcell, hfields⟩ :
        ∃ tr s, sessionMachine.Run anyStep tr s ∧
          ((s.cells 0).any fun c => decide (c.stream.head.statusReady.waiter 1 = .idle)) = true ∧
          fields (onCell 0 tr) = Response.submit ⟨some 7⟩ 200 [(ascii "x", ascii "y")] :=
      Machine.run_of_exec (sessionMachine_init .client)
        [.memSend (some []) 0 true, .startRecv true 0, .submitRequest (some 1) 1,
          .user 0 (.getResponse 0 false) 0, .readDone false 0,
          .header 1 (ascii ":status") (ascii "200"), .header 1 (ascii "x") (ascii "y"),
          .header 1 (ascii "content-length") (ascii "7")] (by decide)
    obtain ⟨c, hc, hidle⟩ := (Option.any_eq_true _ _).mp hcell
    obtain ⟨s', hact⟩ := (message_head_round_trip.2 200 ⟨some 7⟩ [(ascii "x", ascii "y")] (by decide)
      (by decide) (by decide) s tr 0 c run hc hfields).1 1 false 0 (of_decide_eq_true hidle)
    exact ⟨s, tr, s', run, hact⟩

end Nghttp2Corosio
