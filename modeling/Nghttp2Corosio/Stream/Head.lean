import Nghttp2Corosio.Stream.Basic

/-!
The message head of a `Stream`: the fields that `on_header_callback` captures
and the coroutine `get_response()`, which waits in `Stream::status()` for the
`:status` field.

Names and values are byte strings. `fromChars` is `std::from_chars` for an
unsigned type with `limit` values: it parses the longest prefix of decimal
digits and returns the rest; without a digit, or out of range, there is no
value.

Any number of `get_response()` calls may be outstanding; call `i` waits at
place `i` of `status_ready_`.
-/

namespace Nghttp2Corosio

open Async Buffers Runs

def ascii (s : String) : Bytes := s.toList.map fun c => UInt8.ofNat c.toNat

def isDigit (b : UInt8) : Bool := 48 ≤ b.toNat && b.toNat ≤ 57

def decimal (digits : Bytes) : ℕ := digits.foldl (fun n b => 10 * n + (b.toNat - 48)) 0

def fromChars (limit : ℕ) (s : Bytes) : Option ℕ × Bytes :=
  let digits := s.takeWhile isDigit
  if digits.isEmpty then (none, s)
  else if decimal digits < limit then (some (decimal digits), s.dropWhile isDigit)
  else (none, s.dropWhile isDigit)

structure Head where
  path : Bytes := []
  contentLength : Option ℕ := none
  headers : List (Bytes × Bytes) := []
  status : ℤ := -1
  statusReady : Event ℕ := {}

/-- `static_cast<int>` of an `unsigned int`. -/
def castInt (n : ℕ) : ℤ := if n < 2 ^ 31 then n else (n : ℤ) - 2 ^ 32

def Head.setStatus (h : Head) (status : ℕ) : Head :=
  { h with status := castInt status, statusReady := h.statusReady.set }

def Head.addHeader (h : Head) (name value : Bytes) : Head :=
  { h with headers := h.headers ++ [(name, value)] }

/-- The number that `on_header_callback` passes to `set_status`. The variable
keeps its initial zero when nothing is parsed, and trailing characters are not
looked at. -/
def parseStatus (value : Bytes) : ℕ := (fromChars (2 ^ 32) value).1.getD 0

/-- The number that a `content-length` value denotes, if it is not malformed. -/
def parseContentLength (value : Bytes) : Option ℕ :=
  match fromChars (2 ^ 64) value with
  | (some n, []) => some n
  | _ => none

def IsPseudo (name : Bytes) : Prop := name.head? = some 58

instance (name : Bytes) : Decidable (IsPseudo name) :=
  inferInstanceAs (Decidable (name.head? = some 58))

/-- What `on_header_callback` does to the stream that it finds. -/
def Head.onHeader (h : Head) (name value : Bytes) : Head :=
  if name = ascii ":path" then { h with path := value }
  else if name = ascii ":status" then h.setStatus (parseStatus value)
  else if IsPseudo name then h
  else
    let h :=
      if name = ascii "content-length" then
        match parseContentLength value with
        | some n => { h with contentLength := some n }
        | none => h
      else h
    h.addHeader name value

/-- The part of `on_close` that wakes suspended `status()` calls. -/
def Head.onClose (h : Head) : Head := { h with statusReady := h.statusReady.set }

/-- The response that the continuation of `status()` builds. -/
def Head.response (h : Head) (status : ℕ) : ClientResponse :=
  ⟨status, h.contentLength, h.headers⟩

def Head.answer (h : Head) (i : ℕ) : Label :=
  .responseReturned i none (h.response h.status.toNat)

def Head.refuse (h : Head) (i : ℕ) (ec : Error) : Label :=
  .responseReturned i (some ec) (h.response 0)

/-- `get_response()` is called, under a token that is `stopped` or not. -/
def Head.getResponse (h : Head) (i : ℕ) (stopped : Bool) : Head × List Label :=
  -- the source asks whether there is a status, but not whether the stream is closed
  if h.status < 0 then
    let (ev, suspended) := h.statusReady.clearWait i stopped
    let h := { h with statusReady := ev }
    if suspended then (h, []) else (h, [h.refuse i .canceled])
  else (h, [h.answer i])

def Head.stopResponse (h : Head) (i : ℕ) : Head :=
  { h with statusReady := h.statusReady.stop i }

/-- The posted resumption of call `i` runs; `eofError` is what the read side
would report. -/
def Head.resumeResponse (h : Head) (eofError : Error) (i : ℕ) : Option (Head × List Label) :=
  match h.statusReady.waiter i with
  | .posted wake =>
      let h := { h with statusReady := h.statusReady.resume i }
      match wake with
      | .canceled => some (h, [h.refuse i .canceled])
      | .signalled =>
          if h.status < 0 then some (h, [h.refuse i eofError]) else some (h, [h.answer i])
  | _ => none

/-! ### Labels -/

theorem Head.getResponse_labels (h : Head) (i : ℕ) (stopped : Bool) :
    ∀ l ∈ (h.getResponse i stopped).2, l.isHead = true := by
  intro l hl
  unfold Head.getResponse at hl
  split at hl
  · cases stopped with
    | true =>
        rw [List.mem_singleton.mp hl]
        rfl
    | false => cases hl
  · rw [List.mem_singleton.mp hl]
    rfl

theorem Head.resumeResponse_eq_some {h h' : Head} {e : Error} {i : ℕ} {os : List Label}
    (heq : h.resumeResponse e i = some (h', os)) :
    ∃ w, h.statusReady.waiter i = .posted w ∧
      h' = { h with statusReady := h.statusReady.resume i } ∧
      (w = .canceled ∧ os = [h.refuse i .canceled] ∨
        w = .signalled ∧ h.status < 0 ∧ os = [h.refuse i e] ∨
        w = .signalled ∧ ¬ h.status < 0 ∧ os = [h.answer i]) := by
  unfold Head.resumeResponse at heq
  split at heq
  · rename_i w hw
    refine ⟨w, hw, ?_⟩
    cases w with
    | canceled =>
        simp only [Option.some.injEq, Prod.mk.injEq] at heq
        exact ⟨heq.1.symm, .inl ⟨rfl, heq.2.symm⟩⟩
    | signalled =>
        simp only at heq
        split at heq
        · rename_i hlt
          simp only [Option.some.injEq, Prod.mk.injEq] at heq
          exact ⟨heq.1.symm, .inr (.inl ⟨rfl, hlt, heq.2.symm⟩)⟩
        · rename_i hge
          simp only [Option.some.injEq, Prod.mk.injEq] at heq
          exact ⟨heq.1.symm, .inr (.inr ⟨rfl, hge, heq.2.symm⟩)⟩
  · cases heq

theorem Head.resumeResponse_labels {h h' : Head} {e : Error} {i : ℕ} {os : List Label}
    (heq : h.resumeResponse e i = some (h', os)) : ∀ l ∈ os, l.isHead = true := by
  obtain ⟨w, -, -, ⟨-, rfl⟩ | ⟨-, -, rfl⟩ | ⟨-, -, rfl⟩⟩ := Head.resumeResponse_eq_some heq <;>
  · intro l hl
    rw [List.mem_singleton.mp hl]
    rfl

/-! ### Header fields -/

/-- A field that is not a pseudo-header is appended to the headers, and a
well-formed `content-length` is taken over as well. -/
theorem Head.onHeader_of_not_pseudo (h : Head) {name : Bytes} (hname : ¬ IsPseudo name)
    (value : Bytes) :
    h.onHeader name value =
      { h with
        headers := h.headers ++ [(name, value)]
        contentLength :=
          if name = ascii "content-length" then (parseContentLength value).or h.contentLength
          else h.contentLength } := by
  have hpath : name ≠ ascii ":path" := by
    rintro rfl
    exact hname (by decide)
  have hstatus : name ≠ ascii ":status" := by
    rintro rfl
    exact hname (by decide)
  unfold Head.onHeader
  rw [if_neg hpath, if_neg hstatus, if_neg hname]
  split
  · cases parseContentLength value <;> rfl
  · rfl

theorem Head.onHeader_status (h : Head) (value : Bytes) :
    h.onHeader (ascii ":status") value = h.setStatus (parseStatus value) := by
  unfold Head.onHeader
  rw [if_neg (by decide), if_pos rfl]

theorem castInt_toNat {n : ℕ} (h : ¬ castInt n < 0) (hn : n < 2 ^ 32) : (castInt n).toNat = n := by
  unfold castInt at h ⊢
  split
  · simp
  · rename_i hge
    rw [if_neg hge] at h
    omega

end Nghttp2Corosio
