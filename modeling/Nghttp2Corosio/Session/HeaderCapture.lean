import Nghttp2Corosio.Session.Registry
import Nghttp2Corosio.Stream.HeadInvariant

/-!
What `on_header_callback` makes of the fields of an arbitrary peer.

The callback decides whether a `content-length` is well formed by the error code
of `std::from_chars` and by where the parser stopped. `Denotes` says without the
parser which values these are and which numbers they stand for; the two agree.
A session keeps, for every stream that is registered, all fields that are not
pseudo-headers, and the number of the last well-formed `content-length`.
-/

namespace Nghttp2Corosio

open Async Buffers Runs

/-- A non-empty string of ASCII digits that stands, most significant digit first,
for the number `n` of 64 bits. -/
structure Denotes (value : Bytes) (n : ℕ) : Prop where
  nonempty : value ≠ []
  digits : ∀ b ∈ value, 48 ≤ b.toNat ∧ b.toNat ≤ 57
  number : Nat.ofDigits 10 (value.reverse.map fun b => b.toNat - 48) = n
  bound : n < 2 ^ 64

theorem decimal_eq_ofDigits (digits : Bytes) :
    decimal digits = Nat.ofDigits 10 (digits.reverse.map fun b => b.toNat - 48) := by
  rw [Nat.ofDigits_eq_foldr, List.foldr_map, List.foldr_reverse, decimal]
  simp only [Nat.cast_id, Nat.add_comm]

/-- A `content-length` is accepted exactly when it denotes a number. -/
theorem parseContentLength_eq_some_iff {value : Bytes} {n : ℕ} :
    parseContentLength value = some n ↔ Denotes value n := by
  have hwhole : parseContentLength value = some n ↔ fromChars (2 ^ 64) value = (some n, []) := by
    unfold parseContentLength
    split
    · rename_i m heq
      rw [heq]
      simp
    · rename_i hne
      exact iff_of_false nofun fun heq => hne n heq
  rw [hwhole, fromChars_eq_iff, decimal_eq_ofDigits]
  simp only [isDigit, Bool.and_eq_true, decide_eq_true_eq]
  exact ⟨fun ⟨hne, hdigits, hnumber, hlt⟩ => ⟨hne, hdigits, hnumber, hlt⟩,
    fun h => ⟨h.nonempty, h.digits, h.number, h.bound⟩⟩

/-! ### The last well-formed field -/

/-- The last `content-length` among the fields that denotes a number denotes
`n`. -/
def LastLength (fs : List (Bytes × Bytes)) (n : ℕ) : Prop :=
  ∃ before value after, fs = before ++ (ascii "content-length", value) :: after ∧
    Denotes value n ∧ ∀ f ∈ after, f.1 = ascii "content-length" → ∀ m, ¬Denotes f.2 m

theorem lengthField_eq_none_iff {f : Bytes × Bytes} :
    (if f.1 = ascii "content-length" then parseContentLength f.2 else none) = none ↔
      (f.1 = ascii "content-length" → ∀ m, ¬Denotes f.2 m) := by
  rw [ite_eq_right_iff, ← forall_congr' fun _ => Option.eq_none_iff_forall_ne_some.symm]
  simp only [ne_eq, parseContentLength_eq_some_iff]

theorem contentLengthOf_eq_some_iff {fs : List (Bytes × Bytes)} {n : ℕ} :
    contentLengthOf fs = some n ↔ LastLength fs n := by
  rw [contentLengthOf, List.getLast?_filterMap, List.findSome?_eq_some_iff]
  constructor
  · rintro ⟨after, ⟨name, value⟩, before, hsplit, hvalue, hafter⟩
    obtain ⟨rfl, hdenotes⟩ : name = ascii "content-length" ∧ parseContentLength value = some n := by
      simpa using hvalue
    refine ⟨before.reverse, value, after.reverse, ?_, parseContentLength_eq_some_iff.mp hdenotes,
      fun f hf => lengthField_eq_none_iff.mp (hafter f (List.mem_reverse.mp hf))⟩
    rw [← List.reverse_reverse fs, hsplit]
    simp
  · rintro ⟨before, value, after, rfl, hdenotes, hafter⟩
    refine ⟨after.reverse, (ascii "content-length", value), before.reverse, by simp, ?_,
      fun f hf => lengthField_eq_none_iff.mpr (hafter f (List.mem_reverse.mp hf))⟩
    rw [if_pos rfl]
    exact parseContentLength_eq_some_iff.mpr hdenotes

theorem contentLengthOf_isSome_iff {fs : List (Bytes × Bytes)} :
    (contentLengthOf fs).isSome = true ↔
      ∃ f ∈ fs, f.1 = ascii "content-length" ∧ ∃ n, Denotes f.2 n := by
  rw [contentLengthOf, List.getLast?_filterMap, List.findSome?_isSome_iff]
  simp only [List.mem_reverse]
  refine exists_congr fun f => and_congr_right fun _ => ?_
  rw [Option.isSome_iff_ne_none, Ne, lengthField_eq_none_iff, Classical.not_imp, not_forall_not]

/-! ### Sessions -/

/-- A header callback for a registered stream adds its field to what the stream
has received. -/
theorem Session.step_header {s s' : Session} {id : ℤ} {name value : Bytes}
    {os : List SessionLabel} (hs : sessionMachine.step s (.header id name value) = some (s', os))
    {a : ℕ} (hfind : s.findStream id = some a) {c : Cell} (hc : s.cells a = some c) :
    fields (onCell a os) = [(name, value)] ∧ ∃ c', s'.cells a = some c' ∧
      c'.stream.head = c.stream.head.onHeader name value := by
  have hperform := (Session.step_eq_some hs).2
  simp only [Session.perform, Session.onHeader, hfind] at hperform
  obtain ⟨d, d', ls, hd, hstep, rfl, -, output, touched, ev, rfl⟩ := Session.act_eq_some hperform
  obtain rfl : c = d := Option.some.inj (hc.symm.trans hd)
  have hstream := (Cell.step_eq_some hstep).2.1
  simp only [Stream.step, Option.some.injEq, Prod.mk.injEq] at hstream
  obtain ⟨hhead, rfl⟩ := hstream
  refine ⟨by rw [onCell_map_stream]; rfl, d', by simp, ?_⟩
  rw [← hhead]

/-- In every run of a session, a `Stream` object has kept of the fields that it
received, in order, those whose name does not start with a colon; it has a
content length if and only if a `content-length` among them denotes a number,
and it is that of the last one that does. A callback for a registered stream adds
one field, and a `content-length` that denotes nothing is kept as a field and
leaves the content length alone. -/
theorem header_capture_exact {tr : List SessionLabel} {s : Session}
    (run : sessionMachine.Run anyStep tr s) {a : ℕ} {c : Cell} (hc : s.cells a = some c) :
    c.stream.head.headers = ((fields (onCell a tr)).filter fun f => ¬IsPseudo f.1) ∧
      (c.stream.head.contentLength.isSome = true ↔ ∃ f ∈ fields (onCell a tr),
        f.1 = ascii "content-length" ∧ ∃ n, Denotes f.2 n) ∧
      (∀ n, c.stream.head.contentLength = some n ↔ LastLength (fields (onCell a tr)) n) ∧
      ∀ id name value s' os, s.findStream id = some a →
        sessionMachine.step s (.header id name value) = some (s', os) →
        fields (onCell a (tr ++ os)) = fields (onCell a tr) ++ [(name, value)] ∧
          ∃ c', s'.cells a = some c' ∧
            (name = ascii "content-length" → (∀ n, ¬Denotes value n) →
              c'.stream.head.contentLength = c.stream.head.contentLength ∧
                c'.stream.head.headers = c.stream.head.headers ++ [(name, value)]) := by
  have hcaptured := (Head.captured_run (onCell_run (Session.cells_run run) hc)).1
  refine ⟨hcaptured.headers, ?_, fun n => ?_, fun id name value s' os hfind hs => ?_⟩
  · rw [hcaptured.contentLength]
    exact contentLengthOf_isSome_iff
  · rw [hcaptured.contentLength]
    exact contentLengthOf_eq_some_iff
  · obtain ⟨hfields, c', hc', hhead⟩ := Session.step_header hs hfind hc
    refine ⟨by rw [onCell_append, fields_append, hfields], c', hc', ?_⟩
    rintro rfl hmalformed
    have hnone : parseContentLength value = none := by
      rw [Option.eq_none_iff_forall_ne_some]
      exact fun n hn => hmalformed n (parseContentLength_eq_some_iff.mp hn)
    rw [hhead, Head.onHeader_of_not_pseudo _ (by decide), if_pos rfl, hnone]
    exact ⟨rfl, rfl⟩

/-- A request whose peer sends a pseudo-header late, and after a good
`content-length` one with a sign, one that ends in a blank and one that is
`2 ^ 64`. -/
theorem header_capture_exact_of_malformed :
    ∃ tr s c, sessionMachine.Run anyStep tr s ∧ s.cells 0 = some c ∧
      c.stream.head.headers = [(ascii "content-length", ascii "12"),
        (ascii "content-length", ascii "+5"), (ascii "x", ascii ""),
        (ascii "content-length", ascii "7 "),
        (ascii "content-length", ascii "18446744073709551616")] ∧
      LastLength (fields (onCell 0 tr)) 12 := by
  obtain ⟨tr, s, run, hfields, hcell⟩ :
      ∃ tr s, sessionMachine.Run anyStep tr s ∧
        fields (onCell 0 tr) = [(ascii "content-length", ascii "12"),
          (ascii "content-length", ascii "+5"), (ascii "x", ascii ""), (ascii ":path", ascii "/"),
          (ascii "content-length", ascii "7 "),
          (ascii "content-length", ascii "18446744073709551616")] ∧
        ((s.cells 0).any fun c => decide (c.stream.head.contentLength = some 12)) = true :=
    Machine.run_of_exec (sessionMachine_init .server)
      [.memSend (some []) 0 true, .startRecv true 0, .readDone false 0, .beginHeaders 1 true,
        .header 1 (ascii "content-length") (ascii "12"),
        .header 1 (ascii "content-length") (ascii "+5"), .header 1 (ascii "x") (ascii ""),
        .header 1 (ascii ":path") (ascii "/"), .header 1 (ascii "content-length") (ascii "7 "),
        .header 1 (ascii "content-length") (ascii "18446744073709551616")] (by decide)
  obtain ⟨c, hc, hlength⟩ := (Option.any_eq_true _ _).mp hcell
  obtain ⟨hheaders, -, hlast, -⟩ := header_capture_exact run hc
  refine ⟨tr, s, c, run, hc, ?_, (hlast 12).mp (of_decide_eq_true hlength)⟩
  rw [hheaders, hfields]
  decide

end Nghttp2Corosio
