import Nghttp2Corosio.Stream.HeadInvariant

/-!
Several header blocks on one stream.

A peer may send interim responses before the response and trailers after it.
`on_header_callback` does not ask which block a field belongs to: a status
replaces the one before it, and the other fields are added to those of all blocks
so far. So a `get_response()` that goes on between two blocks returns what has
come together by then, and `final_response_iff` says when that is the response.
-/

namespace Nghttp2Corosio

open Async Buffers Runs

/-- The header blocks of a response as nghttp2 lets them pass: interim responses
with a status of their own, the final block, and perhaps trailers. A status comes
first in its block, and there are no other pseudo-headers. -/
structure ResponseBlocks where
  interim : List (Bytes × List (Bytes × Bytes))
  status : Bytes
  final : List (Bytes × Bytes)
  trailer : Option (List (Bytes × Bytes))
  interim_status : ∀ b ∈ interim, parseStatus b.1 < 200
  final_status : 200 ≤ parseStatus status
  interim_plain : ∀ b ∈ interim, ∀ f ∈ b.2, ¬IsPseudo f.1
  final_plain : ∀ f ∈ final, ¬IsPseudo f.1
  trailer_plain : ∀ fs ∈ trailer, ∀ f ∈ fs, ¬IsPseudo f.1

def statusBlock (v : Bytes) (fs : List (Bytes × Bytes)) : List (Bytes × Bytes) :=
  (ascii ":status", v) :: fs

def ResponseBlocks.blocks (r : ResponseBlocks) : List (List (Bytes × Bytes)) :=
  r.interim.map (fun b => statusBlock b.1 b.2) ++ statusBlock r.status r.final ::
    r.trailer.toList

/-! ### What several blocks amount to -/

theorem headersOf_append (fs gs : List (Bytes × Bytes)) :
    headersOf (fs ++ gs) = headersOf fs ++ headersOf gs := by
  simp [headersOf]

theorem headersOf_plain {fs : List (Bytes × Bytes)} (hfs : ∀ f ∈ fs, ¬IsPseudo f.1) :
    headersOf fs = fs := by
  simpa [headersOf] using hfs

theorem statusOf_append_block (fs : List (Bytes × Bytes)) (v : Bytes) {gs : List (Bytes × Bytes)}
    (hgs : ∀ f ∈ gs, ¬IsPseudo f.1) :
    statusOf (fs ++ statusBlock v gs) = some (parseStatus v) := by
  obtain ⟨hlast, -⟩ := block_prefix v hgs
  unfold statusOf at hlast ⊢
  rw [List.filterMap_append, List.getLast?_append, statusBlock, hlast]
  rfl

theorem statusOf_append_plain (fs : List (Bytes × Bytes)) {gs : List (Bytes × Bytes)}
    (hgs : ∀ f ∈ gs, ¬IsPseudo f.1) : statusOf (fs ++ gs) = statusOf fs := by
  have hnone : (gs.filterMap fun f =>
      if f.1 = ascii ":status" then some (parseStatus f.2) else none) = [] := by
    refine List.filterMap_eq_nil_iff.mpr fun f hf => if_neg fun hname => ?_
    exact hgs f hf (hname ▸ by decide)
  unfold statusOf
  rw [List.filterMap_append, hnone, List.append_nil]

/-- The last of the blocks that have arrived has the status. -/
theorem statusOf_interim {bs : List (Bytes × List (Bytes × Bytes))}
    (hplain : ∀ b ∈ bs, ∀ f ∈ b.2, ¬IsPseudo f.1) {n : ℕ}
    (h : statusOf (bs.map fun b => statusBlock b.1 b.2).flatten = some n) :
    ∃ b ∈ bs, n = parseStatus b.1 := by
  rcases List.eq_nil_or_concat' bs with rfl | ⟨bs, b, rfl⟩
  · cases h
  · have hb : b ∈ bs ++ [b] := List.mem_append_right bs (List.mem_singleton_self b)
    rw [List.map_append, List.flatten_append, List.map_singleton, List.flatten_singleton,
      statusOf_append_block _ _ (hplain b hb), Option.some.injEq] at h
    exact ⟨b, hb, h.symm⟩

theorem headersOf_interim {bs : List (Bytes × List (Bytes × Bytes))}
    (hplain : ∀ b ∈ bs, ∀ f ∈ b.2, ¬IsPseudo f.1) :
    headersOf (bs.map fun b => statusBlock b.1 b.2).flatten = bs.flatMap Prod.snd := by
  induction bs with
  | nil => rfl
  | cons b bs ih =>
      rw [List.map_cons, List.flatten_cons, headersOf_append, List.flatMap_cons,
        ih fun b' hb' => hplain b' (List.mem_cons_of_mem b hb')]
      obtain ⟨-, -, hb⟩ := block_prefix b.1 (hplain b List.mem_cons_self)
      rw [statusBlock, hb]

theorem contentLengthOf_interim {bs : List (Bytes × List (Bytes × Bytes))}
    (hbare : ∀ b ∈ bs, b.2 = []) (fs : List (Bytes × Bytes)) :
    contentLengthOf ((bs.map fun b => statusBlock b.1 b.2).flatten ++ fs) = contentLengthOf fs := by
  induction bs with
  | nil => rfl
  | cons b bs ih =>
      rw [← ih fun b' hb' => hbare b' (List.mem_cons_of_mem b hb')]
      have hne : ascii ":status" ≠ ascii "content-length" := by decide
      simp [statusBlock, hbare b List.mem_cons_self, contentLengthOf, hne]

/-! ### The response -/

def ResponseBlocks.trailers (r : ResponseBlocks) (m : ℕ) : List (Bytes × Bytes) :=
  (r.trailer.toList.take m).flatten

theorem ResponseBlocks.trailers_plain (r : ResponseBlocks) (m : ℕ) :
    ∀ f ∈ r.trailers m, ¬IsPseudo f.1 := by
  intro f hf
  obtain ⟨fs, hfs, hf⟩ := List.mem_flatten.mp hf
  exact r.trailer_plain fs (Option.mem_toList.mp (List.mem_of_mem_take hfs)) f hf

theorem ResponseBlocks.trailers_eq_nil_iff (r : ResponseBlocks) (m : ℕ) :
    r.trailers m = [] ↔ (0 < m → r.trailer.getD [] = []) := by
  unfold ResponseBlocks.trailers
  cases m with
  | zero => simp
  | succ m =>
      cases r.trailer with
      | none => simp
      | some fs => simp

/-- What has arrived after the final block: all interim responses, the final block
and, from the next block on, the trailers. -/
theorem ResponseBlocks.flatten_take (r : ResponseBlocks) (m : ℕ) :
    (r.blocks.take (r.interim.length + 1 + m)).flatten =
      (r.interim.map fun b => statusBlock b.1 b.2).flatten ++ statusBlock r.status r.final ++
        r.trailers m := by
  have hlength : r.interim.length + 1 + m =
      (r.interim.map fun b => statusBlock b.1 b.2).length + (m + 1) := by
    rw [List.length_map]
    omega
  rw [ResponseBlocks.blocks, hlength, List.take_length_add_append, List.take_succ_cons,
    List.flatten_append, List.flatten_cons, List.append_assoc, ResponseBlocks.trailers]

theorem ResponseBlocks.take_interim (r : ResponseBlocks) {j : ℕ} (hj : j ≤ r.interim.length) :
    r.blocks.take j = (r.interim.take j).map fun b => statusBlock b.1 b.2 := by
  rw [ResponseBlocks.blocks, List.take_append_of_le_length (by rwa [List.length_map]),
    List.map_take]

/-- When `get_response()` goes on after `j` blocks, it returns the response of the
final block if and only if that block is among them, no interim response had a
field besides its status, and no field of a trailer has arrived. -/
theorem final_response_iff (r : ResponseBlocks) {tr : List Label} {c : Cell}
    (run : cellMachine.Run anyStep tr c) {pre post : List Label} {i : ℕ}
    {response : ClientResponse} (htr : tr = pre ++ .responseReturned i none response :: post)
    {j : ℕ} (hblocks : fields pre = (r.blocks.take j).flatten) :
    response = blockResponse r.status r.final ↔
      r.interim.length < j ∧ (∀ b ∈ r.interim, b.2 = []) ∧
        (r.interim.length + 1 < j → r.trailer.getD [] = []) := by
  obtain ⟨hstatus, hlen, hheaders⟩ := (Head.captured_run run).2 pre _ post htr
  obtain ⟨status, contentLength, headers⟩ := response
  dsimp only at hstatus hlen hheaders
  rw [hblocks] at hstatus hlen hheaders
  rcases Nat.lt_or_ge r.interim.length j with hlt | hge
  · obtain ⟨m, rfl⟩ : ∃ m, j = r.interim.length + 1 + m := ⟨j - (r.interim.length + 1), by omega⟩
    have hlater : r.trailers m = [] ↔
        (r.interim.length + 1 < r.interim.length + 1 + m → r.trailer.getD [] = []) := by
      rw [r.trailers_eq_nil_iff, Nat.lt_add_right_iff_pos]
    have hbare : r.interim.flatMap Prod.snd = [] ↔ ∀ b ∈ r.interim, b.2 = [] :=
      List.flatMap_eq_nil_iff
    obtain ⟨-, hfinal⟩ := block_prefix r.status r.final_plain
    rw [r.flatten_take m] at hstatus hlen hheaders
    rw [statusOf_append_plain _ (r.trailers_plain m), statusOf_append_block _ _ r.final_plain,
      Option.some.injEq] at hstatus
    rw [headersOf_append, headersOf_append, headersOf_interim r.interim_plain,
      headersOf_plain (r.trailers_plain m), statusBlock, hfinal.2] at hheaders
    rw [← hlater, ← hbare, and_iff_right hlt]
    constructor
    · intro heq
      -- the fields of the final block are there, so nothing else has room
      have hsame : r.interim.flatMap Prod.snd ++ r.final ++ r.trailers m = r.final := by
        rw [← hheaders]
        exact congrArg ClientResponse.headers heq
      have hlength := congrArg List.length hsame
      rw [List.length_append, List.length_append] at hlength
      exact ⟨List.length_eq_zero_iff.mp (by omega), List.length_eq_zero_iff.mp (by omega)⟩
    · rintro ⟨hnone, hnone'⟩
      rw [hnone', List.append_nil, contentLengthOf_interim (hbare.mp hnone), statusBlock,
        hfinal.1] at hlen
      rw [hnone, hnone', List.nil_append, List.append_nil] at hheaders
      rw [← hstatus, hlen, hheaders, blockResponse]
  · refine iff_of_false (fun heq => ?_) fun h => absurd h.1 (Nat.not_lt.mpr hge)
    rw [r.take_interim hge] at hstatus
    obtain ⟨b, hb, hbstatus⟩ := statusOf_interim
      (fun b hb => r.interim_plain b (List.mem_of_mem_take hb)) hstatus
    have hinterim := r.interim_status b (List.mem_of_mem_take hb)
    have hfinal := r.final_status
    have hsame : status = parseStatus r.status := congrArg ClientResponse.status heq
    omega

/-- A response after an interim response that has only a status. -/
def continuedResponse : ResponseBlocks where
  interim := [(ascii "100", [])]
  status := ascii "200"
  final := [(ascii "content-length", ascii "12")]
  trailer := none
  interim_status := by decide
  final_status := by decide
  interim_plain := by decide
  final_plain := by decide
  trailer_plain := nofun

/-- The call waits for all of it. -/
theorem final_response_iff_of_continue :
    ∃ tr c, cellMachine.Run anyStep tr c ∧
      fields tr = (continuedResponse.blocks.take 2).flatten ∧
      .responseReturned 0 none (blockResponse (ascii "200")
        [(ascii "content-length", ascii "12")]) ∈ tr := by
  obtain ⟨tr, c, run, hfields, hlast⟩ :
      ∃ tr c, cellMachine.Run anyStep tr c ∧
        fields tr = (continuedResponse.blocks.take 2).flatten ∧
        tr.getLast? = some (.responseReturned 0 none ⟨200, some 12,
          [(ascii "content-length", ascii "12")]⟩) :=
    Machine.run_of_exec (cellMachine_init 1 true)
      [.getResponse 0 false, .onHeader (ascii ":status") (ascii "100"),
        .onHeader (ascii ":status") (ascii "200"),
        .onHeader (ascii "content-length") (ascii "12"), .resumeResponse 0] (by decide)
  obtain ⟨pre, rfl⟩ := List.getLast?_eq_some_iff.mp hlast
  have hpre : fields pre = (continuedResponse.blocks.take 2).flatten := by
    rw [fields_append] at hfields
    exact (List.append_nil _).symm.trans hfields
  have hresponse := (final_response_iff continuedResponse run rfl hpre).mpr (by decide)
  refine ⟨_, c, run, hfields, ?_⟩
  rw [show blockResponse (ascii "200") [(ascii "content-length", ascii "12")] =
    blockResponse continuedResponse.status continuedResponse.final from rfl, ← hresponse]
  simp

/-- A response after an interim response with a field, and with a trailer. -/
def hintedResponse : ResponseBlocks where
  interim := [(ascii "103", [(ascii "link", ascii "a")])]
  status := ascii "200"
  final := [(ascii "x", ascii "y")]
  trailer := some [(ascii "t", ascii "z")]
  interim_status := by decide
  final_status := by decide
  interim_plain := by decide
  final_plain := by decide
  trailer_plain := by simp [show ¬IsPseudo (ascii "t") by decide]

/-- Three calls that go on after one, two and three blocks return three responses,
and none of them is that of the final block. -/
theorem blocks_leak_into_response :
    ∃ tr c, cellMachine.Run anyStep tr c ∧
      tr = [.header (ascii ":status") (ascii "103"), .header (ascii "link") (ascii "a"),
        .responseReturned 0 none ⟨103, none, [(ascii "link", ascii "a")]⟩,
        .header (ascii ":status") (ascii "200"), .header (ascii "x") (ascii "y"),
        .responseReturned 1 none ⟨200, none, [(ascii "link", ascii "a"), (ascii "x", ascii "y")]⟩,
        .header (ascii "t") (ascii "z"),
        .responseReturned 2 none ⟨200, none, [(ascii "link", ascii "a"), (ascii "x", ascii "y"),
          (ascii "t", ascii "z")]⟩] ∧
      fields tr = hintedResponse.blocks.flatten ∧
      blockResponse hintedResponse.status hintedResponse.final =
        ⟨200, none, [(ascii "x", ascii "y")]⟩ :=
  Machine.run_of_exec (cellMachine_init 1 true)
    [.getResponse 0 false, .onHeader (ascii ":status") (ascii "103"),
      .onHeader (ascii "link") (ascii "a"), .resumeResponse 0,
      .onHeader (ascii ":status") (ascii "200"), .onHeader (ascii "x") (ascii "y"),
      .getResponse 1 false, .onHeader (ascii "t") (ascii "z"), .getResponse 2 false] (by decide)

end Nghttp2Corosio
