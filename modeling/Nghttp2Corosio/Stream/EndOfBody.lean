import Nghttp2Corosio.Stream.ReadInvariant

/-!
How reading a body ends.

A read that completes with `eof` or `stream_truncated` says that the body is
over. When it does so, nothing is left to be read (`ReadSide.Over`), and from
then on every read says the same. This rests on the order of the callbacks: no
data comes after the end was announced or the stream was closed, and the end is
not announced on a closed stream. `ReadSide.MayReceive` states that order, and
the session is what keeps it.
-/

namespace Nghttp2Corosio

open Async Buffers Runs

/-- The errors with which a body is over. -/
def Error.endsBody : Error → Bool
  | .eof | .streamTruncated => true
  | _ => false

/-- The order of the callbacks of one stream. -/
def ReadSide.MayReceive (closed : Bool) (r : ReadSide) : Action → Prop
  | .onData _ => r.readEof = false ∧ closed = false
  | .onReadEof => closed = false
  | _ => True

def bodyOk (c : Cell) (a : Action) : Prop :=
  a.HasRoom ∧ c.stream.read.MayReceive c.stream.closed a

theorem ReadSide.finishRead_mem_iff (r : ReadSide) (res res' : ReadResult) :
    .readReturned res' ∈ (r.finishRead res).2 ↔ res' = res := by
  unfold ReadSide.finishRead
  split <;> simp

theorem ReadSide.finishRead_of_ec (r : ReadSide) {res : ReadResult} (h : res.ec ≠ none) :
    (r.finishRead res).2 = [.readReturned res] := by
  simp [ReadSide.finishRead, h]

theorem ReadFrame.canceled_ec (f : ReadFrame) {e : Error} (he : e.endsBody = true) :
    f.canceled.ec ≠ some e := by
  unfold ReadFrame.canceled
  split
  · rintro heq
    cases heq
    cases he
  · simp

theorem ReadSide.parkRead_ec (r : ReadSide) (f : ReadFrame) {res : ReadResult} {e : Error}
    (he : e.endsBody = true) (hres : .readReturned res ∈ (r.parkRead f).2) : res.ec ≠ some e := by
  rcases r.parkRead_cases f with ⟨-, heq⟩ | ⟨-, heq⟩
  · rw [heq] at hres
    cases hres
  · rw [heq, ReadSide.finishRead_mem_iff] at hres
    rw [hres]
    exact f.canceled_ec he

theorem ReadSide.woken_ec {r : ReadSide} {closed : Bool} {f : ReadFrame} {res : ReadResult}
    (h : r.woken closed f = some res) {e : Error} (hec : res.ec = some e) :
    f.copied = [] ∧ (r.readEof = true ∨ closed = true) ∧ res = ⟨some r.eofError, []⟩ := by
  unfold ReadSide.woken at h
  split at h
  · cases h
    cases hec
  · rename_i hnil
    split at h
    · rename_i hflags
      cases h
      exact ⟨by simpa using hnil, by simpa using hflags, rfl⟩
    · cases h

/-! ### The body is over -/

/-- The body is over with error `e`: nothing is left to be read, no read is
suspended, and the flags say `e`. -/
structure ReadSide.Over (closed : Bool) (e : Error) (r : ReadSide) : Prop where
  flags : r.readEof = true ∨ closed = true
  error : r.eofError = e
  contents : r.contents = []
  idle : r.reader = none

theorem ReadSide.Inv.readSome_ended {r : ReadSide} (h : r.Inv) (hidle : r.reader = none)
    {closed : Bool} {sizes : List ℕ} {stopped : Bool} {res : ReadResult} {e : Error}
    (hroom : 0 < sizes.sum) (hres : .readReturned res ∈ (r.readSome closed sizes stopped).2)
    (hec : res.ec = some e) (he : e.endsBody = true) :
    (r.readEof = true ∨ closed = true) ∧ res = ⟨some r.eofError, []⟩ ∧
      (r.readSome closed sizes stopped).1.Over closed r.eofError ∧
      (r.readSome closed sizes stopped).2 = [.readReturned res] := by
  obtain ⟨hdrain, hbreak⟩ :=
    ReadSide.drain_spec h.chunks h.offset (Window.ofSizes maxIovec sizes)
  unfold ReadSide.readSome at hres ⊢
  dsimp only at hres ⊢
  split at hres
  · rw [ReadSide.finishRead_mem_iff] at hres
    subst hres
    cases hec
  · rename_i hgot
    rw [if_neg hgot]
    have hgot : (r.drain (Window.ofSizes maxIovec sizes)).got = [] := by simpa using hgot
    split at hres
    · rename_i hflags
      rw [ReadSide.finishRead_mem_iff] at hres
      rw [if_pos hflags]
      -- nothing was taken although there was room, so nothing is buffered
      have hchunks : (r.drain (Window.ofSizes maxIovec sizes)).chunks = [] := by
        refine hbreak.resolve_right ?_
        have := hdrain.room
        rw [hgot, Window.room_ofSizes, List.length_nil, Nat.zero_add] at this
        omega
      have hflags : r.readEof = true ∨ closed = true := by simpa using hflags
      refine ⟨hflags, hres, ⟨hflags, rfl, ?_, hidle⟩, ?_⟩
      · simp [ReadSide.contents, ReadSide.inSink, ReadSide.unread, hidle, hchunks]
      · rw [hres]
        exact ReadSide.finishRead_of_ec _ (by simp)
    · exact absurd hec (ReadSide.parkRead_ec _ _ he hres)

/-- A read that says that the body is over is right: nothing is left. -/
theorem ReadSide.Inv.step_ended {r r' : ReadSide} {closed : Bool} {a : Action} {os : List Label}
    (h : r.Inv) (hroomy : r.Roomy) (hs : r.Step closed a os r') (ha : a.HasRoom)
    {res : ReadResult} (hres : .readReturned res ∈ os) {e : Error} (hec : res.ec = some e)
    (he : e.endsBody = true) :
    (r.readEof = true ∨ closed = true) ∧ res = ⟨some r.eofError, []⟩ ∧
      r'.Over closed r.eofError ∧ os = [.readReturned res] := by
  cases hs with
  | onData data => simp at hres
  | onReadEof => simp at hres
  | onClose => simp at hres
  | readSome sizes stopped hidle => exact h.readSome_ended hidle ha hres hec he
  | stopRead r' hstop => simp at hres
  | resumeRead r' os hresume =>
      obtain ⟨f, w, hf, -, ⟨res', heq, hcases⟩ | ⟨-, -, heq⟩⟩ :=
        ReadSide.resumeRead_eq_some hresume
      · obtain ⟨rfl, rfl⟩ := Prod.ext_iff.mp heq
        rw [ReadSide.finishRead_mem_iff] at hres
        subst hres
        rcases hcases with ⟨-, rfl⟩ | ⟨-, hwoken⟩
        · exact absurd hec (f.canceled_ec he)
        · obtain ⟨hcopied, hflags, heq⟩ := ReadSide.woken_ec hwoken hec
          have hchunks := (hroomy f hf hcopied).2
          refine ⟨hflags, heq, ⟨hflags, rfl, ?_, rfl⟩, ?_⟩
          · simp [ReadSide.contents, ReadSide.inSink, ReadSide.unread, hchunks]
          · exact ReadSide.finishRead_of_ec _ (by simp [hec])
      · rw [show os = (ReadSide.parkRead _ f).2 from congrArg Prod.snd heq] at hres
        exact absurd hec (ReadSide.parkRead_ec _ _ he hres)
  | other a os ha hos => exact absurd (hos _ hres) (by simp [Label.isRead])

/-- Once the body is over it stays over, and every read says so. -/
theorem ReadSide.Over.step {r r' : ReadSide} {closed : Bool} {a : Action} {os : List Label}
    {e : Error} (hover : r.Over closed e) (h : r.Inv) (hs : r.Step closed a os r')
    (ha : r.MayReceive closed a) :
    r'.Over (closed || decide (a = .onClose)) e ∧
      ∀ res, .readReturned res ∈ os → res = ⟨some e, []⟩ := by
  obtain ⟨hflags, herror, hcontents, hidle⟩ := hover
  cases hs with
  | onData data =>
      rcases hflags with heof | hclosed
      · exact absurd heof (by simp [ha.1])
      · exact absurd hclosed (by simp [ha.2])
  | onReadEof =>
      -- the end is announced again; the stream is not closed, so `e` was `eof`
      have hopen : closed = false := ha
      have heof : r.readEof = true := hflags.resolve_right (by simp [hopen])
      refine ⟨⟨.inl rfl, ?_, hcontents, hidle⟩, by simp⟩
      rw [← herror, ReadSide.eofError, ReadSide.eofError, heof]
      rfl
  | onClose => exact ⟨⟨.inr (by simp), herror, hcontents, hidle⟩, by simp⟩
  | readSome sizes stopped _ =>
      rw [show (closed || decide (Action.readSome sizes stopped = .onClose)) = closed by simp]
      obtain ⟨hdrain, -⟩ :=
        ReadSide.drain_spec h.chunks h.offset (Window.ofSizes maxIovec sizes)
      have hunread : r.unread = [] := (List.append_eq_nil_iff.mp hcontents).2
      have hparts := hdrain.contents
      rw [hunread, List.append_eq_nil_iff] at hparts
      unfold ReadSide.readSome
      dsimp only
      rw [if_neg (by simp [hparts.1]), if_pos (by simpa using hflags)]
      refine ⟨⟨hflags, herror, ?_, hidle⟩, fun res hres => ?_⟩
      · rw [ReadSide.finishRead_fst, ReadSide.contents, ReadSide.inSink, hidle]
        exact hparts.2
      · rw [ReadSide.finishRead_mem_iff] at hres
        rw [hres, ← herror]
        rfl
  | stopRead r' hstop => simp [ReadSide.stopRead, hidle] at hstop
  | resumeRead r' os hresume => simp [ReadSide.resumeRead, hidle] at hresume
  | other a os hother hos =>
      have hne : a ≠ .onClose := by
        rintro rfl
        cases hother
      rw [decide_eq_false hne, Bool.or_false]
      exact ⟨⟨hflags, herror, hcontents, hidle⟩,
        fun res hres => absurd (hos _ hres) (by simp [Label.isRead])⟩

/-! ### Runs -/

/-- What a read that completes with `res` says about the body, after the trace
`pre`. -/
structure EndsBody (pre : List Label) (res : ReadResult) : Prop where
  eof : res.ec = some .eof → .readEnded ∈ pre
  truncated : res.ec = some .streamTruncated → .closed ∈ pre ∧ .readEnded ∉ pre
  whole : ∀ e, res.ec = some e → e.endsBody = true →
    res.bytes = [] ∧ (returned pre).Perm (delivered pre)
  final : ∀ e bytes, e.endsBody = true → .readReturned ⟨some e, bytes⟩ ∈ pre → res = ⟨some e, []⟩

/-- A read that says that the body is over, after a run that left nothing to be
read. -/
theorem EndsBody.of_contents {ok : Cell → Action → Prop} {tr : List Label} {c : Cell}
    (run : cellMachine.Run ok tr c) (hflags : c.stream.read.readEof = true ∨ c.stream.closed = true)
    (hcontents : c.stream.read.contents = [])
    (hfinal : ∀ e bytes, e.endsBody = true → .readReturned ⟨some e, bytes⟩ ∈ tr →
      (⟨some c.stream.read.eofError, []⟩ : ReadResult) = ⟨some e, []⟩) :
    EndsBody tr ⟨some c.stream.read.eofError, []⟩ := by
  obtain ⟨hclosedTr, heofTr⟩ := flags_run run
  have hperm := (ReadSide.balance_run run).2.2.symm
  rw [hcontents, List.append_nil] at hperm
  refine ⟨fun hec => ?_, fun hec => ?_, fun _ _ _ => ⟨rfl, hperm⟩, hfinal⟩
  · cases heof : c.stream.read.readEof with
    | true => exact heofTr.mp heof
    | false => simp [ReadSide.eofError, heof] at hec
  · cases heof : c.stream.read.readEof with
    | true => simp [ReadSide.eofError, heof] at hec
    | false =>
        have hclosed := hflags.resolve_left (by simp [heof])
        exact ⟨hclosedTr.mp hclosed, fun hmem => by simp [heofTr.mpr hmem] at heof⟩

def OverSince (tr : List Label) (c : Cell) : Prop :=
  ∀ e bytes, e.endsBody = true → .readReturned ⟨some e, bytes⟩ ∈ tr →
    c.stream.read.Over c.stream.closed e

theorem OverSince.step {tr os : List Label} {c c' : Cell} {a : Action} (h : OverSince tr c)
    (hinv : c.stream.read.Inv) (hroomy : c.stream.read.Roomy) (hok : bodyOk c a)
    (hs : c.step a = some (c', os)) : OverSince (tr ++ os) c' := by
  intro e bytes he hmem
  have hstream := (Cell.step_eq_some hs).2.1
  have hread := Stream.step_read hstream
  rw [Stream.step_closed hstream]
  rcases List.mem_append.mp hmem with hmem | hmem
  · exact ((h e bytes he hmem).step hinv hread hok.2).1
  · -- the body ends with this step, which is a read and not a close
    obtain ⟨-, hres, hover, -⟩ := hinv.step_ended hroomy hread hok.1 hmem rfl he
    have herror : e = c.stream.read.eofError := by simpa using congrArg ReadResult.ec hres
    have hne : a ≠ .onClose := by
      rintro rfl
      cases hs
      simp at hmem
    rw [decide_eq_false hne, Bool.or_false, herror]
    exact hover

theorem OverSince.endsBody {tr os : List Label} {c c' : Cell} {a : Action} (h : OverSince tr c)
    (run : cellMachine.Run bodyOk tr c) (hroomy : c.stream.read.Roomy) (hok : bodyOk c a)
    (hs : c.step a = some (c', os)) {p q : List Label} {res : ReadResult}
    (hos : os = p ++ .readReturned res :: q) : EndsBody (tr ++ p) res := by
  have hinv := (ReadSide.balance_run run).1
  have hread := Stream.step_read (Cell.step_eq_some hs).2.1
  have hmem : .readReturned res ∈ os := mem_of_split hos
  have hfinal : ∀ e bytes, e.endsBody = true → .readReturned ⟨some e, bytes⟩ ∈ tr →
      res = ⟨some e, []⟩ := fun e bytes he hin =>
    ((h e bytes he hin).step hinv hread hok.2).2 res hmem
  by_cases hends : ∃ e, res.ec = some e ∧ e.endsBody = true
  · obtain ⟨e, hec, he⟩ := hends
    obtain ⟨hflags, hres, hover, honly⟩ := hinv.step_ended hroomy hread hok.1 hmem hec he
    have hp : p = [] := by
      rw [honly] at hos
      cases p with
      | nil => rfl
      | cons l p => simp at hos
    have hcontents : c.stream.read.contents = [] := by
      have hperm := (hinv.step hread).2.2
      rw [honly, hres, hover.contents] at hperm
      simpa [delivered, returned, Label.deliveredBytes, Label.returnedBytes] using hperm
    rw [hp, List.append_nil, hres]
    exact .of_contents run hflags hcontents (hres ▸ hfinal)
  · refine ⟨fun hec => absurd ⟨_, hec, rfl⟩ hends, fun hec => absurd ⟨_, hec, rfl⟩ hends,
      fun e hec he => absurd ⟨e, hec, he⟩ hends, fun e bytes he hin => ?_⟩
    rcases List.mem_append.mp hin with hin | hin
    · exact hfinal e bytes he hin
    · -- a read that says so is all there is in its step
      have hin' : .readReturned ⟨some e, bytes⟩ ∈ os := by
        rw [hos]
        exact List.mem_append_left _ hin
      obtain ⟨-, -, -, honly⟩ := hinv.step_ended hroomy hread hok.1 hin' rfl he
      have hlength := congrArg List.length (honly.symm.trans hos)
      have hpos := List.length_pos_of_mem hin
      simp only [List.length_append, List.length_cons, List.length_nil] at hlength
      omega

theorem ends_body_run {tr : List Label} {c : Cell} (run : cellMachine.Run bodyOk tr c) :
    Always (fun pre l => ∀ res, l = .readReturned res → EndsBody pre res) tr := by
  refine (run.always (I := fun tr c => c.stream.read.Roomy ∧ OverSince tr c) ?_ ?_).2
  · rintro c ⟨id, submitted, rfl⟩
    exact ⟨ReadSide.roomy_of_none rfl, by simp [OverSince]⟩
  · rintro tr c a c' os run ⟨hroomy, hover⟩ hok hs
    have hinv := (ReadSide.balance_run run).1
    have hread := Stream.step_read (Cell.step_eq_some hs).2.1
    refine ⟨⟨hinv.step_roomy hroomy hread hok.1, hover.step hinv hroomy hok hs⟩, ?_⟩
    refine alwaysFrom_of_split tr fun p l q hos res hl => ?_
    subst hl
    exact hover.endsBody run hroomy hok hs hos

end Nghttp2Corosio
