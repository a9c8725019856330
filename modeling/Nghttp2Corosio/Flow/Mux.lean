import Nghttp2Corosio.Flow.Channel

/-!
Several byte streams, each with an end, over one connection under flow control.

What the streams send goes over the connection in frames, one after the other,
and arrives in that order, a frame at a time and its data in pieces of any size.
The receiver may have lost its interest in a stream. It ignores the frames of that
stream then, but it consumes them on the connection.

`Mux.Carries` is what the connection does for one of the streams: what was sent on
it is what was received, what was ignored and what is in flight, in this order;
and nothing comes after its last frame. Each operation has a lemma that says how
it keeps this, for the stream it is about and for the others.
-/

namespace Flow

variable {ι β : Type*}

structure Frame (ι β : Type*) where
  stream : ι
  data : List β
  last : Bool
  deriving DecidableEq, Repr

structure Mux (ι β : Type*) where
  frames : List (Frame ι β) := []
  connection : Credit
  streams : ι → Credit

def Mux.fresh (limits : Limits) : Mux ι β :=
  { connection := ⟨limits.connection.size, 0, []⟩, streams := fun _ => ⟨limits.stream.size, 0, []⟩ }

def Mux.room (m : Mux ι β) (i : ι) : ℕ := min (m.streams i).window m.connection.window

def Mux.load (m : Mux ι β) : ℕ := (m.frames.map fun f => f.data.length).sum

/-- The messages that carry credit move it, for a stream and for the connection. -/
def Mux.credit [DecidableEq ι] (m : Mux ι β) (limits : Limits) (i : ι) :
    CreditAction → Option (Mux ι β)
  | .announceStream => ((m.streams i).announce limits.stream).map fun c =>
      { m with streams := Function.update m.streams i c }
  | .updateStream => (m.streams i).update.map fun c =>
      { m with streams := Function.update m.streams i c }
  | .announceConnection =>
      (m.connection.announce limits.connection).map fun c => { m with connection := c }
  | .updateConnection => m.connection.update.map fun c => { m with connection := c }

/-- The receiver has consumed `total` on the connection, and `each` on the streams. -/
def Mux.consume (m : Mux ι β) (total : ℕ) (each : ι → ℕ) : Mux ι β :=
  { m with
    connection := m.connection.consume total
    streams := fun i => (m.streams i).consume (each i) }

section Frames

variable [DecidableEq ι]

def Mux.send (m : Mux ι β) (f : Frame ι β) : Mux ι β where
  frames := m.frames ++ [f]
  connection := m.connection.spend f.data.length
  streams := Function.update m.streams f.stream ((m.streams f.stream).spend f.data.length)

/-- The next piece of the first frame arrives. -/
def Mux.deliver [DecidableEq β] (m : Mux ι β) (i : ι) (data : List β) : Option (Mux ι β) :=
  match m.frames with
  | [] => none
  | f :: fs =>
      if f.stream = i ∧ data <+: f.data then
        some { m with frames := { f with data := f.data.drop data.length } :: fs }
      else none

def Mux.finish [DecidableEq β] (m : Mux ι β) (i : ι) (last : Bool) : Option (Mux ι β) :=
  match m.frames with
  | [] => none
  | f :: fs => if f = ⟨i, [], last⟩ then some { m with frames := fs } else none

/-- What is left of the first frame is ignored. -/
def Mux.ignore (m : Mux ι β) (i : ι) : Option (Mux ι β) :=
  match m.frames with
  | [] => none
  | f :: fs =>
      if f.stream = i then
        some { m with frames := fs, connection := m.connection.consume f.data.length }
      else none

/-- The data of one stream. -/
def dataOn (i : ι) (fs : List (Frame ι β)) : List β :=
  fs.flatMap fun f => if f.stream = i then f.data else []

/-! ### What the operations do -/

variable {m m' : Mux ι β} {i j : ι} {data : List β} {last : Bool}

theorem Mux.deliver_eq_some [DecidableEq β] (h : m.deliver i data = some m') :
    ∃ rest last fs, m.frames = ⟨i, data ++ rest, last⟩ :: fs ∧
      m' = { m with frames := ⟨i, rest, last⟩ :: fs } := by
  unfold Mux.deliver at h
  split at h
  · cases h
  · rename_i f fs hframes
    split at h
    · rename_i hf
      obtain ⟨rfl, rest, hrest⟩ := hf
      cases h
      refine ⟨rest, f.last, fs, ?_, ?_⟩
      · rw [hframes, hrest]
      · rw [← hrest, List.drop_left]
    · cases h

theorem Mux.finish_eq_some [DecidableEq β] (h : m.finish i last = some m') :
    ∃ fs, m.frames = ⟨i, [], last⟩ :: fs ∧ m' = { m with frames := fs } := by
  unfold Mux.finish at h
  split at h
  · cases h
  · rename_i f fs hframes
    split at h
    · rename_i hf
      cases h
      exact ⟨fs, by rw [hframes, hf], rfl⟩
    · cases h

theorem Mux.ignore_eq_some (h : m.ignore i = some m') :
    ∃ data last fs, m.frames = ⟨i, data, last⟩ :: fs ∧
      m' = { m with frames := fs, connection := m.connection.consume data.length } := by
  unfold Mux.ignore at h
  split at h
  · cases h
  · rename_i f fs hframes
    split at h
    · rename_i hf
      subst hf
      cases h
      exact ⟨f.data, f.last, fs, hframes, rfl⟩
    · cases h

theorem Mux.credit_eq_some {limits : Limits} {a : CreditAction}
    (h : m.credit limits i a = some m') :
    m'.frames = m.frames ∧ m'.connection.held = m.connection.held ∧
      ∀ j, (m'.streams j).held = (m.streams j).held := by
  have hstream {c : Credit} (hc : c.held = (m.streams i).held) (j : ι) :
      (Function.update m.streams i c j).held = (m.streams j).held := by
    by_cases hj : j = i
    · subst hj
      rw [Function.update_self, hc]
    · rw [Function.update_of_ne hj]
  cases a with
  | announceStream =>
      obtain ⟨c, hc, rfl⟩ := Option.map_eq_some_iff.mp h
      exact ⟨rfl, rfl, hstream (Credit.held_announce hc)⟩
  | updateStream =>
      obtain ⟨c, hc, rfl⟩ := Option.map_eq_some_iff.mp h
      exact ⟨rfl, rfl, hstream (Credit.held_update hc)⟩
  | announceConnection =>
      obtain ⟨c, hc, rfl⟩ := Option.map_eq_some_iff.mp h
      exact ⟨rfl, Credit.held_announce hc, fun _ => rfl⟩
  | updateConnection =>
      obtain ⟨c, hc, rfl⟩ := Option.map_eq_some_iff.mp h
      exact ⟨rfl, Credit.held_update hc, fun _ => rfl⟩

/-! ### One of the streams -/

theorem dataOn_cons (i : ι) (f : Frame ι β) (fs : List (Frame ι β)) :
    dataOn i (f :: fs) = (if f.stream = i then f.data else []) ++ dataOn i fs :=
  List.flatMap_cons

theorem dataOn_append (i : ι) (fs gs : List (Frame ι β)) :
    dataOn i (fs ++ gs) = dataOn i fs ++ dataOn i gs :=
  List.flatMap_append

theorem dataOn_singleton (i : ι) (f : Frame ι β) :
    dataOn i [f] = if f.stream = i then f.data else [] :=
  List.flatMap_singleton _ _

theorem dataOn_eq_nil {fs : List (Frame ι β)} (h : ∀ f ∈ fs, f.stream ≠ i) :
    dataOn i fs = [] :=
  List.flatMap_eq_nil_iff.mpr fun f hf => if_neg (h f hf)

/-- The connection carries `sent` to the receiver, who has `received` of it. `sentEnd`
and `gotEnd` say whether the end was sent and received, and `ignored` whether the
receiver ignores the stream. -/
structure Mux.Carries (m : Mux ι β) (i : ι) (sent received : List β)
    (sentEnd gotEnd ignored : Prop) : Prop where
  data : ∃ lost, sent = received ++ lost ++ dataOn i m.frames ∧ (lost ≠ [] → ignored)
  last : ∀ f ∈ m.frames, f.stream = i → f.last = true → sentEnd
  tail : m.frames.Pairwise fun f g => f.stream = i → f.last = true → g.stream ≠ i
  ended : gotEnd → sentEnd ∧ sent = received

variable {sent received : List β} {sentEnd sentEnd' gotEnd gotEnd' ignored ignored' : Prop}

theorem Mux.Carries.received_prefix (h : m.Carries i sent received sentEnd gotEnd ignored) :
    received <+: sent := by
  obtain ⟨lost, hsent, -⟩ := h.data
  exact ⟨lost ++ dataOn i m.frames, by rw [hsent, List.append_assoc]⟩

theorem Mux.Carries.weaken (h : m.Carries i sent received sentEnd gotEnd ignored)
    (hsentEnd : sentEnd → sentEnd') (hgotEnd : gotEnd' → gotEnd) (hignored : ignored → ignored') :
    m.Carries i sent received sentEnd' gotEnd' ignored' := by
  obtain ⟨lost, hsent, hlost⟩ := h.data
  exact
    { data := ⟨lost, hsent, fun hne => hignored (hlost hne)⟩
      last := fun f hf hi hlast => hsentEnd (h.last f hf hi hlast)
      tail := h.tail
      ended := fun hended => ⟨hsentEnd (h.ended (hgotEnd hended)).1, (h.ended (hgotEnd hended)).2⟩ }

theorem Mux.Carries.of_frames (h : m.Carries i sent received sentEnd gotEnd ignored)
    (hframes : m'.frames = m.frames) : m'.Carries i sent received sentEnd gotEnd ignored where
  data := by rw [hframes]; exact h.data
  last := by rw [hframes]; exact h.last
  tail := by rw [hframes]; exact h.tail
  ended := h.ended

theorem Mux.Carries.send (h : m.Carries i sent received sentEnd gotEnd ignored) {f : Frame ι β}
    (hf : f.stream = i) (hnot : ¬sentEnd) :
    (m.send f).Carries i (sent ++ f.data) received (f.last = true) gotEnd ignored := by
  obtain ⟨lost, hsent, hlost⟩ := h.data
  refine ⟨⟨lost, ?_, hlost⟩, fun g hg hi hlast => ?_, ?_, fun hended => ?_⟩
  · simp only [Mux.send, dataOn_append, dataOn_singleton, hsent, if_pos hf, List.append_assoc]
  · rcases List.mem_append.mp hg with hg | hg
    · exact absurd (h.last g hg hi hlast) hnot
    · rwa [List.mem_singleton.mp hg] at hlast
  · refine List.pairwise_append.mpr ⟨h.tail, List.pairwise_singleton _ _, ?_⟩
    intro g hg _ _ hi hlast
    exact absurd (h.last g hg hi hlast) hnot
  · exact absurd (h.ended hended).1 hnot

theorem Mux.Carries.send_other (h : m.Carries i sent received sentEnd gotEnd ignored)
    {f : Frame ι β} (hf : f.stream ≠ i) :
    (m.send f).Carries i sent received sentEnd gotEnd ignored := by
  obtain ⟨lost, hsent, hlost⟩ := h.data
  refine ⟨⟨lost, ?_, hlost⟩, fun g hg hi hlast => ?_, ?_, h.ended⟩
  · simp only [Mux.send, dataOn_append, dataOn_singleton, hsent, if_neg hf, List.append_nil]
  · rcases List.mem_append.mp hg with hg | hg
    · exact h.last g hg hi hlast
    · exact absurd (List.mem_singleton.mp hg ▸ hi) hf
  · refine List.pairwise_append.mpr ⟨h.tail, List.pairwise_singleton _ _, ?_⟩
    intro g _ f' hf' _ _
    rwa [List.mem_singleton.mp hf']

/-- The first frame is replaced by a part of it, or taken off. -/
theorem Mux.Carries.shrink (h : m.Carries i sent received sentEnd gotEnd ignored)
    {f : Frame ι β} {fs gs : List (Frame ι β)} (hframes : m.frames = f :: fs)
    (hgs : gs = fs ∨ ∃ data, gs = { f with data } :: fs) (hm : m'.frames = gs)
    {received' : List β}
    (hdata : ∃ lost, sent = received' ++ lost ++ dataOn i gs ∧ (lost ≠ [] → ignored))
    (hended : gotEnd' → sentEnd ∧ sent = received') :
    m'.Carries i sent received' sentEnd gotEnd' ignored := by
  have hlast := h.last
  have htail := h.tail
  rw [hframes] at hlast htail
  obtain ⟨hfirst, hrest⟩ := List.pairwise_cons.mp htail
  refine ⟨hm ▸ hdata, fun g hg hi hl => ?_, ?_, hended⟩
  · rw [hm] at hg
    rcases hgs with rfl | ⟨data, rfl⟩
    · exact hlast g (List.mem_cons_of_mem f hg) hi hl
    · rcases List.mem_cons.mp hg with rfl | hg
      · exact hlast f List.mem_cons_self hi hl
      · exact hlast g (List.mem_cons_of_mem f hg) hi hl
  · rw [hm]
    rcases hgs with rfl | ⟨data, rfl⟩
    · exact hrest
    · exact List.pairwise_cons.mpr ⟨hfirst, hrest⟩

section Arrivals

variable (h : m.Carries i sent received sentEnd gotEnd ignored)
include h

theorem Mux.Carries.deliver [DecidableEq β] (hd : m.deliver i data = some m') (hnot : ¬ignored) :
    m'.Carries i sent (received ++ data) sentEnd gotEnd ignored := by
  obtain ⟨rest, last, fs, hframes, rfl⟩ := Mux.deliver_eq_some hd
  obtain ⟨lost, hsent, hlost⟩ := h.data
  obtain rfl : lost = [] := by_contra fun hne => hnot (hlost hne)
  rw [hframes, dataOn_cons, if_pos rfl, List.append_nil] at hsent
  refine h.shrink hframes (.inr ⟨rest, rfl⟩) rfl ⟨[], ?_, fun hne => absurd rfl hne⟩ fun hgot => ?_
  · rw [hsent, dataOn_cons, if_pos rfl]
    simp only [List.append_assoc, List.nil_append]
  · obtain ⟨hend, heq⟩ := h.ended hgot
    -- nothing is left once the end is there
    have hlength := congrArg List.length (hsent.symm.trans heq)
    simp only [List.length_append] at hlength
    have hdata : data = [] := List.length_eq_zero_iff.mp (by omega)
    exact ⟨hend, by rw [hdata, List.append_nil, heq]⟩

theorem Mux.Carries.deliver_other [DecidableEq β] (hd : m.deliver j data = some m') (hne : j ≠ i) :
    m'.Carries i sent received sentEnd gotEnd ignored := by
  obtain ⟨rest, last, fs, hframes, rfl⟩ := Mux.deliver_eq_some hd
  refine h.shrink hframes (.inr ⟨rest, rfl⟩) rfl ?_ h.ended
  have hdata := h.data
  rw [hframes, dataOn_cons, if_neg hne] at hdata
  rwa [dataOn_cons, if_neg hne]

theorem Mux.Carries.finish [DecidableEq β] (hfin : m.finish i true = some m')
    (hnot : ¬ignored) :
    m'.Carries i sent received sentEnd True ignored := by
  obtain ⟨fs, hframes, rfl⟩ := Mux.finish_eq_some hfin
  obtain ⟨lost, hsent, hlost⟩ := h.data
  obtain rfl : lost = [] := by_contra fun hne => hnot (hlost hne)
  have htail := h.tail
  rw [hframes, List.pairwise_cons] at htail
  have hrest : dataOn i fs = [] := dataOn_eq_nil fun f hf => htail.1 f hf rfl rfl
  rw [hframes, dataOn_cons, if_pos rfl, hrest] at hsent
  simp only [List.append_nil] at hsent
  refine h.shrink hframes (.inl rfl) rfl ⟨[], by simp [hrest, hsent], fun hne => absurd rfl hne⟩
    fun _ => ⟨?_, hsent⟩
  exact h.last ⟨i, [], true⟩ (hframes ▸ List.mem_cons_self) rfl rfl

theorem Mux.Carries.finish_other [DecidableEq β] (hfin : m.finish j last = some m') :
    m'.Carries i sent received sentEnd gotEnd ignored := by
  obtain ⟨fs, hframes, rfl⟩ := Mux.finish_eq_some hfin
  refine h.shrink hframes (.inl rfl) rfl ?_ h.ended
  have hdata := h.data
  rwa [hframes, dataOn_cons, ite_self, List.nil_append] at hdata

theorem Mux.Carries.ignore (hign : m.ignore j = some m') (hignored : j = i → ignored) :
    m'.Carries i sent received sentEnd gotEnd ignored := by
  obtain ⟨data, last, fs, hframes, rfl⟩ := Mux.ignore_eq_some hign
  refine h.shrink hframes (.inl rfl) rfl ?_ h.ended
  obtain ⟨lost, hsent, hlost⟩ := h.data
  rw [hframes, dataOn_cons] at hsent
  by_cases hj : j = i
  · rw [if_pos hj] at hsent
    exact ⟨lost ++ data, by rw [hsent]; simp only [List.append_assoc], fun _ => hignored hj⟩
  · rw [if_neg hj] at hsent
    exact ⟨lost, hsent, hlost⟩

end Arrivals

/-! ### The credit of the connection

It is held by the sender, on its way back, or in flight. What the receiver does
with the data that has arrived does not matter. -/

def Mux.total (m : Mux ι β) : ℕ := m.connection.held + m.load

omit [DecidableEq ι] in
theorem Mux.total_fresh (limits : Limits) :
    (Mux.fresh limits : Mux ι β).total = limits.connection.size := by
  simp [Mux.total, Mux.load, Mux.fresh, Credit.held]

theorem Mux.total_send {f : Frame ι β} (h : f.data.length ≤ m.room f.stream) :
    (m.send f).total = m.total := by
  have hheld := Credit.held_spend (h.trans (Nat.min_le_right _ _))
  simp only [Mux.total, Mux.send, Mux.load, List.map_append, List.map_cons, List.map_nil,
    List.sum_append, List.sum_singleton]
  omega

theorem Mux.total_deliver [DecidableEq β] (h : m.deliver i data = some m') :
    m'.total + data.length = m.total := by
  obtain ⟨rest, last, fs, hframes, rfl⟩ := Mux.deliver_eq_some h
  simp only [Mux.total, Mux.load, hframes, List.map_cons, List.sum_cons, List.length_append]
  omega

theorem Mux.total_finish [DecidableEq β] (h : m.finish i last = some m') : m'.total = m.total := by
  obtain ⟨fs, hframes, rfl⟩ := Mux.finish_eq_some h
  simp only [Mux.total, Mux.load, hframes, List.map_cons, List.sum_cons, List.length_nil,
    Nat.zero_add]

theorem Mux.total_ignore (h : m.ignore i = some m') : m'.total = m.total := by
  obtain ⟨data, last, fs, hframes, rfl⟩ := Mux.ignore_eq_some h
  simp only [Mux.total, Mux.load, hframes, List.map_cons, List.sum_cons, Credit.held_consume]
  omega

omit [DecidableEq ι] in
theorem Mux.total_consume (m : Mux ι β) (total : ℕ) (each : ι → ℕ) :
    (m.consume total each).total = m.total + total := by
  simp only [Mux.total, Mux.load, Mux.consume, Credit.held_consume]
  omega

theorem Mux.total_credit {limits : Limits} {a : CreditAction}
    (h : m.credit limits i a = some m') : m'.total = m.total := by
  obtain ⟨hframes, hconnection, -⟩ := Mux.credit_eq_some h
  rw [Mux.total, Mux.load, hframes, hconnection]
  rfl

/-! ### The credit of a stream -/

theorem Mux.held_send {f : Frame ι β} (h : f.data.length ≤ m.room f.stream) (i : ι) :
    ((m.send f).streams i).held + (dataOn i [f]).length = (m.streams i).held := by
  rw [dataOn_singleton]
  by_cases hf : f.stream = i
  · subst hf
    rw [if_pos rfl]
    simp only [Mux.send, Function.update_self]
    exact Credit.held_spend (h.trans (Nat.min_le_left _ _))
  · simp only [Mux.send, if_neg hf, Function.update_of_ne (Ne.symm hf), List.length_nil,
      Nat.add_zero]

omit [DecidableEq ι] in
theorem Mux.held_consume (m : Mux ι β) (total : ℕ) (each : ι → ℕ) (i : ι) :
    ((m.consume total each).streams i).held = (m.streams i).held + each i :=
  Credit.held_consume _ _

/-! ### Room to send -/

omit [DecidableEq ι] in
/-- When nothing is in flight, the whole of the connection's credit is with the
sender or on its way back. -/
theorem Mux.held_of_frames_nil {limits : Limits} (htotal : m.total = limits.connection.size)
    (hframes : m.frames = []) : m.connection.held = limits.connection.size := by
  rw [← htotal, Mux.total, Mux.load, hframes]
  rfl

/-- A sender with no announcement to wait for has room, if the connection has all of
its credit back and the receiver keeps no more of the stream's than leaves enough for
an announcement. -/
theorem Mux.room_pos {limits : Limits} {n : ℕ}
    (hconnection : m.connection.held = limits.connection.size)
    (hstream : (m.streams i).held + n = limits.stream.size)
    (hkept : n + limits.stream.threshold ≤ limits.stream.size)
    (hquiet : ∀ a, m.credit limits i a = none) : 0 < m.room i := by
  have hs : 0 < (m.streams i).window :=
    Credit.window_pos hstream hkept (by simpa [Mux.credit] using hquiet .announceStream)
      (by simpa [Mux.credit] using hquiet .updateStream)
  have hc : 0 < m.connection.window :=
    Credit.window_pos (n := 0) hconnection (by simpa using limits.connection.le)
      (by simpa [Mux.credit] using hquiet .announceConnection)
      (by simpa [Mux.credit] using hquiet .updateConnection)
  exact Nat.lt_min.mpr ⟨hs, hc⟩

end Frames

end Flow
