import Nghttp2Corosio.Session.Moves

/-!
The registry of a session.

`Table.Inv` relates `streams_` to the `Stream` objects: every object has an id
of its own, one that nghttp2 has opened, and it is registered under that id
exactly as long as it is not closed. Every step of the session keeps this. With
it, what a session's trace shows of one of its streams is a run of that stream
(`Session.cell_run`), so that what is known of streams holds in a session.
-/

namespace Nghttp2Corosio

open Async Buffers Runs

theorem Stream.step_id {s s' : Stream} {a : Action} {os : List Label}
    (h : s.step a = some (s', os)) : s'.id = s.id := by
  by_cases ha : a = .onClose
  · subst ha
    cases h
    rfl
  · rcases hr : a.isRead with _ | _
    · rcases hw : a.isWrite with _ | _
      · rcases hh : a.isHead with _ | _
        · cases a <;> simp_all [Action.isRead, Action.isWrite, Action.isHead, Stream.step]
        · rw [(Stream.step_of_isHead h hh ha).1]
      · rw [(Stream.step_of_isWrite h hw ha).1]
    · rw [(Stream.step_of_isRead h hr ha).1]

structure Table.Inv (t : Table) (n : Nghttp2Streams) : Prop where
  unused : ∀ a, t.next ≤ a → t.cells a = none
  entry : ∀ id a, t.streams.lookup id = some a → ∃ c, t.cells a = some c ∧ c.stream.id = id
  opened : ∀ a c, t.cells a = some c → c.stream.id ∈ n.opened
  injective : ∀ a b c d, t.cells a = some c → t.cells b = some d →
    c.stream.id = d.stream.id → a = b
  registered : ∀ a c, t.cells a = some c →
    (c.stream.closed = false ↔ t.streams.lookup c.stream.id = some a)

theorem Table.inv_fresh : Table.Inv {} {} where
  unused _ _ := rfl
  entry id a h := by cases h
  opened a c h := by cases h
  injective a b c d h := by cases h
  registered a c h := by cases h

theorem Table.Inv.not_mem {t : Table} {n : Nghttp2Streams} (h : t.Inv n) {id : ℤ}
    (hfresh : id ∉ n.opened) : id ∉ t.streams := by
  intro hmem
  obtain ⟨a, ha⟩ := Option.isSome_iff_exists.mp (AList.lookup_isSome.mpr hmem)
  obtain ⟨c, hc, rfl⟩ := h.entry id a ha
  exact hfresh (h.opened a c hc)

/-! ### Steps -/

/-- The same objects as far as the registry is concerned. -/
def SameFaces (cells cells' : ℕ → Option Cell) : Prop :=
  ∀ a, (cells' a).map (fun c => (c.stream.id, c.stream.closed)) =
    (cells a).map fun c => (c.stream.id, c.stream.closed)

theorem SameFaces.some {cells cells' : ℕ → Option Cell} (h : SameFaces cells cells') {a : ℕ}
    {c' : Cell} (hc' : cells' a = some c') :
    ∃ c, cells a = some c ∧ c.stream.id = c'.stream.id ∧ c.stream.closed = c'.stream.closed := by
  have heq := h a
  rw [hc', Option.map_some, eq_comm, Option.map_eq_some_iff] at heq
  obtain ⟨c, hc, hface⟩ := heq
  rw [Prod.mk.injEq] at hface
  exact ⟨c, hc, hface⟩

theorem SameFaces.symm {cells cells' : ℕ → Option Cell} (h : SameFaces cells cells') :
    SameFaces cells' cells := fun a => (h a).symm

theorem Table.Inv.of_sameFaces {t t' : Table} {n n' : Nghttp2Streams} (h : t.Inv n)
    (hcells : SameFaces t.cells t'.cells) (hnext : t'.next = t.next)
    (hstreams : t'.streams = t.streams) (hopened : n.opened ⊆ n'.opened) : t'.Inv n' where
  unused a ha := by
    have heq := hcells a
    rw [h.unused a (hnext ▸ ha)] at heq
    simpa using heq
  entry id a ha := by
    rw [hstreams] at ha
    obtain ⟨c, hc, rfl⟩ := h.entry id a ha
    obtain ⟨c', hc', hid, -⟩ := hcells.symm.some hc
    exact ⟨c', hc', hid⟩
  opened a c' hc' := by
    obtain ⟨c, hc, hid, -⟩ := hcells.some hc'
    rw [← hid]
    exact hopened (h.opened a c hc)
  injective a b c' d' hc' hd' hid := by
    obtain ⟨c, hc, hcid, -⟩ := hcells.some hc'
    obtain ⟨d, hd, hdid, -⟩ := hcells.some hd'
    exact h.injective a b c d hc hd (by rw [hcid, hdid, hid])
  registered a c' hc' := by
    obtain ⟨c, hc, hid, hclosed⟩ := hcells.some hc'
    rw [hstreams, ← hid, ← hclosed]
    exact h.registered a c hc

theorem sameFaces_update {cells : ℕ → Option Cell} {a : ℕ} {c c' : Cell}
    (hc : cells a = some c) (hid : c'.stream.id = c.stream.id)
    (hclosed : c'.stream.closed = c.stream.closed) :
    SameFaces cells (Function.update cells a (some c')) := by
  intro b
  by_cases hb : b = a
  · subst hb
    simp [hc, hid, hclosed]
  · rw [Function.update_of_ne hb]

theorem Table.Inv.register {t : Table} {n : Nghttp2Streams} (h : t.Inv n) {id : ℤ}
    (hfresh : id ∉ n.opened) (submitted : Bool) :
    Table.Inv
      { t with
        cells := Function.update t.cells t.next (some (Cell.fresh id submitted))
        next := t.next + 1
        streams := t.streams.emplace id t.next }
      { n with opened := id :: n.opened } := by
  have hmem := h.not_mem hfresh
  have hemplace : t.streams.emplace id t.next = t.streams.insert id t.next := if_neg hmem
  have hcases {a : ℕ} {c : Cell}
      (hc : Function.update t.cells t.next (some (Cell.fresh id submitted)) a = some c) :
      (a = t.next ∧ c = Cell.fresh id submitted) ∨
        a ≠ t.next ∧ t.cells a = some c ∧ c.stream.id ≠ id := by
    refine (update_eq_some hc).imp_right fun ⟨ha, hold⟩ => ⟨ha, hold, fun hid => hfresh ?_⟩
    rw [← hid]
    exact h.opened a c hold
  refine ⟨fun a ha => ?_, fun id' a ha => ?_, fun a c hc => ?_, fun a b c d hc hd hid => ?_,
    fun a c hc => ?_⟩
  · have hne : a ≠ t.next := by
      dsimp only at ha
      omega
    dsimp only at ha ⊢
    rw [Function.update_of_ne hne]
    exact h.unused a (by omega)
  · dsimp only at ha ⊢
    rw [hemplace] at ha
    by_cases hid : id' = id
    · subst hid
      rw [AList.lookup_insert, Option.some.injEq] at ha
      subst ha
      exact ⟨_, Function.update_self .., rfl⟩
    · rw [AList.lookup_insert_ne hid] at ha
      obtain ⟨c, hc, hcid⟩ := h.entry id' a ha
      have hne : a ≠ t.next := by
        rintro rfl
        rw [h.unused _ le_rfl] at hc
        cases hc
      exact ⟨c, by rw [Function.update_of_ne hne, hc], hcid⟩
  · rcases hcases hc with ⟨rfl, rfl⟩ | ⟨-, hc, -⟩
    · exact List.mem_cons_self
    · exact List.mem_cons_of_mem id (h.opened a c hc)
  · rcases hcases hc with ⟨rfl, rfl⟩ | ⟨-, hc, hcid⟩
    · rcases hcases hd with ⟨rfl, -⟩ | ⟨-, -, hdid⟩
      · rfl
      · exact absurd hid.symm hdid
    · rcases hcases hd with ⟨rfl, rfl⟩ | ⟨-, hd, -⟩
      · exact absurd hid hcid
      · exact h.injective a b c d hc hd hid
  · dsimp only
    rw [hemplace]
    rcases hcases hc with ⟨rfl, rfl⟩ | ⟨-, hc, hcid⟩
    · simp [Cell.fresh]
    · rw [AList.lookup_insert_ne hcid]
      exact h.registered a c hc

theorem Table.Inv.close {t : Table} {n n' : Nghttp2Streams} (h : t.Inv n) {id : ℤ} {a : ℕ}
    {c : Cell} (hfind : t.streams.lookup id = some a) (hc : t.cells a = some c)
    (hopened : n.opened ⊆ n'.opened) :
    Table.Inv
      { t with
        cells := Function.update t.cells a (some c.close)
        streams := t.streams.erase id } n' := by
  obtain ⟨c₀, hc₀, hid⟩ := h.entry id a hfind
  obtain rfl : c = c₀ := by simpa [hc] using hc₀
  have hcases {b : ℕ} {d : Cell} (hd : Function.update t.cells a (some c.close) b = some d) :
      (b = a ∧ d = c.close) ∨ b ≠ a ∧ t.cells b = some d ∧ d.stream.id ≠ id := by
    refine (update_eq_some hd).imp_right fun ⟨hb, hd⟩ => ⟨hb, hd, fun hdid => hb ?_⟩
    exact h.injective b a d c hd hc (hdid.trans hid.symm)
  refine ⟨fun b hb => ?_, fun id' b hb => ?_, fun b d hd => ?_, fun b b' d d' hd hd' heq => ?_,
    fun b d hd => ?_⟩
  · have hne : b ≠ a := by
      rintro rfl
      rw [h.unused b hb] at hc
      cases hc
    dsimp only
    rw [Function.update_of_ne hne]
    exact h.unused b hb
  · dsimp only at hb ⊢
    by_cases hid' : id' = id
    · subst hid'
      rw [AList.lookup_erase] at hb
      cases hb
    · rw [AList.lookup_erase_ne hid'] at hb
      obtain ⟨d, hd, hdid⟩ := h.entry id' b hb
      have hne : b ≠ a := by
        rintro rfl
        rw [hc, Option.some.injEq] at hd
        subst hd
        exact hid' (hdid.symm.trans hid)
      exact ⟨d, by rw [Function.update_of_ne hne, hd], hdid⟩
  · rcases hcases hd with ⟨rfl, rfl⟩ | ⟨-, hd, -⟩
    · exact hopened (h.opened b c hc)
    · exact hopened (h.opened b d hd)
  · rcases hcases hd with ⟨rfl, rfl⟩ | ⟨-, hd, hdid⟩
    · rcases hcases hd' with ⟨rfl, -⟩ | ⟨-, -, hdid'⟩
      · rfl
      · exact absurd (heq.symm.trans hid) hdid'
    · rcases hcases hd' with ⟨rfl, rfl⟩ | ⟨-, hd', -⟩
      · exact absurd (heq.trans hid) hdid
      · exact h.injective b b' d d' hd hd' heq
  · dsimp only
    rcases hcases hd with ⟨rfl, rfl⟩ | ⟨-, hd, hdid⟩
    · rw [show c.close.stream.id = id from hid, AList.lookup_erase]
      simp [Cell.close, Stream.onClose]
    · rw [AList.lookup_erase_ne hdid]
      exact h.registered b d hd

theorem Table.Inv.teardown {s s' : Session} {os : List SessionLabel}
    (h : s.toTable.Inv s.nghttp2.toNghttp2Streams)
    (hclose : Session.closeAll { s with streams := ∅, finished := true }
      (s.streams.entries.map Sigma.snd) = some (s', os)) :
    s'.toTable.Inv s'.nghttp2.toNghttp2Streams ∧ s'.streams = ∅ ∧ s'.finished = true := by
  obtain ⟨heq, hnone, hsome⟩ := Session.closeAll_eq_some hclose
  have hstreams : s'.streams = ∅ := by rw [heq]
  have hclosed : ∀ a c', s'.cells a = some c' → c'.stream.closed = true := by
    intro a c' hc'
    obtain ⟨c, hc, -, -, hclosed, -⟩ := hsome a c' hc'
    refine hclosed ?_
    by_cases hopen : c.stream.closed = false
    · -- an object that is not closed is registered, so the loop meets it
      have hlookup := (h.registered a c hc).mp hopen
      exact .inr (List.mem_map.mpr ⟨_, AList.mem_lookup_iff.mp hlookup, rfl⟩)
    · exact .inl (by simpa using hopen)
  refine ⟨⟨fun a ha => ?_, fun id a ha => ?_, fun a c' hc' => ?_, fun a b c' d' hc' hd' hid => ?_,
    fun a c' hc' => ?_⟩, hstreams, by rw [heq]⟩
  · rw [heq] at ha
    exact (hnone a).mpr (h.unused a ha)
  · rw [hstreams] at ha
    cases ha
  · obtain ⟨c, hc, hid, -⟩ := hsome a c' hc'
    rw [hid, heq]
    exact h.opened a c hc
  · obtain ⟨c, hc, hcid, -⟩ := hsome a c' hc'
    obtain ⟨d, hd, hdid, -⟩ := hsome b d' hd'
    exact h.injective a b c d hc hd (by rw [← hcid, ← hdid, hid])
  · rw [hclosed a c' hc', hstreams]
    exact ⟨nofun, nofun⟩

theorem Nghttp2.note_opened (n : Nghttp2) (e : SessionAction) :
    n.opened ⊆ (n.note e).opened := by
  unfold Nghttp2.note
  split
  · exact fun id hid => List.mem_insert_of_mem hid
  · exact List.Subset.refl _
  · exact List.Subset.refl _
  · exact List.Subset.refl _
  · exact List.Subset.refl _

theorem Session.Moves.opened {s s' : Session} {e : SessionAction} {os : List SessionLabel}
    (h : s.Moves e os s') : s.nghttp2.opened ⊆ s'.nghttp2.opened := by
  cases h with
  | quiet _ _ _ hn =>
      rw [hn]
      exact s.nghttp2.note_opened e
  | act _ _ _ _ _ _ _ _ hn =>
      rw [hn]
      exact s.nghttp2.note_opened e
  | register id _ _ _ _ hn _ =>
      rw [hn]
      exact List.subset_cons_self id _
  | close _ _ _ _ _ hn =>
      rw [hn]
      exact s.nghttp2.note_opened e
  | teardown _ hclose =>
      rw [(Session.closeAll_eq_some hclose).1]
      exact List.Subset.refl _

theorem Nghttp2.note_closed (n : Nghttp2) (e : SessionAction) :
    n.closed ⊆ (n.note e).closed := by
  unfold Nghttp2.note
  split
  · exact List.Subset.refl _
  · exact List.Subset.refl _
  · exact List.Subset.refl _
  · exact List.subset_cons_self _ _
  · exact List.Subset.refl _

theorem Session.Moves.finished {s s' : Session} {e : SessionAction} {os : List SessionLabel}
    (h : s.Moves e os s') (hfinished : s'.finished = true) :
    s.finished = true ∨ e = .teardown := by
  cases h with
  | quiet _ _ htable _ => exact .inl (by rwa [htable] at hfinished)
  | act _ _ _ _ _ _ _ htable _ => exact .inl (by rwa [htable] at hfinished)
  | register _ _ _ _ htable _ _ => exact .inl (by rwa [htable] at hfinished)
  | close _ _ _ _ htable _ => exact .inl (by rwa [htable] at hfinished)
  | teardown he _ => exact .inr he

theorem Table.Inv.step {s s' : Session} {e : SessionAction} {os : List SessionLabel}
    (h : s.toTable.Inv s.nghttp2.toNghttp2Streams) (hs : s.Moves e os s') :
    s'.toTable.Inv s'.nghttp2.toNghttp2Streams := by
  cases hs with
  | quiet _ _ htable hn =>
      rw [htable, hn]
      exact h.of_sameFaces (fun _ => rfl) rfl rfl (s.nghttp2.note_opened e)
  | act _ hne hc hs _ _ _ htable hn =>
      rw [htable, hn]
      have hstream := (Cell.step_eq_some hs).2.1
      have hclosed := Stream.step_closed hstream
      rw [decide_eq_false hne, Bool.or_false] at hclosed
      exact h.of_sameFaces (sameFaces_update hc (Stream.step_id hstream) hclosed) rfl rfl
        (s.nghttp2.note_opened e)
  | register id submitted hfresh _ htable hn _ =>
      rw [htable, hn]
      exact h.register hfresh submitted
  | close _ hfind hc _ htable hn =>
      rw [htable, hn]
      exact h.close hfind hc (s.nghttp2.note_opened e)
  | teardown _ hclose => exact (h.teardown hclose).1

theorem Table.Inv.id_of_lookup {t : Table} {n : Nghttp2Streams} (h : t.Inv n) {id : ℤ} {a : ℕ}
    {c : Cell} (hfind : t.streams.lookup id = some a) (hc : t.cells a = some c) :
    c.stream.id = id ∧ c.stream.closed = false := by
  obtain ⟨c₀, hc₀, hid⟩ := h.entry id a hfind
  obtain rfl : c = c₀ := by simpa [hc] using hc₀
  exact ⟨hid, (h.registered a c hc).mpr (hid ▸ hfind)⟩

theorem Session.Moves.keeps {s s' : Session} {e : SessionAction} {os : List SessionLabel}
    (hinv : s.toTable.Inv s.nghttp2.toNghttp2Streams) (h : s.Moves e os s') {a : ℕ} {c : Cell}
    (hc : s.cells a = some c) : ∃ c', s'.cells a = some c' ∧ c'.stream.id = c.stream.id := by
  have hupdate {b : ℕ} {d d' : Cell} (hd : s.cells b = some d) (hid : d'.stream.id = d.stream.id) :
      ∃ c', Function.update s.cells b (some d') a = some c' ∧ c'.stream.id = c.stream.id := by
    by_cases hab : a = b
    · subst hab
      obtain rfl : c = d := by simpa [hc] using hd
      exact ⟨d', Function.update_self .., hid⟩
    · exact ⟨c, by rw [Function.update_of_ne hab, hc], rfl⟩
  cases h with
  | quiet _ _ htable _ =>
      rw [htable]
      exact ⟨c, hc, rfl⟩
  | act _ _ hd hs _ _ _ htable _ =>
      rw [htable]
      exact hupdate hd (Stream.step_id (Cell.step_eq_some hs).2.1)
  | register id submitted _ _ htable _ _ =>
      have hne : a ≠ s.next := by
        rintro rfl
        rw [hinv.unused _ le_rfl] at hc
        cases hc
      rw [htable]
      exact ⟨c, (Function.update_of_ne hne ..).trans hc, rfl⟩
  | close _ _ hd _ htable _ =>
      rw [htable]
      exact hupdate hd rfl
  | teardown _ hclose =>
      obtain ⟨-, hnone, hsome⟩ := Session.closeAll_eq_some hclose
      have hthere : s'.cells a ≠ none := by
        rw [ne_eq, hnone a]
        simp [hc]
      obtain ⟨c', hc'⟩ := Option.ne_none_iff_exists'.mp hthere
      obtain ⟨d, hd, hid, -⟩ := hsome a c' hc'
      obtain rfl : c = d := by simpa [hc] using hd
      exact ⟨c', hc', hid⟩

def Table.Kept (t : Table) : Prop := ∀ a < t.next, ∃ c, t.cells a = some c

theorem Table.Kept.step {s s' : Session} {e : SessionAction} {os : List SessionLabel}
    (hinv : s.toTable.Inv s.nghttp2.toNghttp2Streams) (h : s.toTable.Kept) (hs : s.Moves e os s') :
    s'.toTable.Kept := by
  intro b hb
  by_cases hold : b < s.next
  · obtain ⟨c, hc⟩ := h b hold
    obtain ⟨c', hc', -⟩ := hs.keeps hinv hc
    exact ⟨c', hc'⟩
  · cases hs with
    | quiet _ _ htable _ =>
        rw [htable] at hb
        exact absurd hb hold
    | act _ _ _ _ _ _ _ htable _ =>
        rw [htable] at hb
        exact absurd hb hold
    | register id submitted _ _ htable _ _ =>
        rw [htable] at hb ⊢
        dsimp only at hb
        obtain rfl : b = s.next := by omega
        exact ⟨_, Function.update_self ..⟩
    | close _ _ _ _ htable _ =>
        rw [htable] at hb
        exact absurd hb hold
    | teardown _ hclose =>
        rw [(Session.closeAll_eq_some hclose).1] at hb
        exact absurd hb hold

/-- An object is closed after nghttp2 has closed its stream, or by the
teardown. -/
def Session.ClosedBy (s : Session) : Prop :=
  ∀ a c, s.cells a = some c → c.stream.closed = true →
    c.stream.id ∈ s.nghttp2.closed ∨ s.finished = true

theorem Session.ClosedBy.step {s s' : Session} {e : SessionAction} {os : List SessionLabel}
    (hinv : s.toTable.Inv s.nghttp2.toNghttp2Streams) (h : s.ClosedBy) (hs : s.Moves e os s') :
    s'.ClosedBy := by
  intro a c' hc' hclosed
  cases hs with
  | quiet _ _ htable hn =>
      rw [htable] at hc' ⊢
      rw [hn]
      exact (h a c' hc' hclosed).imp_left fun hid => s.nghttp2.note_closed e hid
  | act _ hne hc hs _ _ _ htable hn =>
      rw [htable] at hc' ⊢
      rw [hn]
      have hkeep {c : Cell} (hc : s.cells a = some c) (hclosed : c.stream.closed = true) :
          c.stream.id ∈ (s.nghttp2.note e).closed ∨ s.finished = true :=
        (h a c hc hclosed).imp_left fun hid => s.nghttp2.note_closed e hid
      rcases update_eq_some hc' with ⟨rfl, rfl⟩ | ⟨-, hold⟩
      · have hstream := (Cell.step_eq_some hs).2.1
        rw [Stream.step_closed hstream, decide_eq_false hne, Bool.or_false] at hclosed
        rw [Stream.step_id hstream]
        exact hkeep hc hclosed
      · exact hkeep hold hclosed
  | register id submitted _ _ htable hn _ =>
      rw [htable] at hc' ⊢
      rw [hn]
      rcases update_eq_some hc' with ⟨rfl, rfl⟩ | ⟨-, hold⟩
      · cases hclosed
      · exact h a c' hold hclosed
  | @close id b c he hfind hc _ htable hn =>
      rw [htable] at hc' ⊢
      rw [hn]
      rcases update_eq_some hc' with ⟨rfl, rfl⟩ | ⟨-, hold⟩
      · subst he
        have hid := (hinv.id_of_lookup hfind hc).1
        exact .inl (by simp [Nghttp2.note, Cell.close, Stream.onClose, hid])
      · exact (h a c' hold hclosed).imp_left fun hid => s.nghttp2.note_closed e hid
  | teardown _ hclose => exact .inr (hinv.teardown hclose).2.2

/-! ### What a step does to one object -/

/-- An object that is there after a step was made by it, was left alone, was
acted on, or was closed. -/
inductive Session.CellMove (s : Session) (e : SessionAction) (os : List SessionLabel) (a : ℕ)
    (c' : Cell) : Prop
  | made (hnone : s.cells a = none) (hfresh : c'.stream.id ∉ s.nghttp2.opened)
      (hmade : ∃ submitted, c' = Cell.fresh c'.stream.id submitted) (htarget : e.target = none)
      (hos : onCell a os = [])
  | left (hc : s.cells a = some c')
      (htarget : c'.stream.closed = false → e.target ≠ some c'.stream.id)
      (hos : onCell a os = [])
  | acted {c : Cell} {act : Action} (hc : s.cells a = some c) (hdoes : s.Does e a c act)
      (hne : act ≠ .onClose) (hs : c.step act = some (c', onCell a os))
  | closed {c : Cell} (hc : s.cells a = some c) (hopen : c.stream.closed = false)
      (hid : c'.stream.id = c.stream.id) (heof : c'.stream.read.readEof = c.stream.read.readEof)
      (hclosed : c'.stream.closed = true)
      (he : e = .teardown ∨ ∃ id, e = .streamClose id)
      (hos : ∀ l ∈ onCell a os, l = .closed)

theorem onCell_untagged {os : List SessionLabel} (h : Untagged os) (a : ℕ) : onCell a os = [] :=
  project_untagged h a

/-- The object that an event is about is the one registered under the id. -/
theorem Table.Inv.target_eq {s : Session} {e : SessionAction} {a : ℕ} {c : Cell} {act : Action}
    (h : s.toTable.Inv s.nghttp2.toNghttp2Streams) (hdoes : s.Does e a c act) {id : ℤ}
    (hid : e.target = some id) : c.stream.id = id ∧ c.stream.closed = false := by
  cases hdoes with
  | header name value hfind hc =>
      cases hid
      exact h.id_of_lookup hfind hc
  | eof request hfind hc =>
      cases hid
      exact h.id_of_lookup hfind hc
  | data data adds hfind hc =>
      cases hid
      exact h.id_of_lookup hfind hc
  | close hfind hc =>
      cases hid
      exact h.id_of_lookup hfind hc
  | _ => cases hid

theorem Session.Moves.cellMove {s s' : Session} {e : SessionAction} {os : List SessionLabel}
    (hinv : s.toTable.Inv s.nghttp2.toNghttp2Streams) (h : s.Moves e os s') {a : ℕ} {c' : Cell}
    (hc' : s'.cells a = some c') : s.CellMove e os a c' := by
  cases h with
  | quiet hunknown hos htable _ =>
      have hc : s.cells a = some c' := by rw [← hc', htable]
      refine .left hc (fun hopen htarget => ?_) (onCell_untagged hos a)
      have hfind := hunknown _ htarget
      rw [Session.findStream, (hinv.registered a c' hc).mp hopen] at hfind
      cases hfind
  | @act b c c₁ act ls pre post hdoes hne hc hs hpre hpost hos htable _ =>
      have hproj : onCell a os = onCell a (ls.map (.stream b)) := by
        rw [hos, onCell_append, onCell_append, onCell_untagged hpre, onCell_untagged hpost]
        simp
      rw [htable] at hc'
      rcases update_eq_some hc' with ⟨rfl, rfl⟩ | ⟨hab, hold⟩
      · rw [onCell_map_stream] at hproj
        exact .acted hc hdoes hne (hproj ▸ hs)
      · rw [onCell_map_stream_of_ne (Ne.symm hab)] at hproj
        refine .left hold (fun _ htarget => hab ?_) hproj
        have hid := (hinv.target_eq hdoes htarget).1
        exact hinv.injective a b c' c hold hc hid.symm
  | register id submitted hfresh hos htable _ he =>
      have htarget : e.target = none := by
        rcases he with ⟨-, rfl⟩ | ⟨-, -, adds, rfl⟩ <;> rfl
      rw [htable] at hc'
      rcases update_eq_some hc' with ⟨rfl, rfl⟩ | ⟨-, hold⟩
      · exact .made (hinv.unused _ le_rfl) hfresh ⟨submitted, rfl⟩ htarget (onCell_untagged hos _)
      · exact .left hold (fun _ => by simp [htarget]) (onCell_untagged hos a)
  | @close id b c he hfind hc hos htable _ =>
      have hid := hinv.id_of_lookup hfind hc
      have hproj : onCell a os = onCell a ([.closed].map (.stream b)) := by rw [hos]; rfl
      rw [htable] at hc'
      rcases update_eq_some hc' with ⟨rfl, rfl⟩ | ⟨hab, hold⟩
      · rw [onCell_map_stream] at hproj
        refine .closed hc hid.2 rfl rfl rfl (.inr ⟨id, he⟩) fun l hl => ?_
        simpa [hproj] using hl
      · rw [onCell_map_stream_of_ne (Ne.symm hab)] at hproj
        refine .left hold (fun _ htarget => hab ?_) hproj
        obtain rfl : id = c'.stream.id := by simpa [he, SessionAction.target] using htarget
        exact hinv.injective a b c' c hold hc hid.1.symm
  | teardown he hclose =>
      obtain ⟨-, -, hsome⟩ := Session.closeAll_eq_some hclose
      obtain ⟨c, hc, hid, heof, hclosed, hsame⟩ := hsome a c' hc'
      have hlabels : ∀ l ∈ onCell a os, a ∈ s.streams.entries.map Sigma.snd ∧ l = .closed := by
        intro l hl
        obtain ⟨b, hb, heq⟩ := Session.closeAll_labels hclose _ (mem_onCell.mp hl)
        cases heq
        exact ⟨hb, rfl⟩
      by_cases hmem : a ∈ s.streams.entries.map Sigma.snd
      · obtain ⟨⟨id, b⟩, hentry, rfl⟩ := List.mem_map.mp hmem
        have hopen := (hinv.id_of_lookup (AList.mem_lookup_iff.mpr hentry) hc).2
        exact .closed hc hopen hid heof (hclosed (.inr hmem)) (.inl he) fun l hl => (hlabels l hl).2
      · obtain rfl := hsame hmem
        refine .left hc (fun _ => by simp [he, SessionAction.target]) ?_
        exact List.eq_nil_iff_forall_not_mem.mpr fun l hl => hmem (hlabels l hl).1

/-! ### Runs -/

theorem Session.inv_run {ok : Session → SessionAction → Prop} {tr : List SessionLabel}
    {s : Session} (run : sessionMachine.Run ok tr s) :
    s.toTable.Inv s.nghttp2.toNghttp2Streams := by
  refine run.invariant (I := fun _ s => s.toTable.Inv s.nghttp2.toNghttp2Streams) ?_ ?_
  · rintro s ⟨role, rfl⟩
    exact Table.inv_fresh
  · intro tr s a s' os h _ hs
    exact h.step (Session.step_moves hs)

theorem Session.exec_keeps {tr os : List SessionLabel} {s s' : Session} {as : List SessionAction}
    (run : sessionMachine.Run anyStep tr s) (h : sessionMachine.exec anyStep s as = some (s', os))
    {a : ℕ} {c : Cell} (hc : s.cells a = some c) :
    ∃ c', s'.cells a = some c' ∧ c'.stream.id = c.stream.id := by
  refine (Machine.exec_invariant (A := fun _ => True)
    (I := fun _ _ s' => s'.toTable.Inv s'.nghttp2.toNghttp2Streams ∧
      ∃ c', s'.cells a = some c' ∧ c'.stream.id = c.stream.id)
    ?_ ⟨Session.inv_run run, c, hc, rfl⟩ (fun _ _ => trivial) h).2
  rintro - - s₁ e s₂ os₂ ⟨hinv, c₁, hc₁, hid₁⟩ - hs
  have hmoves := Session.step_moves hs
  obtain ⟨c₂, hc₂, hid₂⟩ := hmoves.keeps hinv hc₁
  exact ⟨hinv.step hmoves, c₂, hc₂, hid₂.trans hid₁⟩

theorem Session.kept_run {ok : Session → SessionAction → Prop} {tr : List SessionLabel}
    {s : Session} (run : sessionMachine.Run ok tr s) : s.toTable.Kept ∧ s.ClosedBy := by
  refine run.invariant_along (I := fun _ s => s.toTable.Kept ∧ s.ClosedBy) ?_ ?_
  · rintro s ⟨role, rfl⟩
    exact ⟨fun a ha => absurd ha a.not_lt_zero, fun a c hc => by cases hc⟩
  · intro tr s e s' os run h _ hs
    have hmoves := Session.step_moves hs
    have hinv := Session.inv_run run
    exact ⟨h.1.step hinv hmoves, h.2.step hinv hmoves⟩

/-- The teardown comes after the loops, which do not run again. -/
theorem Session.torn_run {ok : Session → SessionAction → Prop} {tr : List SessionLabel}
    {s : Session} (run : sessionMachine.Run ok tr s) (hfinished : s.finished = true) :
    (∃ why, s.sendLoop = .ended why) ∧ s.recvLoop = .ended := by
  refine run.invariant (I := fun _ s => s.finished = true →
    (∃ why, s.sendLoop = .ended why) ∧ s.recvLoop = .ended) ?_ ?_ hfinished
  · rintro s ⟨role, rfl⟩ h
    cases h
  · intro tr s e s' os h _ hs hfinished
    obtain ⟨⟨why, hsend⟩, hrecv⟩ : (∃ why, s.sendLoop = .ended why) ∧ s.recvLoop = .ended := by
      rcases (Session.step_moves hs).finished hfinished with hbefore | rfl
      · exact h hbefore
      · obtain ⟨hsend, hrecv, -⟩ := Session.step_teardown hs
        exact ⟨hsend, hrecv⟩
    exact ⟨⟨why, Session.step_send_ended hs hsend⟩, Session.step_recv_ended hs hrecv⟩

/-- What a session's trace shows of one of its streams is a run of that stream,
under any condition that the actions on it satisfy. -/
theorem Session.cell_run {ok : Session → SessionAction → Prop} {cellOk : Cell → Action → Prop}
    (hok : ∀ tr s e a c act, sessionMachine.Run ok tr s → ok s e → s.allows e = true →
      s.Does e a c act → cellOk c act)
    {tr : List SessionLabel} {s : Session} (run : sessionMachine.Run ok tr s) :
    HeapRuns cellMachine SessionLabel.ofStream cellOk tr s.cells := by
  refine run.invariant_along
    (I := fun tr s => HeapRuns cellMachine SessionLabel.ofStream cellOk tr s.cells) ?_ ?_
  · rintro s ⟨role, rfl⟩
    exact HeapRuns.empty _ _ _
  · intro tr s e s' os run h hoke hs
    have hinv := Session.inv_run run
    have hallows := (Session.step_eq_some hs).1
    have hheap := (Session.step_moves hs).heap (hinv.unused s.next le_rfl)
    refine h.step SessionLabel.ofStream_stream hheap fun a c act hdoes => ?_
    exact hok tr s e a c act run hoke hallows hdoes

theorem Session.cells_run {ok : Session → SessionAction → Prop} {tr : List SessionLabel}
    {s : Session} (run : sessionMachine.Run ok tr s) :
    HeapRuns cellMachine SessionLabel.ofStream anyStep tr s.cells :=
  Session.cell_run (fun _ _ _ _ _ _ _ _ _ _ => trivial) run

/-! The two halves of this, for `onCell`. -/

theorem onCell_run {ok : Cell → Action → Prop} {tr : List SessionLabel} {cells : ℕ → Option Cell}
    (h : HeapRuns cellMachine SessionLabel.ofStream ok tr cells) {a : ℕ} {c : Cell}
    (hc : cells a = some c) : cellMachine.Run ok (onCell a tr) c :=
  h.run a c hc

theorem onCell_unused {ok : Cell → Action → Prop} {tr : List SessionLabel}
    {cells : ℕ → Option Cell} (h : HeapRuns cellMachine SessionLabel.ofStream ok tr cells) {a : ℕ}
    (hnone : cells a = none) : onCell a tr = [] :=
  h.unused a hnone

/-! ### The registry in every run -/

/-- A `submit_request` that is refused, for the role or by nghttp2, does
nothing. -/
theorem Session.submitRequest_refused {s : Session} {accepted : Option ℤ} {adds : ℕ} {ec : Error}
    {a : Option ℕ}
    (h : .requestSubmitted (some ec) a ∈ (s.submitRequest accepted adds).2) :
    (s.submitRequest accepted adds).1 = s := by
  unfold Session.submitRequest at h ⊢
  split at h
  · rw [if_pos ‹_›]
  · rw [if_neg ‹_›]
    cases accepted with
    | none => rfl
    | some id => simp at h

/-- nghttp2 asks for data on registered streams only: a stream that it has not
closed is registered as long as the session is not torn down, and it asks for
nothing after that. -/
theorem Session.pull_registered {tr : List SessionLabel} {s s' : Session} {a length : ℕ}
    {os : List SessionLabel} (run : sessionMachine.Run anyStep tr s)
    (hs : s.step (.dataSourceRead a length) = some (s', os)) :
    s.finished = false ∧ ∃ c, s.cells a = some c ∧ c.stream.id ∉ s.nghttp2.closed := by
  obtain ⟨hallows, hperform⟩ := Session.step_eq_some hs
  obtain ⟨c, -, -, hc, -⟩ := Session.act_eq_some hperform
  simp only [Session.allows, hc, Option.all_some, Bool.and_eq_true, decide_eq_true_eq] at hallows
  refine ⟨?_, c, hc, hallows.2⟩
  by_contra hfinished
  obtain ⟨⟨why, hsend⟩, -⟩ := Session.torn_run run (by simpa using hfinished)
  simp [Session.sending, hsend] at hallows

/-- In every run: an entry of `streams_` has the id of its stream; every `Stream`
that was ever registered is registered and not closed, or closed and not
registered; a `submit_request` that fails changes nothing, nor does closing an
unknown stream; until the session is torn down every stream that nghttp2 has not
closed is registered, and with it the one that a data provider is called for;
and the teardown leaves no entry. -/
theorem registry_in_line {tr : List SessionLabel} {s : Session}
    (run : sessionMachine.Run anyStep tr s) :
    (∀ id a, s.streams.lookup id = some a → ∃ c, s.cells a = some c ∧ c.stream.id = id) ∧
    (∀ a < s.next, ∃ c, s.cells a = some c ∧
      (c.stream.closed = false ∧ s.streams.lookup c.stream.id = some a ∨
        c.stream.closed = true ∧ ∀ id, s.streams.lookup id ≠ some a)) ∧
    (∀ accepted adds s' os ec a, s.step (.submitRequest accepted adds) = some (s', os) →
      .requestSubmitted (some ec) a ∈ os → s' = s) ∧
    (∀ id, s.findStream id = none → s.closeStream id = some (s, [])) ∧
    (s.finished = false → ∀ a c, s.cells a = some c → c.stream.id ∉ s.nghttp2.closed →
      s.streams.lookup c.stream.id = some a) ∧
    (∀ a length s' os, s.step (.dataSourceRead a length) = some (s', os) →
      ∃ c, s.cells a = some c ∧ s.streams.lookup c.stream.id = some a) ∧
    ∀ s' os, s.step .teardown = some (s', os) → s'.streams = ∅ := by
  have hinv := Session.inv_run run
  obtain ⟨hkept, hclosedBy⟩ := Session.kept_run run
  have hlive (hfinished : s.finished = false) (a : ℕ) (c : Cell) (hc : s.cells a = some c)
      (hlive : c.stream.id ∉ s.nghttp2.closed) : s.streams.lookup c.stream.id = some a := by
    refine (hinv.registered a c hc).mp ?_
    by_contra hclosed
    rcases hclosedBy a c hc (by simpa using hclosed) with hid | hfinished'
    · exact hlive hid
    · rw [hfinished] at hfinished'
      cases hfinished'
  refine ⟨hinv.entry, fun a ha => ?_, fun accepted adds s' os ec a hs hrefused => ?_,
    fun id hfind => ?_, hlive, fun a length s' os hs => ?_, fun s' os hs => ?_⟩
  · obtain ⟨c, hc⟩ := hkept a ha
    refine ⟨c, hc, ?_⟩
    cases hclosed : c.stream.closed with
    | false => exact .inl ⟨rfl, (hinv.registered a c hc).mp hclosed⟩
    | true =>
        refine .inr ⟨rfl, fun id hfind => ?_⟩
        rw [(hinv.id_of_lookup hfind hc).2] at hclosed
        cases hclosed
  · obtain ⟨rfl, rfl⟩ := Prod.ext_iff.mp (Option.some.inj (Session.step_eq_some hs).2)
    exact Session.submitRequest_refused hrefused
  · rw [Session.closeStream, hfind]
  · obtain ⟨hfinished, c, hc, hid⟩ := Session.pull_registered run hs
    exact ⟨c, hc, hlive hfinished a c hc hid⟩
  · exact (hinv.teardown (Session.step_teardown hs).2.2.2).2.1

/-- A client with two requests, one refused and one accepted, that is asked for
the body of the one it has. -/
theorem registry_in_line_of_request :
    ∃ tr s, sessionMachine.Run anyStep tr s ∧ .requestSubmitted (some .invalidArgument) none ∈ tr ∧
      (∃ s' os, s.step (.dataSourceRead 0 10) = some (s', os)) ∧
      ∃ c, s.cells 0 = some c ∧ s.streams.lookup c.stream.id = some 0 := by
  obtain ⟨tr, s, run, hrefused, hpull⟩ :
      ∃ tr s, sessionMachine.Run anyStep tr s ∧
        .requestSubmitted (some .invalidArgument) none ∈ tr ∧
        (s.step (.dataSourceRead 0 10)).isSome = true :=
    Machine.run_of_exec (sessionMachine_init .client)
      [.memSend (some []) 0 true, .submitRequest none 0, .submitRequest (some 1) 1, .resumeSend]
      (by decide)
  obtain ⟨⟨s', os⟩, hs⟩ := Option.isSome_iff_exists.mp hpull
  exact ⟨tr, s, run, hrefused, ⟨s', os, hs⟩, (registry_in_line run).2.2.2.2.2.1 0 10 s' os hs⟩

end Nghttp2Corosio
