import Mathlib

/-!
One direction of a connection that carries a byte stream with an end, under
flow control by credit.

A sender may send as much as its *window* allows. The receiver counts what it
has consumed and, once that is worth the message, announces it to the sender,
whose window grows by it. So a unit of credit is always in one of four places:
in the window, spent on something the receiver has not consumed, counted by the
receiver, or announced and on its way. `Credit.held` is what is in the first,
the third and the fourth; what is spent and not consumed is the rest of the
`size` of the limit.

A `Channel` has two such accounts, one for the stream and one for the
connection under it. What arrives is consumed on the connection at once, and on
the stream when the receiver says so. What is in flight arrives in order and in
pieces of any size.
-/

namespace Flow

/-- A window of `size`, announced from `threshold` on. -/
structure Limit where
  size : ℕ
  threshold : ℕ
  pos : 0 < threshold
  le : threshold ≤ size

structure Limits where
  stream : Limit
  connection : Limit

/-! ### Credit -/

structure Credit where
  window : ℕ
  /-- What the receiver has consumed and not announced. -/
  consumed : ℕ := 0
  /-- What is announced, on the way to the sender. -/
  updates : List ℕ := []
  deriving DecidableEq

def Credit.spend (c : Credit) (n : ℕ) : Credit := { c with window := c.window - n }

def Credit.consume (c : Credit) (n : ℕ) : Credit := { c with consumed := c.consumed + n }

def Credit.announce (c : Credit) (limit : Limit) : Option Credit :=
  if limit.threshold ≤ c.consumed then
    some { c with consumed := 0, updates := c.updates ++ [c.consumed] }
  else none

def Credit.update (c : Credit) : Option Credit :=
  match c.updates with
  | [] => none
  | n :: rest => some { c with window := c.window + n, updates := rest }

/-- The credit that is not spent. -/
def Credit.held (c : Credit) : ℕ := c.window + c.consumed + c.updates.sum

theorem Credit.held_spend {c : Credit} {n : ℕ} (h : n ≤ c.window) :
    (c.spend n).held + n = c.held := by
  simp only [Credit.held, Credit.spend]
  omega

theorem Credit.held_consume (c : Credit) (n : ℕ) : (c.consume n).held = c.held + n := by
  simp only [Credit.held, Credit.consume]
  omega

theorem Credit.announce_eq_some {c c' : Credit} {limit : Limit} (h : c.announce limit = some c') :
    limit.threshold ≤ c.consumed ∧
      c' = { c with consumed := 0, updates := c.updates ++ [c.consumed] } := by
  unfold Credit.announce at h
  split at h
  · rename_i hle
    exact ⟨hle, (Option.some.inj h).symm⟩
  · cases h

theorem Credit.update_eq_some {c c' : Credit} (h : c.update = some c') :
    ∃ n, c.updates = n :: c'.updates ∧ c'.window = c.window + n ∧ c'.consumed = c.consumed := by
  unfold Credit.update at h
  split at h
  · cases h
  · rename_i n rest hupdates
    cases h
    exact ⟨n, hupdates, rfl, rfl⟩

theorem Credit.held_announce {c c' : Credit} {limit : Limit} (h : c.announce limit = some c') :
    c'.held = c.held := by
  obtain ⟨-, rfl⟩ := Credit.announce_eq_some h
  simp only [Credit.held, List.sum_append, List.sum_singleton]
  omega

theorem Credit.held_update {c c' : Credit} (h : c.update = some c') : c'.held = c.held := by
  obtain ⟨n, hupdates, hwindow, hconsumed⟩ := Credit.update_eq_some h
  simp only [Credit.held, hupdates, hwindow, hconsumed, List.sum_cons]
  omega

/-- A sender that has no announcement to wait for may send, if what it does not get
back leaves enough for one. -/
theorem Credit.window_pos {c : Credit} {limit : Limit} {n : ℕ}
    (hheld : c.held + n = limit.size) (hkept : n + limit.threshold ≤ limit.size)
    (hannounce : c.announce limit = none) (hupdate : c.update = none) : 0 < c.window := by
  have hlt : c.consumed < limit.threshold := by
    unfold Credit.announce at hannounce
    split at hannounce
    · cases hannounce
    · omega
  have hnone : c.updates = [] := by
    unfold Credit.update at hupdate
    split at hupdate
    · assumption
    · cases hupdate
  simp only [Credit.held, hnone, List.sum_nil] at hheld
  omega

/-! ### Channels -/

variable {β : Type*}

structure Channel (β : Type*) where
  inFlight : List β := []
  /-- The end is in flight, behind everything else. -/
  ending : Bool := false
  stream : Credit
  connection : Credit

def Channel.fresh (limits : Limits) : Channel β :=
  { stream := ⟨limits.stream.size, 0, []⟩, connection := ⟨limits.connection.size, 0, []⟩ }

def Channel.room (ch : Channel β) : ℕ := min ch.stream.window ch.connection.window

def Channel.send (ch : Channel β) (data : List β) (last : Bool) : Channel β :=
  { inFlight := ch.inFlight ++ data
    ending := ch.ending || last
    stream := ch.stream.spend data.length
    connection := ch.connection.spend data.length }

/-- The next piece arrives. -/
def Channel.deliver [DecidableEq β] (ch : Channel β) (data : List β) : Option (Channel β) :=
  if data ≠ [] ∧ data <+: ch.inFlight then
    some { ch with
      inFlight := ch.inFlight.drop data.length
      connection := ch.connection.consume data.length }
  else none

def Channel.finish (ch : Channel β) : Option (Channel β) :=
  if ch.ending = true ∧ ch.inFlight.isEmpty = true then some { ch with ending := false } else none

def Channel.consume (ch : Channel β) (n : ℕ) : Channel β :=
  { ch with stream := ch.stream.consume n }

/-- The messages that carry credit back. -/
inductive CreditAction
  | announceStream
  | updateStream
  | announceConnection
  | updateConnection
  deriving DecidableEq, Repr

def Channel.credit (ch : Channel β) (limits : Limits) : CreditAction → Option (Channel β)
  | .announceStream => (ch.stream.announce limits.stream).map fun c => { ch with stream := c }
  | .updateStream => ch.stream.update.map fun c => { ch with stream := c }
  | .announceConnection =>
      (ch.connection.announce limits.connection).map fun c => { ch with connection := c }
  | .updateConnection => ch.connection.update.map fun c => { ch with connection := c }

theorem Channel.deliver_eq_some [DecidableEq β] {ch ch' : Channel β} {data : List β}
    (h : ch.deliver data = some ch') :
    data ≠ [] ∧ ch.inFlight = data ++ ch'.inFlight ∧
      ch' = { ch with
        inFlight := ch.inFlight.drop data.length
        connection := ch.connection.consume data.length } := by
  unfold Channel.deliver at h
  split at h
  · rename_i hdata
    cases h
    obtain ⟨rest, hrest⟩ := hdata.2
    refine ⟨hdata.1, ?_, rfl⟩
    rw [← hrest, List.drop_left]
  · cases h

theorem Channel.finish_eq_some {ch ch' : Channel β} (h : ch.finish = some ch') :
    ch.ending = true ∧ ch.inFlight = [] ∧ ch' = { ch with ending := false } := by
  unfold Channel.finish at h
  split at h
  · rename_i hend
    exact ⟨hend.1, List.isEmpty_iff.mp hend.2, (Option.some.inj h).symm⟩
  · cases h

theorem Channel.deliver_of_ne_nil [DecidableEq β] {ch : Channel β} (h : ch.inFlight ≠ []) :
    (ch.deliver ch.inFlight).isSome = true := by
  simp [Channel.deliver, h]

theorem Channel.finish_of_ending {ch : Channel β} (hend : ch.ending = true)
    (h : ch.inFlight = []) : ch.finish.isSome = true := by
  simp [Channel.finish, hend, h]

/-- The messages that carry credit move it, and nothing else. -/
theorem Channel.credit_eq_some {ch ch' : Channel β} {limits : Limits} {a : CreditAction}
    (h : ch.credit limits a = some ch') :
    ch'.inFlight = ch.inFlight ∧ ch'.ending = ch.ending ∧ ch'.stream.held = ch.stream.held ∧
      ch'.connection.held = ch.connection.held := by
  cases a with
  | announceStream =>
      obtain ⟨c, hc, rfl⟩ := Option.map_eq_some_iff.mp h
      exact ⟨rfl, rfl, Credit.held_announce hc, rfl⟩
  | updateStream =>
      obtain ⟨c, hc, rfl⟩ := Option.map_eq_some_iff.mp h
      exact ⟨rfl, rfl, Credit.held_update hc, rfl⟩
  | announceConnection =>
      obtain ⟨c, hc, rfl⟩ := Option.map_eq_some_iff.mp h
      exact ⟨rfl, rfl, rfl, Credit.held_announce hc⟩
  | updateConnection =>
      obtain ⟨c, hc, rfl⟩ := Option.map_eq_some_iff.mp h
      exact ⟨rfl, rfl, rfl, Credit.held_update hc⟩

/-- A channel on which nothing can move, with all its credit back, has room. -/
theorem Channel.room_pos {ch : Channel β} {limits : Limits}
    (hstream : ch.stream.held = limits.stream.size)
    (hconnection : ch.connection.held = limits.connection.size)
    (hquiet : ∀ a, ch.credit limits a = none) : 0 < ch.room := by
  have hs : 0 < ch.stream.window :=
    Credit.window_pos (n := 0) hstream (by simpa using limits.stream.le)
      (by simpa [Channel.credit] using hquiet .announceStream)
      (by simpa [Channel.credit] using hquiet .updateStream)
  have hc : 0 < ch.connection.window :=
    Credit.window_pos (n := 0) hconnection (by simpa using limits.connection.le)
      (by simpa [Channel.credit] using hquiet .announceConnection)
      (by simpa [Channel.credit] using hquiet .updateConnection)
  exact Nat.lt_min.mpr ⟨hs, hc⟩

/-! ### What is left to do

A bound on the messages that a channel can still exchange if nobody puts anything
more into it. What is in flight has a weight, for what happens to it when it has
arrived. -/

def Credit.effort (c : Credit) : ℕ := 2 * c.consumed + c.updates.length

theorem Credit.effort_announce {c c' : Credit} {limit : Limit} (h : c.announce limit = some c') :
    c'.effort < c.effort := by
  obtain ⟨hle, rfl⟩ := Credit.announce_eq_some h
  have hpos := limit.pos
  simp only [Credit.effort, List.length_append, List.length_singleton]
  omega

theorem Credit.effort_update {c c' : Credit} (h : c.update = some c') : c'.effort < c.effort := by
  obtain ⟨n, hupdates, -, hconsumed⟩ := Credit.update_eq_some h
  simp only [Credit.effort, hupdates, hconsumed, List.length_cons]
  omega

def Channel.effort (weight : ℕ) (ch : Channel β) : ℕ :=
  weight * ch.inFlight.length + 2 * ch.ending.toNat + ch.stream.effort + ch.connection.effort

variable {ch ch' : Channel β}

theorem Channel.effort_send (ch : Channel β) (weight : ℕ) (data : List β) (last : Bool) :
    (ch.send data last).effort weight ≤
      ch.effort weight + weight * data.length + 2 * last.toNat := by
  have hending : (ch.ending || last).toNat ≤ ch.ending.toNat + last.toNat := by
    cases ch.ending <;> cases last <;> decide
  simp only [Channel.effort, Channel.send, Credit.effort, Credit.spend, List.length_append,
    Nat.mul_add]
  omega

theorem Channel.effort_deliver [DecidableEq β] (weight : ℕ) {data : List β}
    (h : ch.deliver data = some ch') :
    ch'.effort weight + weight * data.length = ch.effort weight + 2 * data.length := by
  obtain ⟨-, hinFlight, heq⟩ := Channel.deliver_eq_some h
  have hlength := congrArg List.length hinFlight
  rw [List.length_append] at hlength
  have hweight : weight * ch.inFlight.length =
      weight * data.length + weight * ch'.inFlight.length := by rw [hlength, Nat.mul_add]
  have hrest : ch'.ending = ch.ending ∧ ch'.stream = ch.stream ∧
      ch'.connection = ch.connection.consume data.length := by
    rw [heq]
    exact ⟨rfl, rfl, rfl⟩
  simp only [Channel.effort, hrest, hweight, Credit.effort, Credit.consume]
  omega

theorem Channel.effort_finish (weight : ℕ) (h : ch.finish = some ch') :
    ch'.effort weight + 2 = ch.effort weight := by
  obtain ⟨hending, -, rfl⟩ := Channel.finish_eq_some h
  simp only [Channel.effort, hending, Bool.toNat_true, Bool.toNat_false]
  omega

theorem Channel.effort_consume (ch : Channel β) (weight n : ℕ) :
    (ch.consume n).effort weight = ch.effort weight + 2 * n := by
  simp only [Channel.effort, Channel.consume, Credit.effort, Credit.consume]
  omega

theorem Channel.effort_credit (weight : ℕ) {limits : Limits} {a : CreditAction}
    (h : ch.credit limits a = some ch') : ch'.effort weight < ch.effort weight := by
  cases a with
  | announceStream =>
      obtain ⟨c, hc, rfl⟩ := Option.map_eq_some_iff.mp h
      have := Credit.effort_announce hc
      simp only [Channel.effort]
      omega
  | updateStream =>
      obtain ⟨c, hc, rfl⟩ := Option.map_eq_some_iff.mp h
      have := Credit.effort_update hc
      simp only [Channel.effort]
      omega
  | announceConnection =>
      obtain ⟨c, hc, rfl⟩ := Option.map_eq_some_iff.mp h
      have := Credit.effort_announce hc
      simp only [Channel.effort]
      omega
  | updateConnection =>
      obtain ⟨c, hc, rfl⟩ := Option.map_eq_some_iff.mp h
      have := Credit.effort_update hc
      simp only [Channel.effort]
      omega

end Flow
