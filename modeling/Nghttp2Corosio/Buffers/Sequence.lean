import Mathlib

/-!
Sequences of buffers, read from and written to front to back.

A source sequence is a list of buffers, each a list of bytes; consuming `n`
bytes drops the first `n` bytes of their concatenation and keeps the rest in
its buffers. A capped array holds at most `cap` non-empty buffers of a
sequence, the first ones.

Of a destination sequence only the sizes matter to the program that fills it:
what is written goes to the first free byte. `Window cap` is such a
destination as an algorithm sees it that handles at most `cap` buffers at a
time: `front` are the sizes of the buffers exposed now, `back` those that come
after them. When the exposed buffers are used up, `refill` exposes the next
ones. A copy only reaches the exposed buffers, so a destination of more than
`cap` buffers may be offered more bytes than one copy takes although it has
room for them; `Window.Whole` says that this cannot happen because every
remaining buffer fits into one exposure.
-/

namespace Buffers

variable {β : Type*}

/-! ### Sources -/

/-- Drop the first `n` bytes of a sequence of buffers. -/
def consume : ℕ → List (List β) → List (List β)
  | _, [] => []
  | n, b :: bs => if n < b.length then b.drop n :: bs else consume (n - b.length) bs

@[simp] theorem flatten_consume (n : ℕ) (bs : List (List β)) :
    (consume n bs).flatten = bs.flatten.drop n := by
  induction bs generalizing n with
  | nil => simp [consume]
  | cons b bs ih =>
      rw [consume, List.flatten_cons, List.drop_append]
      split
      · rename_i h
        rw [List.flatten_cons, Nat.sub_eq_zero_of_le h.le, List.drop_zero]
      · rename_i h
        rw [ih, List.drop_eq_nil_of_le (Nat.le_of_not_lt h), List.nil_append]

/-- The first `cap` non-empty buffers of a sequence. -/
def capped (cap : ℕ) (bs : List (List β)) : List (List β) :=
  (bs.filter fun b => !b.isEmpty).take cap

theorem flatten_filter_nonempty (bs : List (List β)) :
    (bs.filter fun b => !b.isEmpty).flatten = bs.flatten := by
  induction bs with
  | nil => rfl
  | cons b bs ih => cases b <;> simp [ih]

theorem flatten_capped_prefix (cap : ℕ) (bs : List (List β)) :
    (capped cap bs).flatten <+: bs.flatten := by
  rw [← flatten_filter_nonempty bs, capped]
  exact ⟨((bs.filter fun b => !b.isEmpty).drop cap).flatten, by
    rw [← List.flatten_append, List.take_append_drop]⟩

theorem flatten_capped_of_length_le {cap : ℕ} {bs : List (List β)} (h : bs.length ≤ cap) :
    (capped cap bs).flatten = bs.flatten := by
  rw [capped, List.take_of_length_le ((List.length_filter_le _ _).trans h),
    flatten_filter_nonempty]

theorem flatten_capped_ne_nil {cap : ℕ} (hcap : 0 < cap) {bs : List (List β)}
    (h : bs.flatten ≠ []) : (capped cap bs).flatten ≠ [] := by
  rw [← flatten_filter_nonempty bs] at h
  cases hf : bs.filter fun b => !b.isEmpty with
  | nil => simp [hf] at h
  | cons b rest =>
      have hb : b ∈ bs.filter fun b => !b.isEmpty := by simp [hf]
      obtain ⟨cap, rfl⟩ := Nat.exists_eq_succ_of_ne_zero hcap.ne'
      have hne : b ≠ [] := by simpa using (List.mem_filter.mp hb).2
      simp [capped, hf, hne]

/-! ### Destinations -/

def consumeSizes : ℕ → List ℕ → List ℕ
  | _, [] => []
  | n, m :: ms => if n < m then (m - n) :: ms else consumeSizes (n - m) ms

theorem sum_consumeSizes (n : ℕ) (ms : List ℕ) : (consumeSizes n ms).sum = ms.sum - n := by
  induction ms generalizing n with
  | nil => simp [consumeSizes]
  | cons m ms ih =>
      simp only [consumeSizes, List.sum_cons]
      split
      · simp only [List.sum_cons]
        omega
      · rw [ih]
        omega

theorem pos_of_mem_consumeSizes {n : ℕ} {ms : List ℕ} (h : ∀ m ∈ ms, 0 < m) :
    ∀ m ∈ consumeSizes n ms, 0 < m := by
  induction ms generalizing n with
  | nil => simp [consumeSizes]
  | cons m ms ih =>
      have htail : ∀ k ∈ ms, 0 < k := fun k hk => h k (List.mem_cons_of_mem m hk)
      simp only [consumeSizes]
      split
      · intro k hk
        rcases List.mem_cons.mp hk with rfl | hk
        · omega
        · exact htail k hk
      · exact ih htail

theorem sum_eq_zero_iff_nil {ms : List ℕ} (h : ∀ m ∈ ms, 0 < m) : ms.sum = 0 ↔ ms = [] := by
  cases ms with
  | nil => simp
  | cons m ms =>
      have := h m List.mem_cons_self
      simp only [List.sum_cons, reduceCtorEq, iff_false]
      omega

/-- A destination seen through an exposure of at most `cap` buffers. -/
structure Window (cap : ℕ) where
  /-- The sizes of the buffers exposed now. -/
  front : List ℕ
  /-- The sizes of the buffers after them. -/
  back : List ℕ
  front_pos : ∀ n ∈ front, 0 < n
  back_pos : ∀ n ∈ back, 0 < n

variable {cap : ℕ}

def Window.ofSizes (cap : ℕ) (sizes : List ℕ) : Window cap where
  front := []
  back := sizes.filter (0 < ·)
  front_pos := by simp
  back_pos := by simp

def Window.room (w : Window cap) : ℕ := w.front.sum + w.back.sum

/-- Expose the next buffers if none is exposed. -/
def Window.refill (w : Window cap) : Window cap :=
  if w.front = [] then
    { front := w.back.take cap
      back := w.back.drop cap
      front_pos := fun n hn => w.back_pos n (List.mem_of_mem_take hn)
      back_pos := fun n hn => w.back_pos n (List.mem_of_mem_drop hn) }
  else w

def Window.consume (w : Window cap) (n : ℕ) : Window cap :=
  { w with
    front := consumeSizes n w.front
    front_pos := pos_of_mem_consumeSizes w.front_pos }

/-- How many of `len` bytes one copy takes. -/
def Window.fits (w : Window cap) (len : ℕ) : ℕ := min w.refill.front.sum len

def Window.put (w : Window cap) (len : ℕ) : Window cap := w.refill.consume (w.fits len)

/-- Every remaining buffer is exposed, or will be at the next exposure. -/
def Window.Whole (w : Window cap) : Prop := w.refill.back = []

@[simp] theorem Window.room_ofSizes (sizes : List ℕ) :
    (Window.ofSizes cap sizes).room = sizes.sum := by
  induction sizes with
  | nil => rfl
  | cons n sizes ih =>
      simp only [Window.room, Window.ofSizes, List.sum_nil, Nat.zero_add] at ih ⊢
      rcases Nat.eq_zero_or_pos n with rfl | hn
      · simpa using ih
      · simp [hn, ih]

@[simp] theorem Window.room_refill (w : Window cap) : w.refill.room = w.room := by
  unfold Window.refill
  split
  · rename_i h
    simp only [Window.room, h, List.sum_nil, Nat.zero_add]
    rw [← List.sum_append, List.take_append_drop]
  · rfl

theorem Window.refill_front_eq_nil (hcap : 0 < cap) (w : Window cap) :
    w.refill.front = [] ↔ w.room = 0 := by
  constructor
  · intro h
    unfold Window.refill at h
    split at h
    · rename_i hf
      obtain ⟨cap, rfl⟩ := Nat.exists_eq_succ_of_ne_zero hcap.ne'
      have hb : w.back = [] := by simpa using h
      simp [Window.room, hf, hb]
    · rename_i hf
      exact absurd h hf
  · intro h
    rw [← Window.room_refill] at h
    exact (sum_eq_zero_iff_nil w.refill.front_pos).mp (by simp only [Window.room] at h; omega)

theorem Window.fits_le (w : Window cap) (len : ℕ) : w.fits len ≤ len := Nat.min_le_right _ _

theorem Window.fits_le_room (w : Window cap) (len : ℕ) : w.fits len ≤ w.room := by
  have := w.room_refill
  simp only [Window.room, Window.fits] at this ⊢
  omega

theorem Window.fits_pos (hcap : 0 < cap) {w : Window cap} {len : ℕ} (hw : 0 < w.room)
    (hlen : 0 < len) : 0 < w.fits len := by
  have hne : w.refill.front ≠ [] := by
    rw [Ne, Window.refill_front_eq_nil hcap]
    omega
  have hsum : w.refill.front.sum ≠ 0 := by
    rwa [Ne, sum_eq_zero_iff_nil w.refill.front_pos]
  simp only [Window.fits]
  omega

@[simp] theorem Window.room_put (w : Window cap) (len : ℕ) :
    (w.put len).room = w.room - w.fits len := by
  have hle : w.fits len ≤ w.refill.front.sum := Nat.min_le_left _ _
  rw [← w.room_refill]
  simp only [Window.put, Window.consume, Window.room, sum_consumeSizes]
  omega

theorem Window.whole_ofSizes {sizes : List ℕ} (h : sizes.length ≤ cap) :
    (Window.ofSizes cap sizes).Whole := by
  have hlen : (sizes.filter (0 < ·)).length ≤ cap := (List.length_filter_le _ _).trans h
  simp [Window.Whole, Window.refill, Window.ofSizes, hlen]

theorem Window.Whole.put {w : Window cap} (h : w.Whole) (len : ℕ) : (w.put len).Whole := by
  unfold Window.Whole at h ⊢
  have hback : (w.put len).back = [] := h
  unfold Window.refill
  split
  · simp [hback]
  · exact hback

theorem Window.Whole.fits_eq {w : Window cap} (h : w.Whole) (len : ℕ) :
    w.fits len = min w.room len := by
  have hroom : w.refill.front.sum = w.room := by
    rw [← w.room_refill, Window.room, h]
    simp
  rw [Window.fits, hroom]

instance (w : Window cap) : Decidable w.Whole := inferInstanceAs (Decidable (w.refill.back = []))

theorem Window.whole_of_room_eq_zero {w : Window cap} (h : w.room = 0) : w.Whole := by
  rw [← w.room_refill, Window.room] at h
  exact (sum_eq_zero_iff_nil w.refill.back_pos).mp (by omega)

/-- A destination takes nothing, whatever it is offered, when it has no room. -/
theorem Window.fits_eq_zero_iff (hcap : 0 < cap) {w : Window cap} :
    (∀ len, w.fits len = 0) ↔ w.room = 0 := by
  refine ⟨fun h => ?_, fun h len => ?_⟩
  · by_contra hroom
    have hpos := Window.fits_pos hcap (w := w) (Nat.pos_of_ne_zero hroom) Nat.one_pos
    rw [h 1] at hpos
    omega
  · have := w.fits_le_room len
    omega

/-- A copy that leaves something over fills the destination if and only if no
buffer lies beyond the exposed ones. -/
theorem Window.room_put_eq_zero_iff {w : Window cap} {len : ℕ} (h : w.refill.front.sum < len) :
    (w.put len).room = 0 ↔ w.Whole := by
  have hroom : (w.put len).room = w.refill.back.sum := by
    rw [Window.room_put, ← w.room_refill, Window.fits, Nat.min_eq_left h.le, Window.room]
    omega
  rw [hroom]
  exact sum_eq_zero_iff_nil w.refill.back_pos

end Buffers
