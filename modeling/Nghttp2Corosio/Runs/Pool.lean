import Mathlib.Data.List.Basic
import Mathlib.Data.Multiset.DershowitzManna
import Mathlib.Logic.Relation

/-!
Pools of tasks that spawn tasks.

A pool is the list of the tasks that are not over. At each turn one of them
goes on: it stays in the pool in a new state, perhaps with a task that it has
spawned, or it is over, because it returned or because it threw. `Turn` is what
one task does in its turn, `Turn.on` what that does to the pool.

A pool need not shrink from turn to turn, and no number bounds its turns in
advance, as a task may spawn as many others as it likes. What decreases is the
multiset of the ranks of its tasks, provided that whatever a task leaves in the
pool ranks below it. The multisets are compared in the Dershowitz–Manna order,
which is well-founded if the ranks are.

`Inevitable` is the conclusion for a loop that lets turns happen until some
condition is met: on every schedule, the loop comes to its end.
-/

namespace Runs

variable {σ τ ρ : Type*}

/-- What a task does in its turn. -/
inductive Turn (τ : Type*)
  | goes (t : τ)
  | spawns (t child : τ)
  | returns
  | throws
  deriving DecidableEq, Repr

def Turn.tasks : Turn τ → List τ
  | .goes t => [t]
  | .spawns t child => [t, child]
  | .returns | .throws => []

def Turn.ends : Turn τ → Bool
  | .returns | .throws => true
  | _ => false

/-- The turn of the task at position `i`. A task that is spawned comes last. -/
def Turn.on (i : ℕ) (pool : List τ) : Turn τ → List τ
  | .goes t => pool.set i t
  | .spawns t child => pool.set i t ++ [child]
  | .returns | .throws => pool.eraseIdx i

def Turn.spawned : Turn τ → ℕ
  | .spawns _ _ => 1
  | _ => 0

theorem Turn.length_on (turn : Turn τ) {i : ℕ} {pool : List τ} {t : τ} (h : pool[i]? = some t) :
    (turn.on i pool).length + turn.ends.toNat = pool.length + turn.spawned := by
  obtain ⟨hlt, -⟩ := List.getElem?_eq_some_iff.mp h
  cases turn with
  | goes t => simp [Turn.on, Turn.ends, Turn.spawned]
  | spawns t child => simp [Turn.on, Turn.ends, Turn.spawned]
  | returns =>
      simp only [Turn.on, Turn.ends, Turn.spawned, List.length_eraseIdx_of_lt hlt, Bool.toNat_true]
      omega
  | throws =>
      simp only [Turn.on, Turn.ends, Turn.spawned, List.length_eraseIdx_of_lt hlt, Bool.toNat_true]
      omega

theorem coe_eq_add_singleton {pool : List τ} {i : ℕ} {t : τ} (h : pool[i]? = some t) :
    (pool : Multiset τ) = (pool.eraseIdx i : Multiset τ) + {t} := by
  obtain ⟨hlt, rfl⟩ := List.getElem?_eq_some_iff.mp h
  rw [← Multiset.coe_singleton, Multiset.coe_add, Multiset.coe_eq_coe]
  exact (List.getElem_cons_eraseIdx_perm hlt).symm.trans (List.perm_append_singleton _ _).symm

theorem Turn.coe_on (turn : Turn τ) {i : ℕ} {pool : List τ} {t : τ} (h : pool[i]? = some t) :
    (turn.on i pool : Multiset τ) =
      (pool.eraseIdx i : Multiset τ) + (turn.tasks : Multiset τ) := by
  obtain ⟨hlt, -⟩ := List.getElem?_eq_some_iff.mp h
  have hset (t' : τ) : (pool.set i t' : Multiset τ) = (pool.eraseIdx i : Multiset τ) + {t'} := by
    have hget : (pool.set i t')[i]? = some t' := by
      rw [List.getElem?_set_self hlt]
    rw [coe_eq_add_singleton hget, List.eraseIdx_set_eq]
  cases turn with
  | goes t' => exact hset t'
  | spawns t' child =>
      rw [Turn.on, ← Multiset.coe_add, hset t', Turn.tasks, add_assoc]
      rfl
  | returns => simp [Turn.on, Turn.tasks]
  | throws => simp [Turn.on, Turn.tasks]

section Ranks

variable [Preorder ρ]

theorem isDershowitzMannaLT_add_singleton (X : Multiset ρ) {Y : Multiset ρ} {z : ρ}
    (h : ∀ y ∈ Y, y < z) : (X + Y).IsDershowitzMannaLT (X + {z}) :=
  ⟨X, Y, {z}, Multiset.singleton_ne_zero z, rfl, rfl,
    fun y hy => ⟨z, Multiset.mem_singleton_self z, h y hy⟩⟩

/-- A turn that leaves only tasks below its own makes the pool smaller, whatever
else there is. -/
theorem Turn.on_lt (rank : τ → ρ) (X : Multiset ρ) {turn : Turn τ} {i : ℕ} {pool : List τ} {t : τ}
    (h : pool[i]? = some t) (hlt : ∀ t' ∈ turn.tasks, rank t' < rank t) :
    (X + (turn.on i pool : Multiset τ).map rank).IsDershowitzMannaLT
      (X + (pool : Multiset τ).map rank) := by
  rw [turn.coe_on h, coe_eq_add_singleton h, Multiset.map_add, Multiset.map_add,
    Multiset.map_singleton, ← add_assoc, ← add_assoc]
  refine isDershowitzMannaLT_add_singleton _ fun y hy => ?_
  obtain ⟨t', ht', rfl⟩ := Multiset.mem_map.mp hy
  exact hlt t' (Multiset.mem_coe.mp ht')

end Ranks

/-! ### Loops over turns -/

/-- Whatever happens, `done` comes to hold, and until then something can
happen. -/
inductive Inevitable (step : σ → σ → Prop) (done : σ → Prop) : σ → Prop
  | now {s : σ} (h : done s) : Inevitable step done s
  | later {s : σ} (hcan : ∃ s', step s s') (h : ∀ s', step s s' → Inevitable step done s') :
      Inevitable step done s

/-- A loop each of whose rounds is one or more steps comes to its end if every
step descends. -/
theorem inevitable_of_wellFounded {step : σ → σ → Prop} {done I : σ → Prop} {r : ρ → ρ → Prop}
    (hwf : WellFounded r) (μ : σ → ρ) (hinv : ∀ s s', I s → step s s' → I s')
    (hdown : ∀ s s', I s → step s s' → r (μ s') (μ s))
    (hcan : ∀ s, I s → done s ∨ ∃ s', step s s') {s : σ} (hs : I s) :
    Inevitable (Relation.TransGen step) done s := by
  have hacc : Acc (Relation.TransGen fun s' s => I s ∧ step s s') s := by
    refine (WellFounded.transGen ?_).apply s
    exact Subrelation.wf (fun h => hdown _ _ h.1 h.2) (InvImage.wf μ hwf)
  induction hacc with
  | intro s _ ih =>
      rcases hcan s hs with hdone | ⟨s', hstep⟩
      · exact .now hdone
      · refine .later ⟨s', .single hstep⟩ fun s'' hround => ?_
        -- the invariant holds at every state of the round
        have hround : I s'' ∧ Relation.TransGen (fun s' s => I s ∧ step s s') s'' s := by
          induction hround with
          | single h => exact ⟨hinv _ _ hs h, .single ⟨hs, h⟩⟩
          | tail _ h ih' => exact ⟨hinv _ _ ih'.1 h, .head ⟨ih'.1, h⟩ ih'.2⟩
        exact ih s'' hround.2 hround.1

end Runs
