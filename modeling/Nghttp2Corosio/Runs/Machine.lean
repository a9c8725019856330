import Mathlib.Data.List.Basic

/-!
Machines that take one step at a time and say what they did.

A machine has initial states and a partial step function. A step that is
enabled yields the next state and a list of *labels*: what an observer at the
interface of the machine sees happen during that step, in order. The labels of
all steps of a run, appended, are its trace.

`Machine.Run m ok tr s` says that a run of `m`, each of whose steps satisfies
the condition `ok`, has trace `tr` and ends in `s`. The condition is where the
assumptions on the environment go: a property of every run is stated with the
condition that is always true, a property of the runs in which the environment
behaves is stated with the condition that says so.

`Always P tr` says that `P` holds at every label of a trace, `P` being told
what came before the label. `Run.always` establishes such a property together
with the invariant that carries it.
-/

namespace Runs

variable {σ α ο : Type*}

/-- A partial step function with labels, and the states it may start in. -/
structure Machine (σ α ο : Type*) where
  init : σ → Prop
  step : σ → α → Option (σ × List ο)

/-- A run of `m` whose steps all satisfy `ok`, with its trace and last state. -/
inductive Machine.Run (m : Machine σ α ο) (ok : σ → α → Prop) : List ο → σ → Prop
  | init {s : σ} (hs : m.init s) : Run m ok [] s
  | step {tr : List ο} {s : σ} {a : α} {s' : σ} {os : List ο}
      (run : Run m ok tr s) (hok : ok s a) (hstep : m.step s a = some (s', os)) :
      Run m ok (tr ++ os) s'

def anyStep : σ → α → Prop := fun _ _ => True

instance : DecidableRel (anyStep (σ := σ) (α := α)) := fun _ _ => .isTrue trivial

/-- The invariant rule, for an invariant that also speaks about the trace. A step
may use what is known of the run that led to it. -/
theorem Machine.Run.invariant_along {m : Machine σ α ο} {ok : σ → α → Prop}
    {I : List ο → σ → Prop} (hinit : ∀ s, m.init s → I [] s)
    (hstep : ∀ tr s a s' os, m.Run ok tr s → I tr s → ok s a → m.step s a = some (s', os) →
      I (tr ++ os) s')
    {tr : List ο} {s : σ} (run : m.Run ok tr s) : I tr s := by
  induction run with
  | init hs => exact hinit _ hs
  | step run hok hs ih => exact hstep _ _ _ _ _ run ih hok hs

/-- The invariant rule, for a step that needs the invariant only. -/
theorem Machine.Run.invariant {m : Machine σ α ο} {ok : σ → α → Prop}
    {I : List ο → σ → Prop} (hinit : ∀ s, m.init s → I [] s)
    (hstep : ∀ tr s a s' os, I tr s → ok s a → m.step s a = some (s', os) → I (tr ++ os) s')
    {tr : List ο} {s : σ} (run : m.Run ok tr s) : I tr s :=
  run.invariant_along hinit fun tr s a s' os _ => hstep tr s a s' os

theorem Machine.Run.weaken {m : Machine σ α ο} {ok ok' : σ → α → Prop}
    (h : ∀ s a, ok s a → ok' s a) {tr : List ο} {s : σ} (run : m.Run ok tr s) :
    m.Run ok' tr s := by
  induction run with
  | init hs => exact .init hs
  | step _ hok hs ih => exact .step ih (h _ _ hok) hs

/-! ### Properties of every label of a trace -/

/-- `P` holds at every label of `os`, when `pre` is what came before. -/
def AlwaysFrom (P : List ο → ο → Prop) : List ο → List ο → Prop
  | _, [] => True
  | pre, l :: os => P pre l ∧ AlwaysFrom P (pre ++ [l]) os

def Always (P : List ο → ο → Prop) (tr : List ο) : Prop :=
  ∀ pre l post, tr = pre ++ l :: post → P pre l

theorem mem_of_split {os p q : List ο} {l : ο} (h : os = p ++ l :: q) : l ∈ os := by
  rw [h]
  exact List.mem_append_right p List.mem_cons_self

theorem always_nil {P : List ο → ο → Prop} : Always P [] := by
  intro pre l post h
  simp at h

theorem Always.append {P : List ο → ο → Prop} {tr os : List ο}
    (h : Always P tr) (hos : AlwaysFrom P tr os) : Always P (tr ++ os) := by
  induction os generalizing tr with
  | nil => simpa using h
  | cons o os ih =>
      have hsnoc : Always P (tr ++ [o]) := by
        intro pre l post heq
        rcases List.eq_nil_or_concat post with rfl | ⟨post, x, rfl⟩
        · obtain ⟨rfl, hl⟩ := List.append_inj' heq rfl
          cases hl
          exact hos.1
        · rw [List.concat_eq_append, ← List.cons_append, ← List.append_assoc] at heq
          exact h pre l post (List.append_inj' heq rfl).1
      simpa using ih hsnoc hos.2

theorem alwaysFrom_of_forall {P : List ο → ο → Prop} {os : List ο}
    (h : ∀ l ∈ os, ∀ pre, P pre l) (pre : List ο) : AlwaysFrom P pre os := by
  induction os generalizing pre with
  | nil => trivial
  | cons o os ih =>
      exact ⟨h o List.mem_cons_self pre, ih (fun l hl => h l (List.mem_cons_of_mem o hl)) _⟩

/-- The labels of one step, each with what came before it. -/
theorem alwaysFrom_of_split {P : List ο → ο → Prop} {os : List ο} (pre : List ο)
    (h : ∀ p l q, os = p ++ l :: q → P (pre ++ p) l) : AlwaysFrom P pre os := by
  induction os generalizing pre with
  | nil => trivial
  | cons o os ih =>
      refine ⟨by simpa using h [] o os rfl, ih (pre ++ [o]) fun p l q heq => ?_⟩
      rw [List.append_assoc]
      exact h (o :: p) l q (by rw [heq]; rfl)

/-- The invariant rule for a property of every label. A step may use what is
known of the run that led to it. -/
theorem Machine.Run.always {m : Machine σ α ο} {ok : σ → α → Prop}
    {I : List ο → σ → Prop} {P : List ο → ο → Prop} (hinit : ∀ s, m.init s → I [] s)
    (hstep : ∀ tr s a s' os, m.Run ok tr s → I tr s → ok s a → m.step s a = some (s', os) →
      I (tr ++ os) s' ∧ AlwaysFrom P tr os)
    {tr : List ο} {s : σ} (run : m.Run ok tr s) : I tr s ∧ Always P tr := by
  refine run.invariant_along (I := fun tr s => I tr s ∧ Always P tr)
    (fun s hs => ⟨hinit s hs, always_nil⟩) fun tr s a s' os run h hok hs => ?_
  obtain ⟨hI, hP⟩ := hstep tr s a s' os run h.1 hok hs
  exact ⟨hI, h.2.append hP⟩

/-! ### Queues

A machine is a queue when some of what it holds, read as a list, grows by what
its labels push and shrinks by what its labels pop, at opposite ends. -/

/-- What was pushed into a queue is what was popped from it followed by what it
holds. -/
theorem Machine.Run.queue {β : Type*} {m : Machine σ α ο} {ok : σ → α → Prop} {I : σ → Prop}
    (push pop : ο → List β) (contents : σ → List β)
    (hinit : ∀ s, m.init s → I s ∧ contents s = [])
    (hstep : ∀ s a s' os, I s → ok s a → m.step s a = some (s', os) →
      I s' ∧ contents s ++ os.flatMap push = os.flatMap pop ++ contents s')
    {tr : List ο} {s : σ} (run : m.Run ok tr s) :
    I s ∧ tr.flatMap push = tr.flatMap pop ++ contents s := by
  refine run.invariant (I := fun tr s => I s ∧ tr.flatMap push = tr.flatMap pop ++ contents s)
    (fun s hs => ?_) (fun tr s a s' os hI hok hs => ?_)
  · obtain ⟨hI, hnil⟩ := hinit s hs
    exact ⟨hI, by simp [hnil]⟩
  · obtain ⟨hI', heq⟩ := hstep s a s' os hI.1 hok hs
    refine ⟨hI', ?_⟩
    rw [List.flatMap_append, List.flatMap_append, hI.2, List.append_assoc, heq, List.append_assoc]

/-! ### Running a machine on a list of actions -/

/-- Execute the actions in order; `none` if one of them is not enabled or does
not satisfy the condition. -/
def Machine.exec (m : Machine σ α ο) (ok : σ → α → Prop) [∀ s a, Decidable (ok s a)] :
    σ → List α → Option (σ × List ο)
  | s, [] => some (s, [])
  | s, a :: as =>
      if ok s a then
        match m.step s a with
        | none => none
        | some (s', os) =>
            match Machine.exec m ok s' as with
            | none => none
            | some (s'', os') => some (s'', os ++ os')
      else none

theorem Machine.exec_cons {m : Machine σ α ο} {ok : σ → α → Prop} [∀ s a, Decidable (ok s a)]
    {a : α} {as : List α} {tr : List ο} {s s'' : σ} (h : m.exec ok s (a :: as) = some (s'', tr)) :
    ok s a ∧ ∃ s' os os', m.step s a = some (s', os) ∧ m.exec ok s' as = some (s'', os') ∧
      tr = os ++ os' := by
  simp only [Machine.exec] at h
  split at h
  · rename_i hok
    split at h
    · cases h
    · rename_i s₁ os₁ hstep
      split at h
      · cases h
      · rename_i s₂ os₂ hexec
        simp only [Option.some.injEq, Prod.mk.injEq] at h
        obtain ⟨rfl, rfl⟩ := h
        exact ⟨hok, s₁, os₁, os₂, hstep, hexec, rfl⟩
  · cases h

theorem Machine.exec_forall {m : Machine σ α ο} {ok : σ → α → Prop} [∀ s a, Decidable (ok s a)]
    {A : α → Prop} (hok : ∀ s a, ok s a → A a) {as : List α} {os : List ο} {s s' : σ}
    (h : m.exec ok s as = some (s', os)) : ∀ a ∈ as, A a := by
  induction as generalizing s os with
  | nil => simp
  | cons a as ih =>
      obtain ⟨ha, s₁, os₁, os₂, -, hrest, -⟩ := Machine.exec_cons h
      exact List.forall_mem_cons.mpr ⟨hok s a ha, ih hrest⟩

theorem Machine.exec_of_cons {m : Machine σ α ο} {ok : σ → α → Prop}
    [∀ s a, Decidable (ok s a)] {a : α} {as : List α} {s s' s'' : σ} {os os' : List ο}
    (hok : ok s a) (hstep : m.step s a = some (s', os)) (h : m.exec ok s' as = some (s'', os')) :
    m.exec ok s (a :: as) = some (s'', os ++ os') := by
  simp only [Machine.exec, if_pos hok, hstep, h]

theorem Machine.Run.exec {m : Machine σ α ο} {ok : σ → α → Prop}
    [∀ s a, Decidable (ok s a)] {as : List α} {tr os : List ο} {s s' : σ}
    (run : m.Run ok tr s) (h : m.exec ok s as = some (s', os)) : m.Run ok (tr ++ os) s' := by
  induction as generalizing tr os s with
  | nil =>
      simp only [Machine.exec, Option.some.injEq, Prod.mk.injEq] at h
      obtain ⟨rfl, rfl⟩ := h
      simpa using run
  | cons a as ih =>
      obtain ⟨hok, s₁, os₁, os₂, hstep, hexec, rfl⟩ := Machine.exec_cons h
      rw [← List.append_assoc]
      exact ih (.step run hok hstep) hexec

/-- The invariant rule for an execution from a given state whose actions all
satisfy `A`: the invariant is told the actions so far and the labels they left. -/
theorem Machine.exec_invariant {m : Machine σ α ο} {ok : σ → α → Prop}
    [∀ s a, Decidable (ok s a)] {A : α → Prop} {I : List α → List ο → σ → Prop}
    (hstep : ∀ as os s a s' os', I as os s → A a → m.step s a = some (s', os') →
      I (as ++ [a]) (os ++ os') s')
    {as : List α} {os : List ο} {s s' : σ} (hs : I [] [] s) (hall : ∀ a ∈ as, A a)
    (h : m.exec ok s as = some (s', os)) : I as os s' := by
  suffices hfrom : ∀ before tr, I before tr s → I (before ++ as) (tr ++ os) s' from hfrom [] [] hs
  clear hs
  induction as generalizing s os with
  | nil =>
      intro before tr hI
      simp only [Machine.exec, Option.some.injEq, Prod.mk.injEq] at h
      obtain ⟨rfl, rfl⟩ := h
      simpa using hI
  | cons a as ih =>
      intro before tr hI
      obtain ⟨-, s₁, os₁, os₂, hs, hexec, rfl⟩ := Machine.exec_cons h
      have hI₁ := hstep before tr s a s₁ os₁ hI (hall a List.mem_cons_self) hs
      simpa using ih (fun a' ha' => hall a' (List.mem_cons_of_mem a ha')) hexec _ _ hI₁

/-- A list of actions that executes yields a run; what holds of its last state
and its trace can be decided. -/
theorem Machine.run_of_exec {m : Machine σ α ο} {ok : σ → α → Prop}
    [∀ s a, Decidable (ok s a)] {P : List ο → σ → Prop} [∀ tr s, Decidable (P tr s)]
    {s : σ} (hs : m.init s) (as : List α)
    (h : (m.exec ok s as).any (fun r => decide (P r.2 r.1)) = true) :
    ∃ tr s', m.Run ok tr s' ∧ P tr s' := by
  cases hexec : m.exec ok s as with
  | none => simp [hexec] at h
  | some r =>
      obtain ⟨s', tr⟩ := r
      simp only [hexec, Option.any_some, decide_eq_true_eq] at h
      exact ⟨tr, s', by simpa using Machine.Run.exec (.init hs) hexec, h⟩

/-! ### Loops that break

A `while` loop whose body says whether to go round again, cut off after a
number of rounds. `loop_breaks` is how the cut-off is shown never to be
reached. -/

/-- Repeat `body` until it returns `none`, at most `n` times. -/
def loop (body : σ → Option σ) : ℕ → σ → σ
  | 0, s => s
  | n + 1, s =>
      match body s with
      | none => s
      | some s' => loop body n s'

theorem loop_invariant {body : σ → Option σ} {I : σ → Prop}
    (hstep : ∀ s s', I s → body s = some s' → I s') (n : ℕ) {s : σ} (hs : I s) :
    I (loop body n s) := by
  induction n generalizing s with
  | zero => exact hs
  | succ n ih =>
      simp only [loop]
      split
      · exact hs
      · rename_i s' heq
        exact ih (hstep s s' hs heq)

/-- A loop whose rounds decrease a measure breaks on its own. -/
theorem loop_breaks {body : σ → Option σ} {I : σ → Prop} (μ : σ → ℕ)
    (hstep : ∀ s s', I s → body s = some s' → I s' ∧ μ s' < μ s) {n : ℕ} {s : σ}
    (hs : I s) (hn : μ s < n) : body (loop body n s) = none := by
  induction n generalizing s with
  | zero => omega
  | succ n ih =>
      simp only [loop]
      split
      · assumption
      · rename_i s' heq
        obtain ⟨hs', hlt⟩ := hstep s s' hs heq
        exact ih hs' (by omega)

end Runs
