import Nghttp2Corosio.Runs.Machine
import Mathlib.Logic.Function.Basic

/-!
Many instances of one machine inside a larger system.

The system keeps its instances in a heap, `ι → Option σ`, and its trace has, among
labels of its own, the labels of the instances, marked with the place of the
instance. `HeapStep` is what one step of the system may do to the heap: take
steps of instances and allocate new ones. If that is all the system ever does to
it, then what it shows of an instance is a run of the machine of that instance
(`HeapRuns.step`), and everything known about these runs holds in the system.
-/

namespace Runs

variable {ι σ α ο ω : Type*} [DecidableEq ι]

/-- The labels of instance `i`. -/
def project (tag : ω → Option (ι × ο)) (i : ι) (tr : List ω) : List ο :=
  tr.filterMap fun w => (tag w).bind fun p => if p.1 = i then some p.2 else none

@[simp] theorem project_append (tag : ω → Option (ι × ο)) (i : ι) (tr os : List ω) :
    project tag i (tr ++ os) = project tag i tr ++ project tag i os := by
  simp [project]

theorem project_untagged {tag : ω → Option (ι × ο)} {os : List ω} (h : ∀ w ∈ os, tag w = none)
    (i : ι) : project tag i os = [] := by
  refine List.filterMap_eq_nil_iff.mpr fun w hw => ?_
  rw [h w hw]
  rfl

variable {tag : ω → Option (ι × ο)} {emit : ι → ο → ω}

theorem project_emit (htag : ∀ i o, tag (emit i o) = some (i, o)) (i : ι) (os : List ο) :
    project tag i (os.map (emit i)) = os := by
  induction os with
  | nil => rfl
  | cons o os ih =>
      simp only [project] at ih ⊢
      simp [htag, ih]

theorem project_emit_of_ne (htag : ∀ i o, tag (emit i o) = some (i, o)) {i j : ι} (h : i ≠ j)
    (os : List ο) : project tag j (os.map (emit i)) = [] := by
  refine List.filterMap_eq_nil_iff.mpr fun w hw => ?_
  obtain ⟨o, -, rfl⟩ := List.mem_map.mp hw
  simp [htag, h]

theorem mem_project {tag : ω → Option (ι × ο)} {i : ι} {o : ο} {tr : List ω} :
    o ∈ project tag i tr ↔ ∃ w ∈ tr, tag w = some (i, o) := by
  unfold project
  rw [List.mem_filterMap]
  refine exists_congr fun w => and_congr_right fun _ => ?_
  cases htag : tag w with
  | none => simp
  | some p =>
      obtain ⟨j, o'⟩ := p
      by_cases hj : j = i
      · simp [hj]
      · simp [hj]

theorem update_eq_some {cells : ι → Option σ} {i j : ι} {c d : σ}
    (h : Function.update cells i (some c) j = some d) :
    (j = i ∧ d = c) ∨ j ≠ i ∧ cells j = some d := by
  by_cases hji : j = i
  · subst hji
    rw [Function.update_self, Option.some.injEq] at h
    exact .inl ⟨rfl, h.symm⟩
  · rw [Function.update_of_ne hji] at h
    exact .inr ⟨hji, h⟩

/-- What a step of the system, with labels `os`, may do to the heap; `may` says
which actions it may take on which instance. -/
inductive HeapStep (m : Machine σ α ο) (tag : ω → Option (ι × ο)) (emit : ι → ο → ω)
    (may : ι → σ → α → Prop) : (ι → Option σ) → List ω → (ι → Option σ) → Prop
  | idle {cells : ι → Option σ} {os : List ω} (hos : ∀ w ∈ os, tag w = none) :
      HeapStep m tag emit may cells os cells
  | act {cells : ι → Option σ} {i : ι} {c c' : σ} {a : α} {os : List ο} (hi : cells i = some c)
      (hmay : may i c a) (hs : m.step c a = some (c', os)) :
      HeapStep m tag emit may cells (os.map (emit i)) (Function.update cells i (some c'))
  | alloc {cells : ι → Option σ} {i : ι} {c : σ} (hi : cells i = none) (hc : m.init c) :
      HeapStep m tag emit may cells [] (Function.update cells i (some c))
  | trans {cells cells' cells'' : ι → Option σ} {os os' : List ω}
      (h : HeapStep m tag emit may cells os cells')
      (h' : HeapStep m tag emit may cells' os' cells'') :
      HeapStep m tag emit may cells (os ++ os') cells''

/-- What the trace shows of an instance is a run that leads to it. -/
structure HeapRuns (m : Machine σ α ο) (tag : ω → Option (ι × ο)) (ok : σ → α → Prop)
    (tr : List ω) (cells : ι → Option σ) : Prop where
  run : ∀ i c, cells i = some c → m.Run ok (project tag i tr) c
  unused : ∀ i, cells i = none → project tag i tr = []

theorem HeapRuns.empty (m : Machine σ α ο) (tag : ω → Option (ι × ο)) (ok : σ → α → Prop) :
    HeapRuns m tag ok [] fun _ => none where
  run i c h := by cases h
  unused i _ := rfl

theorem HeapRuns.step {m : Machine σ α ο} {ok : σ → α → Prop} {may : ι → σ → α → Prop}
    {tr os : List ω} {cells cells' : ι → Option σ}
    (htag : ∀ i o, tag (emit i o) = some (i, o)) (h : HeapRuns m tag ok tr cells)
    (hs : HeapStep m tag emit may cells os cells') (hok : ∀ i c a, may i c a → ok c a) :
    HeapRuns m tag ok (tr ++ os) cells' := by
  induction hs generalizing tr with
  | @idle cells os hos =>
      refine ⟨fun i c hi => ?_, fun i hi => ?_⟩
      · rw [project_append, project_untagged hos, List.append_nil]
        exact h.run i c hi
      · rw [project_append, project_untagged hos, List.append_nil]
        exact h.unused i hi
  | @act cells i c c' a os hi hmay hs =>
      refine ⟨fun j d hj => ?_, fun j hj => ?_⟩
      · rw [project_append]
        rcases update_eq_some hj with ⟨rfl, rfl⟩ | ⟨hji, hj⟩
        · rw [project_emit htag]
          exact .step (h.run j c hi) (hok j c a hmay) hs
        · rw [project_emit_of_ne htag (Ne.symm hji), List.append_nil]
          exact h.run j d hj
      · have hji : j ≠ i := by
          rintro rfl
          rw [Function.update_self] at hj
          cases hj
        rw [Function.update_of_ne hji] at hj
        rw [project_append, project_emit_of_ne htag (Ne.symm hji), List.append_nil]
        exact h.unused j hj
  | @alloc cells i c hi hc =>
      refine ⟨fun j d hj => ?_, fun j hj => ?_⟩
      · rw [List.append_nil]
        rcases update_eq_some hj with ⟨rfl, rfl⟩ | ⟨-, hj⟩
        · rw [h.unused j hi]
          exact .init hc
        · exact h.run j d hj
      · have hji : j ≠ i := by
          rintro rfl
          rw [Function.update_self] at hj
          cases hj
        rw [Function.update_of_ne hji] at hj
        rw [List.append_nil]
        exact h.unused j hj
  | trans _ _ ih ih' =>
      rw [← List.append_assoc]
      exact ih' (ih h)

end Runs
