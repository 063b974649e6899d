import Mathlib.Data.List.Forall2
import Mathlib.Data.List.Infix
import Mathlib.Tactic.Common

/-!
# Runs of a machine that answers every input

A machine is a step function that takes a state and an input to a reply and a
next state. This module collects what is true of every such machine: how runs
split along a concatenation, how an invariant that is checked one step at a
time extends to whole runs, and how a relation between two machines that is
kept by one step relates their runs.

An observer is a function that reads the trace (the inputs together with the
replies) and never the state. The rule observed_run relates the state of the
machine to what an observer has noted; it is the form in which properties such
as "what was acknowledged so far" are proved.
-/

namespace ModbusRtu
namespace Kernel

universe u v w x y z

section MachineRun

variable {σ : Type u} {ι : Type v} {ο : Type w} {ω : Type x}
variable (step : σ → ι → ο × σ)

/-- State reached after a finite sequence of inputs. -/
def runState : σ → List ι → σ
  | s, [] => s
  | s, i :: is => runState (step s i).2 is

/-- Inputs of a run paired with the replies they received. -/
def runTrace : σ → List ι → List (ι × ο)
  | _, [] => []
  | s, i :: is => (i, (step s i).1) :: runTrace (step s i).2 is

/-- Replies of a run, in order. -/
def runReplies (s : σ) (is : List ι) : List ο :=
  (runTrace step s is).map Prod.snd

/-- Every step of the run meets G, judged in the state before that step. -/
def StepsMeet (G : σ → ι → Prop) : σ → List ι → Prop
  | _, [] => True
  | s, i :: is => G s i ∧ StepsMeet G (step s i).2 is

@[simp] theorem runState_nil (s : σ) :
    runState step s [] = s := by
  rfl

@[simp] theorem runState_cons (s : σ) (i : ι) (is : List ι) :
    runState step s (i :: is) =
      runState step (step s i).2 is := by
  rfl

@[simp] theorem runTrace_nil (s : σ) :
    runTrace step s [] = [] := by
  rfl

@[simp] theorem runTrace_cons (s : σ) (i : ι) (is : List ι) :
    runTrace step s (i :: is) =
      (i, (step s i).1) :: runTrace step (step s i).2 is := by
  rfl

@[simp] theorem runReplies_nil (s : σ) :
    runReplies step s [] = [] := by
  rfl

@[simp] theorem runReplies_cons (s : σ) (i : ι) (is : List ι) :
    runReplies step s (i :: is) =
      (step s i).1 :: runReplies step (step s i).2 is := by
  rfl

@[simp] theorem stepsMeet_nil (G : σ → ι → Prop) (s : σ) :
    StepsMeet step G s [] := by
  trivial

@[simp] theorem stepsMeet_cons
    (G : σ → ι → Prop) (s : σ) (i : ι) (is : List ι) :
    StepsMeet step G s (i :: is) ↔
      G s i ∧ StepsMeet step G (step s i).2 is := by
  rfl

/-- A run over a concatenation continues from the state the first part left. -/
theorem runState_append (s : σ) (is js : List ι) :
    runState step s (is ++ js) =
      runState step (runState step s is) js := by
  induction is generalizing s with
  | nil =>
      rfl
  | cons i is ih =>
      exact ih (step s i).2

theorem runTrace_append (s : σ) (is js : List ι) :
    runTrace step s (is ++ js) =
      runTrace step s is ++
        runTrace step (runState step s is) js := by
  induction is generalizing s with
  | nil =>
      rfl
  | cons i is ih =>
      simp only [List.cons_append, runTrace_cons, runState_cons, ih]

theorem runReplies_append (s : σ) (is js : List ι) :
    runReplies step s (is ++ js) =
      runReplies step s is ++
        runReplies step (runState step s is) js := by
  simp only [runReplies, runTrace_append, List.map_append]

theorem stepsMeet_append
    (G : σ → ι → Prop) (s : σ) (is js : List ι) :
    StepsMeet step G s (is ++ js) ↔
      StepsMeet step G s is ∧
        StepsMeet step G (runState step s is) js := by
  induction is generalizing s with
  | nil =>
      simp
  | cons i is ih =>
      simp only [List.cons_append, stepsMeet_cons, runState_cons, ih,
        and_assoc]

@[simp] theorem length_runReplies (s : σ) (is : List ι) :
    (runReplies step s is).length = is.length := by
  induction is generalizing s with
  | nil =>
      rfl
  | cons i is ih =>
      simp [ih]

/-- A condition on all replies is a condition on every step. -/
theorem forall_mem_runReplies_iff
    (P : ο → Prop) (s : σ) (is : List ι) :
    (∀ o ∈ runReplies step s is, P o) ↔
      StepsMeet step (fun t i => P (step t i).1) s is := by
  induction is generalizing s with
  | nil =>
      simp
  | cons i is ih =>
      simp only [runReplies_cons, List.forall_mem_cons, stepsMeet_cons, ih]

/-- The step-by-step condition, read at every way to cut the run in two. -/
theorem stepsMeet_iff_forall_split
    (G : σ → ι → Prop) (s : σ) (is : List ι) :
    StepsMeet step G s is ↔
      ∀ pre i post, is = pre ++ i :: post →
        G (runState step s pre) i := by
  constructor
  · rintro h pre i post rfl
    rw [stepsMeet_append] at h
    exact h.2.1
  · intro h
    induction is generalizing s with
    | nil =>
        trivial
    | cons j js ih =>
        refine ⟨h [] j js rfl, ih (step s j).2 ?_⟩
        rintro pre i post rfl
        exact h (j :: pre) i post rfl

/-- A condition that holds of every step holds along every run. -/
theorem stepsMeet_of_forall
    {G : σ → ι → Prop} (h : ∀ s i, G s i) (s : σ) (is : List ι) :
    StepsMeet step G s is := by
  rw [stepsMeet_iff_forall_split]
  intro pre i _ _
  exact h (runState step s pre) i

/-- A condition on the inputs alone holds along every run over them. -/
theorem stepsMeet_of_forall_mem
    {P : ι → Prop} (s : σ) {is : List ι} (h : ∀ i ∈ is, P i) :
    StepsMeet step (fun _ i => P i) s is := by
  rw [stepsMeet_iff_forall_split]
  rintro pre i post rfl
  exact h i (by simp)

variable {step}

/--
Observer rule: a relation between the state and what an observer noted, kept
by every step that meets G, holds after every run whose steps meet G.
-/
theorem observed_run
    {G : σ → ι → Prop} {note : ω → ι × ο → ω} {R : σ → ω → Prop}
    (hstep : ∀ s w i, R s w → G s i →
      R (step s i).2 (note w (i, (step s i).1)))
    {s : σ} {w : ω} {is : List ι}
    (h0 : R s w)
    (hG : StepsMeet step G s is) :
    R (runState step s is) ((runTrace step s is).foldl note w) := by
  induction is generalizing s w with
  | nil =>
      exact h0
  | cons i is ih =>
      exact ih (hstep s w i h0 hG.1) hG.2

/--
Invariant rule: what every step that meets G keeps, every run whose steps
meet G keeps.
-/
theorem invariant_run
    {G : σ → ι → Prop} {P : σ → Prop}
    (hstep : ∀ s i, P s → G s i → P (step s i).2)
    {s : σ} {is : List ι}
    (h0 : P s)
    (hG : StepsMeet step G s is) :
    P (runState step s is) := by
  induction is generalizing s with
  | nil =>
      exact h0
  | cons i is ih =>
      exact ih (hstep s i h0 hG.1) hG.2

/--
Condition rule: along a run whose steps meet G, an invariant that such steps
keep makes them meet whatever follows from the invariant and G.
-/
theorem stepsMeet_of_invariant
    {G H : σ → ι → Prop} {P : σ → Prop}
    (hstep : ∀ s i, P s → G s i → P (step s i).2)
    (hmeet : ∀ s i, P s → G s i → H s i)
    {s : σ} {is : List ι}
    (h0 : P s)
    (hG : StepsMeet step G s is) :
    StepsMeet step H s is := by
  induction is generalizing s with
  | nil =>
      trivial
  | cons i is ih =>
      exact ⟨hmeet s i h0 hG.1, ih (hstep s i h0 hG.1) hG.2⟩

/--
Progress rule: if every step that meets G keeps P and lowers a rank whenever
its input is work, a run whose steps meet G lowers it once for each of them.
-/
theorem ranked_run
    {G : σ → ι → Prop} {P : σ → Prop} {rank : σ → Nat} {work : ι → Bool}
    (hstep : ∀ s i, P s → G s i →
      P (step s i).2 ∧ rank (step s i).2 ≤ rank s - (work i).toNat)
    {s : σ} {is : List ι}
    (h0 : P s)
    (hG : StepsMeet step G s is) :
    rank (runState step s is) ≤ rank s - is.countP work := by
  induction is generalizing s with
  | nil =>
      simp
  | cons i is ih =>
      obtain ⟨hkept, hlower⟩ := hstep s i h0 hG.1
      have hrest := ih hkept hG.2
      rw [runState_cons, List.countP_cons]
      cases hwork : work i with
      | false =>
          simp only [hwork, Bool.toNat_false] at hlower
          simp only [Bool.false_eq_true, if_false]
          omega
      | true =>
          simp only [hwork, Bool.toNat_true] at hlower
          simp only [if_true]
          omega

/-- Feed inputs until a reply fails P; give the replies and the state. -/
def runWhile
    (step : σ → ι → ο × σ) (P : ο → Prop) [DecidablePred P] :
    σ → List ι → List ο × σ
  | s, [] => ([], s)
  | s, i :: is =>
      if P (step s i).1 then
        let later := runWhile step P (step s i).2 is
        ((step s i).1 :: later.1, later.2)
      else
        ([(step s i).1], (step s i).2)

/-- Every reply collected meets P exactly when the whole run does. -/
theorem forall_mem_runWhile_iff
    (P : ο → Prop) [DecidablePred P] (s : σ) (is : List ι) :
    (∀ o ∈ (runWhile step P s is).1, P o) ↔
      StepsMeet step (fun t i => P (step t i).1) s is := by
  induction is generalizing s with
  | nil =>
      simp [runWhile]
  | cons i is ih =>
      by_cases hok : P (step s i).1
      · simp only [runWhile, if_pos hok, List.forall_mem_cons,
          stepsMeet_cons, ih]
      · simp [runWhile, hok]

/-- A run whose replies all meet P is the plain run. -/
theorem runWhile_eq_of_stepsMeet
    {P : ο → Prop} [DecidablePred P] {s : σ} {is : List ι}
    (h : StepsMeet step (fun t i => P (step t i).1) s is) :
    runWhile step P s is = (runReplies step s is, runState step s is) := by
  induction is generalizing s with
  | nil =>
      rfl
  | cons i is ih =>
      simp only [runWhile, if_pos h.1, ih h.2, runReplies_cons,
        runState_cons]

/-- What is fed until a reply fails P is the start of the inputs. -/
theorem exists_prefix_runWhile
    (step : σ → ι → ο × σ) (P : ο → Prop) [DecidablePred P]
    (s : σ) (is : List ι) :
    ∃ pre, pre <+: is ∧
      (runWhile step P s is).2 = runState step s pre := by
  induction is generalizing s with
  | nil =>
      exact ⟨[], List.prefix_rfl, rfl⟩
  | cons i is ih =>
      by_cases hok : P (step s i).1
      · obtain ⟨pre, hpre, hstate⟩ := ih (step s i).2
        refine ⟨i :: pre, (List.prefix_cons_inj i).mpr hpre, ?_⟩
        simp only [runWhile, if_pos hok, hstate, runState_cons]
      · refine ⟨[i], (List.prefix_cons_inj i).mpr List.nil_prefix, ?_⟩
        simp only [runWhile, if_neg hok, runState_cons, runState_nil]

end MachineRun

section Simulation

variable {σ : Type u} {ι : Type v} {ο : Type w}
variable {τ : Type x} {κ : Type y} {ο' : Type z}
variable {step : σ → ι → ο × σ} {step' : τ → κ → ο' × τ}

/--
Simulation rule: two machines fed with inputs related one by one, whose steps
keep a relation between the states and give related replies, give related
replies along the whole run and end in related states.
-/
theorem simulated_run
    {E : ι → κ → Prop} {Out : ο → ο' → Prop} {R : σ → τ → Prop}
    (hstep : ∀ s t i j, R s t → E i j →
      Out (step s i).1 (step' t j).1 ∧ R (step s i).2 (step' t j).2)
    {s : σ} {t : τ} {is : List ι} {js : List κ}
    (h0 : R s t)
    (hin : List.Forall₂ E is js) :
    List.Forall₂ Out (runReplies step s is) (runReplies step' t js) ∧
      R (runState step s is) (runState step' t js) := by
  induction hin generalizing s t with
  | nil =>
      exact ⟨List.Forall₂.nil, h0⟩
  | @cons i j is js hij _ ih =>
      obtain ⟨hout, hrel⟩ := hstep s t i j h0 hij
      obtain ⟨houts, hend⟩ := ih hrel
      exact ⟨List.Forall₂.cons hout houts, hend⟩

/--
Projection rule: if a part of the state is changed by selected inputs only, and
by these as another machine changes it, then after a run it is what this
machine makes of the selected inputs.
-/
theorem projected_run
    (part : σ → τ) {select : ι → Option κ}
    (hother : ∀ s i, select i = none → part (step s i).2 = part s)
    (hselected : ∀ s i k, select i = some k →
      part (step s i).2 = (step' (part s) k).2)
    (s : σ) (is : List ι) :
    part (runState step s is) =
      runState step' (part s) (is.filterMap select) := by
  induction is generalizing s with
  | nil =>
      rfl
  | cons i is ih =>
      rw [runState_cons, ih, List.filterMap_cons]
      cases hselect : select i with
      | none =>
          rw [hother s i hselect]
      | some k =>
          rw [hselected s i k hselect, runState_cons]

/--
Acceptance rule: if the replies of two related states always agree on being
accepted, and every accepted step keeps the relation, then the first machine
accepts a whole run exactly when the second accepts its image.
-/
theorem accepted_run_iff
    {abs : ι → κ} {E : ο → Prop} {F : ο' → Prop} {R : σ → τ → Prop}
    (hreply : ∀ s t i, R s t →
      (E (step s i).1 ↔ F (step' t (abs i)).1))
    (hstep : ∀ s t i, R s t → E (step s i).1 →
      R (step s i).2 (step' t (abs i)).2)
    {s : σ} {t : τ} {is : List ι}
    (h0 : R s t) :
    StepsMeet step (fun r i => E (step r i).1) s is ↔
      StepsMeet step' (fun r j => F (step' r j).1) t (is.map abs) := by
  induction is generalizing s t with
  | nil =>
      simp
  | cons i is ih =>
      simp only [List.map_cons, stepsMeet_cons, ← hreply s t i h0]
      constructor
      · rintro ⟨hok, hrest⟩
        exact ⟨hok, (ih (hstep s t i h0 hok)).mp hrest⟩
      · rintro ⟨hok, hrest⟩
        exact ⟨hok, (ih (hstep s t i h0 hok)).mpr hrest⟩

/-- An accepted run ends in related states. -/
theorem accepted_run_related
    {abs : ι → κ} {E : ο → Prop} {R : σ → τ → Prop}
    (hstep : ∀ s t i, R s t → E (step s i).1 →
      R (step s i).2 (step' t (abs i)).2)
    {s : σ} {t : τ} {is : List ι}
    (h0 : R s t)
    (hok : StepsMeet step (fun r i => E (step r i).1) s is) :
    R (runState step s is) (runState step' t (is.map abs)) := by
  induction is generalizing s t with
  | nil =>
      exact h0
  | cons i is ih =>
      exact ih (hstep s t i h0 hok.1) hok.2

end Simulation

end Kernel
end ModbusRtu
