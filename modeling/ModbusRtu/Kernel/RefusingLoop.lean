import ModbusRtu.Kernel.MachineRun

/-!
# Counting loops that stop at a refused index

A loop visits the indices of a range in order. A pass may refuse its index; the
loop then ends at once and the passes before the refused one stay done.

The rules say when no index is refused, what a loop without a refusal
establishes pass by pass, and that such a loop does the same as a machine that
takes its passes as separate inputs.
-/

namespace ModbusRtu
namespace Kernel

universe u v w

section RefusingLoop

variable {σ : Type u}
variable (body : σ → Nat → Option σ)

/-- n passes from index i on: whether none is refused, and the state left. -/
def refusingLoop : Nat → Nat → σ → Bool × σ
  | _, 0, s => (true, s)
  | i, n + 1, s =>
      match body s i with
      | none => (false, s)
      | some s' => refusingLoop (i + 1) n s'

@[simp] theorem refusingLoop_zero (i : Nat) (s : σ) :
    refusingLoop body i 0 s = (true, s) := by
  rfl

variable {body}

theorem refusingLoop_refused
    {i n : Nat} {s : σ}
    (hbody : body s i = none) :
    refusingLoop body i (n + 1) s = (false, s) := by
  simp only [refusingLoop, hbody]

theorem refusingLoop_passed
    {i n : Nat} {s s' : σ}
    (hbody : body s i = some s') :
    refusingLoop body i (n + 1) s = refusingLoop body (i + 1) n s' := by
  simp only [refusingLoop, hbody]

/-- If only the index decides, all indices have to be accepted. -/
theorem refusingLoop_completes_iff
    {P : Nat → Prop}
    (hbody : ∀ s j, body s j = none ↔ ¬ P j)
    {i n : Nat} {s : σ} :
    (refusingLoop body i n s).1 = true ↔
      ∀ j, i ≤ j → j < i + n → P j := by
  induction n generalizing i s with
  | zero =>
      simp only [refusingLoop_zero, true_iff]
      intro j hle hlt
      omega
  | succ n ih =>
      cases hpass : body s i with
      | none =>
          rw [refusingLoop_refused hpass]
          simp only [Bool.false_eq_true, false_iff]
          intro hall
          exact (hbody s i).mp hpass (hall i (Nat.le_refl i) (by omega))
      | some s' =>
          have hi : P i := by
            by_contra hnot
            rw [(hbody s i).mpr hnot] at hpass
            cases hpass
          rw [refusingLoop_passed hpass, ih]
          constructor
          · intro hall j hle hlt
            rcases Nat.eq_or_lt_of_le hle with rfl | hlater
            · exact hi
            · exact hall j hlater (by omega)
          · intro hall j hle hlt
            exact hall j (by omega) (by omega)

/--
Loop rule: an invariant indexed by the passes done, kept by every accepted
pass, holds at the end of a loop without a refusal.
-/
theorem refusingLoop_invariant
    {I : Nat → σ → Prop} {i n : Nat} {s : σ}
    (hstep : ∀ j t t', i ≤ j → j < i + n →
      I j t → body t j = some t' → I (j + 1) t')
    (h0 : I i s)
    (hdone : (refusingLoop body i n s).1 = true) :
    I (i + n) (refusingLoop body i n s).2 := by
  induction n generalizing i s with
  | zero =>
      exact h0
  | succ n ih =>
      cases hpass : body s i with
      | none =>
          rw [refusingLoop_refused hpass] at hdone
          cases hdone
      | some s' =>
          rw [refusingLoop_passed hpass] at hdone ⊢
          have hnext : I (i + 1) s' :=
            hstep i s s' (Nat.le_refl i) (by omega) h0 hpass
          have hrest := ih
            (fun j t t' hle hlt => hstep j t t' (by omega) (by omega))
            hnext hdone
          rw [← Nat.add_right_comm, Nat.add_assoc] at hrest
          exact hrest

variable {ι : Type v} {ο : Type w}
variable {step : σ → ι → ο × σ}

/--
A machine that does pass j on input call j, and whose reply meets P exactly
when the pass is accepted, accepts the inputs of the whole range exactly when
the loop refuses nothing; both then end in the same state.
-/
theorem refusingLoop_as_run
    {P : ο → Prop} {call : Nat → ι}
    (hrefused : ∀ s j, body s j = none → ¬ P (step s (call j)).1)
    (hpassed : ∀ s s' j, body s j = some s' →
      P (step s (call j)).1 ∧ (step s (call j)).2 = s')
    (i n : Nat) (s : σ) :
    ((∀ o ∈ runReplies step s ((List.range' i n).map call), P o) ↔
      (refusingLoop body i n s).1 = true) ∧
    ((refusingLoop body i n s).1 = true →
      runState step s ((List.range' i n).map call) =
        (refusingLoop body i n s).2) := by
  induction n generalizing i s with
  | zero =>
      simp
  | succ n ih =>
      rw [List.range'_succ, List.map_cons, runReplies_cons,
        runState_cons, List.forall_mem_cons]
      cases hpass : body s i with
      | none =>
          rw [refusingLoop_refused hpass]
          refine ⟨⟨fun hall => ?_, fun hfalse => ?_⟩, fun hfalse => ?_⟩
          · exact absurd hall.1 (hrefused s i hpass)
          · cases hfalse
          · cases hfalse
      | some s' =>
          obtain ⟨hreply, hstate⟩ := hpassed s s' i hpass
          obtain ⟨haccept, hend⟩ := ih (i + 1) s'
          rw [refusingLoop_passed hpass, hstate]
          refine ⟨⟨fun hall => ?_, fun hdone => ?_⟩, hend⟩
          · exact haccept.mp hall.2
          · exact ⟨hreply, haccept.mpr hdone⟩

end RefusingLoop

end Kernel
end ModbusRtu
