import ModbusRtu.Kernel.MachineRun

/-!
# A client that sends an input again

The client of a machine behind a line that loses messages. An input may get lost
before the machine takes it, and the reply may get lost afterwards. The client
cannot tell the two cases apart. It sends the input again until it hears a
reply, and takes up the next input when the reply is good.

The machine takes every copy that arrives, so the run it sees is the list of
inputs with some of them repeated and the last ones missing. An input whose copy
changes nothing may be repeated. The main rule covers the opposite case: if a
copy of any other input spoils the run, in the sense that no later reply brings
the client to the end, then the client comes to the end exactly when no input of
the second kind has been taken twice, and the machine is then where one copy of
each input leads to.
-/

namespace ModbusRtu
namespace Kernel

universe u v w x y z

section Attempts

/-- What becomes of one attempt to have an input answered. -/
inductive Attempt
  | requestLost
  | replyLost
  | heard
deriving DecidableEq

/-- Number of copies that the machine takes. -/
def copies : List Attempt → Nat
  | [] => 0
  | .requestLost :: as => copies as
  | .replyLost :: as => copies as + 1
  | .heard :: _ => 1

@[simp] theorem copies_nil :
    copies [] = 0 := by
  rfl

@[simp] theorem copies_requestLost (as : List Attempt) :
    copies (.requestLost :: as) = copies as := by
  rfl

@[simp] theorem copies_replyLost (as : List Attempt) :
    copies (.replyLost :: as) = copies as + 1 := by
  rfl

@[simp] theorem copies_heard (as : List Attempt) :
    copies (.heard :: as) = 1 := by
  rfl

/-- A reply that is heard has been given to a copy. -/
theorem copies_ne_zero_of_heard
    {as : List Attempt}
    (hheard : .heard ∈ as) :
    copies as ≠ 0 := by
  induction as with
  | nil =>
      cases hheard
  | cons a as ih =>
      cases a with
      | requestLost =>
          exact ih (List.mem_of_ne_of_mem (by simp) hheard)
      | replyLost | heard =>
          simp

variable {σ : Type u} {ι : Type v} {ο : Type w}
variable (step : σ → ι → ο × σ)

/-- Send an input until its reply is heard or the attempts run out. -/
def resend (i : ι) : σ → List Attempt → Option ο × σ
  | s, [] => (none, s)
  | s, .requestLost :: as => resend i s as
  | s, .replyLost :: as => resend i (step s i).2 as
  | s, .heard :: _ => (some (step s i).1, (step s i).2)

variable {step}

/-- The machine takes the copies that arrive. -/
theorem state_resend (i : ι) (s : σ) (as : List Attempt) :
    (resend step i s as).2 =
      runState step s (List.replicate (copies as) i) := by
  induction as generalizing s with
  | nil =>
      rfl
  | cons a as ih =>
      cases a with
      | requestLost =>
          exact ih s
      | replyLost =>
          rw [resend, ih, copies_replyLost, List.replicate_succ,
            runState_cons]
      | heard =>
          rfl

theorem resend_of_not_heard
    {i : ι} {s : σ} {as : List Attempt}
    (hlost : .heard ∉ as) :
    (resend step i s as).1 = none := by
  induction as generalizing s with
  | nil =>
      rfl
  | cons a as ih =>
      have hrest := List.not_mem_of_not_mem_cons hlost
      cases a with
      | requestLost =>
          exact ih hrest
      | replyLost =>
          exact ih hrest
      | heard =>
          exact absurd (List.mem_cons_self ..) hlost

/-- If a second copy changes nothing, any number of copies is as good as one. -/
theorem state_resend_of_kept
    {i : ι} {s : σ} {as : List Attempt}
    (hcopies : copies as ≠ 0)
    (hkept : (step (step s i).2 i).2 = (step s i).2) :
    (resend step i s as).2 = (step s i).2 := by
  obtain ⟨n, hn⟩ := Nat.exists_eq_succ_of_ne_zero hcopies
  rw [state_resend, hn, List.replicate_succ, runState_cons]
  clear hn
  induction n with
  | zero =>
      rfl
  | succ n ih =>
      rw [List.replicate_succ, runState_cons, hkept]
      exact ih

/-- The reply to a copy is good as long as a copy changes nothing. -/
theorem resend_of_same
    {i : ι} {s : σ} {as : List Attempt}
    (hheard : .heard ∈ as)
    (hsame : copies as = 1 ∨ step (step s i).2 i = step s i) :
    resend step i s as = (some (step s i).1, (step s i).2) := by
  induction as generalizing s with
  | nil =>
      cases hheard
  | cons a as ih =>
      cases a with
      | requestLost =>
          exact ih (List.mem_of_ne_of_mem (by simp) hheard) hsame
      | replyLost =>
          have hlater : .heard ∈ as :=
            List.mem_of_ne_of_mem (by simp) hheard
          rcases hsame with hone | hsame
          · rw [copies_replyLost, Nat.add_eq_right] at hone
            exact absurd hone (copies_ne_zero_of_heard hlater)
          · rw [resend, ih hlater (Or.inr (by rw [hsame, hsame])), hsame]
      | heard =>
          rfl

end Attempts

section Client

variable {σ : Type u} {ι : Type v} {ο : Type w}
variable (step : σ → ι → ο × σ)
variable (P : ο → Prop) [DecidablePred P]

/--
Send inputs one after the other as long as replies that meet P are heard. The
client reports whether it came to the end.
-/
def resendAll : σ → List (ι × List Attempt) → Bool × σ
  | s, [] => (true, s)
  | s, (i, as) :: plan =>
      let r := resend step i s as
      if ∃ o ∈ r.1, P o then resendAll r.2 plan else (false, r.2)

/-- The inputs that the machine takes. -/
def inputsTaken : σ → List (ι × List Attempt) → List ι
  | _, [] => []
  | s, (i, as) :: plan =>
      let r := resend step i s as
      List.replicate (copies as) i ++
        if ∃ o ∈ r.1, P o then inputsTaken r.2 plan else []

variable {step} {P}

theorem resendAll_passed
    {s : σ} {i : ι} {as : List Attempt}
    {plan : List (ι × List Attempt)}
    (hpassed : ∃ o ∈ (resend step i s as).1, P o) :
    resendAll step P s ((i, as) :: plan) =
      resendAll step P (resend step i s as).2 plan := by
  rw [resendAll, if_pos hpassed]

theorem resendAll_stopped
    {s : σ} {i : ι} {as : List Attempt}
    {plan : List (ι × List Attempt)}
    (hstopped : ¬ ∃ o ∈ (resend step i s as).1, P o) :
    resendAll step P s ((i, as) :: plan) =
      (false, (resend step i s as).2) := by
  rw [resendAll, if_neg hstopped]

theorem state_resendAll_singleton
    (s : σ) (i : ι) (as : List Attempt) :
    (resendAll step P s [(i, as)]).2 = (resend step i s as).2 := by
  rw [resendAll]
  split
  · rfl
  · rfl

/-- The machine is where the inputs that arrive lead to. -/
theorem state_resendAll (s : σ) (plan : List (ι × List Attempt)) :
    (resendAll step P s plan).2 =
      runState step s (inputsTaken step P s plan) := by
  induction plan generalizing s with
  | nil =>
      rfl
  | cons x plan ih =>
      obtain ⟨i, as⟩ := x
      rw [inputsTaken, runState_append, ← state_resend]
      by_cases hpassed : ∃ o ∈ (resend step i s as).1, P o
      · rw [resendAll_passed hpassed, if_pos hpassed, ih]
      · rw [resendAll_stopped hpassed, if_neg hpassed, runState_nil]

/-- Nothing arrives that is not sent. -/
theorem mem_of_mem_inputsTaken
    {s : σ} {plan : List (ι × List Attempt)} {i : ι}
    (hi : i ∈ inputsTaken step P s plan) :
    i ∈ plan.map Prod.fst := by
  induction plan generalizing s with
  | nil =>
      cases hi
  | cons x plan ih =>
      rw [inputsTaken, List.mem_append] at hi
      rcases hi with hi | hi
      · rw [List.eq_of_mem_replicate hi]
        exact List.mem_cons_self ..
      · split at hi
        · exact List.mem_cons_of_mem _ (ih hi)
        · cases hi

/-- On a line that loses nothing the client feeds the inputs until one fails. -/
theorem resendAll_heard (s : σ) (is : List ι) :
    resendAll step P s (is.map fun i => (i, [.heard])) =
      (decide (∀ o ∈ (runWhile step P s is).1, P o),
        (runWhile step P s is).2) := by
  induction is generalizing s with
  | nil =>
      simp [resendAll, runWhile]
  | cons i is ih =>
      have hreply : (∃ o ∈ (resend step i s [.heard]).1, P o) ↔
          P (step s i).1 := by
        simp [resend]
      rw [List.map_cons, runWhile]
      by_cases hok : P (step s i).1
      · rw [resendAll_passed (hreply.mpr hok), if_pos hok]
        simpa only [List.forall_mem_cons, hok, true_and, resend] using
          ih (step s i).2
      · rw [resendAll_stopped (mt hreply.mp hok), if_neg hok]
        simp [resend, hok]

/-- The later inputs are sent when the client gets through the earlier ones. -/
theorem resendAll_append
    (s : σ) (plan later : List (ι × List Attempt)) :
    resendAll step P s (plan ++ later) =
      if (resendAll step P s plan).1 = true then
        resendAll step P (resendAll step P s plan).2 later
      else
        resendAll step P s plan := by
  induction plan generalizing s with
  | nil =>
      rfl
  | cons x plan ih =>
      obtain ⟨i, as⟩ := x
      rw [List.cons_append]
      by_cases hpassed : ∃ o ∈ (resend step i s as).1, P o
      · rw [resendAll_passed hpassed, resendAll_passed hpassed, ih]
      · rw [resendAll_stopped hpassed, resendAll_stopped hpassed]
        rfl

end Client

section Spoiling

variable {σ : Type u} {ι : Type v} {ο : Type w}

/--
A state is bad for the inputs still to be sent if no copies of them that the
machine takes bring a client to the end.
-/
structure Spoils
    (step : σ → ι → ο × σ) (P : ο → Prop)
    (Bad : List ι → σ → Prop) : Prop where
  kept : ∀ i is s, Bad (i :: is) s → Bad (i :: is) (step s i).2
  passed : ∀ i is s, Bad (i :: is) s → P (step s i).1 →
    Bad is (step s i).2
  hopeless : ∀ s, ¬ Bad [] s

variable {step : σ → ι → ο × σ}
variable {P : ο → Prop}
variable {Bad : List ι → σ → Prop}

/-- A state that refuses the next input and stays is bad. -/
theorem spoils_of_refused
    {t : σ} {i : ι}
    (hrefused : ¬ P (step t i).1) (hkept : (step t i).2 = t) :
    Spoils step P (fun is s => is.head? = some i ∧ s = t) where
  kept := by
    rintro j is s ⟨hj, rfl⟩
    obtain rfl := Option.some.inj hj
    exact ⟨rfl, hkept⟩
  passed := by
    rintro j is s ⟨hj, rfl⟩ hgood
    obtain rfl := Option.some.inj hj
    exact absurd hgood hrefused
  hopeless := by
    rintro s ⟨hnone, -⟩
    cases hnone

/-- From a bad state a good reply leads to a bad state for what is left. -/
theorem Spoils.behind_good_reply
    (hbad : Spoils step P Bad)
    {i : ι} {is : List ι} {s : σ} (hs : Bad (i :: is) s)
    {as : List Attempt}
    (hpassed : ∃ o ∈ (resend step i s as).1, P o) :
    Bad is (resend step i s as).2 := by
  induction as generalizing s with
  | nil =>
      obtain ⟨o, ho, -⟩ := hpassed
      cases ho
  | cons a as ih =>
      cases a with
      | requestLost =>
          exact ih hs hpassed
      | replyLost =>
          exact ih (hbad.kept i is s hs) hpassed
      | heard =>
          obtain ⟨o, ho, hgood⟩ := hpassed
          obtain rfl := Option.some.inj ho
          exact hbad.passed i is s hs hgood

/-- So does a good reply to a second copy that spoils the run. -/
theorem Spoils.second_copy
    (hbad : Spoils step P Bad)
    {i : ι} {is : List ι} {s : σ} (hs : Bad (i :: is) (step s i).2)
    {as : List Attempt}
    (hcopies : copies as ≠ 1)
    (hpassed : ∃ o ∈ (resend step i s as).1, P o) :
    Bad is (resend step i s as).2 := by
  induction as with
  | nil =>
      obtain ⟨o, ho, -⟩ := hpassed
      cases ho
  | cons a as ih =>
      cases a with
      | requestLost =>
          exact ih hcopies hpassed
      | replyLost =>
          exact hbad.behind_good_reply hs hpassed
      | heard =>
          exact absurd rfl hcopies

variable [DecidablePred P]

/-- From a bad state the client does not come to the end. -/
theorem Spoils.not_to_end
    (hbad : Spoils step P Bad)
    {s : σ} {plan : List (ι × List Attempt)}
    (hs : Bad (plan.map Prod.fst) s) :
    (resendAll step P s plan).1 = false := by
  induction plan generalizing s with
  | nil =>
      exact absurd hs (hbad.hopeless s)
  | cons x plan ih =>
      obtain ⟨i, as⟩ := x
      by_cases hpassed : ∃ o ∈ (resend step i s as).1, P o
      · rw [resendAll_passed hpassed]
        exact ih (hbad.behind_good_reply hs hpassed)
      · rw [resendAll_stopped hpassed]

/--
Along the run that takes each input once, every reply is good, a second copy of
an input in Same changes nothing, and one of any other input spoils the run.
-/
def Resendable
    (step : σ → ι → ο × σ) (P : ο → Prop) (Bad : List ι → σ → Prop)
    (Same : ι → Prop) : σ → List ι → Prop
  | _, [] => True
  | s, i :: is =>
      P (step s i).1 ∧
        (Same i → step (step s i).2 i = step s i) ∧
        (¬ Same i → Bad (i :: is) (step s i).2) ∧
        Resendable step P Bad Same (step s i).2 is

/-- A reply is heard, and a second copy is taken only if it changes nothing. -/
def Through (Same : ι → Prop) (x : ι × List Attempt) : Prop :=
  .heard ∈ x.2 ∧ (copies x.2 = 1 ∨ Same x.1)

/--
Resending rule: the client comes to the end exactly when every input gets
through, and the machine is then where one copy of each input leads to.
-/
theorem Spoils.comes_to_end_iff
    (hbad : Spoils step P Bad)
    {Same : ι → Prop} {s : σ} {plan : List (ι × List Attempt)}
    (hrun : Resendable step P Bad Same s (plan.map Prod.fst)) :
    ((resendAll step P s plan).1 = true ↔
      ∀ x ∈ plan, Through Same x) ∧
    ((resendAll step P s plan).1 = true →
      (resendAll step P s plan).2 =
        runState step s (plan.map Prod.fst)) := by
  induction plan generalizing s with
  | nil =>
      simp [resendAll]
  | cons x plan ih =>
      obtain ⟨i, as⟩ := x
      obtain ⟨hgood, hsame, hspoilt, hrest⟩ := hrun
      rw [List.forall_mem_cons]
      by_cases hthrough : Through Same (i, as)
      · have honce : resend step i s as =
            (some (step s i).1, (step s i).2) :=
          resend_of_same hthrough.1 (hthrough.2.imp_right hsame)
        have hpassed : ∃ o ∈ (resend step i s as).1, P o := by
          rw [honce]
          exact ⟨_, rfl, hgood⟩
        rw [resendAll_passed hpassed, honce, List.map_cons, runState_cons]
        simpa only [hthrough, true_and] using ih hrest
      · have hfails : (resendAll step P s ((i, as) :: plan)).1 =
            false := by
          by_cases hpassed : ∃ o ∈ (resend step i s as).1, P o
          · have hheard : .heard ∈ as := by
              by_contra hlost
              rw [resend_of_not_heard hlost] at hpassed
              obtain ⟨o, ho, -⟩ := hpassed
              cases ho
            rw [Through, not_and_or, not_or] at hthrough
            obtain ⟨htwice, hother⟩ :=
              hthrough.resolve_left (not_not_intro hheard)
            rw [resendAll_passed hpassed]
            exact hbad.not_to_end
              (hbad.second_copy (hspoilt hother) htwice hpassed)
          · rw [resendAll_stopped hpassed]
        rw [hfails]
        simp [hthrough]

end Spoiling

section Projection

variable {σ : Type u} {ι : Type v} {ο : Type w}
variable {τ : Type x} {κ : Type y} {ο' : Type z}
variable {step : σ → ι → ο × σ} {step' : τ → κ → ο' × τ}
variable {P : ο → Prop} {Q : ο' → Prop}
variable {part : σ → τ} {name : ι → κ}

theorem resend_projected
    {i : ι}
    (hreply : ∀ s, P (step s i).1 ↔ Q (step' (part s) (name i)).1)
    (hstate : ∀ s, part (step s i).2 = (step' (part s) (name i)).2)
    (s : σ) (as : List Attempt) :
    ((∃ o ∈ (resend step i s as).1, P o) ↔
      ∃ o ∈ (resend step' (name i) (part s) as).1, Q o) ∧
    part (resend step i s as).2 =
      (resend step' (name i) (part s) as).2 := by
  induction as generalizing s with
  | nil =>
      simp [resend]
  | cons a as ih =>
      cases a with
      | requestLost =>
          exact ih s
      | replyLost =>
          simpa only [resend, hstate] using ih (step s i).2
      | heard =>
          simpa [resend, hreply] using hstate s

variable [DecidablePred P] [DecidablePred Q]

/--
A client of a machine whose replies and whose part follow another machine
reports what a client of that machine reports.
-/
theorem resendAll_projected
    {plan : List (ι × List Attempt)}
    (hreply : ∀ i ∈ plan.map Prod.fst, ∀ s,
      P (step s i).1 ↔ Q (step' (part s) (name i)).1)
    (hstate : ∀ i ∈ plan.map Prod.fst, ∀ s,
      part (step s i).2 = (step' (part s) (name i)).2)
    (s : σ) :
    resendAll step' Q (part s) (plan.map (Prod.map name id)) =
      ((resendAll step P s plan).1, part (resendAll step P s plan).2) := by
  induction plan generalizing s with
  | nil =>
      rfl
  | cons x plan ih =>
      obtain ⟨i, as⟩ := x
      rw [List.map_cons, List.forall_mem_cons] at hreply hstate
      obtain ⟨hsame, hpart⟩ :=
        resend_projected hreply.1 hstate.1 s as
      rw [List.map_cons, Prod.map_apply, id]
      by_cases hpassed : ∃ o ∈ (resend step i s as).1, P o
      · rw [resendAll_passed hpassed, resendAll_passed (hsame.mp hpassed),
          ← hpart]
        exact ih hreply.2 hstate.2 _
      · rw [resendAll_stopped hpassed,
          resendAll_stopped (mt hsame.mpr hpassed), hpart]

end Projection

section Silent

variable {σ : Type u} {ι : Type v} {ω : Type w} {κ : Type y} {ν : Type z}
variable {step : σ → ι → List ω × σ} {step' : σ → κ → List ω × σ}

/-- Inputs that are not answered and change nothing may be left out. -/
theorem selected_run
    {select : ι → Option ν} {name : κ → ν}
    (hother : ∀ s i, select i = none → step s i = ([], s))
    (hselected : ∀ s i k, select i = some (name k) →
      step s i = step' s k)
    {is : List ι} {ks : List κ}
    (hin : is.filterMap select = ks.map name)
    (s : σ) :
    (runReplies step s is).flatten = (runReplies step' s ks).flatten ∧
      runState step s is = runState step' s ks := by
  induction is generalizing s ks with
  | nil =>
      obtain rfl := List.map_eq_nil_iff.mp hin.symm
      exact ⟨rfl, rfl⟩
  | cons i is ih =>
      rw [List.filterMap_cons] at hin
      rw [runReplies_cons, runState_cons, List.flatten_cons]
      cases hselect : select i with
      | none =>
          rw [hselect] at hin
          rw [hother s i hselect]
          exact ih hin s
      | some n =>
          rw [hselect] at hin
          obtain ⟨k, ks, rfl, rfl, hrest⟩ :=
            List.map_eq_cons_iff.mp hin.symm
          obtain ⟨hreplies, hstate⟩ := ih hrest.symm (step' s k).2
          rw [hselected s i k hselect, runReplies_cons, runState_cons,
            List.flatten_cons, hreplies, hstate]
          exact ⟨rfl, rfl⟩

end Silent

end Kernel
end ModbusRtu
