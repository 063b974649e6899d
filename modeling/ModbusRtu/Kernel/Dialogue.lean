import Mathlib.Data.List.Basic
import Mathlib.Tactic.Common

/-!
# Programs in dialogue with an environment

A dialogue is what a program does to its surroundings: it asks a query and goes
on with the answer, ends with a result, or goes wrong. A program with a state of
its own is a state transformer over dialogues.

An environment says which answers a query may get and what it becomes by giving
one. A program leads to a condition if it ends in it whatever the environment
answers; what is known where it goes wrong is a second condition, so one
statement covers programs that never go wrong and programs that do so in
certain situations only.

The condition of a sequence is that of its first part with the condition of the
rest behind it, and every other construct has a rule of the same kind. An
environment that imitates another one inherits what holds against it. Against
an environment that has exactly one answer to each query the dialogue can be
run, and the condition holds of the result.
-/

namespace ModbusRtu
namespace Kernel

universe u v w x

/-- A program that asks queries and ends with a result or goes wrong. -/
inductive Dialogue (Q : Type u) (A : Q → Type v) (α : Type w)
  | ret (a : α)
  | fault
  | ask (q : Q) (next : A q → Dialogue Q A α)

namespace Dialogue

variable {Q : Type u} {A : Q → Type v}

/-- Go on behind the result. -/
def bind {α : Type w} {β : Type x} :
    Dialogue Q A α → (α → Dialogue Q A β) → Dialogue Q A β
  | ret a, f => f a
  | fault, _ => fault
  | ask q next, f => ask q fun a => (next a).bind f

instance : Monad (Dialogue Q A) where
  pure := ret
  bind := bind

end Dialogue

section Ends

variable {Q : Type u} {A : Q → Type v} {α β : Type w} {ε : Type x}

/-- Which answers a query may get, and what the environment becomes. -/
abbrev Environment (Q : Type u) (A : Q → Type v) (ε : Type x) :=
  ε → (q : Q) → A q → ε → Prop

variable (env : Environment Q A ε)
variable (wrong : ε → Prop)

/-- Whatever is answered, the dialogue ends with the condition. -/
def Ends : Dialogue Q A α → ε → (α → ε → Prop) → Prop
  | .ret a, e, post => post a e
  | .fault, e, _ => wrong e
  | .ask q next, e, post => ∀ a e', env e q a e' → Ends (next a) e' post

variable {env wrong}

theorem ends_bind
    {d : Dialogue Q A α} {f : α → Dialogue Q A β} {e : ε}
    {post : β → ε → Prop} :
    Ends env wrong (d >>= f) e post ↔
      Ends env wrong d e fun a e' => Ends env wrong (f a) e' post := by
  induction d generalizing e with
  | ret a =>
      rfl
  | fault =>
      rfl
  | ask q next ih =>
      exact forall_congr' fun a => forall_congr' fun e' =>
        imp_congr_right fun _ => ih a

theorem Ends.mono
    {wrong' : ε → Prop} {d : Dialogue Q A α} {e : ε}
    {post post' : α → ε → Prop}
    (h : Ends env wrong d e post)
    (hpost : ∀ a e', post a e' → post' a e')
    (hwrong : ∀ e', wrong e' → wrong' e') :
    Ends env wrong' d e post' := by
  induction d generalizing e with
  | ret a =>
      exact hpost a e h
  | fault =>
      exact hwrong e h
  | ask q next ih =>
      intro a e' hanswer
      exact ih a (h a e' hanswer)

/--
An environment that imitates another one inherits the conditions: each of its
answers is one the other may give, and the two stay related.
-/
theorem Ends.imitated
    {ε' : Type x} {env' : Environment Q A ε'} {wrong' : ε' → Prop}
    {R : ε' → ε → Prop}
    (hanswer : ∀ c e q a c', R c e → env' c q a c' →
      ∃ e', env e q a e' ∧ R c' e')
    (hwrong : ∀ c e, R c e → wrong e → wrong' c)
    {d : Dialogue Q A α} {c : ε'} {e : ε} {post : α → ε → Prop}
    (hrel : R c e)
    (h : Ends env wrong d e post) :
    Ends env' wrong' d c fun a c' => ∃ e', R c' e' ∧ post a e' := by
  induction d generalizing c e with
  | ret a =>
      exact ⟨e, hrel, h⟩
  | fault =>
      exact hwrong c e hrel h
  | ask q next ih =>
      intro a c' hconcrete
      obtain ⟨e', habstract, hrel'⟩ := hanswer c e q a c' hrel hconcrete
      exact ih a hrel' (h a e' habstract)

end Ends

section LastAnswers

variable {Q : Type u} {A : Q → Type v} {α β : Type w} {ε : Type x}

/-- Behind a last answer the dialogue ends at once, with a late result. -/
def StopsAt (last : (q : Q) → A q → Prop) (late : α → Prop) :
    Dialogue Q A α → Prop
  | .ret _ => True
  | .fault => True
  | .ask q next => ∀ a, StopsAt last late (next a) ∧
      (last q a → ∃ r, next a = .ret r ∧ late r)

/-- A sequence stops where its parts do, if it adds nothing to a late result. -/
theorem StopsAt.bind
    {last : (q : Q) → A q → Prop} {late : α → Prop} {late' : β → Prop}
    {d : Dialogue Q A α} {f : α → Dialogue Q A β}
    (h : StopsAt last late d) (hnext : ∀ a, StopsAt last late' (f a))
    (hlate : ∀ a, late a → ∃ b, f a = .ret b ∧ late' b) :
    StopsAt last late' (d >>= f) := by
  induction d with
  | ret a =>
      exact hnext a
  | fault =>
      trivial
  | ask q next ih =>
      intro a
      refine ⟨ih a (h a).1, fun hlast => ?_⟩
      obtain ⟨r, hr, hr'⟩ := (h a).2 hlast
      obtain ⟨b, hb, hb'⟩ := hlate r hr'
      refine ⟨b, ?_, hb'⟩
      change (next a).bind f = .ret b
      rw [hr]
      exact hb

/--
An environment may imitate another one up to a last answer only, and stand in
another relation to it from then on.
-/
theorem Ends.imitated_until
    {ε' : Type x} {env : Environment Q A ε} {env' : Environment Q A ε'}
    {wrong : ε → Prop} {wrong' : ε' → Prop} {R S : ε' → ε → Prop}
    {last : (q : Q) → A q → Prop} {late : α → Prop}
    (hanswer : ∀ c e q a c', R c e → env' c q a c' →
      ∃ e', env e q a e' ∧ (R c' e' ∨ last q a ∧ S c' e'))
    (hwrong : ∀ c e, R c e → wrong e → wrong' c)
    {d : Dialogue Q A α} {c : ε'} {e : ε} {post : α → ε → Prop}
    (hrel : R c e) (hstops : StopsAt last late d)
    (h : Ends env wrong d e post) :
    Ends env' wrong' d c fun a c' =>
      ∃ e', (R c' e' ∨ S c' e') ∧ post a e' := by
  induction d generalizing c e with
  | ret a =>
      exact ⟨e, Or.inl hrel, h⟩
  | fault =>
      exact hwrong c e hrel h
  | ask q next ih =>
      intro a c' hconcrete
      obtain ⟨e', habstract, hrel' | ⟨hlast, hrel'⟩⟩ :=
        hanswer c e q a c' hrel hconcrete
      · exact ih a hrel' (hstops a).1 (h a e' habstract)
      · obtain ⟨r, hr, -⟩ := (hstops a).2 hlast
        have hend := h a e' habstract
        rw [hr] at hend ⊢
        exact ⟨e', Or.inr hrel', hend⟩

end LastAnswers

section Agreement

variable {Q : Type u} {A : Q → Type v}

/-- Two dialogues ask the same queries and end with related results. -/
inductive Agrees {α : Type w} {β : Type x} (R : α → β → Prop) :
    Dialogue Q A α → Dialogue Q A β → Prop
  | ret {a : α} {b : β} (h : R a b) :
      Agrees R (.ret a) (.ret b)
  | fault :
      Agrees R .fault .fault
  | ask {q : Q} {next : A q → Dialogue Q A α} {next' : A q → Dialogue Q A β}
      (h : ∀ a, Agrees R (next a) (next' a)) :
      Agrees R (.ask q next) (.ask q next')

variable {α β : Type w}

/-- Dialogues that agree and then go on agreeing agree. -/
theorem Agrees.bind
    {α' β' : Type w} {R : α → β → Prop} {S : α' → β' → Prop}
    {d : Dialogue Q A α} {d' : Dialogue Q A β}
    {f : α → Dialogue Q A α'} {f' : β → Dialogue Q A β'}
    (h : Agrees R d d')
    (hnext : ∀ a b, R a b → Agrees S (f a) (f' b)) :
    Agrees S (d >>= f) (d' >>= f') := by
  induction h with
  | ret h =>
      exact hnext _ _ h
  | fault =>
      exact .fault
  | ask h ih =>
      exact .ask ih

/-- What one of two agreeing dialogues ends in the other one ends in too. -/
theorem Agrees.ends
    {ε : Type x} {env : Environment Q A ε} {wrong : ε → Prop}
    {R : α → β → Prop} {d : Dialogue Q A α} {d' : Dialogue Q A β}
    (h : Agrees R d d')
    {e : ε} {post : β → ε → Prop}
    (hends : Ends env wrong d' e post) :
    Ends env wrong d e fun a e' => ∃ b, R a b ∧ post b e' := by
  induction h generalizing e with
  | ret h =>
      exact ⟨_, h, hends⟩
  | fault =>
      exact hends
  | ask h ih =>
      intro a e' hanswer
      exact ih a (hends a e' hanswer)

/-- A dialogue goes wrong where an agreeing one does. -/
theorem Agrees.ends_of_ends
    {ε : Type x} {env : Environment Q A ε} {wrong : ε → Prop}
    {R : α → β → Prop} {d : Dialogue Q A α} {d' : Dialogue Q A β}
    (h : Agrees R d d')
    {e : ε} {post : α → ε → Prop}
    (hends : Ends env wrong d e post) :
    Ends env wrong d' e fun b e' => ∃ a, R a b ∧ post a e' := by
  induction h generalizing e with
  | ret h =>
      exact ⟨_, h, hends⟩
  | fault =>
      exact hends
  | ask h ih =>
      intro a e' hanswer
      exact ih a (hends a e' hanswer)

end Agreement

section Reached

variable {Q : Type u} {A : Q → Type v} {α : Type w} {ε : Type x}

/-- How a dialogue may end; with no result if it goes wrong. -/
inductive Reaches (env : Environment Q A ε) :
    Dialogue Q A α → ε → Option α → ε → Prop
  | ret (a : α) (e : ε) :
      Reaches env (.ret a) e (some a) e
  | fault (e : ε) :
      Reaches env .fault e none e
  | ask {q : Q} {next : A q → Dialogue Q A α} {e e' e'' : ε} {a : A q}
      {r : Option α} (hanswer : env e q a e')
      (h : Reaches env (next a) e' r e'') :
      Reaches env (.ask q next) e r e''

/-- A condition on the ends holds of each of them. -/
theorem Ends.reached
    {env : Environment Q A ε} {wrong : ε → Prop}
    {d : Dialogue Q A α} {e e' : ε} {r : Option α}
    {post : α → ε → Prop}
    (h : Ends env wrong d e post) (hreach : Reaches env d e r e') :
    r.elim (wrong e') fun a => post a e' := by
  induction hreach with
  | ret a e =>
      exact h
  | fault e =>
      exact h
  | ask hanswer hreach ih =>
      exact ih (h _ _ hanswer)

/-- The environment that answers anything and remembers what was asked. -/
def asked : Environment Q A (List Q) :=
  fun trace q _ trace' => trace' = trace ++ [q]

/-- What shortening a trace keeps and what holds at every end holds before. -/
theorem Ends.asked_before
    {P : List Q → Prop} (hany : ∀ q, Nonempty (A q))
    (hshorter : ∀ trace q, P (trace ++ [q]) → P trace)
    {d : Dialogue Q A α} {trace : List Q}
    (h : Ends asked P d trace fun _ => P) :
    P trace := by
  induction d generalizing trace with
  | ret a =>
      exact h
  | fault =>
      exact h
  | ask q next ih =>
      obtain ⟨a⟩ := hany q
      exact hshorter trace q (ih a (h a _ rfl))

/--
An environment that answers the queries a program may ask, and goes on doing so,
leads it to one of its ends.
-/
theorem exists_reaches
    {env : Environment Q A ε} {Good : Q → Prop} {I : ε → Prop}
    (hany : ∀ q, Nonempty (A q))
    (hanswer : ∀ e q, I e → Good q → ∃ a e', env e q a e' ∧ I e')
    {d : Dialogue Q A α} {trace : List Q}
    (h : Ends asked (fun trace => ∀ q ∈ trace, Good q) d trace
      fun _ trace => ∀ q ∈ trace, Good q)
    {e : ε} (he : I e) :
    ∃ r e', Reaches env d e r e' ∧ I e' := by
  induction d generalizing trace e with
  | ret a =>
      exact ⟨some a, e, .ret a e, he⟩
  | fault =>
      exact ⟨none, e, .fault e, he⟩
  | ask q next ih =>
      have hasked : Good q := by
        obtain ⟨a⟩ := hany q
        have hlater := (h a _ rfl).asked_before hany fun trace q hall q' hq' =>
          hall q' (List.mem_append_left _ hq')
        exact hlater q (List.mem_append_right _ (List.mem_singleton_self q))
      obtain ⟨a, e', hgiven, he'⟩ := hanswer e q he hasked
      obtain ⟨r, e'', hreach, he''⟩ := ih a (h a _ rfl) he'
      exact ⟨r, e'', .ask hgiven hreach, he''⟩

end Reached

section Runs

variable {Q : Type u} {A : Q → Type v} {α : Type w} {ε : Type x}

/-- The environment that gives the one answer of a function. -/
def answering (respond : ε → (q : Q) → A q × ε) : Environment Q A ε :=
  fun e q a e' => respond e q = (a, e')

/-- The result of a dialogue, none if it goes wrong, and the environment. -/
def runDialogue (respond : ε → (q : Q) → A q × ε) :
    Dialogue Q A α → ε → Option α × ε
  | .ret a, e => (some a, e)
  | .fault, e => (none, e)
  | .ask q next, e =>
      runDialogue respond (next (respond e q).1) (respond e q).2

/-- Only the one answer to a query has to be looked at. -/
theorem ends_answering_ask
    {respond : ε → (q : Q) → A q × ε} {wrong : ε → Prop}
    {q : Q} {next : A q → Dialogue Q A α} {e : ε} {post : α → ε → Prop} :
    Ends (answering respond) wrong (.ask q next) e post ↔
      Ends (answering respond) wrong (next (respond e q).1)
        (respond e q).2 post := by
  constructor
  · intro h
    exact h _ _ rfl
  · intro h a e' hanswer
    rw [answering, Prod.ext_iff] at hanswer
    obtain ⟨rfl, rfl⟩ := hanswer
    exact h

/-- Against one answer to each query a condition is that of the run. -/
theorem ends_answering_iff
    {respond : ε → (q : Q) → A q × ε} {wrong : ε → Prop}
    {d : Dialogue Q A α} {e : ε} {post : α → ε → Prop} :
    Ends (answering respond) wrong d e post ↔
      match runDialogue respond d e with
      | (some a, e') => post a e'
      | (none, e') => wrong e' := by
  induction d generalizing e with
  | ret a =>
      rfl
  | fault =>
      rfl
  | ask q next ih =>
      rw [runDialogue, ← ih]
      exact ends_answering_ask

/-- What a dialogue ends in is so behind a run of it. -/
theorem Ends.of_run
    {respond : ε → (q : Q) → A q × ε} {wrong : ε → Prop}
    {d : Dialogue Q A α} {e e' : ε} {a : α} {post : α → ε → Prop}
    (h : Ends (answering respond) wrong d e post)
    (hrun : runDialogue respond d e = (some a, e')) :
    post a e' := by
  rw [ends_answering_iff, hrun] at h
  exact h

/-- A run that goes well shows what the dialogue ends in. -/
theorem ends_of_run
    {respond : ε → (q : Q) → A q × ε} {wrong : ε → Prop}
    {d : Dialogue Q A α} {e e' : ε} {a : α} {post : α → ε → Prop}
    (hrun : runDialogue respond d e = (some a, e'))
    (hpost : post a e') :
    Ends (answering respond) wrong d e post := by
  rw [ends_answering_iff, hrun]
  exact hpost

theorem run_of_ends
    {respond : ε → (q : Q) → A q × ε}
    {d : Dialogue Q A α} {e : ε} {post : α → ε → Prop}
    (h : Ends (answering respond) (fun _ => False) d e post) :
    ∃ a e', runDialogue respond d e = (some a, e') ∧ post a e' := by
  rw [ends_answering_iff] at h
  match hrun : runDialogue respond d e with
  | (some a, e') =>
      rw [hrun] at h
      exact ⟨a, e', rfl, h⟩
  | (none, e') =>
      rw [hrun] at h
      exact h.elim

end Runs

section Programs

variable {σ : Type w} {Q : Type u} {A : Q → Type v}

/-- A program with a state of its own. -/
abbrev Program (σ : Type w) (Q : Type u) (A : Q → Type v) :=
  StateT σ (Dialogue Q A)

/-- Ask one query. -/
def query {σ : Type v} (q : Q) : Program σ Q A (A q) :=
  fun s => .ask q fun a => .ret (a, s)

/-- Read off the state. -/
def inspect {α : Type w} (f : σ → α) : Program σ Q A α :=
  fun s => .ret (f s, s)

/-- Go wrong. -/
def goWrong {α : Type w} : Program σ Q A α :=
  fun _ => .fault

/-- Repeat a program and collect its results. -/
def times {α : Type w} (prog : Program σ Q A α) :
    Nat → Program σ Q A (List α)
  | 0 => pure []
  | n + 1 => do
      let a ← prog
      let as ← times prog n
      pure (a :: as)

end Programs

section Leads

variable {σ : Type w} {Q : Type u} {A : Q → Type v} {ε : Type x}
variable {α β : Type w}
variable (env : Environment Q A ε)
variable (wrong : ε → Prop)

/-- From a state the program ends in the condition, whatever is answered. -/
def Leads (prog : Program σ Q A α) (s : σ) (e : ε)
    (post : α → σ → ε → Prop) : Prop :=
  Ends env wrong (prog s) e fun r e' => post r.1 r.2 e'

variable {env wrong}

@[simp] theorem leads_pure
    {a : α} {s : σ} {e : ε} {post : α → σ → ε → Prop} :
    Leads env wrong (pure a) s e post ↔ post a s e := by
  rfl

@[simp] theorem leads_bind
    {prog : Program σ Q A α} {f : α → Program σ Q A β}
    {s : σ} {e : ε} {post : β → σ → ε → Prop} :
    Leads env wrong (prog >>= f) s e post ↔
      Leads env wrong prog s e fun a s' e' =>
        Leads env wrong (f a) s' e' post := by
  exact ends_bind

@[simp] theorem leads_inspect
    {f : σ → α} {s : σ} {e : ε} {post : α → σ → ε → Prop} :
    Leads env wrong (inspect f : Program σ Q A α) s e post ↔
      post (f s) s e := by
  rfl

@[simp] theorem leads_modify
    {f : σ → σ} {s : σ} {e : ε} {post : PUnit → σ → ε → Prop} :
    Leads env wrong (modify f : Program σ Q A PUnit) s e post ↔
      post ⟨⟩ (f s) e := by
  rfl

@[simp] theorem leads_goWrong
    {s : σ} {e : ε} {post : α → σ → ε → Prop} :
    Leads env wrong (goWrong : Program σ Q A α) s e post ↔ wrong e := by
  rfl

@[simp] theorem leads_query
    {σ : Type v} {q : Q} {s : σ} {e : ε} {post : A q → σ → ε → Prop} :
    Leads env wrong (query q : Program σ Q A (A q)) s e post ↔
      ∀ a e', env e q a e' → post a s e' := by
  rfl

@[simp] theorem leads_ite
    {c : Prop} [Decidable c] {prog prog' : Program σ Q A α}
    {s : σ} {e : ε} {post : α → σ → ε → Prop} :
    Leads env wrong (if c then prog else prog') s e post ↔
      if c then Leads env wrong prog s e post
      else Leads env wrong prog' s e post := by
  split <;> rfl

theorem Leads.mono
    {wrong' : ε → Prop} {prog : Program σ Q A α} {s : σ} {e : ε}
    {post post' : α → σ → ε → Prop}
    (h : Leads env wrong prog s e post)
    (hpost : ∀ a s' e', post a s' e' → post' a s' e')
    (hwrong : ∀ e', wrong e' → wrong' e') :
    Leads env wrong' prog s e post' := by
  exact Ends.mono h (fun r e' => hpost r.1 r.2 e') hwrong

/-- Strengthen nothing but the condition at the end. -/
theorem Leads.imp
    {prog : Program σ Q A α} {s : σ} {e : ε}
    {post post' : α → σ → ε → Prop}
    (h : Leads env wrong prog s e post)
    (hpost : ∀ a s' e', post a s' e' → post' a s' e') :
    Leads env wrong prog s e post' := by
  exact h.mono hpost fun _ => id

/-- Repetitions one behind the other. -/
theorem leads_times_add
    {prog : Program σ Q A α} {s : σ} {e : ε} (m n : Nat)
    {post : List α → σ → ε → Prop} :
    Leads env wrong (times prog (m + n)) s e post ↔
      Leads env wrong (times prog m) s e fun as s' e' =>
        Leads env wrong (times prog n) s' e' fun bs => post (as ++ bs) := by
  induction m generalizing s e post with
  | zero =>
      rw [Nat.zero_add, times, leads_pure]
      rfl
  | succ m ih =>
      rw [Nat.succ_add, times, times, leads_bind, leads_bind]
      simp only [leads_bind, leads_pure, ih, List.cons_append]

/-- A condition that every execution of the program extends holds at its end. -/
theorem leads_times
    {prog : Program σ Q A α} {I : List α → σ → ε → Prop}
    (hstep : ∀ as s e, I as s e →
      Leads env wrong prog s e fun a s' e' => I (as ++ [a]) s' e')
    {as : List α} {s : σ} {e : ε}
    (h : I as s e) (n : Nat) :
    Leads env wrong (times prog n) s e fun as' s' e' =>
      as'.length = n ∧ I (as ++ as') s' e' := by
  induction n generalizing as s e with
  | zero =>
      rw [times, leads_pure, List.append_nil]
      exact ⟨rfl, h⟩
  | succ n ih =>
      rw [times, leads_bind]
      refine (hstep as s e h).imp fun a s' e' hnext => ?_
      rw [leads_bind]
      refine (ih hnext).imp fun as' s'' e'' hlast => ?_
      rw [leads_pure, List.append_cons, List.length_cons, hlast.1]
      exact ⟨rfl, hlast.2⟩

end Leads

end Kernel
end ModbusRtu
