import Mathlib.Data.List.Basic
import Mathlib.Tactic.Common

/-!
# Segments of a stream

A reader takes messages off a stream one after the other and skips what lies
between them. The messages are then segments of the stream that follow each
other without overlap.

A code is self-delimiting if a word is determined by any stream that begins
with its code. A stream of codes then determines its words, and of two streams
that are equal behind different words one begins with the words of the other.
-/

namespace ModbusRtu
namespace Kernel

universe u v

section Scattered

variable {α : Type u}

/-- Segments that follow each other in a list, with gaps around them. -/
inductive Scattered : List (List α) → List α → Prop
  | nil (rest : List α) :
      Scattered [] rest
  | cons (gap x : List α) {xs : List (List α)} {rest : List α}
      (h : Scattered xs rest) :
      Scattered (x :: xs) (gap ++ x ++ rest)

theorem Scattered.skip
    {xs : List (List α)} {l : List α} (h : Scattered xs l)
    (gap : List α) :
    Scattered xs (gap ++ l) := by
  cases h with
  | nil =>
      exact .nil _
  | cons gap' x h =>
      rw [← List.append_assoc, ← List.append_assoc]
      exact .cons _ x h

theorem Scattered.append
    {xs ys : List (List α)} {l m : List α}
    (hxs : Scattered xs l) (hys : Scattered ys m) :
    Scattered (xs ++ ys) (l ++ m) := by
  induction hxs with
  | nil rest =>
      exact hys.skip rest
  | cons gap x h ih =>
      rw [List.append_assoc]
      exact .cons gap x ih

/-- What follows may be skipped. -/
theorem Scattered.append_right
    {xs : List (List α)} {l : List α} (h : Scattered xs l)
    (rest : List α) :
    Scattered xs (l ++ rest) := by
  have hboth := h.append (Scattered.nil rest)
  rwa [List.append_nil] at hboth

theorem scattered_singleton (x rest : List α) :
    Scattered [x] (x ++ rest) := by
  exact .cons [] x (.nil rest)

end Scattered

section SelfDelimiting

variable {α : Type u} {β : Type v}

/-- A stream that begins with the code of a word determines the word. -/
def SelfDelimiting (code : α → List β) (P : α → Prop) : Prop :=
  ∀ a b x y, P a → P b → code a ++ x = code b ++ y → a = b

variable {code : α → List β} {P : α → Prop}

/-- Of two streams that are equal behind their words one extends the other. -/
theorem SelfDelimiting.prefix_or_prefix
    (h : SelfDelimiting code P) {as bs : List α} {x y : List β}
    (has : ∀ a ∈ as, P a) (hbs : ∀ b ∈ bs, P b)
    (heq : as.flatMap code ++ x = bs.flatMap code ++ y) :
    as <+: bs ∨ bs <+: as := by
  induction as generalizing bs with
  | nil =>
      exact Or.inl (List.nil_prefix)
  | cons a as ih =>
      cases bs with
      | nil =>
          exact Or.inr (List.nil_prefix)
      | cons b bs =>
          simp only [List.flatMap_cons, List.append_assoc] at heq
          obtain rfl := h a b _ _ (has a (List.mem_cons_self ..))
            (hbs b (List.mem_cons_self ..)) heq
          have htail := List.append_cancel_left heq
          have hrest := @ih bs
            (fun c hc => has c (List.mem_cons_of_mem a hc))
            (fun c hc => hbs c (List.mem_cons_of_mem a hc)) htail
          rcases hrest with hle | hle
          · exact Or.inl (List.cons_prefix_cons.mpr ⟨rfl, hle⟩)
          · exact Or.inr (List.cons_prefix_cons.mpr ⟨rfl, hle⟩)

/-- A stream of codes determines its words. -/
theorem SelfDelimiting.flatMap_injective
    (h : SelfDelimiting code P) (hcode : ∀ a, P a → code a ≠ [])
    {as bs : List α} (has : ∀ a ∈ as, P a) (hbs : ∀ b ∈ bs, P b)
    (heq : as.flatMap code = bs.flatMap code) :
    as = bs := by
  have hnil : ∀ cs : List α, (∀ c ∈ cs, P c) → cs.flatMap code = [] →
      cs = [] := by
    intro cs hcs hempty
    cases cs with
    | nil =>
        rfl
    | cons c cs =>
        rw [List.flatMap_cons, List.append_eq_nil_iff] at hempty
        exact absurd hempty.1 (hcode c (hcs c (List.mem_cons_self ..)))
  have heq' : as.flatMap code ++ [] = bs.flatMap code ++ [] := by
    rw [heq]
  rcases h.prefix_or_prefix has hbs heq' with ⟨cs, rfl⟩ | ⟨cs, rfl⟩
  · rw [List.flatMap_append, List.self_eq_append_right] at heq
    rw [hnil cs (fun c hc => hbs c (List.mem_append_right _ hc)) heq,
      List.append_nil]
  · rw [List.flatMap_append, List.append_right_eq_self] at heq
    rw [hnil cs (fun c hc => has c (List.mem_append_right _ hc)) heq,
      List.append_nil]

end SelfDelimiting

end Kernel
end ModbusRtu
