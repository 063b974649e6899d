import Mathlib.Data.List.Range
import ModbusRtu.Kernel.MachineRun

/-!
# Assembly of an announced sequence from chunks

An assembly receives a sequence in pieces. A start announces the length, every
chunk appends, and a finish succeeds exactly when the announced length has
arrived. Two limits are fixed: the capacity, which bounds the announced
length, and the largest chunk. An input that is refused changes nothing, and a
finish always ends the assembly.

The main facts are the exact acceptance conditions. Chunks are all accepted
when none exceeds the largest chunk and together they do not exceed what is
missing; a whole session is accepted when in addition the lengths add up.

The sending side cuts a sequence into slices of one size, the last of which
may be shorter. The slices are a valid chunking of the sequence: none is too
large and together they are the sequence.
-/

namespace ModbusRtu
namespace Kernel

universe u

section ChunkAssembly

variable {α : Type u}

/-- Inputs of an assembly; other stands for inputs that are always refused. -/
inductive AssemblyInput (α : Type u)
  | start (total : Nat)
  | chunk (xs : List α)
  | finish
  | other

/-- Idle, or the announced length with what has arrived so far. -/
abbrev AssemblyState (α : Type u) := Option (Nat × List α)

/-- The capacity of the assembly and the length of the largest chunk. -/
structure AssemblyLimits where
  capacity : Nat
  largest : Nat

/-- One input: whether it is accepted, and the next state. -/
def assemblyStep (lim : AssemblyLimits) :
    AssemblyState α → AssemblyInput α → Bool × AssemblyState α
  | st, .start total =>
      if total ≤ lim.capacity then (true, some (total, []))
      else (false, st)
  | none, .chunk _ => (false, none)
  | some (total, got), .chunk xs =>
      if xs.length ≤ lim.largest ∧ got.length + xs.length ≤ total then
        (true, some (total, got ++ xs))
      else
        (false, some (total, got))
  | none, .finish => (false, none)
  | some (total, got), .finish => (decide (got.length = total), none)
  | st, .other => (false, st)

variable {lim : AssemblyLimits}

theorem assemblyStep_start
    (st : AssemblyState α) {total : Nat}
    (h : total ≤ lim.capacity) :
    assemblyStep lim st (.start total) = (true, some (total, [])) := by
  simp [assemblyStep, h]

theorem assemblyStep_start_refused
    (st : AssemblyState α) {total : Nat}
    (h : ¬ total ≤ lim.capacity) :
    assemblyStep lim st (.start total) = (false, st) := by
  simp [assemblyStep, h]

theorem assemblyStep_chunk
    {total : Nat} {got xs : List α}
    (h : xs.length ≤ lim.largest ∧ got.length + xs.length ≤ total) :
    assemblyStep lim (some (total, got)) (.chunk xs) =
      (true, some (total, got ++ xs)) := by
  simp only [assemblyStep, if_pos h]

theorem assemblyStep_chunk_refused
    {total : Nat} {got xs : List α}
    (h : ¬ (xs.length ≤ lim.largest ∧ got.length + xs.length ≤ total)) :
    assemblyStep lim (some (total, got)) (.chunk xs) =
      (false, some (total, got)) := by
  simp only [assemblyStep, if_neg h]

theorem assemblyStep_finish (total : Nat) (got : List α) :
    assemblyStep lim (some (total, got)) .finish =
      (decide (got.length = total), none) := by
  rfl

/-- Every input of the run is accepted. -/
def AssemblyAccepts (lim : AssemblyLimits)
    (st : AssemblyState α) (is : List (AssemblyInput α)) : Prop :=
  StepsMeet (assemblyStep lim)
    (fun t i => (assemblyStep lim t i).1 = true) st is

@[simp] theorem assemblyAccepts_nil (st : AssemblyState α) :
    AssemblyAccepts lim st [] := by
  trivial

@[simp] theorem assemblyAccepts_cons
    (st : AssemblyState α) (i : AssemblyInput α)
    (is : List (AssemblyInput α)) :
    AssemblyAccepts lim st (i :: is) ↔
      (assemblyStep lim st i).1 = true ∧
        AssemblyAccepts lim (assemblyStep lim st i).2 is := by
  rfl

theorem assemblyAccepts_append
    (st : AssemblyState α) (is js : List (AssemblyInput α)) :
    AssemblyAccepts lim st (is ++ js) ↔
      AssemblyAccepts lim st is ∧
        AssemblyAccepts lim (runState (assemblyStep lim) st is) js := by
  exact stepsMeet_append _ _ _ _ _

/-- Chunks are accepted when they are small enough and fit what is missing. -/
theorem chunks_accepted_iff
    (total : Nat) (got : List α) (chunks : List (List α))
    (hgot : got.length ≤ total) :
    AssemblyAccepts lim (some (total, got))
        (chunks.map AssemblyInput.chunk) ↔
      (∀ xs ∈ chunks, xs.length ≤ lim.largest) ∧
        got.length + chunks.flatten.length ≤ total := by
  induction chunks generalizing got with
  | nil =>
      simp [hgot]
  | cons xs chunks ih =>
      rw [List.map_cons, assemblyAccepts_cons, List.forall_mem_cons,
        List.flatten_cons, List.length_append]
      by_cases hfit :
          xs.length ≤ lim.largest ∧ got.length + xs.length ≤ total
      · have hnext : (got ++ xs).length ≤ total := by
          rw [List.length_append]
          exact hfit.2
        rw [assemblyStep_chunk hfit, ih (got ++ xs) hnext,
          List.length_append]
        simp [hfit.1, Nat.add_assoc]
      · rw [assemblyStep_chunk_refused hfit]
        constructor
        · rintro ⟨hfalse, _⟩
          cases hfalse
        · rintro ⟨⟨hsmall, _⟩, hsum⟩
          exact False.elim (hfit ⟨hsmall, by omega⟩)

/-- Accepted chunks are appended in order. -/
theorem chunks_state
    (total : Nat) (got : List α) (chunks : List (List α))
    (hacc : AssemblyAccepts lim (some (total, got))
      (chunks.map AssemblyInput.chunk)) :
    runState (assemblyStep lim) (some (total, got))
        (chunks.map AssemblyInput.chunk) =
      some (total, got ++ chunks.flatten) := by
  induction chunks generalizing got with
  | nil =>
      simp
  | cons xs chunks ih =>
      rw [List.map_cons, assemblyAccepts_cons] at hacc
      rw [List.map_cons, runState_cons]
      by_cases hfit :
          xs.length ≤ lim.largest ∧ got.length + xs.length ≤ total
      · rw [assemblyStep_chunk hfit] at hacc ⊢
        rw [ih (got ++ xs) hacc.2, List.flatten_cons,
          List.append_assoc]
      · rw [assemblyStep_chunk_refused hfit] at hacc
        cases hacc.1

/-- Inputs of a whole session: a start, the chunks, a finish. -/
def sessionInputs
    (total : Nat) (chunks : List (List α)) : List (AssemblyInput α) :=
  .start total :: (chunks.map AssemblyInput.chunk ++ [.finish])

/--
A session is accepted from any state exactly when the announced length is
within the capacity, no chunk is too large, and the lengths add up.
-/
theorem session_accepted_iff
    (st : AssemblyState α) (total : Nat) (chunks : List (List α)) :
    AssemblyAccepts lim st (sessionInputs total chunks) ↔
      total ≤ lim.capacity ∧
        (∀ xs ∈ chunks, xs.length ≤ lim.largest) ∧
        chunks.flatten.length = total := by
  rw [sessionInputs, assemblyAccepts_cons]
  by_cases hcap : total ≤ lim.capacity
  · rw [assemblyStep_start st hcap, assemblyAccepts_append]
    have hchunks :=
      @chunks_accepted_iff α lim total [] chunks (Nat.zero_le _)
    constructor
    · rintro ⟨_, hacc, hfinish⟩
      obtain ⟨hsmall, _⟩ := hchunks.mp hacc
      rw [chunks_state total [] chunks hacc, assemblyAccepts_cons,
        assemblyStep_finish] at hfinish
      exact ⟨hcap, hsmall, by simpa using hfinish.1⟩
    · rintro ⟨_, hsmall, hsum⟩
      have hacc := hchunks.mpr ⟨hsmall, by simp [hsum]⟩
      refine ⟨rfl, hacc, ?_⟩
      rw [chunks_state total [] chunks hacc, assemblyAccepts_cons,
        assemblyStep_finish]
      simp [hsum]
  · rw [assemblyStep_start_refused st hcap]
    simp [hcap]

end ChunkAssembly

section Slices

variable {α : Type u}

/-- The slices of a list at the multiples of size. -/
def slices (size : Nat) (xs : List α) : List (List α) :=
  (List.range' 0 ((xs.length + (size - 1)) / size) size).map
    (fun i => (xs.drop i).take size)

@[simp] theorem length_slices (size : Nat) (xs : List α) :
    (slices size xs).length = (xs.length + (size - 1)) / size := by
  simp [slices]

/-- Every slice starts at a multiple of size. -/
theorem mem_slices
    {size : Nat} {xs ys : List α}
    (hys : ys ∈ slices size xs) :
    ∃ j, ys = (xs.drop (size * j)).take size := by
  simp only [slices, List.mem_map, List.mem_range', Nat.zero_add] at hys
  obtain ⟨i, ⟨j, _, rfl⟩, rfl⟩ := hys
  exact ⟨j, rfl⟩

theorem length_le_of_mem_slices
    {size : Nat} {xs ys : List α}
    (hys : ys ∈ slices size xs) :
    ys.length ≤ size := by
  obtain ⟨j, rfl⟩ := mem_slices hys
  exact List.length_take_le _ _

/-- No slice is empty. -/
theorem ne_nil_of_mem_slices
    {size : Nat} {xs ys : List α}
    (hsize : 0 < size)
    (hys : ys ∈ slices size xs) :
    ys ≠ [] := by
  simp only [slices, List.mem_map, List.mem_range', Nat.zero_add] at hys
  obtain ⟨i, ⟨j, hj, rfl⟩, rfl⟩ := hys
  have hstart : size * j < xs.length := by
    rw [Nat.lt_div_iff_mul_lt hsize, Nat.mul_comm] at hj
    omega
  refine List.ne_nil_of_length_pos ?_
  rw [List.length_take, List.length_drop]
  omega

/-- Slices of even size of a list of even length have even length. -/
theorem even_length_of_mem_slices
    {size : Nat} {xs ys : List α}
    (hsize : size % 2 = 0)
    (hxs : xs.length % 2 = 0)
    (hys : ys ∈ slices size xs) :
    ys.length % 2 = 0 := by
  obtain ⟨j, rfl⟩ := mem_slices hys
  have hstart : size * j % 2 = 0 := by
    rw [Nat.mul_mod, hsize, Nat.zero_mul]
  rw [List.length_take, List.length_drop]
  omega

theorem flatten_slices_from
    (size : Nat) (xs : List α) (start n : Nat) :
    ((List.range' start n size).map
        (fun i => (xs.drop i).take size)).flatten =
      (xs.drop start).take (size * n) := by
  induction n generalizing start with
  | zero =>
      simp
  | succ n ih =>
      rw [List.range'_succ, List.map_cons, List.flatten_cons, ih,
        Nat.mul_succ, Nat.add_comm (size * n) size, List.take_add,
        List.drop_drop]

/-- The slices of a list put together are the list. -/
theorem flatten_slices
    {size : Nat} (hsize : 0 < size) (xs : List α) :
    (slices size xs).flatten = xs := by
  rw [slices, flatten_slices_from, List.drop_zero]
  apply List.take_of_length_le
  have hdiv :=
    Nat.div_add_mod (xs.length + (size - 1)) size
  have hmod :=
    Nat.mod_lt (xs.length + (size - 1)) hsize
  omega

end Slices

end Kernel
end ModbusRtu
