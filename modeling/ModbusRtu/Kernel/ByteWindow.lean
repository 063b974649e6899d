import Mathlib.Data.List.Range
import Mathlib.Logic.Function.Basic
import ModbusRtu.Kernel.HalfwordBytes

/-!
# Windows of a byte memory

A byte memory is a function from addresses to bytes. A window is the list of
the bytes at consecutive addresses. The lemmas say how windows split, that a
window only depends on its own bytes, and what a sequence of halfword stores
leaves in the window it fills and outside it.

A text in such a memory is scanned byte by byte up to the first zero byte.
The scan cString is bounded by the size of the buffer it reads; Terminated
says that the scan meets its zero byte inside that bound.
-/

namespace ModbusRtu
namespace Kernel

section ByteWindow

/-- Byte memory: one byte at every address. -/
abbrev ByteMem := Nat → UInt8

/-- The n bytes from address a on. -/
def window (m : ByteMem) (a n : Nat) : List UInt8 :=
  (List.range' a n).map m

@[simp] theorem length_window (m : ByteMem) (a n : Nat) :
    (window m a n).length = n := by
  simp [window]

@[simp] theorem window_zero (m : ByteMem) (a : Nat) :
    window m a 0 = [] := by
  rfl

theorem window_succ (m : ByteMem) (a n : Nat) :
    window m a (n + 1) = m a :: window m (a + 1) n := by
  simp [window, List.range'_succ]

/-- A window splits at every length. -/
theorem window_add (m : ByteMem) (a n k : Nat) :
    window m a (n + k) = window m a n ++ window m (a + n) k := by
  simp only [window, ← List.map_append]
  rw [List.range'_append_1]

theorem take_window (m : ByteMem) (a n k : Nat) :
    (window m a n).take k = window m a (min k n) := by
  rcases Nat.le_total k n with hle | hle
  · rw [Nat.min_eq_left hle, window, ← List.map_take,
      List.take_range'_of_length_ge hle, window]
  · rw [Nat.min_eq_right hle, List.take_of_length_le]
    rw [length_window]
    exact hle

theorem drop_window (m : ByteMem) (a n k : Nat) :
    (window m a n).drop k = window m (a + k) (n - k) := by
  rw [window, ← List.map_drop, List.drop_range', window, Nat.mul_one]

/-- Two windows are equal exactly when their bytes are. -/
theorem window_eq_iff {m m' : ByteMem} {a n : Nat} :
    window m a n = window m' a n ↔
      ∀ k, a ≤ k → k < a + n → m k = m' k := by
  simp only [window, List.map_inj_left, List.mem_range'_1, and_imp]

/-- A window is a window from zero on of the shifted memory. -/
theorem window_shift (m : ByteMem) (a n : Nat) :
    window m a n = window (fun k => m (a + k)) 0 n := by
  simp only [window, List.range'_eq_map_range, List.map_map]
  apply List.map_congr_left
  intro k _
  simp

/-- A window only depends on the bytes at its own addresses. -/
theorem window_congr
    {m m' : ByteMem} {a n : Nat}
    (h : ∀ k, a ≤ k → k < a + n → m k = m' k) :
    window m a n = window m' a n := by
  exact window_eq_iff.mpr h

theorem mem_window
    {m : ByteMem} {a n : Nat} {b : UInt8} :
    b ∈ window m a n ↔ ∃ k, k < n ∧ m (a + k) = b := by
  simp only [window, List.mem_map, List.mem_range'_1]
  constructor
  · rintro ⟨k, ⟨hle, hlt⟩, hb⟩
    refine ⟨k - a, by omega, ?_⟩
    rw [Nat.add_sub_cancel' hle]
    exact hb
  · rintro ⟨k, hk, hb⟩
    exact ⟨a + k, ⟨by omega, by omega⟩, hb⟩

/-- A byte stored right behind a window extends it. -/
theorem window_update_end
    (m : ByteMem) (a n : Nat) (b : UInt8) :
    window (Function.update m (a + n) b) a (n + 1) =
      window m a n ++ [b] := by
  have hbefore :
      window (Function.update m (a + n) b) a n = window m a n := by
    apply window_congr
    intro k _ hk
    rw [Function.update_of_ne (by omega)]
  rw [window_add, hbefore, window_succ, window_zero,
    Function.update_self]

/-- One halfword store: the address of its first byte and the value. -/
structure HalfwordStore where
  addr : Nat
  value : UInt16
deriving DecidableEq

/-- Little-endian halfword store: low byte first. -/
def storeHalfword (m : ByteMem) (st : HalfwordStore) : ByteMem :=
  Function.update
    (Function.update m st.addr (loByte st.value))
    (st.addr + 1) (hiByte st.value)

/-- A sequence of halfword stores, in order. -/
def storeAll (m : ByteMem) (sts : List HalfwordStore) : ByteMem :=
  sts.foldl storeHalfword m

@[simp] theorem storeAll_nil (m : ByteMem) :
    storeAll m [] = m := by
  rfl

@[simp] theorem storeAll_cons
    (m : ByteMem) (st : HalfwordStore) (sts : List HalfwordStore) :
    storeAll m (st :: sts) = storeAll (storeHalfword m st) sts := by
  rfl

theorem storeHalfword_outside
    (m : ByteMem) (st : HalfwordStore) {k : Nat}
    (hk : k < st.addr ∨ st.addr + 2 ≤ k) :
    storeHalfword m st k = m k := by
  rw [storeHalfword, Function.update_of_ne (by omega),
    Function.update_of_ne (by omega)]

theorem window_storeHalfword (m : ByteMem) (st : HalfwordStore) :
    window (storeHalfword m st) st.addr 2 =
      [loByte st.value, hiByte st.value] := by
  simp only [window_succ, window_zero, storeHalfword]
  rw [Function.update_self, Function.update_of_ne (by omega),
    Function.update_self]

/-- Consecutive stores from address a on, one for every value. -/
def consecutiveStores (a : Nat) : List UInt16 → List HalfwordStore
  | [] => []
  | x :: xs => ⟨a, x⟩ :: consecutiveStores (a + 2) xs

@[simp] theorem length_consecutiveStores (a : Nat) (xs : List UInt16) :
    (consecutiveStores a xs).length = xs.length := by
  induction xs generalizing a with
  | nil =>
      rfl
  | cons x xs ih =>
      simp [consecutiveStores, ih]

/-- Consecutive stores leave the bytes before and behind them alone. -/
theorem storeAll_consecutive_outside
    (m : ByteMem) (a : Nat) (xs : List UInt16) {k : Nat}
    (hk : k < a ∨ a + 2 * xs.length ≤ k) :
    storeAll m (consecutiveStores a xs) k = m k := by
  induction xs generalizing m a with
  | nil =>
      rfl
  | cons x xs ih =>
      simp only [List.length_cons] at hk
      rw [consecutiveStores, storeAll_cons, ih _ _ (by omega)]
      exact storeHalfword_outside m ⟨a, x⟩ (by simp only; omega)

/-- Consecutive stores fill their window with the stored bytes in order. -/
theorem window_storeAll_consecutive
    (m : ByteMem) (a : Nat) (xs : List UInt16) :
    window (storeAll m (consecutiveStores a xs)) a (2 * xs.length) =
      xs.flatMap (fun x => [loByte x, hiByte x]) := by
  induction xs generalizing m a with
  | nil =>
      rfl
  | cons x xs ih =>
      have hlen : 2 * (x :: xs).length = 2 + 2 * xs.length := by
        simp only [List.length_cons]
        omega
      have hhead :
          window (storeAll (storeHalfword m ⟨a, x⟩)
              (consecutiveStores (a + 2) xs)) a 2 =
            [loByte x, hiByte x] := by
        rw [← window_storeHalfword m ⟨a, x⟩]
        apply window_congr
        intro k _ hk
        exact storeAll_consecutive_outside _ _ _ (Or.inl hk)
      rw [consecutiveStores, storeAll_cons, hlen, window_add, hhead,
        ih (storeHalfword m ⟨a, x⟩) (a + 2)]
      rfl

theorem addr_of_mem_consecutiveStores
    {a : Nat} {xs : List UInt16} {st : HalfwordStore}
    (h : st ∈ consecutiveStores a xs) :
    ∃ j, j < xs.length ∧ st.addr = a + 2 * j := by
  induction xs generalizing a with
  | nil =>
      simp [consecutiveStores] at h
  | cons x xs ih =>
      rw [consecutiveStores, List.mem_cons] at h
      rcases h with rfl | h
      · exact ⟨0, by simp, by simp⟩
      · obtain ⟨j, hj, haddr⟩ := ih h
        exact ⟨j + 1, by simpa using hj, by omega⟩

end ByteWindow

section Text

/-- Text at address a: the bytes before the first zero, at most n of them. -/
def cString (m : ByteMem) (a n : Nat) : List UInt8 :=
  (window m a n).takeWhile (fun b => b != 0)

/-- One of the n bytes from address a on is zero. -/
def Terminated (m : ByteMem) (a n : Nat) : Prop :=
  ∃ k, k < n ∧ m (a + k) = 0

theorem terminated_iff_mem_window {m : ByteMem} {a n : Nat} :
    Terminated m a n ↔ 0 ∈ window m a n := by
  rw [mem_window]
  rfl

/-- A zero byte lies in the first n bytes or behind them. -/
theorem terminated_iff_or_behind
    {m : ByteMem} {n size : Nat} (hle : n ≤ size) :
    Terminated m 0 size ↔
      0 ∈ window m 0 n ∨ ∃ k, n ≤ k ∧ k < size ∧ m k = 0 := by
  rw [← terminated_iff_mem_window]
  simp only [Terminated, Nat.zero_add]
  constructor
  · rintro ⟨k, hk, hzero⟩
    by_cases hfront : k < n
    · exact Or.inl ⟨k, hfront, hzero⟩
    · exact Or.inr ⟨k, Nat.le_of_not_lt hfront, hk, hzero⟩
  · rintro (⟨k, hk, hzero⟩ | ⟨k, -, hk, hzero⟩)
    · exact ⟨k, Nat.lt_of_lt_of_le hk hle, hzero⟩
    · exact ⟨k, hk, hzero⟩

/-- A window without a zero byte is a prefix of the text that starts there. -/
theorem cString_add
    {m : ByteMem} {a n : Nat}
    (hne : ∀ b ∈ window m a n, b ≠ 0) (k : Nat) :
    cString m a (n + k) = window m a n ++ cString m (a + n) k := by
  simp only [cString]
  rw [window_add, List.takeWhile_append_of_pos]
  intro b hb
  simpa using hne b hb

/-- A text only depends on the bytes of its window. -/
theorem cString_congr
    {m m' : ByteMem} {a n : Nat}
    (h : ∀ k, a ≤ k → k < a + n → m k = m' k) :
    cString m a n = cString m' a n := by
  rw [cString, window_congr h, cString]

/-- A text is empty exactly when it starts with the zero byte. -/
theorem cString_succ_eq_nil_iff {m : ByteMem} {a n : Nat} :
    cString m a (n + 1) = [] ↔ m a = 0 := by
  rw [cString, window_succ, List.takeWhile_cons]
  by_cases hzero : m a = 0
  · simp [hzero]
  · simp [hzero]

end Text

end Kernel
end ModbusRtu
