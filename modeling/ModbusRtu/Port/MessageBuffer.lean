import Mathlib.Data.List.GetD
import ModbusRtu.Port.FrameServer

/-!
# The message buffer as a list

Between two functions of the server the message buffer holds, from its start on,
the bytes of the message that has been heard or put together so far. This module
states what the functions on the buffer do in these terms: taking fields out
reads them off the list, putting fields in and receiving extend it, and sending
writes it with its check.

A server is at a place of a message if the buffer holds the message over what
was in it before and the index is the place. No transaction identifier is in
use, and a message of a serial line is never complete.
-/

namespace ModbusRtu
namespace Port

open Kernel

section Overwrite

theorem storeBytes_inside
    {m : ByteMem} {a k : Nat} {bytes : List UInt8}
    (ha : a ≤ k) (hk : k < a + bytes.length) :
    storeBytes m a bytes k = bytes.getD (k - a) 0 := by
  have hlt : k - a < bytes.length := by
    omega
  rw [storeBytes, if_pos ha, List.getD_eq_getElem _ _ hlt,
    List.getD_eq_getElem _ _ hlt]

theorem storeBytes_outside
    {m : ByteMem} {a k : Nat} {bytes : List UInt8}
    (hk : k < a ∨ a + bytes.length ≤ k) :
    storeBytes m a bytes k = m k := by
  rw [storeBytes]
  split
  · rw [List.getD_eq_default _ _ (by omega)]
  · rfl

@[simp] theorem storeBytes_nil (m : ByteMem) (a : Nat) :
    storeBytes m a [] = m := by
  funext k
  exact storeBytes_outside (by rw [List.length_nil]; omega)

/-- Bytes stored behind a message extend it. -/
theorem storeBytes_append (m : ByteMem) (a : Nat) (xs ys : List UInt8) :
    storeBytes (storeBytes m a xs) (a + xs.length) ys =
      storeBytes m a (xs ++ ys) := by
  funext k
  by_cases hys : a + xs.length ≤ k ∧ k < a + xs.length + ys.length
  · rw [storeBytes_inside hys.1 hys.2,
      storeBytes_inside (by omega) (by rw [List.length_append]; omega),
      List.getD_append_right _ _ _ _ (by omega)]
    congr 1
    omega
  · rw [storeBytes_outside (by omega)]
    by_cases hxs : a ≤ k ∧ k < a + xs.length
    · rw [storeBytes_inside hxs.1 hxs.2,
        storeBytes_inside hxs.1 (by rw [List.length_append]; omega),
        List.getD_append _ _ _ _ (by omega)]
    · rw [storeBytes_outside (by omega),
        storeBytes_outside (by rw [List.length_append]; omega)]

theorem getD_window
    {m : ByteMem} {a n k : Nat} (hk : k < n) :
    (window m a n).getD k 0 = m (a + k) := by
  rw [List.getD_eq_getElem _ _ (by rw [length_window]; exact hk)]
  simp [window]

theorem window_storeBytes_prefix
    (m : ByteMem) (xs ys : List UInt8) :
    window (storeBytes m 0 (xs ++ ys)) 0 xs.length = xs := by
  apply List.ext_getElem
  · simp
  · intro i hi hxs
    simp only [window, List.getElem_map, List.getElem_range', Nat.one_mul,
      Nat.zero_add]
    rw [storeBytes_inside (Nat.zero_le i)
        (by rw [List.length_append]; omega), Nat.sub_zero,
      List.getD_append _ _ _ _ hxs, List.getD_eq_getElem _ _ hxs]

@[simp] theorem window_storeBytes (m : ByteMem) (xs : List UInt8) :
    window (storeBytes m 0 xs) 0 xs.length = xs := by
  have hprefix := window_storeBytes_prefix m xs []
  rwa [List.append_nil] at hprefix

/-- Storing what is there changes nothing. -/
theorem storeBytes_window (m : ByteMem) (n : Nat) :
    storeBytes m 0 (window m 0 n) = m := by
  funext k
  by_cases hk : k < n
  · rw [storeBytes_inside (Nat.zero_le k) (by rw [length_window]; omega),
      Nat.sub_zero, getD_window hk, Nat.zero_add]
  · rw [storeBytes_outside (by rw [length_window]; omega)]

end Overwrite

section Places

variable {δ : Type}

/-- The server at a place of a message that lies over an older buffer. -/
abbrev serverAt (old : ByteMem) (message : List UInt8) (place : Nat)
    (unit fc : UInt8) (broadcast ignored : Bool)
    (byteTimeoutMs readTimeoutMs : Int32) (d : δ) : Server δ where
  msg :=
    { buf := storeBytes old 0 message
      bufIdx := place
      unitId := unit
      fc := fc
      transactionId := 0
      broadcast := broadcast
      ignored := ignored
      complete := false }
  byteTimeoutMs := byteTimeoutMs
  readTimeoutMs := readTimeoutMs
  device := d

variable {old : ByteMem} {message : List UInt8} {place : Nat}
variable {unit fc : UInt8} {broadcast ignored : Bool}
variable {bt rt : Int32} {d : δ}
variable {α β : Type}

theorem run_bind (x : ServerM δ α) (f : α → ServerM δ β) (s : Server δ) :
    (x >>= f) s = (x s).bind fun r => f r.1 r.2 := by
  rfl

@[simp] theorem run_pure (a : α) (s : Server δ) :
    (pure a : ServerM δ α) s = .ret (a, s) := by
  rfl

@[simp] theorem run_pure_bind
    (a : α) (f : α → ServerM δ β) (s : Server δ) :
    ((pure a : ServerM δ α) >>= f) s = f a s := by
  rfl

@[simp] theorem run_inspect
    (g : Server δ → α) (f : α → ServerM δ β) (s : Server δ) :
    (inspect g >>= f) s = f (g s) s := by
  rfl

@[simp] theorem run_modify
    (g : Server δ → Server δ) (f : PUnit → ServerM δ β) (s : Server δ) :
    ((modify g : ServerM δ PUnit) >>= f) s = f ⟨⟩ (g s) := by
  rfl

@[simp] theorem run_modifyMsg
    (g : NmbsMsg → NmbsMsg) (f : PUnit → ServerM δ β) (s : Server δ) :
    (modifyMsg g >>= f) s = f ⟨⟩ { s with msg := g s.msg } := by
  rfl

@[simp] theorem run_callback
    (g : δ → α × δ) (f : α → ServerM δ β) (s : Server δ) :
    (callback g >>= f) s =
      f (g s.device).1 { s with device := (g s.device).2 } := by
  rfl

@[simp] theorem run_bind_assoc {γ : Type}
    (x : ServerM δ α) (f : α → ServerM δ β) (g : β → ServerM δ γ) :
    (x >>= f) >>= g = x >>= fun a => f a >>= g := by
  funext s
  simp only [run_bind]
  induction x s with
  | ret r =>
      rfl
  | fault =>
      rfl
  | ask q next ih =>
      exact congrArg (Dialogue.ask q) (funext ih)

/-- Any bytes at the start of the buffer may count as the message. -/
theorem serverAt_window (n : Nat) :
    serverAt old message place unit fc broadcast ignored bt rt d =
      serverAt (storeBytes old 0 message)
        (window (storeBytes old 0 message) 0 n) place unit fc broadcast
        ignored bt rt d := by
  simp only [serverAt, storeBytes_window]

/-- What lies behind the place of a message counts as older. -/
theorem serverAt_take (hplace : place ≤ message.length) :
    serverAt old message place unit fc broadcast ignored bt rt d =
      serverAt (storeBytes old 0 message) (message.take place) place unit fc
        broadcast ignored bt rt d := by
  have hfront :
      window (storeBytes old 0 message) 0 place = message.take place := by
    have hprefix :=
      window_storeBytes_prefix old (message.take place) (message.drop place)
    rwa [List.take_append_drop, List.length_take,
      Nat.min_eq_left hplace] at hprefix
  rw [serverAt_window place, hfront]

theorem run_loadAt
    {a n : Nat} (h : Inside a n) (f : List UInt8 → ServerM δ β)
    (s : Server δ) :
    (loadAt a n >>= f) s = f (window s.msg.buf a n) s := by
  rw [loadAt, if_pos h, run_inspect]

theorem run_storeAt
    {a : Nat} {bytes : List UInt8} (h : Inside a bytes.length)
    (f : PUnit → ServerM δ β) (s : Server δ) :
    (storeAt a bytes >>= f) s =
      f ⟨⟩ { s with
        msg := { s.msg with buf := storeBytes s.msg.buf a bytes } } := by
  rw [storeAt, if_pos h, run_modifyMsg]

theorem run_discardN
    {n : Nat} (hplace : place + n < 65536) (f : PUnit → ServerM δ β) :
    (discardN n >>= f)
        (serverAt old message place unit fc broadcast ignored bt rt d) =
      f ⟨⟩
        (serverAt old message (place + n) unit fc broadcast ignored
          bt rt d) := by
  rw [discardN, run_modifyMsg, Nat.mod_eq_of_lt hplace]

end Places

section Fields

variable {δ : Type} {β : Type}
variable {old : ByteMem} {message : List UInt8} {place : Nat}
variable {unit fc : UInt8} {broadcast ignored : Bool}
variable {bt rt : Int32} {d : δ}

theorem run_get1
    (hplace : place < message.length) (hfit : message.length ≤ msgBufSize)
    (f : UInt8 → ServerM δ β) :
    (get1 >>= f)
        (serverAt old message place unit fc broadcast ignored bt rt d) =
      f (message.getD place 0)
        (serverAt old message (place + 1) unit fc broadcast ignored
          bt rt d) := by
  have hsize : msgBufSize = 260 := rfl
  rw [get1, run_bind_assoc, run_inspect, run_bind_assoc,
    run_loadAt (a := place) (Or.inr (by omega)), run_bind_assoc,
    run_discardN (by omega)]
  have hbyte :
      (window (storeBytes old 0 message) place 1).getD 0 0 =
        message.getD place 0 := by
    rw [getD_window Nat.zero_lt_one, Nat.add_zero,
      storeBytes_inside (Nat.zero_le _) (by omega), Nat.sub_zero]
  exact congrArg₂ f hbyte rfl

theorem run_get2
    (hplace : place + 1 < message.length)
    (hfit : message.length ≤ msgBufSize)
    (f : UInt16 → ServerM δ β) :
    (get2 >>= f)
        (serverAt old message place unit fc broadcast ignored bt rt d) =
      f (wordAt message place)
        (serverAt old message (place + 2) unit fc broadcast ignored
          bt rt d) := by
  have hsize : msgBufSize = 260 := rfl
  rw [get2, run_bind_assoc, run_inspect, run_bind_assoc,
    run_loadAt (a := place) (Or.inr (by omega)), run_bind_assoc,
    run_discardN (by omega)]
  have hword :
      halfword ((window (storeBytes old 0 message) place 2).getD 0 0)
          ((window (storeBytes old 0 message) place 2).getD 1 0) =
        wordAt message place := by
    rw [getD_window (by omega), getD_window (by omega), Nat.add_zero,
      storeBytes_inside (Nat.zero_le _) (by omega), Nat.sub_zero,
      storeBytes_inside (Nat.zero_le _) (by omega), Nat.sub_zero]
    rfl
  exact congrArg₂ f hword rfl

/-- Put bytes at the end of the message. -/
theorem run_storeAt_end
    {bytes : List UInt8}
    (hfit : message.length + bytes.length ≤ msgBufSize)
    (f : PUnit → ServerM δ β) :
    (storeAt message.length bytes >>= f)
        (serverAt old message message.length unit fc broadcast ignored
          bt rt d) =
      f ⟨⟩
        (serverAt old (message ++ bytes) message.length unit fc broadcast
          ignored bt rt d) := by
  rw [run_storeAt (Or.inr hfit)]
  refine congrArg (f ⟨⟩) ?_
  have happend := storeBytes_append old 0 message bytes
  rw [Nat.zero_add] at happend
  simp only [happend]

theorem run_put1
    {b : UInt8} (hfit : message.length + 1 ≤ msgBufSize)
    (f : PUnit → ServerM δ β) :
    (put1 b >>= f)
        (serverAt old message message.length unit fc broadcast ignored
          bt rt d) =
      f ⟨⟩
        (serverAt old (message ++ [b]) (message ++ [b]).length unit fc
          broadcast ignored bt rt d) := by
  have hsize : msgBufSize = 260 := rfl
  rw [put1, run_bind_assoc, run_inspect, run_bind_assoc,
    run_storeAt_end (by simpa using hfit), run_discardN (by omega),
    List.length_append, List.length_singleton]

theorem run_put2
    {w : UInt16} (hfit : message.length + 2 ≤ msgBufSize)
    (f : PUnit → ServerM δ β) :
    (put2 w >>= f)
        (serverAt old message message.length unit fc broadcast ignored
          bt rt d) =
      f ⟨⟩
        (serverAt old (message ++ wireBytes w)
          (message ++ wireBytes w).length unit fc broadcast ignored
          bt rt d) := by
  have hsize : msgBufSize = 260 := rfl
  have htwo : (wireBytes w).length = 2 := rfl
  rw [put2, run_bind_assoc, run_inspect, run_bind_assoc,
    run_storeAt_end (by omega), run_discardN (by omega),
    List.length_append, htwo]

theorem run_putWords
    {ws : List UInt16} (hfit : message.length + 2 * ws.length ≤ msgBufSize)
    (f : PUnit → ServerM δ β) :
    (putWords ws >>= f)
        (serverAt old message message.length unit fc broadcast ignored
          bt rt d) =
      f ⟨⟩
        (serverAt old (message ++ wireString ws)
          (message ++ wireString ws).length unit fc broadcast ignored
          bt rt d) := by
  induction ws generalizing message with
  | nil =>
      rw [wireString_nil, List.append_nil]
      rfl
  | cons w ws ih =>
      have htwo : (wireBytes w).length = 2 := rfl
      rw [List.length_cons] at hfit
      rw [putWords, run_bind_assoc, run_put2 (by omega),
        ih (by rw [List.length_append, htwo]; omega), List.append_assoc]
      rfl

theorem run_getWords
    {n : Nat}
    (hplace : place + 2 * n ≤ message.length)
    (hfit : message.length ≤ msgBufSize)
    (f : List UInt16 → ServerM δ β) :
    (getWords n >>= f)
        (serverAt old message place unit fc broadcast ignored bt rt d) =
      f (wireHalfwords ((message.drop place).take (2 * n)))
        (serverAt old message (place + 2 * n) unit fc broadcast ignored
          bt rt d) := by
  induction n generalizing place f with
  | zero =>
      rw [Nat.mul_zero, List.take_zero]
      rfl
  | succ n ih =>
      have hsplit :
          (message.drop place).take (2 * (n + 1)) =
            message.getD place 0 :: message.getD (place + 1) 0 ::
              (message.drop (place + 2)).take (2 * n) := by
        rw [List.drop_eq_getElem_cons (by omega : place < message.length),
          List.drop_eq_getElem_cons (by omega : place + 1 < message.length),
          show 2 * (n + 1) = 2 * n + 1 + 1 by omega, List.take_succ_cons,
          List.take_succ_cons, List.getD_eq_getElem _ _ (by omega),
          List.getD_eq_getElem _ _ (by omega)]
      rw [getWords, run_bind_assoc, run_get2 (by omega) hfit,
        run_bind_assoc, ih (by omega), hsplit,
        show place + 2 + 2 * n = place + 2 * (n + 1) by omega]
      rfl

end Fields

end Port
end ModbusRtu
