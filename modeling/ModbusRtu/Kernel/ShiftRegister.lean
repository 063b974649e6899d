import Mathlib.Algebra.Group.Nat.Even
import Mathlib.Data.List.Infix
import Mathlib.Logic.Function.Iterate
import Mathlib.Tactic.Common

/-!
# Serial shift registers over exclusive or

A register of w bits takes a message bit by bit. The bit is added to the lowest
position, the register moves down by one position, and a generator is added if
a one has been moved out. Addition is exclusive or throughout.

Feeding bits is linear, so two messages of the same length leave the registers
apart by what their difference leaves in an empty register. If the generator
has its highest bit set, a register that is not empty never becomes empty by
moving down. From this follow the errors that a register value of zero rules
out: two messages that both leave zero differ in two positions that are a
register apart, in an even number of positions if the generator has an odd
number of ones, and not in two positions alone as long as the register does not
return to one.
-/

namespace ModbusRtu
namespace Kernel

section ShiftStep

variable {w : Nat}
variable (p : BitVec w)

/-- Move the register down by one position. -/
def shiftStep (s : BitVec w) : BitVec w :=
  if s.getLsbD 0 then (s >>> 1) ^^^ p else s >>> 1

/-- The register whose lowest bit is given and whose other bits are zero. -/
def bitWord (w : Nat) (b : Bool) : BitVec w :=
  if b then 1#w else 0#w

/-- Feed one bit. -/
def feedBit (s : BitVec w) (b : Bool) : BitVec w :=
  shiftStep p (s ^^^ bitWord w b)

/-- Feed bits, first to last. -/
def feedBits (s : BitVec w) (bits : List Bool) : BitVec w :=
  bits.foldl (feedBit p) s

@[simp] theorem feedBits_nil (s : BitVec w) :
    feedBits p s [] = s := by
  rfl

@[simp] theorem feedBits_cons (s : BitVec w) (b : Bool) (bits : List Bool) :
    feedBits p s (b :: bits) = feedBits p (feedBit p s b) bits := by
  rfl

theorem feedBits_append (s : BitVec w) (xs ys : List Bool) :
    feedBits p s (xs ++ ys) = feedBits p (feedBits p s xs) ys := by
  exact List.foldl_append

@[simp] theorem bitWord_false : bitWord w false = 0#w := by
  rfl

theorem bitWord_xor (b c : Bool) :
    bitWord w (b ^^ c) = bitWord w b ^^^ bitWord w c := by
  cases b <;> cases c <;> simp [bitWord]

theorem getLsbD_bitWord (b : Bool) (i : Nat) :
    (bitWord w b).getLsbD i = (b && decide (0 < w) && decide (i = 0)) := by
  cases b <;> simp [bitWord]

/-- Each bit of the moved register. -/
theorem getLsbD_shiftStep (s : BitVec w) (i : Nat) :
    (shiftStep p s).getLsbD i =
      (s.getLsbD (i + 1) ^^ (s.getLsbD 0 && p.getLsbD i)) := by
  simp only [shiftStep]
  cases hlow : s.getLsbD 0 <;>
    simp [BitVec.getLsbD_ushiftRight, Nat.add_comm]

theorem shiftStep_xor (s t : BitVec w) :
    shiftStep p (s ^^^ t) = shiftStep p s ^^^ shiftStep p t := by
  apply BitVec.eq_of_getLsbD_eq
  intro i _
  simp only [getLsbD_shiftStep, BitVec.getLsbD_xor]
  cases s.getLsbD 0 <;> cases t.getLsbD 0 <;> cases p.getLsbD i <;>
    cases s.getLsbD (i + 1) <;> cases t.getLsbD (i + 1) <;> rfl

@[simp] theorem shiftStep_zero : shiftStep p 0#w = 0#w := by
  simp [shiftStep]

/-- The difference of two registers is fed with the difference of the bits. -/
theorem feedBits_xor
    (s t : BitVec w) {xs ys : List Bool} (hlen : xs.length = ys.length) :
    feedBits p (s ^^^ t) (List.zipWith xor xs ys) =
      feedBits p s xs ^^^ feedBits p t ys := by
  induction xs generalizing s t ys with
  | nil =>
      rw [List.length_nil] at hlen
      rw [List.length_eq_zero_iff.mp hlen.symm]
      rfl
  | cons x xs ih =>
      cases ys with
      | nil =>
          cases hlen
      | cons y ys =>
          have hbit :
              feedBit p (s ^^^ t) (x ^^ y) =
                feedBit p s x ^^^ feedBit p t y := by
            simp only [feedBit, bitWord_xor, ← shiftStep_xor]
            congr 1
            ac_rfl
          rw [List.zipWith_cons_cons, feedBits_cons, hbit]
          exact ih _ _ (Nat.succ.inj hlen)

/-- Zeros move the register down and do nothing else. -/
theorem feedBits_replicate_false (s : BitVec w) (n : Nat) :
    feedBits p s (List.replicate n false) = (shiftStep p)^[n] s := by
  induction n generalizing s with
  | zero =>
      rfl
  | succ n ih =>
      rw [List.replicate_succ, feedBits_cons, ih, feedBit, bitWord_false,
        BitVec.xor_zero]
      rfl

theorem iterate_shiftStep_zero (n : Nat) :
    (shiftStep p)^[n] 0#w = 0#w := by
  exact Function.iterate_fixed (shiftStep_zero p) n

variable {p}

/-- With the highest bit of the generator set no one is lost. -/
theorem shiftStep_eq_zero_iff
    (hp : p.msb = true) {s : BitVec w} :
    shiftStep p s = 0#w ↔ s = 0#w := by
  constructor
  · intro hzero
    have hw : 0 < w := by
      by_contra hnone
      have hempty : w = 0 := by
        omega
      subst hempty
      simp [BitVec.msb] at hp
    have hbits : ∀ i,
        (s.getLsbD (i + 1) ^^ (s.getLsbD 0 && p.getLsbD i)) = false := by
      intro i
      rw [← getLsbD_shiftStep, hzero, BitVec.getLsbD_zero]
    have hlow : s.getLsbD 0 = false := by
      have htop := hbits (w - 1)
      rw [BitVec.getLsbD_of_ge s (w - 1 + 1) (by omega),
        ← BitVec.msb_eq_getLsbD_last, hp] at htop
      simpa using htop
    apply BitVec.eq_of_getLsbD_eq
    intro i _
    cases i with
    | zero =>
        simpa using hlow
    | succ i =>
        have hbit := hbits i
        rw [hlow] at hbit
        simpa using hbit
  · rintro rfl
    exact shiftStep_zero p

theorem iterate_shiftStep_eq_zero_iff
    (hp : p.msb = true) (n : Nat) {s : BitVec w} :
    (shiftStep p)^[n] s = 0#w ↔ s = 0#w := by
  induction n generalizing s with
  | zero =>
      rfl
  | succ n ih =>
      rw [Function.iterate_succ_apply, ih, shiftStep_eq_zero_iff hp]

end ShiftStep

section LowBits

variable {w : Nat}
variable (p : BitVec w)

/-- The lowest n bits of a word, lowest first. -/
def lowBits (x : BitVec w) (n : Nat) : List Bool :=
  (List.range n).map x.getLsbD

@[simp] theorem length_lowBits (x : BitVec w) (n : Nat) :
    (lowBits x n).length = n := by
  simp [lowBits]

theorem lowBits_succ (x : BitVec w) (n : Nat) :
    lowBits x (n + 1) = lowBits x n ++ [x.getLsbD n] := by
  simp [lowBits, List.range_succ]

/-- A word without its lowest bit moves down as it is. -/
theorem shiftStep_xor_lowBit (x : BitVec w) :
    shiftStep p (x ^^^ bitWord w (x.getLsbD 0)) = x >>> 1 := by
  apply BitVec.eq_of_getLsbD_eq
  intro i hi
  have hw : 0 < w := by
    omega
  rw [getLsbD_shiftStep, BitVec.getLsbD_xor, BitVec.getLsbD_xor,
    getLsbD_bitWord, getLsbD_bitWord, BitVec.getLsbD_ushiftRight]
  cases x.getLsbD 0 <;> simp [hw, Nat.add_comm]

/--
Adding a word and moving down feeds its lowest bits; what has not been fed
stays added.
-/
theorem iterate_shiftStep_xor (s x : BitVec w) (n : Nat) :
    (shiftStep p)^[n] (s ^^^ x) =
      feedBits p s (lowBits x n) ^^^ (x >>> n) := by
  induction n with
  | zero =>
      simp [lowBits]
  | succ n ih =>
      have hrest :
          shiftStep p ((x >>> n) ^^^ bitWord w (x.getLsbD n)) =
            x >>> (n + 1) := by
        have hlow : x.getLsbD n = (x >>> n).getLsbD 0 := by
          simp [BitVec.getLsbD_ushiftRight]
        rw [hlow, shiftStep_xor_lowBit, BitVec.shiftRight_add]
      calc
        (shiftStep p)^[n + 1] (s ^^^ x)
            = shiftStep p (feedBits p s (lowBits x n) ^^^ (x >>> n)) := by
              rw [Function.iterate_succ_apply', ih]
        _ = shiftStep p
              ((feedBits p s (lowBits x n) ^^^ bitWord w (x.getLsbD n)) ^^^
                ((x >>> n) ^^^ bitWord w (x.getLsbD n))) := by
              congr 1
              rw [BitVec.xor_comm (x >>> n), BitVec.xor_assoc,
                ← BitVec.xor_assoc (bitWord w (x.getLsbD n)),
                BitVec.xor_self, BitVec.zero_xor]
        _ = feedBits p s (lowBits x (n + 1)) ^^^ (x >>> (n + 1)) := by
              rw [shiftStep_xor, hrest, lowBits_succ, feedBits_append]
              rfl

variable {p}

/-- A register is emptied by its own bits and by no other word. -/
theorem feedBits_lowBits_eq_zero_iff
    (hp : p.msb = true) {s c : BitVec w} :
    feedBits p s (lowBits c w) = 0#w ↔ s = c := by
  have hshift : c >>> w = 0#w := by
    apply BitVec.eq_of_getLsbD_eq
    intro i _
    rw [BitVec.getLsbD_ushiftRight, BitVec.getLsbD_of_ge c (w + i) (by omega),
      BitVec.getLsbD_zero]
  have hfeed := iterate_shiftStep_xor p s c w
  rw [hshift, BitVec.xor_zero] at hfeed
  rw [← hfeed, iterate_shiftStep_eq_zero_iff hp]
  exact BitVec.xor_eq_zero_iff

end LowBits

section Patterns

/-- A list with a one has a first one. -/
theorem exists_first_true {d : List Bool} (h : true ∈ d) :
    ∃ a rest, d = List.replicate a false ++ true :: rest := by
  induction d with
  | nil =>
      cases h
  | cons b d ih =>
      cases b with
      | true =>
          exact ⟨0, d, rfl⟩
      | false =>
          obtain ⟨a, rest, rfl⟩ := ih (by simpa using h)
          exact ⟨a + 1, rest, rfl⟩

/-- A list with a one has a last one. -/
theorem exists_last_true {d : List Bool} (h : true ∈ d) :
    ∃ rest b, d = rest ++ true :: List.replicate b false := by
  obtain ⟨b, rest, hrev⟩ :=
    exists_first_true (d := d.reverse) (by simpa using h)
  refine ⟨rest.reverse, b, ?_⟩
  rw [← List.reverse_reverse d, hrev]
  simp

/-- A list without a one consists of zeros. -/
theorem eq_replicate_false_of_not_mem {d : List Bool} (h : true ∉ d) :
    d = List.replicate d.length false := by
  refine List.eq_replicate_iff.mpr ⟨rfl, fun b hb => ?_⟩
  cases b with
  | true =>
      exact absurd hb h
  | false =>
      rfl

end Patterns

section Silence

variable {w : Nat}
variable {p : BitVec w}

/-- A difference that leaves the empty register empty. -/
def Silent (p : BitVec w) (d : List Bool) : Prop :=
  feedBits p 0#w d = 0#w

/-- Two messages that take a register to zero differ silently. -/
theorem silent_of_feedBits_eq_zero
    {s : BitVec w} {xs ys : List Bool}
    (hlen : xs.length = ys.length)
    (hx : feedBits p s xs = 0#w)
    (hy : feedBits p s ys = 0#w) :
    Silent p (List.zipWith xor xs ys) := by
  have hdiff := feedBits_xor p s s hlen
  rwa [BitVec.xor_self, hx, hy, BitVec.xor_zero] at hdiff

/-- Zeros around a difference do not matter. -/
theorem silent_replicate_append_iff
    (hp : p.msb = true) {a b : Nat} {e : List Bool} :
    Silent p (List.replicate a false ++ e ++ List.replicate b false) ↔
      Silent p e := by
  simp only [Silent, feedBits_append, feedBits_replicate_false,
    iterate_shiftStep_zero, iterate_shiftStep_eq_zero_iff hp]

/-- A silent difference within one register length is none. -/
theorem not_mem_of_silent_short
    (hp : p.msb = true) {e : List Bool}
    (hlen : e.length ≤ w)
    (hsilent : Silent p e) :
    true ∉ e := by
  intro hmem
  obtain ⟨i, hi, hbit⟩ := List.mem_iff_getElem.mp hmem
  let c : BitVec w := BitVec.ofNat w (Nat.ofBits fun k : Fin e.length => e[k])
  have hc : ∀ k, c.getLsbD k = (e[k]?).getD false := by
    intro k
    simp only [c, BitVec.getLsbD_ofNat, Nat.testBit_ofBits]
    by_cases hk : k < e.length
    · have hkw : k < w := by
        omega
      simp [hk, hkw]
    · simp [hk]
  have hlow :
      lowBits c w = e ++ List.replicate (w - e.length) false := by
    apply List.ext_getElem
    · simp
      omega
    · intro k hk _
      simp only [lowBits, List.getElem_map, List.getElem_range, hc]
      by_cases hin : k < e.length
      · simp [hin]
      · rw [List.getElem_append_right (by omega), List.getElem_replicate]
        simp [hin]
  have hzero : feedBits p 0#w (lowBits c w) = 0#w := by
    rw [hlow, feedBits_append, hsilent, feedBits_replicate_false,
      iterate_shiftStep_zero]
  have hnone : c = 0#w := by
    exact ((feedBits_lowBits_eq_zero_iff hp).mp hzero).symm
  have hfalse := hc i
  rw [hnone, BitVec.getLsbD_zero, List.getElem?_eq_getElem hi] at hfalse
  simp [hbit] at hfalse

/-- The first and the last one of a silent difference are a register apart. -/
theorem spread_of_silent
    (hp : p.msb = true) {d : List Bool}
    (hsilent : Silent p d)
    (hmem : true ∈ d) :
    ∃ i j, i + w ≤ j ∧ d[i]? = some true ∧ d[j]? = some true := by
  obtain ⟨a, rest, rfl⟩ := exists_first_true hmem
  obtain ⟨e, b, hrest⟩ :=
    exists_last_true (d := true :: rest) List.mem_cons_self
  rw [hrest] at hsilent ⊢
  have hlast :
      (List.replicate a false ++
        (e ++ true :: List.replicate b false))[a + e.length]? = some true := by
    rw [List.getElem?_append_right (by simp), List.length_replicate,
      Nat.add_sub_cancel_left, List.getElem?_append_right (Nat.le_refl _),
      Nat.sub_self]
    rfl
  have hfirst :
      (List.replicate a false ++
        (e ++ true :: List.replicate b false))[a]? = some true := by
    rw [← hrest, List.getElem?_append_right (by simp), List.length_replicate,
      Nat.sub_self]
    rfl
  refine ⟨a, a + e.length, ?_, hfirst, hlast⟩
  by_contra hshort
  have hpadded :
      List.replicate a false ++ (e ++ true :: List.replicate b false) =
        List.replicate a false ++ (e ++ [true]) ++
          List.replicate b false := by
    simp
  rw [hpadded, silent_replicate_append_iff hp] at hsilent
  refine not_mem_of_silent_short hp ?_ hsilent (by simp)
  rw [List.length_append, List.length_singleton]
  omega

/-- Whether the number of ones is odd. -/
def oddOnes (bits : List Bool) : Bool :=
  bits.foldr xor false

@[simp] theorem oddOnes_cons (b : Bool) (bits : List Bool) :
    oddOnes (b :: bits) = (b ^^ oddOnes bits) := by
  rfl

theorem oddOnes_append (xs ys : List Bool) :
    oddOnes (xs ++ ys) = (oddOnes xs ^^ oddOnes ys) := by
  induction xs with
  | nil =>
      simp [oddOnes]
  | cons x xs ih =>
      rw [List.cons_append, oddOnes_cons, oddOnes_cons, ih, Bool.xor_assoc]

theorem oddOnes_eq_decide (bits : List Bool) :
    oddOnes bits = decide (bits.count true % 2 = 1) := by
  induction bits with
  | nil =>
      rfl
  | cons b bits ih =>
      rw [oddOnes_cons, ih]
      cases b with
      | true =>
          rw [List.count_cons_self, Bool.true_xor, ← decide_not]
          congr 1
          simp only [eq_iff_iff]
          omega
      | false =>
          simp

/-- Ones of two words added bit by bit. -/
theorem oddOnes_map_xor (f g : Nat → Bool) (is : List Nat) :
    oddOnes (is.map fun i => (f i ^^ g i)) =
      (oddOnes (is.map f) ^^ oddOnes (is.map g)) := by
  induction is with
  | nil =>
      rfl
  | cons i is ih =>
      simp only [List.map_cons, oddOnes_cons, ih]
      cases f i <;> cases g i <;> simp

theorem oddOnes_lowBits_xor (s t : BitVec w) :
    oddOnes (lowBits (s ^^^ t) w) =
      (oddOnes (lowBits s w) ^^ oddOnes (lowBits t w)) := by
  have hbits : (s ^^^ t).getLsbD = fun i => (s.getLsbD i ^^ t.getLsbD i) := by
    funext i
    exact BitVec.getLsbD_xor
  simp only [lowBits, hbits]
  exact oddOnes_map_xor _ _ _

/-- Moving down keeps the parity if the generator has an odd one. -/
theorem oddOnes_shiftStep
    (hodd : oddOnes (lowBits p w) = true) (s : BitVec w) :
    oddOnes (lowBits (shiftStep p s) w) = oddOnes (lowBits s w) := by
  cases w with
  | zero =>
      rfl
  | succ v =>
      have hmoved :
          oddOnes (lowBits (s >>> 1) (v + 1)) =
            (s.getLsbD 0 ^^ oddOnes (lowBits s (v + 1))) := by
        have hup : lowBits (s >>> 1) (v + 1) =
            (List.range v).map (fun i => s.getLsbD (i + 1)) ++ [false] := by
          rw [lowBits_succ, BitVec.getLsbD_ushiftRight,
            BitVec.getLsbD_of_ge s (1 + v) (by omega), lowBits]
          congr 1
          refine List.map_congr_left fun i _ => ?_
          rw [BitVec.getLsbD_ushiftRight, Nat.add_comm 1 i]
        have hdown : lowBits s (v + 1) =
            s.getLsbD 0 ::
              (List.range v).map (fun i => s.getLsbD (i + 1)) := by
          rw [lowBits, List.range_succ_eq_map, List.map_cons, List.map_map]
          rfl
        rw [hup, hdown, oddOnes_append, oddOnes_cons, oddOnes_cons,
          ← Bool.xor_assoc (s.getLsbD 0), Bool.xor_self, Bool.false_xor]
        simp [oddOnes]
      rw [shiftStep]
      cases hlow : s.getLsbD 0 with
      | true =>
          rw [if_pos rfl, oddOnes_lowBits_xor, hodd, hmoved, hlow]
          simp
      | false =>
          rw [if_neg (by simp), hmoved, hlow, Bool.false_xor]

theorem oddOnes_bitWord (hw : 0 < w) (b : Bool) :
    oddOnes (lowBits (bitWord w b) w) = b := by
  obtain ⟨v, rfl⟩ := Nat.exists_eq_succ_of_ne_zero (Nat.ne_of_gt hw)
  have hbits : lowBits (bitWord (v + 1) b) (v + 1) =
      b :: List.replicate v false := by
    rw [lowBits, List.range_succ_eq_map, List.map_cons, List.map_map]
    refine congrArg₂ _ (by rw [getLsbD_bitWord]; simp) ?_
    refine List.eq_replicate_iff.mpr ⟨by simp, ?_⟩
    simp [getLsbD_bitWord]
  rw [hbits, oddOnes_cons, oddOnes_eq_decide, List.count_replicate]
  simp

/-- The parity of the register follows the parity of the message. -/
theorem oddOnes_feedBits
    (hw : 0 < w) (hodd : oddOnes (lowBits p w) = true)
    (s : BitVec w) (bits : List Bool) :
    oddOnes (lowBits (feedBits p s bits) w) =
      (oddOnes (lowBits s w) ^^ oddOnes bits) := by
  induction bits generalizing s with
  | nil =>
      simp [oddOnes]
  | cons b bits ih =>
      rw [feedBits_cons, ih, feedBit, oddOnes_shiftStep hodd,
        oddOnes_lowBits_xor, oddOnes_bitWord hw, oddOnes_cons,
        Bool.xor_assoc]

/-- A silent difference has an even number of ones. -/
theorem even_of_silent
    (hw : 0 < w) (hodd : oddOnes (lowBits p w) = true)
    {d : List Bool} (hsilent : Silent p d) :
    d.count true % 2 = 0 := by
  have hparity := oddOnes_feedBits hw hodd 0#w d
  rw [hsilent] at hparity
  have heven : oddOnes d = false := by
    cases hd : oddOnes d with
    | false =>
        rfl
    | true =>
        rw [hd] at hparity
        simp at hparity
  rw [oddOnes_eq_decide, decide_eq_false_iff_not] at heven
  omega

/-- Two ones alone are silent only if the register returns to one. -/
theorem returns_of_silent_pair
    (hp : p.msb = true) {a b c : Nat}
    (hsilent : Silent p
      (List.replicate a false ++
        (true :: (List.replicate b false ++ [true])) ++
        List.replicate c false)) :
    (shiftStep p)^[b + 1] 1#w = 1#w := by
  rw [silent_replicate_append_iff hp, Silent, feedBits_cons, feedBits_append,
    feedBits_replicate_false] at hsilent
  have hlast :
      shiftStep p
        ((shiftStep p)^[b] (shiftStep p 1#w) ^^^ 1#w) = 0#w := by
    simpa [feedBit, bitWord] using hsilent
  rw [shiftStep_eq_zero_iff hp, BitVec.xor_eq_zero_iff] at hlast
  rw [Function.iterate_succ_apply, hlast]

/-- A list with two ones alone. -/
theorem exists_pair_of_count_eq_two
    {d : List Bool} (hcount : d.count true = 2) :
    ∃ a b c, d =
      List.replicate a false ++
        (true :: (List.replicate b false ++ [true])) ++
        List.replicate c false := by
  obtain ⟨a, rest, rfl⟩ :=
    exists_first_true (List.count_pos_iff.mp (by omega : 0 < d.count true))
  have hrest : rest.count true = 1 := by
    rw [List.count_append, List.count_replicate, List.count_cons_self]
      at hcount
    simpa using hcount
  obtain ⟨b, rest', rfl⟩ :=
    exists_first_true (List.count_pos_iff.mp (by omega : 0 < rest.count true))
  have hnone : rest'.count true = 0 := by
    rw [List.count_append, List.count_replicate, List.count_cons_self]
      at hrest
    simpa using hrest
  refine ⟨a, b, rest'.length, ?_⟩
  conv_lhs =>
    rw [eq_replicate_false_of_not_mem (List.count_eq_zero.mp hnone)]
  simp

/--
The distance of a shift register code: over lengths for which the register
does not return to one, a silent difference that is not empty has at least
four ones, an even number of them, and two of them a register apart.
-/
theorem distance_of_silent
    (hp : p.msb = true) (hw : 0 < w)
    (hodd : oddOnes (lowBits p w) = true)
    {N : Nat}
    (horder : ∀ k, 0 < k → k < N → (shiftStep p)^[k] 1#w ≠ 1#w)
    {d : List Bool}
    (hlen : d.length ≤ N)
    (hsilent : Silent p d)
    (hmem : true ∈ d) :
    4 ≤ d.count true ∧ d.count true % 2 = 0 ∧
      ∃ i j, i + w ≤ j ∧ d[i]? = some true ∧ d[j]? = some true := by
  have heven := even_of_silent hw hodd hsilent
  have hpos : 0 < d.count true := by
    exact List.count_pos_iff.mpr hmem
  have hpair : d.count true ≠ 2 := by
    intro htwo
    obtain ⟨a, b, c, rfl⟩ := exists_pair_of_count_eq_two htwo
    have hshort : b + 1 < N := by
      simp at hlen
      omega
    exact horder (b + 1) (Nat.succ_pos b) hshort
      (returns_of_silent_pair hp hsilent)
  exact ⟨by omega, heven, spread_of_silent hp hsilent hmem⟩

end Silence

section Order

variable {w : Nat}

/-- Run the register n times and look for a one before each step. -/
def neverOne (p : BitVec w) : Nat → BitVec w → Bool
  | 0, _ => true
  | n + 1, s => if s = 1#w then false else neverOne p n (shiftStep p s)

theorem iterate_ne_one_of_neverOne
    {p : BitVec w} {n : Nat} {s : BitVec w}
    (h : neverOne p n s = true) {k : Nat} (hk : k < n) :
    (shiftStep p)^[k] s ≠ 1#w := by
  induction n generalizing s k with
  | zero =>
      omega
  | succ n ih =>
      rw [neverOne] at h
      split at h
      · cases h
      · rename_i hne
        cases k with
        | zero =>
            exact hne
        | succ k =>
            rw [Function.iterate_succ_apply]
            exact ih h (by omega)

/-- A register that does not meet one in the first steps after one. -/
theorem iterate_one_ne_one_of_neverOne
    {p : BitVec w} {N : Nat}
    (h : neverOne p N (shiftStep p 1#w) = true) :
    ∀ k, 0 < k → k < N → (shiftStep p)^[k] 1#w ≠ 1#w := by
  intro k hpos hk
  obtain ⟨j, rfl⟩ := Nat.exists_eq_succ_of_ne_zero (Nat.ne_of_gt hpos)
  rw [Function.iterate_succ_apply]
  exact iterate_ne_one_of_neverOne h (by omega)

end Order

end Kernel
end ModbusRtu
