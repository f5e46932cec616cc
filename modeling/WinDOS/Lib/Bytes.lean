import Mathlib.Algebra.Group.Int.Defs
import Mathlib.Algebra.Group.Nat.Defs
import Mathlib.Data.List.Basic
import Mathlib.Logic.Function.Basic

/-!
# Byte buffers

A buffer is a total function from offsets to bytes. `blit` is `memcpy` to an offset,
`le` and `leBytes` read and write little-endian numbers, `bit` and `setBit` address the
bits of a buffer with bit 0 of byte 0 first. `digits` writes a number with letters of an
alphabet, the highest digit first.
-/

set_option autoImplicit false

namespace Bytes

abbrev Byte := BitVec 8
abbrev Buf := Nat → Byte

/-- `memcpy(dst + off, src, len)`. -/
def blit (dst : Buf) (off : Nat) (src : Buf) (len : Nat) : Buf := fun i =>
  if off ≤ i ∧ i < off + len then src (i - off) else dst i

/-- The buffer from an offset on. -/
def from_ (src : Buf) (off : Nat) : Buf := fun i => src (off + i)

section Blit

variable {dst src : Buf} {off len i : Nat}

theorem blit_in (h0 : off ≤ i) (h1 : i < off + len) : blit dst off src len i = src (i - off) :=
  if_pos ⟨h0, h1⟩

theorem blit_below (h : i < off) : blit dst off src len i = dst i := if_neg (by omega)

theorem blit_above (h : off + len ≤ i) : blit dst off src len i = dst i := if_neg (by omega)

@[simp] theorem blit_zero (dst : Buf) (off : Nat) (src : Buf) : blit dst off src 0 = dst :=
  funext fun _ => if_neg (by omega)

theorem blit_blit (dst src : Buf) (off a b : Nat) :
    blit (blit dst off src a) (off + a) (from_ src a) b = blit dst off src (a + b) := by
  funext i
  unfold blit from_
  split
  · rename_i h
    rw [if_pos (by omega)]
    congr 1
    omega
  · split
    · rename_i h
      rw [if_pos (by omega)]
    · rw [if_neg (by omega)]

theorem blit_congr {src' : Buf} (h : ∀ j, j < len → src j = src' j) :
    blit dst off src len = blit dst off src' len := by
  funext i
  unfold blit
  split
  · exact h _ (by omega)
  · rfl

end Blit

/-! ### Little-endian numbers -/

/-- The number in `n` bytes from `off` on. -/
def le (src : Buf) (off : Nat) : Nat → Nat
  | 0 => 0
  | n + 1 => (src off).toNat + 256 * le src (off + 1) n

/-- The bytes of a number, lowest first. -/
def leBytes (v : Nat) : Buf := fun i => BitVec.ofNat 8 (v / 256 ^ i)

theorem le_lt (src : Buf) (off n : Nat) : le src off n < 256 ^ n := by
  induction n generalizing off with
  | zero => exact Nat.one_pos
  | succ n ih =>
    have hb := (src off).isLt
    have hn := ih (off + 1)
    rw [le, Nat.pow_succ]
    omega

theorem le_congr {src src' : Buf} {off n : Nat} (h : ∀ i, off ≤ i → i < off + n → src i = src' i) :
    le src off n = le src' off n := by
  induction n generalizing off with
  | zero => rfl
  | succ n ih =>
    rw [le, le, h off (Nat.le_refl _) (by omega), ih fun i h0 h1 => h i (by omega) (by omega)]

theorem le_from (src : Buf) (base off n : Nat) : le (from_ src base) off n = le src (base + off) n := by
  induction n generalizing off with
  | zero => rfl
  | succ n ih => rw [le, le, ih]; rfl

theorem from_leBytes (v : Nat) : from_ (leBytes v) 1 = leBytes (v / 256) := by
  funext i
  rw [from_, leBytes, leBytes, Nat.pow_add, Nat.pow_one, Nat.div_div_eq_div_mul]

theorem le_leBytes {v n : Nat} (h : v < 256 ^ n) : le (leBytes v) 0 n = v := by
  induction n generalizing v with
  | zero =>
    rw [Nat.pow_zero] at h
    rw [le]
    omega
  | succ n ih =>
    rw [Nat.pow_succ] at h
    have hrest : le (leBytes v) (0 + 1) n = v / 256 := by
      rw [← Nat.add_comm 1 0, ← le_from, from_leBytes, ih (by omega)]
    rw [le, hrest, leBytes, BitVec.toNat_ofNat, Nat.pow_zero, Nat.div_one]
    omega

theorem le_blit_leBytes {dst : Buf} {off v n : Nat} (h : v < 256 ^ n) :
    le (blit dst off (leBytes v) n) off n = v := by
  rw [← Nat.add_zero off, ← le_from, Nat.add_zero]
  refine (le_congr fun i _ h1 => ?_).trans (le_leBytes h)
  rw [from_, blit_in (by omega) (by omega), Nat.add_sub_cancel_left]

/-! ### Bits -/

def bit (buf : Buf) (k : Nat) : Bool := (buf (k / 8)).getLsbD (k % 8)

/-- `buf[k / 8] |= 1 << (k % 8)`. -/
def setBit (buf : Buf) (k : Nat) : Buf := fun i =>
  if i = k / 8 then buf i ||| (1#8 <<< (k % 8)) else buf i

/-- `buf[k / 8] &= ~(1 << (k % 8))`. -/
def clrBit (buf : Buf) (k : Nat) : Buf := fun i =>
  if i = k / 8 then buf i &&& ~~~(1#8 <<< (k % 8)) else buf i

/-- `(buf[k / 8] & (1 << (k % 8))) == 0`. -/
theorem and_mask_eq_zero_iff (buf : Buf) (k : Nat) :
    buf (k / 8) &&& (1#8 <<< (k % 8)) = 0#8 ↔ bit buf k = false := by
  have hlt : k % 8 < 8 := Nat.mod_lt _ (by omega)
  constructor
  · intro h
    have := congrArg (fun v : Byte => v.getLsbD (k % 8)) h
    simpa [bit, hlt] using this
  · intro h
    apply BitVec.eq_of_getLsbD_eq
    intro i hi
    rw [BitVec.getLsbD_and, BitVec.getLsbD_shiftLeft, BitVec.getLsbD_zero]
    by_cases hik : i = k % 8
    · rw [hik, show (buf (k / 8)).getLsbD (k % 8) = false from h, Bool.false_and]
    · have hone : ¬ (i < k % 8) → (1#8).getLsbD (i - k % 8) = false := by
        intro hge
        rw [BitVec.getLsbD_one]
        simp
        omega
      by_cases hlow : i < k % 8
      · simp [hlow]
      · rw [hone hlow, Bool.and_false, Bool.and_false]

theorem bit_setBit (buf : Buf) (k j : Nat) : bit (setBit buf k) j = (bit buf j || decide (j = k)) := by
  have hlt : j % 8 < 8 := Nat.mod_lt _ (by omega)
  unfold bit setBit
  split
  · rename_i h
    rw [BitVec.getLsbD_or, BitVec.getLsbD_shiftLeft, BitVec.getLsbD_one]
    congr 1
    by_cases hjk : j = k
    · subst hjk
      simp [hlt]
    · have hmod : j % 8 ≠ k % 8 := by omega
      simp only [hjk, decide_false]
      by_cases hlow : j % 8 < k % 8
      · simp [hlow]
      · have : j % 8 - k % 8 ≠ 0 := by omega
        simp [this]
  · rename_i h
    have hjk : j ≠ k := by
      rintro rfl
      exact h rfl
    simp [hjk]

theorem bit_clrBit (buf : Buf) (k j : Nat) :
    bit (clrBit buf k) j = (bit buf j && !decide (j = k)) := by
  have hlt : j % 8 < 8 := Nat.mod_lt _ (by omega)
  unfold bit clrBit
  split
  · rename_i h
    rw [BitVec.getLsbD_and, BitVec.getLsbD_not, BitVec.getLsbD_shiftLeft, BitVec.getLsbD_one]
    congr 1
    by_cases hjk : j = k
    · subst hjk
      simp [hlt]
    · have hmod : j % 8 ≠ k % 8 := by omega
      by_cases hlow : j % 8 < k % 8
      · simp [hlow, hlt, hjk]
      · have : j % 8 - k % 8 ≠ 0 := by omega
        simp [this, hlt, hjk]
  · rename_i h
    have hjk : j ≠ k := by
      rintro rfl
      exact h rfl
    simp [hjk]

theorem bit_congr {buf buf' : Buf} {k : Nat} (h : buf (k / 8) = buf' (k / 8)) :
    bit buf k = bit buf' k := by
  rw [bit, bit, h]

end Bytes

namespace Digits

variable {α : Type} {b : Nat} {f : Nat → α}

/-- The last `k` digits of `n`. -/
def digits (b : Nat) (f : Nat → α) (k n : Nat) : List α :=
  (List.range k).reverse.map fun i => f (n / b ^ i % b)

theorem digits_succ (k n : Nat) : digits b f (k + 1) n = f (n / b ^ k % b) :: digits b f k n := by
  unfold digits
  rw [List.range_succ, List.reverse_append]
  rfl

theorem digits_snoc (k n : Nat) : digits b f (k + 1) n = digits b f k (n / b) ++ [f (n % b)] := by
  induction k with
  | zero =>
    rw [digits_succ, Nat.pow_zero, Nat.div_one]
    rfl
  | succ k ih =>
    rw [digits_succ, ih, digits_succ, Nat.div_div_eq_div_mul, ← Nat.pow_succ']
    rfl

theorem digits_length (k n : Nat) : (digits b f k n).length = k := by
  unfold digits
  rw [List.length_map, List.length_reverse, List.length_range]

theorem digits_congr {g : Nat → α} (hb : 0 < b) (h : ∀ r < b, f r = g r) (k n : Nat) :
    digits b f k n = digits b g k n :=
  List.map_congr_left fun _ _ => h _ (Nat.mod_lt _ hb)

theorem digits_mod (k n : Nat) : digits b f k (n % b ^ k) = digits b f k n := by
  induction k generalizing n with
  | zero => rfl
  | succ k ih =>
    rw [digits_snoc, digits_snoc, Nat.pow_succ', Nat.mod_mul_right_div_self, ih,
      Nat.mod_mod_of_dvd n (Nat.dvd_mul_right b _)]

/-- The numeral of a number of `k + 1` digits. -/
theorem toDigits_map {k n : Nat} {g : Char → α} (hb : 1 < b) (hlt : n < b ^ (k + 1))
    (hle : k = 0 ∨ b ^ k ≤ n) :
    (Nat.toDigits b n).map g = digits b (fun r => g r.digitChar) (k + 1) n := by
  induction k generalizing n with
  | zero =>
    rw [Nat.zero_add, Nat.pow_one] at hlt
    rw [Nat.toDigits_of_lt_base hlt, digits_succ, Nat.pow_zero, Nat.div_one, Nat.mod_eq_of_lt hlt]
    rfl
  | succ k ih =>
    have hpos : 0 < b := by omega
    have hpow : b ^ (k + 1) ≤ n := hle.resolve_left (Nat.succ_ne_zero k)
    have hbase : b ≤ n := Nat.le_trans (Nat.le_self_pow (Nat.succ_ne_zero k) b) hpow
    have hdiv : n / b < b ^ (k + 1) := by
      rw [Nat.pow_succ] at hlt
      exact Nat.div_lt_of_lt_mul (Nat.mul_comm _ b ▸ hlt)
    have hge : k = 0 ∨ b ^ k ≤ n / b := .inr ((Nat.le_div_iff_mul_le hpos).mpr hpow)
    rw [Nat.toDigits_of_base_le hb hbase, List.map_append, ih hdiv hge, digits_snoc (k + 1)]
    rfl

end Digits
