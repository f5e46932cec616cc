import WinDOS.Lib.Bytes
import Mathlib.Data.Nat.Count

/-!
# Runs of places in a bitmap

A scan for a run of free places, the bits of a run set or cleared one after the other, and how
many places are free afterwards.
-/

set_option autoImplicit false

namespace Bitmap

open Bytes

/-- The places from `b` on, `n` of them, are all free. -/
def FreeRun (used : Nat → Bool) (n b : Nat) : Prop := ∀ j, b ≤ j → j < b + n → used j = false

/-- The free places below `m`. -/
def freeCount (used : Nat → Bool) (m : Nat) : Nat := Nat.count (fun i => used i = false) m

/-- How many of the places from `b` on, `n` of them, are not free. -/
def usedCount (used : Nat → Bool) (n b : Nat) : Nat := Nat.count (fun k => used (b + k) = true) n

/-! ### First fit -/

/-- The scan at place `i`, with `run` free places just before it and `fuel` places left. -/
def firstFit (used : Nat → Bool) (n : Nat) : Nat → Nat → Nat → Option Nat
  | 0, _, _ => none
  | fuel + 1, i, run =>
    if used i then firstFit used n fuel (i + 1) 0
    else if run + 1 = n then some (i + 1 - n)
    else firstFit used n fuel (i + 1) (run + 1)

section Scan

variable {used : Nat → Bool} {n : Nat}

/-- The scan finds the lowest run, or there is none among the places it looks at. -/
theorem firstFit_cases {i run : Nat} (fuel : Nat) (hrun : run < n) (hle : run ≤ i)
    (hfree : ∀ j, i - run ≤ j → j < i → used j = false)
    (hlow : ∀ b < i - run, ¬ FreeRun used n b) :
    (firstFit used n fuel i run = none ∧ ∀ b, b + n ≤ i + fuel → ¬ FreeRun used n b) ∨
    ∃ b, firstFit used n fuel i run = some b ∧ b + n ≤ i + fuel ∧ FreeRun used n b ∧
      ∀ c < b, ¬ FreeRun used n c := by
  induction fuel generalizing i run with
  | zero => exact .inl ⟨rfl, fun b hb => hlow b (by omega)⟩
  | succ fuel ih =>
    rw [firstFit, show i + (fuel + 1) = i + 1 + fuel by omega]
    by_cases hu : used i = true
    · rw [if_pos hu]
      refine ih (by omega) (by omega) (fun j h0 h1 => absurd h1 (by omega)) fun b hb hf => ?_
      by_cases hb' : b < i - run
      · exact hlow b hb' hf
      · have := hf i (by omega) (by omega)
        rw [hu] at this
        cases this
    · rw [if_neg hu]
      have hnow : ∀ j, i - run ≤ j → j < i + 1 → used j = false := fun j h0 h1 => by
        by_cases hj : j < i
        · exact hfree j h0 hj
        · rw [show j = i by omega]
          exact Bool.eq_false_iff.mpr hu
      by_cases hn : run + 1 = n
      · rw [if_pos hn]
        refine .inr ⟨i + 1 - n, rfl, by omega, fun j h0 h1 => ?_, fun c hc => hlow c (by omega)⟩
        exact hnow j (by omega) (by omega)
      · rw [if_neg hn]
        refine ih (by omega) (by omega) (fun j h0 h1 => hnow j (by omega) h1) fun b hb => ?_
        exact hlow b (by omega)

end Scan

/-! ### Setting and clearing a run -/

/-- `n` bits from `base` on are set. -/
def setRun : Nat → Nat → Buf → Buf
  | 0, _, bmp => bmp
  | n + 1, base, bmp => setRun n (base + 1) (setBit bmp base)

/-- `n` bits from `base` on are cleared; the bits that were set are counted. -/
def clearRun : Nat → Nat → Buf × Nat → Buf × Nat
  | 0, _, s => s
  | n + 1, base, (bmp, cnt) =>
    clearRun n (base + 1) (if bit bmp base then (clrBit bmp base, cnt + 1) else (bmp, cnt))

theorem bit_setRun (n base : Nat) (bmp : Buf) (i : Nat) :
    bit (setRun n base bmp) i = (bit bmp i || decide (base ≤ i ∧ i < base + n)) := by
  induction n generalizing base bmp with
  | zero => rw [setRun, decide_eq_false (by omega), Bool.or_false]
  | succ n ih =>
    rw [setRun, ih, bit_setBit, Bool.or_assoc, ← Bool.decide_or]
    congr 2
    rw [eq_iff_iff]
    omega

theorem clearRun_bit (n base : Nat) (bmp : Buf) (cnt i : Nat) :
    bit (clearRun n base (bmp, cnt)).1 i =
      (bit bmp i && !decide (base ≤ i ∧ i < base + n)) := by
  induction n generalizing base bmp cnt with
  | zero => rw [clearRun, decide_eq_false (by omega), Bool.not_false, Bool.and_true]
  | succ n ih =>
    have hsplit : ∀ b : Bool, (b && !decide (i = base) &&
        !decide (base + 1 ≤ i ∧ i < base + 1 + n)) =
        (b && !decide (base ≤ i ∧ i < base + (n + 1))) := fun b => by
      rw [Bool.and_assoc, ← Bool.not_or, ← Bool.decide_or]
      congr 3
      rw [eq_iff_iff]
      omega
    rw [clearRun]
    by_cases hb : bit bmp base = true
    · rw [if_pos hb, ih, bit_clrBit, hsplit]
    · rw [if_neg hb, ih, ← hsplit]
      by_cases hi : i = base
      · rw [hi, Bool.eq_false_iff.mpr hb]
        simp
      · rw [decide_eq_false hi, Bool.not_false, Bool.and_true]

/-! ### Counting -/

section Count

variable {used used' : Nat → Bool} {k m : Nat}

theorem freeCount_congr (h : ∀ i < m, used' i = used i) : freeCount used' m = freeCount used m := by
  unfold freeCount
  induction m with
  | zero => rfl
  | succ m ih =>
    rw [Nat.count_succ, Nat.count_succ, ih fun i hi => h i (by omega), h m (by omega)]

theorem freeCount_take (hk : k < m) (hfree : used k = false) (hused : used' k = true)
    (hother : ∀ i, i ≠ k → used' i = used i) : freeCount used' m + 1 = freeCount used m := by
  induction m with
  | zero => omega
  | succ m ih =>
    by_cases hm : m = k
    · have hsame : freeCount used' m = freeCount used m :=
        freeCount_congr fun i hi => hother i (by omega)
      unfold freeCount at hsame ⊢
      rw [Nat.count_succ, Nat.count_succ, hm, if_neg (by rw [hused]; decide), if_pos hfree, ← hm,
        hsame]
    · have := ih (by omega)
      unfold freeCount at this ⊢
      rw [Nat.count_succ, Nat.count_succ, hother m hm]
      omega

theorem FreeRun.le_freeCount {n b : Nat} (h : FreeRun used n b) (hm : b + n ≤ m) :
    n ≤ freeCount used m := by
  have hrun : Nat.count (fun k => used (b + k) = false) n = n :=
    Nat.count_iff_forall.mpr fun k hk => h (b + k) (by omega) (by omega)
  calc n ≤ Nat.count (fun i => used i = false) (b + n) := by
        rw [Nat.count_add, hrun]
        exact Nat.le_add_left n _
    _ ≤ freeCount used m := Nat.count_monotone _ hm

end Count

theorem freeCount_setRun {n base m : Nat} {bmp : Buf} (h : FreeRun (bit bmp) n base)
    (hm : base + n ≤ m) : freeCount (bit (setRun n base bmp)) m + n = freeCount (bit bmp) m := by
  induction n generalizing base bmp with
  | zero => rfl
  | succ n ih =>
    have hone : freeCount (bit (setBit bmp base)) m + 1 = freeCount (bit bmp) m :=
      freeCount_take (by omega) (h base (by omega) (by omega)) (by rw [bit_setBit]; simp)
        fun i hi => by rw [bit_setBit, decide_eq_false hi, Bool.or_false]
    have hrest := @ih (base + 1) (setBit bmp base) (fun j h0 h1 => by
      rw [bit_setBit, decide_eq_false (by omega), Bool.or_false]
      exact h j (by omega) (by omega)) (by omega)
    rw [setRun]
    omega

theorem usedCount_succ (used : Nat → Bool) (n b : Nat) :
    usedCount used (n + 1) b = usedCount used n (b + 1) + if used b then 1 else 0 := by
  unfold usedCount
  rw [Nat.count_succ']
  simp only [Nat.add_zero, Nat.add_assoc, Nat.add_comm 1]

theorem usedCount_congr {used used' : Nat → Bool} {n b : Nat}
    (h : ∀ j, b ≤ j → j < b + n → used' j = used j) : usedCount used' n b = usedCount used n b := by
  induction n generalizing b with
  | zero => rfl
  | succ n ih =>
    rw [usedCount_succ, usedCount_succ, h b (Nat.le_refl b) (by omega),
      ih fun j h0 h1 => h j (by omega) (by omega)]

theorem usedCount_eq_zero {used : Nat → Bool} {n b : Nat} :
    usedCount used n b = 0 ↔ FreeRun used n b := by
  unfold usedCount
  rw [Nat.count_iff_forall_not]
  constructor
  · intro h j h0 h1
    have := h (j - b) (by omega)
    rw [Nat.add_sub_cancel' h0] at this
    exact Bool.eq_false_iff.mpr this
  · intro h k hk
    rw [h (b + k) (by omega) (by omega)]
    exact Bool.false_ne_true

theorem clearRun_used {n base m : Nat} {bmp : Buf} (cnt : Nat) (hm : base + n ≤ m) :
    (clearRun n base (bmp, cnt)).2 = cnt + usedCount (bit bmp) n base ∧
      freeCount (bit (clearRun n base (bmp, cnt)).1) m =
        freeCount (bit bmp) m + usedCount (bit bmp) n base := by
  induction n generalizing base bmp cnt with
  | zero => exact ⟨rfl, rfl⟩
  | succ n ih =>
    rw [usedCount_succ, clearRun]
    by_cases hb : bit bmp base = true
    · have hone : freeCount (bit bmp) m + 1 = freeCount (bit (clrBit bmp base)) m :=
        freeCount_take (by omega) (by rw [bit_clrBit]; simp) hb
          fun i hi => by rw [bit_clrBit, decide_eq_false hi, Bool.not_false, Bool.and_true]
      have hrest : usedCount (bit (clrBit bmp base)) n (base + 1) =
          usedCount (bit bmp) n (base + 1) :=
        usedCount_congr fun j h0 _ => by
          rw [bit_clrBit, decide_eq_false (by omega), Bool.not_false, Bool.and_true]
      obtain ⟨hcnt, hfree⟩ := @ih (base + 1) (clrBit bmp base) (cnt + 1) (by omega)
      rw [if_pos hb, if_pos hb, hcnt, hfree, hrest]
      omega
    · rw [if_neg hb, if_neg hb]
      exact ih cnt (by omega)

theorem clearRun_count {n base m : Nat} {bmp : Buf} (cnt : Nat)
    (h : ∀ j, base ≤ j → j < base + n → bit bmp j = true) (hm : base + n ≤ m) :
    (clearRun n base (bmp, cnt)).2 = cnt + n ∧
      freeCount (bit (clearRun n base (bmp, cnt)).1) m = freeCount (bit bmp) m + n := by
  have hall : usedCount (bit bmp) n base = n :=
    Nat.count_iff_forall.mpr fun k hk => h (base + k) (by omega) (by omega)
  have hrun := @clearRun_used n base m bmp cnt hm
  rwa [hall] at hrun

end Bitmap
