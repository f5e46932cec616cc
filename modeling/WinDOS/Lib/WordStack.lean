import Mathlib.Algebra.Group.Int.Defs
import Mathlib.Algebra.Group.Nat.Defs
import Mathlib.Logic.Function.Basic
import Mathlib.Data.List.Nodup

/-!
# A downward stack of 64-bit words

A machine with named registers, a stack pointer and a memory of quadword slots.
A list of registers is pushed; whatever happens in between, popping the reversed
list brings every register back, as long as the slots in between are left alone.
Addresses wrap modulo 2^64, so every statement bounds the bytes involved by 2^64.
-/

set_option autoImplicit false

namespace WordStack

abbrev Word := BitVec 64

/-- `mem a` is the quadword stored at address `a`; accesses are 8 bytes apart. -/
structure Machine (R : Type) where
  reg : R → Word
  sp : Word
  mem : Word → Word

/-- The `i`-th quadword above `sp`. -/
def slot (sp : Word) (i : Nat) : Word := sp + BitVec.ofNat 64 (8 * i)

@[simp] theorem slot_zero (sp : Word) : slot sp 0 = sp := by simp [slot]

theorem slot_slot (sp : Word) (i j : Nat) : slot (slot sp i) j = slot sp (i + j) := by
  simp only [slot, Nat.mul_add, BitVec.ofNat_add, BitVec.add_assoc]

theorem slot_inj {sp : Word} {i j n : Nat} (hn : 8 * n ≤ 2 ^ 64) (hi : i < n) (hj : j < n)
    (h : slot sp i = slot sp j) : i = j := by
  have h' : BitVec.ofNat 64 (8 * i) = BitVec.ofNat 64 (8 * j) := by
    simpa [slot] using h
  have ht := congrArg BitVec.toNat h'
  simp only [BitVec.toNat_ofNat] at ht
  omega

namespace Machine

variable {R : Type}

def push (m : Machine R) (v : Word) : Machine R :=
  { m with sp := m.sp - 8, mem := Function.update m.mem (m.sp - 8) v }

variable [DecidableEq R]

def popTo (m : Machine R) (r : R) : Machine R :=
  { m with reg := Function.update m.reg r (m.mem m.sp), sp := m.sp + 8 }

omit [DecidableEq R] in
@[simp] theorem push_reg (m : Machine R) (v : Word) : (m.push v).reg = m.reg := rfl

omit [DecidableEq R] in
@[simp] theorem push_sp (m : Machine R) (v : Word) : (m.push v).sp = m.sp - 8 := rfl

@[simp] theorem popTo_sp (m : Machine R) (r : R) : (m.popTo r).sp = m.sp + 8 := rfl

@[simp] theorem popTo_mem (m : Machine R) (r : R) : (m.popTo r).mem = m.mem := rfl

def pushRegs (m : Machine R) (rs : List R) : Machine R :=
  rs.foldl (fun m r => m.push (m.reg r)) m

def popRegs (m : Machine R) (rs : List R) : Machine R :=
  rs.foldl popTo m

omit [DecidableEq R] in
theorem slot_push (m : Machine R) (v : Word) (i : Nat) :
    slot (m.push v).sp (i + 1) = slot m.sp i := by
  have h : m.sp - 8 + 8 = m.sp := BitVec.sub_add_cancel _ _
  simp only [slot, push_sp, Nat.mul_add, Nat.mul_one, BitVec.ofNat_add]
  rw [BitVec.add_comm (BitVec.ofNat 64 (8 * i)), ← BitVec.add_assoc]
  exact congrArg (· + BitVec.ofNat 64 (8 * i)) h

omit [DecidableEq R] in
@[simp] theorem push_top (m : Machine R) (v : Word) :
    (m.push v).mem (m.push v).sp = v := by simp [push]

omit [DecidableEq R] in
theorem push_above (m : Machine R) (v : Word) {i n : Nat} (hn : 8 * n ≤ 2 ^ 64)
    (hi : i + 1 < n) : (m.push v).mem (slot m.sp i) = m.mem (slot m.sp i) := by
  rw [← slot_push m v i]
  have hne : slot (m.push v).sp (i + 1) ≠ m.sp - 8 := by
    intro h
    have h0 : slot (m.push v).sp (i + 1) = slot (m.push v).sp 0 := by simpa using h
    exact absurd (slot_inj hn hi (by omega) h0) (by omega)
  exact Function.update_of_ne hne _ _

omit [DecidableEq R] in
@[simp] theorem pushRegs_reg (m : Machine R) (rs : List R) : (m.pushRegs rs).reg = m.reg := by
  induction rs generalizing m with
  | nil => rfl
  | cons r rs ih => exact (ih (m.push (m.reg r))).trans (push_reg _ _)

omit [DecidableEq R] in
theorem slot_pushRegs (m : Machine R) (rs : List R) (i : Nat) :
    slot (m.pushRegs rs).sp (rs.length + i) = slot m.sp i := by
  induction rs generalizing m i with
  | nil => simp [pushRegs]
  | cons r rs ih =>
    have h := ih (m.push (m.reg r)) (i + 1)
    rw [slot_push] at h
    simpa [pushRegs, Nat.add_assoc, Nat.add_comm 1 i] using h

omit [DecidableEq R] in
theorem pushRegs_above (m : Machine R) (rs : List R) {i n : Nat} (hn : 8 * n ≤ 2 ^ 64)
    (hi : rs.length + i < n) : (m.pushRegs rs).mem (slot m.sp i) = m.mem (slot m.sp i) := by
  induction rs generalizing m i with
  | nil => rfl
  | cons r rs ih =>
    have h := ih (m.push (m.reg r)) (i := i + 1) (by simp at hi; omega)
    rw [slot_push] at h
    have hi' : i + 1 < n := by simp at hi; omega
    exact h.trans (push_above m _ hn hi')

omit [DecidableEq R] in
/-- The last register pushed lies at the new stack pointer, the first one highest. -/
theorem pushRegs_slot (m : Machine R) (rs : List R) {n : Nat} (hn : 8 * n ≤ 2 ^ 64)
    (hlen : rs.length < n) {i : Nat} (hi : i < rs.reverse.length) :
    (m.pushRegs rs).mem (slot (m.pushRegs rs).sp i) = m.reg rs.reverse[i] := by
  induction rs generalizing m i with
  | nil => simp at hi
  | cons r rs ih =>
    have hlen' : rs.length + 1 < n := by simpa using hlen
    by_cases hlast : i < rs.reverse.length
    · have h := ih (m.push (m.reg r)) (by omega) hlast
      simp only [List.reverse_cons, List.getElem_append_left hlast]
      exact h
    · have hieq : i = rs.length := by simp at hi hlast; omega
      subst hieq
      have hs := slot_pushRegs (m.push (m.reg r)) rs 0
      have ha := pushRegs_above (m.push (m.reg r)) rs (i := 0) hn (by omega)
      rw [slot_zero] at ha hs
      have hg : (r :: rs).reverse.get ⟨rs.length, hi⟩ = r := by simp
      refine Eq.trans ?_ (congrArg m.reg hg.symm)
      change (pushRegs (m.push (m.reg r)) rs).mem
        (slot (pushRegs (m.push (m.reg r)) rs).sp (rs.length + 0)) = m.reg r
      rw [hs, ha, push_top]

@[simp] theorem popRegs_mem (m : Machine R) (rs : List R) : (m.popRegs rs).mem = m.mem := by
  induction rs generalizing m with
  | nil => rfl
  | cons r rs ih => exact (ih (m.popTo r)).trans (popTo_mem _ _)

theorem popRegs_sp (m : Machine R) (rs : List R) :
    (m.popRegs rs).sp = slot m.sp rs.length := by
  induction rs generalizing m with
  | nil => simp [popRegs]
  | cons r rs ih =>
    have h1 : (m.popTo r).sp = slot m.sp 1 := rfl
    rw [show m.popRegs (r :: rs) = (m.popTo r).popRegs rs from rfl, ih, h1, slot_slot,
      List.length_cons, Nat.add_comm]

theorem popRegs_reg_of_notMem (m : Machine R) {rs : List R} {r : R} (h : r ∉ rs) :
    (m.popRegs rs).reg r = m.reg r := by
  induction rs generalizing m with
  | nil => rfl
  | cons a rs ih =>
    simp only [List.mem_cons, not_or] at h
    exact (ih (m.popTo a) h.2).trans (Function.update_of_ne h.1 _ _)

theorem popRegs_reg (m : Machine R) {rs : List R} (hd : rs.Nodup) {i : Nat}
    (hi : i < rs.length) : (m.popRegs rs).reg rs[i] = m.mem (slot m.sp i) := by
  induction rs generalizing m i with
  | nil => simp at hi
  | cons a rs ih =>
    obtain ⟨ha, hd⟩ := List.nodup_cons.mp hd
    cases i with
    | zero =>
      have h := popRegs_reg_of_notMem (m.popTo a) ha
      simpa [popRegs, popTo] using h
    | succ i =>
      have hi' : i < rs.length := by simpa using hi
      have h := ih (m.popTo a) hd hi'
      have hs : slot (m.popTo a).sp i = slot m.sp (i + 1) := by
        rw [show (m.popTo a).sp = slot m.sp 1 from rfl, slot_slot, Nat.add_comm]
      rw [hs] at h
      exact h

/-- Save and restore: between the pushes and the pops anything may change but the
saved slots. -/
theorem popRegs_pushRegs (m m' : Machine R) {rs : List R} (hd : rs.Nodup) {n : Nat}
    (hn : 8 * n ≤ 2 ^ 64) (hlen : rs.length < n)
    (hmem : ∀ i, i < rs.length →
      m'.mem (slot m'.sp i) = (m.pushRegs rs).mem (slot (m.pushRegs rs).sp i))
    {r : R} (hr : r ∈ rs) : (m'.popRegs rs.reverse).reg r = m.reg r := by
  obtain ⟨i, hi, hri⟩ := List.getElem_of_mem (List.mem_reverse.mpr hr)
  have hi' : i < rs.length := by simpa using hi
  rw [← hri, popRegs_reg m' (List.nodup_reverse.2 hd) hi, hmem i hi',
    pushRegs_slot m rs hn hlen hi]

theorem popRegs_pushRegs_sp (m m' : Machine R) (rs : List R)
    (hsp : m'.sp = (m.pushRegs rs).sp) : (m'.popRegs rs.reverse).sp = m.sp := by
  rw [popRegs_sp, hsp, List.length_reverse]
  simpa using slot_pushRegs m rs 0

end Machine

end WordStack
