import WinDOS.Lib.WordStack

/-!
# The processor as the entry stubs use it

Only the instructions of `isr.S` appear. A stub is a list of instructions run from its
first one; it ends by handing control to an address outside the stub. Segment
descriptors, paging and the handlers' own code are not modelled: a C function is any
transformation of the processor state, and `SysV` says what one call of it keeps.
-/

set_option autoImplicit false

namespace WinDOS

open WordStack

/-- The general registers; `rsp` is the stack pointer of the machine below. -/
inductive Reg where
  | rax | rcx | rdx | rbx | rbp | rsi | rdi
  | r8 | r9 | r10 | r11 | r12 | r13 | r14 | r15
deriving DecidableEq, Repr

structure Cpu where
  m : Machine Reg
  rflags : Word
  cs : BitVec 16
  ss : BitVec 16

namespace Cpu

def get (c : Cpu) (r : Reg) : Word := c.m.reg r

def set (c : Cpu) (r : Reg) (v : Word) : Cpu :=
  { c with m := { c.m with reg := Function.update c.m.reg r v } }

def rsp (c : Cpu) : Word := c.m.sp

def setRsp (c : Cpu) (v : Word) : Cpu := { c with m := { c.m with sp := v } }

/-- The quadword `i` slots above the stack pointer. -/
def stack (c : Cpu) (i : Nat) : Word := c.m.mem (slot c.m.sp i)

def push (c : Cpu) (v : Word) : Cpu := { c with m := c.m.push v }

@[simp] theorem set_rsp (c : Cpu) (r : Reg) (v : Word) : (c.set r v).rsp = c.rsp := rfl

@[simp] theorem set_stack (c : Cpu) (r : Reg) (v : Word) (i : Nat) :
    (c.set r v).stack i = c.stack i := rfl

end Cpu

/-- Displacements from `rsp` are counted in quadwords: `load 1 .rax` is `movq 8(%rsp), %rax`,
and `addRsp 6` is `addq $48, %rsp`. -/
inductive Instr where
  | push (r : Reg)
  | pop (r : Reg)
  | movRsp (r : Reg)
  | call (ret : Word) (f : Cpu → Cpu)
  | load (i : Nat) (r : Reg)
  | loadRsp (i : Nat)
  | addRsp (i : Nat)
  | testb3al
  | jz (skip : Nat)
  | sysretq
  | iretq

/-- CF, PF, ZF, SF and OF. -/
def arithFlags : Word := 0x8C5

/-- RFLAGS after `testb $3, %al`: CF, SF and OF are clear, ZF and PF describe the two bits. -/
def testFlags (rflags al : Word) : Word :=
  (rflags &&& ~~~arithFlags) |||
    (if al &&& 3 = 0 then 0x44 else if al &&& 3 = 3 then 0x04 else 0)

/-- RFLAGS after an addition of 64 bits: CF, PF, AF, ZF, SF and OF. -/
def addFlags (rflags a b : Word) : Word :=
  let s := a + b
  let bits : List (Word × Bool) :=
    [(0x1, s < a), (0x4, (List.range 8).countP (s.getLsbD ·) % 2 = 0),
      (0x10, (a &&& 0xF) + (b &&& 0xF) > 0xF), (0x40, s = 0), (0x80, s.msb),
      (0x800, a.msb = b.msb ∧ s.msb ≠ a.msb)]
  bits.foldl (fun f (mask, on) => if on then f ||| mask else f) (rflags &&& ~~~(arithFlags ||| 0x10))

def zeroFlag (rflags : Word) : Bool := rflags &&& 0x40 ≠ 0

/-- SYSRET's selectors: the STAR base 0x18 gives CS 0x2B and SS 0x23. -/
def sysretCs : BitVec 16 := 0x2B

def sysretSs : BitVec 16 := 0x23

/-- Run the stub; `skip` instructions are jumped over first. The result is the address
control leaves to, with the state there, or `none` for running off the end. -/
def exec : Nat → List Instr → Cpu → Option (Word × Cpu)
  | _, [], _ => none
  | skip + 1, _ :: p, c => exec skip p c
  | 0, i :: p, c =>
    match i with
    | .push r => exec 0 p { c with m := c.m.push (c.m.reg r) }
    | .pop r => exec 0 p { c with m := c.m.popTo r }
    | .movRsp r => exec 0 p (c.set r c.rsp)
    | .call ret f => exec 0 p (f (c.push ret))
    | .load i r => exec 0 p (c.set r (c.stack i))
    | .loadRsp i => exec 0 p (c.setRsp (c.stack i))
    | .addRsp i =>
      exec 0 p { c.setRsp (slot c.rsp i) with
        rflags := addFlags c.rflags c.rsp (BitVec.ofNat 64 (8 * i)) }
    | .testb3al => exec 0 p { c with rflags := testFlags c.rflags (c.get .rax) }
    | .jz skip => exec (if zeroFlag c.rflags then skip else 0) p c
    | .sysretq =>
      some (c.get .rcx, { c with rflags := c.get .r11, cs := sysretCs, ss := sysretSs })
    | .iretq =>
      some (c.stack 0,
        { c with
          rflags := c.stack 2
          cs := (c.stack 1).setWidth 16
          ss := (c.stack 4).setWidth 16
          m := { c.m with sp := c.stack 3 } })

theorem exec_movRsp (r : Reg) (p : List Instr) (c : Cpu) :
    exec 0 (.movRsp r :: p) c = exec 0 p (c.set r c.rsp) := rfl

theorem exec_addRsp (i : Nat) (p : List Instr) (c : Cpu) :
    exec 0 (.addRsp i :: p) c = exec 0 p { c.setRsp (slot c.rsp i) with
      rflags := addFlags c.rflags c.rsp (BitVec.ofNat 64 (8 * i)) } := rfl

theorem exec_call (ret : Word) (f : Cpu → Cpu) (p : List Instr) (c : Cpu) :
    exec 0 (.call ret f :: p) c = exec 0 p (f (c.push ret)) := rfl

theorem exec_pushes (rs : List Reg) (p : List Instr) (c : Cpu) :
    exec 0 (rs.map Instr.push ++ p) c = exec 0 p { c with m := c.m.pushRegs rs } := by
  induction rs generalizing c with
  | nil => rfl
  | cons r rs ih => exact ih _

theorem exec_pops (rs : List Reg) (p : List Instr) (c : Cpu) :
    exec 0 (rs.map Instr.pop ++ p) c = exec 0 p { c with m := c.m.popRegs rs } := by
  induction rs generalizing c with
  | nil => rfl
  | cons r rs ih => exact ih _

/-- Registers a SysV callee gives back. -/
def calleeSaved : List Reg := [.rbx, .rbp, .r12, .r13, .r14, .r15]

/-- The call of a C function in the state `c`, with `live` quadwords of stack in use by its
callers: it returns to its caller, keeps the callee-saved registers and does not write the
callers' stack. Whatever it writes elsewhere does not matter. -/
structure SysV (live : Nat) (f : Cpu → Cpu) (c : Cpu) : Prop where
  rsp : (f c).rsp = c.rsp + 8
  saved : ∀ r, r ∈ calleeSaved → (f c).get r = c.get r
  frame : ∀ i, i < live → (f c).stack i = c.stack (i + 1)

section Call

variable {live : Nat} {f : Cpu → Cpu} {c : Cpu} {ret : Word}

theorem SysV.call_rsp (hf : SysV live f (c.push ret)) : (f (c.push ret)).rsp = c.rsp := by
  rw [hf.rsp]
  exact BitVec.sub_add_cancel _ _

/-- The caller's stack after a call is the caller's stack before it. -/
theorem SysV.call_stack (hf : SysV live f (c.push ret)) {i n : Nat} (hi : i < live)
    (hn : 8 * n ≤ 2 ^ 64) (hin : i + 1 < n) : (f (c.push ret)).stack i = c.stack i := by
  rw [hf.frame i hi]
  unfold Cpu.stack Cpu.push
  rw [WordStack.Machine.slot_push]
  exact Machine.push_above c.m ret hn hin

end Call

theorem zeroFlag_testFlags (rflags al : Word) :
    zeroFlag (testFlags rflags al) = decide (al &&& 3 = 0) := by
  have hclear : ∀ v : Word, (rflags &&& ~~~arithFlags ||| v) &&& 0x40 = v &&& 0x40 := by
    intro v
    have hmask : (~~~arithFlags : Word) &&& 0x40 = 0 := by decide
    rw [BitVec.and_or_distrib_right, BitVec.and_assoc, hmask]
    simp
  unfold zeroFlag testFlags
  rw [hclear]
  by_cases h0 : al &&& 3 = 0
  · rw [if_pos h0, decide_eq_true h0]
    decide
  · rw [if_neg h0, decide_eq_false h0]
    split <;> decide

end WinDOS
