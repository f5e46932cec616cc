import WinDOS.Cpu.Machine

/-!
# The stack switch (`task_switch_to` in `desk/task.h`)

The routine is written for two arguments on the stack. Its caller passes one, in RDI: what the
routine loads as the new stack pointer is its own return address.
-/

set_option autoImplicit false

namespace WinDOS

open WordStack

def switchSaved : List Reg := [.rbx, .r12, .r13, .r14, .r15]

def switchRestored : List Reg := [.r15, .r14, .r13, .r12, .rbx, .rbp]

/-- `ret`: the address that control leaves to, and the state there. -/
def Cpu.leave (c : Cpu) : Word × Cpu := (c.stack 0, c.setRsp (slot c.rsp 1))

/-- The first half of `task_switch_to`, up to the store of the old stack pointer. The argument is in
RDI, which the routine does not look at. -/
def switchOut (c : Cpu) : Cpu :=
  let c := c.push (c.get .rbp)
  let c := c.set .rbp c.rsp
  let c := c.set .rax (c.m.mem (slot (c.get .rbp) 2))
  let c := { c with m := c.m.pushRegs switchSaved }
  { c with m := { c.m with mem := Function.update c.m.mem (c.get .rax) c.rsp } }

/-- The second half, from the load of the new stack pointer on. -/
def switchIn (c : Cpu) : Word × Cpu :=
  let c := c.set .rax (c.m.mem (slot (c.get .rbp) 1))
  let c := c.setRsp (c.get .rax)
  Cpu.leave { c with m := c.m.popRegs switchRestored }

def taskSwitchTo (c : Cpu) : Word × Cpu := switchIn (switchOut c)

/-- The processor goes on from what a task has left at `sp`: six registers and an address. -/
structure GoesOnFrom (sp : Word) (out : Word × Cpu) : Prop where
  rip : out.1 = out.2.m.mem (slot sp 6)
  rsp : out.2.rsp = slot sp 7
  regs : ∀ i (hi : i < switchRestored.length),
    out.2.get switchRestored[i] = out.2.m.mem (slot sp i)

/-- The new stack pointer in a call with return address `ret`: that address, unless the store of
the old one goes to where it lies. -/
def switchStack (c : Cpu) (ret : Word) : Word :=
  if c.stack 0 = c.rsp - 8 then c.rsp - 56 else ret

/-! ### Where the switch goes -/

theorem pops_goOn (c : Cpu) :
    GoesOnFrom c.rsp (Cpu.leave { c with m := c.m.popRegs switchRestored }) := by
  have hpop : (c.m.popRegs switchRestored).sp = slot c.rsp 6 :=
    Machine.popRegs_sp c.m switchRestored
  have hregs : ∀ i (hi : i < switchRestored.length), (c.m.popRegs switchRestored).reg
      switchRestored[i] = (c.m.popRegs switchRestored).mem (slot c.rsp i) := fun i hi => by
    rw [Machine.popRegs_reg c.m (by decide) hi, Machine.popRegs_mem]
    rfl
  generalize c.m.popRegs switchRestored = m at hpop hregs ⊢
  refine ⟨?_, ?_, hregs⟩
  · change m.mem (slot m.sp 0) = m.mem (slot c.rsp 6)
    rw [slot_zero, hpop]
  · change slot m.sp 1 = slot c.rsp 7
    rw [hpop, slot_slot]

theorem switchIn_goesOn (c : Cpu) : GoesOnFrom (c.m.mem (slot (c.get .rbp) 1)) (switchIn c) := by
  have hrax : (c.set .rax (c.m.mem (slot (c.get .rbp) 1))).get .rax =
      c.m.mem (slot (c.get .rbp) 1) := by
    simp [Cpu.set, Cpu.get]
  exact hrax ▸ pops_goOn ((c.set .rax (c.m.mem (slot (c.get .rbp) 1))).setRsp
    ((c.set .rax (c.m.mem (slot (c.get .rbp) 1))).get .rax))

/-- RBP and the return address are pushed before the other registers. -/
theorem switchFrame (c : Cpu) (ret v : Word) :
    ((c.m.push ret).push v).sp = c.rsp - 16 ∧
      ((c.m.push ret).push v).mem (slot (c.rsp - 16) 1) = ret ∧
      ((c.m.push ret).push v).mem (slot (c.rsp - 16) 2) = c.stack 0 := by
  have hsp : ((c.m.push ret).push v).sp = c.rsp - 16 := by
    change c.m.sp - 8 - 8 = c.m.sp - 16
    bv_omega
  have habove : ∀ {m : Machine Reg} {w : Word} {i : Nat}, i < 2 →
      (m.push w).mem (slot m.sp i) = m.mem (slot m.sp i) := fun {m w i} hi =>
    Machine.push_above m w (n := 4) (by decide) (by omega)
  refine ⟨hsp, ?_, ?_⟩
  · rw [← hsp, Machine.slot_push _ _ 0, habove (by decide), slot_zero, Machine.push_top]
  · rw [← hsp, Machine.slot_push _ _ 1, habove (by decide), Machine.slot_push _ _ 0,
      habove (by decide)]
    rfl

theorem switchOut_frame (c : Cpu) (ret : Word) :
    (switchOut (c.push ret)).get .rbp = c.rsp - 16 ∧
      (switchOut (c.push ret)).m.mem (slot (c.rsp - 16) 1) = switchStack c ret := by
  obtain ⟨hsp, hret, hcaller⟩ := switchFrame c ret ((c.push ret).get .rbp)
  unfold switchOut
  dsimp only
  generalize hm : (c.push ret).push ((c.push ret).get .rbp) = c1
  have hc1 : c1.m = (c.m.push ret).push ((c.push ret).get .rbp) := hm ▸ rfl
  rw [← hc1] at hsp hret hcaller
  have hrsp : c1.rsp = c.rsp - 16 := hsp
  have hrbp : (c1.set .rbp c1.rsp).get .rbp = c.rsp - 16 := by
    rw [← hrsp]
    simp [Cpu.set, Cpu.get]
  generalize hc2 : c1.set .rbp c1.rsp = c2 at hrbp
  have hm2 : c2.m.sp = c.rsp - 16 ∧ c2.m.mem = c1.m.mem := hc2 ▸ ⟨hsp, rfl⟩
  rw [hrbp, hm2.2, hcaller]
  generalize hc3 : c2.set .rax (c.stack 0) = c3
  have hm3 : c3.m.sp = c.rsp - 16 ∧ c3.m.mem = c1.m.mem := hc3 ▸ hm2
  have hregs : c3.get .rbp = c.rsp - 16 ∧ c3.get .rax = c.stack 0 := by
    rw [← hc3, ← hrbp]
    simp [Cpu.set, Cpu.get]
  have hpush : ∀ {i : Nat}, i < 3 → (c3.m.pushRegs switchSaved).mem (slot (c.rsp - 16) i) =
      c1.m.mem (slot (c.rsp - 16) i) := fun {i} hi => by
    rw [← hm3.1, Machine.pushRegs_above c3.m switchSaved (n := 8) (by decide)
      (by change 5 + i < 8; omega), hm3.2]
  have hlow : (c3.m.pushRegs switchSaved).sp = c.rsp - 56 := by
    have h := Machine.slot_pushRegs c3.m switchSaved 0
    rw [slot_zero, hm3.1, show switchSaved.length + 0 = 5 from rfl] at h
    generalize (c3.m.pushRegs switchSaved).sp = sp at h ⊢
    unfold slot at h
    bv_omega
  refine ⟨(congrFun (Machine.pushRegs_reg c3.m switchSaved) .rbp).trans hregs.1, ?_⟩
  have hrax : (c3.m.pushRegs switchSaved).reg .rax = c.stack 0 :=
    (congrFun (Machine.pushRegs_reg c3.m switchSaved) .rax).trans hregs.2
  change Function.update (c3.m.pushRegs switchSaved).mem ((c3.m.pushRegs switchSaved).reg .rax)
    (c3.m.pushRegs switchSaved).sp (slot (c.rsp - 16) 1) = _
  rw [hrax, hlow, Function.update_apply, hpush (by decide), hret]
  have hslot : slot (c.rsp - 16) 1 = c.rsp - 8 := by
    unfold slot
    bv_omega
  rw [hslot]
  exact if_congr eq_comm rfl rfl

/-- The registers come from the return address of the call. -/
theorem taskSwitchTo_goesOn (c : Cpu) (ret : Word) :
    GoesOnFrom (switchStack c ret) (taskSwitchTo (c.push ret)) := by
  obtain ⟨hrbp, hstack⟩ := switchOut_frame c ret
  have h := switchIn_goesOn (switchOut (c.push ret))
  rwa [hrbp, hstack] at h

/-- Two frames that the processor goes on from have one stack pointer. -/
theorem GoesOnFrom.unique {a b : Word} {out : Word × Cpu} (ha : GoesOnFrom a out)
    (hb : GoesOnFrom b out) : a = b := by
  have h := ha.rsp.symm.trans hb.rsp
  unfold slot at h
  bv_omega
end WinDOS
