import WinDOS.Cpu.Machine

/-!
# The interrupt stubs of `isr.S`

`ISR_STUB` saves fifteen registers, calls its C handler, restores them and then looks
at the saved CS to choose between `iretq` and `sysretq`. That test runs after the last
pop and goes through RAX, so what the interrupted code finds in RAX is its own CS.
-/

set_option autoImplicit false

namespace WinDOS

open WordStack

/-- What the processor was doing when the interrupt came. -/
structure Context where
  reg : Reg → Word
  rsp : Word
  rip : Word
  rflags : Word
  cs : BitVec 16
  ss : BitVec 16
  mem : Word → Word
  ring : cs &&& 3 = 0 ∨ cs &&& 3 = 3

/-- Kernel code selector in every gate of `set_gate`. -/
def gateCs : BitVec 16 := 0x08

/-- The vectors whose gates point at an `ISR_STUB`. -/
inductive Vector where
  | isr20 | isr21 | isr2c | isr_default
deriving DecidableEq, Repr

namespace Context

/-- The stack the processor pushes on: the interrupted one in Ring 0, TSS.RSP0 otherwise,
aligned down to 16 bytes in both cases. -/
def frameBase (x : Context) (rsp0 : Word) : Word :=
  (if x.cs &&& 3 = 0 then x.rsp else rsp0) &&& ~~~15

def fresh (x : Context) (rsp0 : Word) : Cpu where
  m := { reg := x.reg, sp := x.frameBase rsp0, mem := x.mem }
  rflags := x.rflags &&& ~~~0x300
  cs := gateCs
  ss := if x.cs &&& 3 = 0 then x.ss else 0

/-- Interrupt delivery: SS, RSP, RFLAGS, CS and RIP go onto the stack in this order. -/
def deliver (x : Context) (rsp0 : Word) : Cpu :=
  ((((x.fresh rsp0).push (x.ss.setWidth 64)).push x.rsp).push x.rflags).push (x.cs.setWidth 64)
    |>.push x.rip

/-- The interrupted code goes on as if nothing had happened. -/
def Resumed (x : Context) (o : Option (Word × Cpu)) : Prop :=
  ∃ c, o = some (x.rip, c) ∧ (∀ r, c.get r = x.reg r) ∧ c.rsp = x.rsp ∧ c.rflags = x.rflags

end Context

def isrSaved : List Reg :=
  [.rax, .rcx, .rdx, .rbx, .rbp, .rsi, .rdi, .r8, .r9, .r10, .r11, .r12, .r13, .r14, .r15]

def isrRestored : List Reg :=
  [.r15, .r14, .r13, .r12, .r11, .r10, .r9, .r8, .rdi, .rsi, .rbp, .rbx, .rdx, .rcx, .rax]

/-- Everything after the last pop. -/
def isrReturn : List Instr :=
  [.load 1 .rax, .testb3al, .jz 4, .load 0 .rcx, .load 2 .r11, .loadRsp 3, .sysretq, .iretq]

def isrStub (ret : Word) (handler : Cpu → Cpu) : List Instr :=
  isrSaved.map .push ++
    (.movRsp .rdi :: .call ret handler :: (isrRestored.map .pop ++ isrReturn))

/-- Stack slots in use above the handler's frame: the saved registers and the five
quadwords the processor pushed. -/
def isrLive : Nat := 20

/-- The state in which the stub calls its handler. -/
def Context.atHandler (x : Context) (ret rsp0 : Word) : Cpu :=
  let saved : Cpu := { x.deliver rsp0 with m := (x.deliver rsp0).m.pushRegs isrSaved }
  (saved.set .rdi saved.rsp).push ret

def runIsr (handlers : Vector → Cpu → Cpu) (v : Vector) (ret rsp0 : Word) (x : Context) :
    Option (Word × Cpu) :=
  exec 0 (isrStub ret (handlers v)) (x.deliver rsp0)

theorem isrRestored_eq : isrRestored = isrSaved.reverse := rfl

theorem mem_isrSaved (r : Reg) : r ∈ isrSaved := by cases r <;> decide

theorem isrSaved_nodup : isrSaved.Nodup := by decide

namespace Cpu

@[simp] theorem push_stack_zero (c : Cpu) (v : Word) : (c.push v).stack 0 = v := by
  unfold stack push
  rw [slot_zero]
  exact Machine.push_top c.m v

theorem push_stack_succ (c : Cpu) (v : Word) {i : Nat} (hi : i < 1000) :
    (c.push v).stack (i + 1) = c.stack i := by
  unfold stack push
  rw [Machine.slot_push]
  exact Machine.push_above c.m v (n := 1002) (by decide) (by omega)

end Cpu

namespace Context

@[simp] theorem deliver_reg (x : Context) (rsp0 : Word) : (x.deliver rsp0).m.reg = x.reg := rfl

/-- The interrupt frame, counted from the lowest address. -/
def frame (x : Context) : Nat → Word
  | 0 => x.rip
  | 1 => x.cs.setWidth 64
  | 2 => x.rflags
  | 3 => x.rsp
  | _ => x.ss.setWidth 64

theorem deliver_stack (x : Context) (rsp0 : Word) {i : Nat} (hi : i < 5) :
    (x.deliver rsp0).stack i = x.frame i := by
  unfold deliver
  match i, hi with
  | 0, _ => simp [frame]
  | 1, _ => simp [frame, Cpu.push_stack_succ]
  | 2, _ => simp [frame, Cpu.push_stack_succ]
  | 3, _ => simp [frame, Cpu.push_stack_succ]
  | 4, _ => simp [frame, Cpu.push_stack_succ]

end Context

theorem isrStub_body {handler : Cpu → Cpu} (x : Context) (ret rsp0 : Word)
    (hf : SysV isrLive handler (x.atHandler ret rsp0)) :
    ∃ c', exec 0 (isrStub ret handler) (x.deliver rsp0) = exec 0 isrReturn c' ∧
      (∀ r, c'.get r = (x.deliver rsp0).get r) ∧ c'.rsp = (x.deliver rsp0).rsp ∧
      ∀ i, i < 5 → c'.stack i = (x.deliver rsp0).stack i := by
  let c := x.deliver rsp0
  let saved : Cpu := { c with m := c.m.pushRegs isrSaved }
  let before := saved.set .rdi saved.rsp
  let after := handler (before.push ret)
  replace hf : SysV isrLive handler (before.push ret) := hf
  have hsp : after.rsp = saved.rsp := hf.call_rsp.trans (Cpu.set_rsp _ _ _)
  have hslots : ∀ i, i < isrLive → after.stack i = saved.stack i := by
    intro i hi
    have h := hf.call_stack hi (n := 30) (by decide) (by unfold isrLive at hi; omega)
    exact h.trans (Cpu.set_stack _ _ _ _)
  have hlen : isrSaved.length = 15 := rfl
  refine ⟨{ after with m := after.m.popRegs isrSaved.reverse }, ?_, ?_, ?_, ?_⟩
  · rw [isrStub, exec_pushes, exec_movRsp, exec_call, exec_pops, isrRestored_eq]
  · intro r
    refine Machine.popRegs_pushRegs c.m after.m isrSaved_nodup (n := 16) (by decide)
      (by decide) ?_ (mem_isrSaved r)
    intro i hi
    exact hslots i (by unfold isrLive; omega)
  · exact Machine.popRegs_pushRegs_sp c.m after.m isrSaved hsp
  · intro i hi
    have hpop : (after.m.popRegs isrSaved.reverse).sp = slot after.m.sp 15 := by
      rw [Machine.popRegs_sp, List.length_reverse, hlen]
    have habove := Machine.pushRegs_above c.m isrSaved (i := i) (n := 30) (by decide) (by omega)
    have hslot := Machine.slot_pushRegs c.m isrSaved i
    rw [hlen] at hslot
    have hafter := hslots (15 + i) (by unfold isrLive; omega)
    unfold Cpu.stack at hafter ⊢
    rw [Machine.popRegs_mem, hpop, slot_slot, hafter]
    change (c.m.pushRegs isrSaved).mem (slot (c.m.pushRegs isrSaved).sp (15 + i)) = _
    rw [hslot, habove]

theorem exec_isrReturn (c : Cpu) : exec 0 isrReturn c =
    if c.stack 1 &&& 3 = 0 then
      some (c.stack 0, { (c.set .rax (c.stack 1)).setRsp (c.stack 3) with
        rflags := c.stack 2
        cs := (c.stack 1).setWidth 16
        ss := (c.stack 4).setWidth 16 })
    else
      some (c.stack 0, { (((c.set .rax (c.stack 1)).set .rcx (c.stack 0)).set .r11
          (c.stack 2)).setRsp (c.stack 3) with
        rflags := c.stack 2
        cs := sysretCs
        ss := sysretSs }) := by
  have hal : (c.set .rax (c.stack 1)).get .rax = c.stack 1 := by simp [Cpu.get, Cpu.set]
  simp only [isrReturn, exec, zeroFlag_testFlags, hal, decide_eq_true_eq]
  split
  · rfl
  · rfl

theorem setWidth_ring (s : BitVec 16) : s.setWidth 64 &&& 3 = 0 ↔ s &&& 3 = 0 := by
  have h : s.setWidth 64 &&& 3 = (s &&& 3).setWidth 64 := by ext i; simp
  have hlt := (s &&& 3).isLt
  rw [h, ← BitVec.toNat_inj, ← BitVec.toNat_inj, BitVec.toNat_setWidth]
  simp only [BitVec.ofNat_eq_ofNat, BitVec.toNat_ofNat] at hlt ⊢
  omega

/-- What the interrupted code finds in its registers. -/
def Context.returned (x : Context) : Reg → Word
  | .rax => x.cs.setWidth 64
  | .rcx => if x.cs &&& 3 = 0 then x.reg .rcx else x.rip
  | .r11 => if x.cs &&& 3 = 0 then x.reg .r11 else x.rflags
  | r => x.reg r

theorem returned_kernel {x : Context} (h : x.cs &&& 3 = 0) (r : Reg) :
    x.returned r = if r = .rax then x.cs.setWidth 64 else x.reg r := by
  cases r <;> first | rfl | exact if_pos h

theorem returned_user {x : Context} (h : ¬ x.cs &&& 3 = 0) (r : Reg) :
    x.returned r = if r = .rax then x.cs.setWidth 64 else if r = .rcx then x.rip
      else if r = .r11 then x.rflags else x.reg r := by
  cases r <;> first | rfl | exact if_neg h

section Run

variable {handlers : Vector → Cpu → Cpu} {v : Vector} {ret rsp0 : Word} {x : Context}
  (hf : SysV isrLive (handlers v) (x.atHandler ret rsp0))
include hf

/-- The stub always comes back, with the stack pointer and flags it interrupted. -/
theorem runIsr_returned : ∃ c, runIsr handlers v ret rsp0 x = some (x.rip, c) ∧
    (∀ r, c.get r = x.returned r) ∧ c.rsp = x.rsp ∧ c.rflags = x.rflags := by
  obtain ⟨c, hrun, hreg, _, hstack⟩ := isrStub_body x ret rsp0 hf
  have hframe : ∀ i, i < 5 → c.stack i = x.frame i := fun i hi =>
    (hstack i hi).trans (x.deliver_stack rsp0 hi)
  have hreg' : ∀ r, c.m.reg r = x.reg r := hreg
  unfold runIsr
  rw [hrun, exec_isrReturn, hframe 0 (by omega), hframe 1 (by omega), hframe 2 (by omega),
    hframe 3 (by omega), hframe 4 (by omega)]
  simp only [Context.frame, setWidth_ring]
  by_cases h0 : x.cs &&& 3 = 0
  · refine ⟨_, if_pos h0, ?_, rfl, rfl⟩
    intro r
    rw [returned_kernel h0]
    cases r <;> simp [Cpu.get, Cpu.set, Cpu.setRsp, hreg']
  · refine ⟨_, if_neg h0, ?_, rfl, rfl⟩
    intro r
    rw [returned_user h0]
    cases r <;> simp [Cpu.get, Cpu.set, Cpu.setRsp, hreg']

theorem resumed_iff_returned :
    x.Resumed (runIsr handlers v ret rsp0 x) ↔ ∀ r, x.returned r = x.reg r := by
  obtain ⟨c, hrun, hreg, hrsp, hflags⟩ := runIsr_returned hf
  constructor
  · rintro ⟨c', hrun', hreg', _, _⟩ r
    have hc : c = c' := by simpa [hrun] using hrun'
    rw [← hreg r, hc, hreg' r]
  · intro h
    exact ⟨c, hrun, fun r => (hreg r).trans (h r), hrsp, hflags⟩

end Run

/-- The interrupted code is resumed unchanged exactly when it already held in RAX, RCX
and R11 what the return path puts there. -/
theorem isr_stub_resumes_iff (handlers : Vector → Cpu → Cpu) (v : Vector) (ret rsp0 : Word)
    (x : Context) (hf : SysV isrLive (handlers v) (x.atHandler ret rsp0)) :
    x.Resumed (runIsr handlers v ret rsp0 x) ↔
      x.reg .rax = x.cs.setWidth 64 ∧
        (x.cs &&& 3 = 3 → x.reg .rcx = x.rip ∧ x.reg .r11 = x.rflags) := by
  rw [resumed_iff_returned hf]
  constructor
  · intro h
    refine ⟨(h .rax).symm, fun h3 => ?_⟩
    have h0 : ¬ x.cs &&& 3 = 0 := by rw [h3]; decide
    have hrcx := h .rcx
    have hr11 := h .r11
    rw [returned_user h0] at hrcx hr11
    exact ⟨hrcx.symm, hr11.symm⟩
  · rintro ⟨hrax, hring3⟩ r
    rcases x.ring with h0 | h3
    · rw [returned_kernel h0, ← hrax]
      split <;> simp [*]
    · obtain ⟨hrcx, hr11⟩ := hring3 h3
      have h0 : ¬ x.cs &&& 3 = 0 := by rw [h3]; decide
      rw [returned_user h0, ← hrax, ← hrcx, ← hr11]
      split_ifs <;> simp [*]

/-- A handler that returns with every caller-saved register zeroed. -/
def scratchHandler (c : Cpu) : Cpu :=
  { c with m :=
    { c.m with
      reg := fun r => if r ∈ calleeSaved then c.m.reg r else 0
      sp := c.m.sp + 8 } }

theorem scratchHandler_sysV (live : Nat) (c : Cpu) : SysV live scratchHandler c where
  rsp := rfl
  saved _ hr := if_pos hr
  frame i _ := by
    have h : slot (c.m.sp + 8) i = slot c.m.sp (i + 1) := by
      rw [show c.m.sp + 8 = slot c.m.sp 1 from rfl, slot_slot, Nat.add_comm]
    exact congrArg c.m.mem h

/-- Kernel code with zero in RAX. -/
def kernelContext : Context where
  reg _ := 0
  rsp := 0x8000
  rip := 0x100000
  rflags := 0x202
  cs := 0x08
  ss := 0x10
  mem _ := 0
  ring := by decide

/-- User code that happens to hold its CS, RIP and RFLAGS in the right registers. -/
def luckyUserContext : Context where
  reg r := if r = .rax then 0x2B else if r = .rcx then 0x400000 else if r = .r11 then 0x202 else 7
  rsp := 0x7FF8
  rip := 0x400000
  rflags := 0x202
  cs := 0x2B
  ss := 0x23
  mem _ := 0
  ring := by decide

theorem isr_stub_resumes_lucky :
    luckyUserContext.Resumed (runIsr (fun _ => scratchHandler) .isr21 0x1234 0x9000
      luckyUserContext) :=
  (isr_stub_resumes_iff (fun _ => scratchHandler) .isr21 0x1234 0x9000 luckyUserContext
    (scratchHandler_sysV isrLive _)).mpr ⟨by decide, by decide⟩

/-- The timer interrupt changes RAX of the kernel code it interrupts. -/
theorem isr_stub_clobbers_rax :
    (∀ c, SysV isrLive scratchHandler c) ∧
      ¬ kernelContext.Resumed (runIsr (fun _ => scratchHandler) .isr20 0x1234 0 kernelContext) := by
  refine ⟨scratchHandler_sysV isrLive, fun h => ?_⟩
  have hrax := (resumed_iff_returned (scratchHandler_sysV isrLive _)).mp h .rax
  exact absurd hrax (by decide)

end WinDOS
