import WinDOS.Cpu.IsrStub

/-!
# `syscall_entry_asm` of `isr.S`

The entry saves fourteen registers and gives eight of them back: the six argument registers
are dropped with `addq $48, %rsp`. What user code finds in them is what the C dispatcher left.
-/

set_option autoImplicit false

namespace WinDOS

open WordStack

/-- User code at a `syscall` instruction; `rip` is the address after it. -/
structure UserState where
  reg : Reg → Word
  rsp : Word
  rip : Word
  rflags : Word
  mem : Word → Word

/-- `pushq` up to the return address, and the argument registers after it. -/
def syscallKept : List Reg := [.rbx, .rbp, .r12, .r13, .r14, .r15, .r11, .rcx]

def syscallArgs : List Reg := [.rdi, .rsi, .rdx, .r10, .r8, .r9]

def syscallRestored : List Reg := [.rcx, .r11, .r15, .r14, .r13, .r12, .rbp, .rbx]

def syscallEntry (ret : Word) (dispatch : Cpu → Cpu) : List Instr :=
  (syscallKept ++ syscallArgs).map .push ++
    (.call ret dispatch :: .addRsp 6 :: (syscallRestored.map .pop ++ [.sysretq]))

/-- Stack slots in use above the dispatcher's frame. -/
def syscallLive : Nat := 14

namespace UserState

/-- The `syscall` instruction: the STAR base 0x08 gives CS and SS, the mask clears RFLAGS, and
RSP stays the user's. -/
def enter (x : UserState) (fmask : Word) : Cpu where
  m := { reg := Function.update (Function.update x.reg .rcx x.rip) .r11 x.rflags
         sp := x.rsp
         mem := x.mem }
  rflags := x.rflags &&& ~~~fmask
  cs := 0x08
  ss := 0x10

/-- The state in which the dispatcher is called. -/
def atDispatch (x : UserState) (fmask ret : Word) : Cpu :=
  { x.enter fmask with m := (x.enter fmask).m.pushRegs (syscallKept ++ syscallArgs) }.push ret

def runSyscall (x : UserState) (fmask ret : Word) (dispatch : Cpu → Cpu) : Option (Word × Cpu) :=
  exec 0 (syscallEntry ret dispatch) (x.enter fmask)

/-- The registers that user code relies on. -/
def relied : List Reg := [.rbx, .rbp, .r12, .r13, .r14, .r15] ++ syscallArgs

/-- User code goes on after its `syscall`, with RSP, RFLAGS and all registers but RAX, RCX and
R11 as they were. -/
def Returned (x : UserState) (o : Option (Word × Cpu)) : Prop :=
  ∃ c, o = some (x.rip, c) ∧ c.rsp = x.rsp ∧ c.rflags = x.rflags ∧
    ∀ r ∈ relied, c.get r = x.reg r

end UserState

theorem syscallRestored_eq : syscallRestored = syscallKept.reverse := rfl

theorem exec_syscallReturn (c : Cpu) :
    exec 0 (syscallRestored.map .pop ++ [.sysretq]) c =
      some ((c.m.popRegs syscallRestored).reg .rcx,
        { m := c.m.popRegs syscallRestored
          rflags := (c.m.popRegs syscallRestored).reg .r11
          cs := sysretCs
          ss := sysretSs }) := by
  rw [exec_pops]
  rfl

theorem syscallEntry_body {dispatch : Cpu → Cpu} (c : Cpu) (ret : Word)
    (hf : SysV syscallLive dispatch
      (Cpu.push { c with m := c.m.pushRegs (syscallKept ++ syscallArgs) } ret)) :
    ∃ c', exec 0 (syscallEntry ret dispatch) c =
      exec 0 (syscallRestored.map .pop ++ [.sysretq]) c' ∧
    (∀ r, c'.get r =
      (dispatch (Cpu.push { c with m := c.m.pushRegs (syscallKept ++ syscallArgs) } ret)).get r) ∧
    c'.rsp = (c.m.pushRegs syscallKept).sp ∧
    ∀ i, i < 8 → c'.stack i = (c.m.pushRegs syscallKept).mem (slot (c.m.pushRegs syscallKept).sp i) := by
  have happ : c.m.pushRegs (syscallKept ++ syscallArgs) =
      (c.m.pushRegs syscallKept).pushRegs syscallArgs := List.foldl_append
  generalize hk : c.m.pushRegs syscallKept = kept at happ ⊢
  rw [happ] at hf
  rw [syscallEntry, exec_pushes, exec_call, exec_addRsp, happ]
  generalize hs : ({ c with m := kept.pushRegs syscallArgs } : Cpu) = saved at hf ⊢
  have hm : saved.m = kept.pushRegs syscallArgs := by rw [← hs]
  have hsp : slot (dispatch (saved.push ret)).rsp 6 = kept.sp := by
    rw [hf.call_rsp, Cpu.rsp, hm]
    have h := Machine.slot_pushRegs kept syscallArgs 0
    rwa [slot_zero] at h
  refine ⟨_, rfl, fun _ => rfl, hsp, fun i hi => ?_⟩
  have h := hf.call_stack (show 6 + i < syscallLive by unfold syscallLive; omega)
    (by decide : 8 * 16 ≤ 2 ^ 64) (by omega)
  have hslot := Machine.slot_pushRegs kept syscallArgs i
  have habove := Machine.pushRegs_above kept syscallArgs (by decide : 8 * 16 ≤ 2 ^ 64)
    (by change 6 + i < 16; omega)
  have hbase : slot (dispatch (saved.push ret)).m.sp 6 = kept.sp := hsp
  unfold Cpu.stack at h
  rw [hm, show (6 : Nat) = syscallArgs.length from rfl, hslot, habove] at h
  rw [← h, ← slot_slot, show syscallArgs.length = 6 from rfl, hbase]
  unfold Cpu.stack Cpu.setRsp
  dsimp only
  rw [hsp]

section Run

variable {dispatch : Cpu → Cpu} {x : UserState} {fmask ret : Word}
  (hf : SysV syscallLive dispatch (x.atDispatch fmask ret))
include hf

/-- The entry always comes back: the kept registers hold their values again, all others what
the dispatcher left in them. -/
theorem runSyscall_eq : ∃ c, x.runSyscall fmask ret dispatch = some (x.rip, c) ∧
    c.rsp = x.rsp ∧ c.rflags = x.rflags ∧
    (∀ r ∈ syscallKept, c.get r = (x.enter fmask).get r) ∧
    ∀ r, r ∉ syscallKept → c.get r = (dispatch (x.atDispatch fmask ret)).get r := by
  obtain ⟨c', hrun, hreg, hsp, hslots⟩ := syscallEntry_body (x.enter fmask) ret hf
  have hkept : ∀ r ∈ syscallKept,
      (c'.m.popRegs syscallRestored).reg r = (x.enter fmask).m.reg r := fun r hr => by
    rw [syscallRestored_eq]
    exact @Machine.popRegs_pushRegs _ _ (x.enter fmask).m c'.m syscallKept (by decide) 16
      (by decide) (by decide) hslots _ hr
  have hend : (c'.m.popRegs syscallRestored).sp = x.rsp :=
    Machine.popRegs_pushRegs_sp (x.enter fmask).m c'.m syscallKept hsp
  rw [UserState.runSyscall, hrun, exec_syscallReturn, hkept .rcx (by decide),
    hkept .r11 (by decide)]
  refine ⟨_, rfl, hend, rfl, hkept, fun r hr => ?_⟩
  have hnot : r ∉ syscallRestored := by
    rwa [syscallRestored_eq, List.mem_reverse]
  exact (Machine.popRegs_reg_of_notMem c'.m hnot).trans (hreg r)

end Run

/-- User code gets its registers back exactly if the dispatcher leaves the six argument
registers as it found them. -/
theorem syscall_entry_returns_iff (dispatch : Cpu → Cpu) (fmask ret : Word) (x : UserState)
    (hf : SysV syscallLive dispatch (x.atDispatch fmask ret)) :
    x.Returned (x.runSyscall fmask ret dispatch) ↔
      ∀ r ∈ syscallArgs, (dispatch (x.atDispatch fmask ret)).get r = x.reg r := by
  obtain ⟨c, hrun, hrsp, hflags, hkept, hlost⟩ := runSyscall_eq hf
  have hargs : ∀ r ∈ syscallArgs, r ∉ syscallKept := by decide
  constructor
  · rintro ⟨c', hrun', -, -, hreg⟩ r hr
    obtain rfl : c = c' := by simpa [hrun] using hrun'
    rw [← hlost r (hargs r hr)]
    exact hreg r (List.mem_append_right _ hr)
  · intro h
    refine ⟨c, hrun, hrsp, hflags, fun r hr => ?_⟩
    rcases List.mem_append.mp hr with hr | hr
    · rw [hkept r (List.mem_append_left _ hr)]
      have hne : r ≠ .rcx ∧ r ≠ .r11 := by
        revert hr
        cases r <;> decide
      unfold Cpu.get UserState.enter
      dsimp only
      rw [Function.update_of_ne hne.2, Function.update_of_ne hne.1]
    · rw [hlost r (hargs r hr), h r hr]

/-- A dispatcher that rejects the call and touches no other register. -/
def rejectDispatch (c : Cpu) : Cpu := { c with m := { c.m with sp := c.m.sp + 8 } }.set .rax (-1)

theorem rejectDispatch_sysV (live : Nat) (c : Cpu) : SysV live rejectDispatch c where
  rsp := rfl
  saved r hr := Function.update_of_ne (by revert hr; cases r <;> decide) _ _
  frame i _ := by
    have h : slot (c.m.sp + 8) i = slot c.m.sp (i + 1) := by
      rw [show c.m.sp + 8 = slot c.m.sp 1 from rfl, slot_slot, Nat.add_comm]
    exact congrArg c.m.mem h

/-- User code at the `syscall` of `WriteConsole`, with a value of its own in RSI. -/
def writeConsoleState : UserState where
  reg r := if r = .rax then 1 else if r = .rdi then 0x9000 else if r = .rsi then 7 else 0
  rsp := 0x8000
  rip := 0x1002
  rflags := 0x202
  mem _ := 0

theorem syscall_entry_returns_reject :
    writeConsoleState.Returned (writeConsoleState.runSyscall 0 0x2000 rejectDispatch) :=
  (syscall_entry_returns_iff rejectDispatch 0 0x2000 writeConsoleState
    (rejectDispatch_sysV syscallLive _)).mpr (by decide)

/-- A dispatcher within the calling convention zeroes RSI, and user code gets it back so. -/
theorem syscall_entry_loses_rsi : (∀ c, SysV syscallLive scratchHandler c) ∧
    ¬ writeConsoleState.Returned (writeConsoleState.runSyscall 0 0x2000 scratchHandler) := by
  refine ⟨scratchHandler_sysV syscallLive, fun h => ?_⟩
  obtain ⟨c, hrun, -, -, -, hlost⟩ := @runSyscall_eq _ writeConsoleState 0 0x2000
    (scratchHandler_sysV syscallLive _)
  obtain ⟨c', hrun', -, -, hreg⟩ := h
  obtain rfl : c = c' := (Prod.mk.inj (Option.some.inj (hrun.symm.trans hrun'))).2
  have hrsi := (hlost .rsi (by decide)).symm.trans (hreg .rsi (by decide))
  exact absurd hrsi (by decide)

end WinDOS
