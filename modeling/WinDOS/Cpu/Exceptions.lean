import WinDOS.Boot.Ksprintf
import WinDOS.Cpu.Idt

/-!
# Exceptions (`isr.S`, `sys/exception.h`)

The processor's words, the stub's words and what `exc_handler` finds in them. The handler does not
come back, since the dead screen does not.
-/

set_option autoImplicit false

namespace WinDOS

open WordStack Bytes

namespace Cpu

def pushWords (c : Cpu) (ws : List Word) : Cpu := ws.foldl push c

theorem pushWords_append (c : Cpu) (ws ws' : List Word) :
    c.pushWords (ws ++ ws') = (c.pushWords ws).pushWords ws' := List.foldl_append

/-- The last word lies lowest, and above the words the stack is as it was. -/
theorem pushWords_stack (c : Cpu) (ws : List Word) {i : Nat} (hi : i < 1000) :
    (c.pushWords ws).stack i = ws.reverse[i]?.getD (c.stack (i - ws.length)) := by
  induction ws using List.reverseRecOn generalizing i with
  | nil => rfl
  | append_singleton ws w ih =>
    have hpush : c.pushWords (ws ++ [w]) = (c.pushWords ws).push w := c.pushWords_append ws [w]
    rw [hpush, List.reverse_append, List.length_append]
    cases i with
    | zero => exact push_stack_zero _ _
    | succ i =>
      rw [push_stack_succ _ _ (by omega), ih (by omega)]
      change _ = ws.reverse[i]?.getD (c.stack (i + 1 - (ws.length + 1)))
      rw [Nat.add_sub_add_right]

theorem pushWords_get (c : Cpu) (ws : List Word) (r : Reg) : (c.pushWords ws).get r = c.get r := by
  induction ws using List.reverseRecOn with
  | nil => rfl
  | append_singleton ws w ih =>
    exact (congrArg (fun c => c.get r) (c.pushWords_append ws [w])).trans ih

theorem pushRegs_eq (c : Cpu) (rs : List Reg) :
    ({ c with m := c.m.pushRegs rs } : Cpu) = c.pushWords (rs.map c.get) := by
  induction rs generalizing c with
  | nil => rfl
  | cons r rs ih => exact ih (c.push (c.get r))

theorem pushWords_slot (c : Cpu) (ws : List Word) :
    slot (c.pushWords ws).rsp ws.length = c.rsp := by
  induction ws using List.reverseRecOn with
  | nil => exact slot_zero _
  | append_singleton ws w ih =>
    have hpush : c.pushWords (ws ++ [w]) = (c.pushWords ws).push w := c.pushWords_append ws [w]
    rw [hpush, List.length_append, List.length_singleton]
    exact (Machine.slot_push _ w _).trans ih

end Cpu

/-! ### The processor -/

/-- The exceptions with an error code. -/
def pushesError (n : Nat) : Bool :=
  n = 8 ∨ 10 ≤ n ∧ n ≤ 14 ∨ n = 17 ∨ n = 21 ∨ n = 29 ∨ n = 30

namespace Context

/-- The stack that the gate, the privilege level and the task state segment give. -/
def stackFor (x : Context) (tss : Buf) (gate : Gate) : Word :=
  (if gate.ist ≠ 0 then tssWord tss (36 + 8 * (gate.ist.toNat - 1))
    else if x.cs &&& 3 = 0 then x.rsp else tssWord tss 4) &&& ~~~15

/-- The processor on that stack, interrupts off. -/
def onStack (x : Context) (tss : Buf) (gate : Gate) : Cpu where
  m := { reg := x.reg, sp := x.stackFor tss gate, mem := x.mem }
  rflags := x.rflags &&& ~~~0x300
  cs := gate.sel
  ss := if x.cs &&& 3 = 0 then x.ss else 0

/-- Exception `n`, with the error code `e` if it has one. -/
def fault (x : Context) (tss : Buf) (gate : Gate) (n : Nat) (e : Word) : Cpu :=
  (x.onStack tss gate).pushWords
    ([x.ss.setWidth 64, x.rsp, x.rflags, x.cs.setWidth 64, x.rip] ++
      if pushesError n then [e] else [])

end Context

/-! ### The stubs -/

/-- The instructions of the trace in front of `EXC_STUB`. -/
inductive TraceInstr where
  | push (r : Reg)
  | pop (r : Reg)
  | pushImm (v : Word)
  | movDx (v : BitVec 16)
  | movAl (v : Byte)
  | outb

/-- The state, and what went to which port. -/
abbrev Traced := Cpu × List (BitVec 16 × Byte)

def TraceInstr.step (t : Traced) : TraceInstr → Traced
  | push r => (t.1.push (t.1.get r), t.2)
  | pop r => ({ t.1 with m := t.1.m.popTo r }, t.2)
  | pushImm v => (t.1.push v, t.2)
  | movDx v => (t.1.set .rdx (t.1.get .rdx &&& ~~~0xFFFF ||| v.setWidth 64), t.2)
  | movAl v => (t.1.set .rax (t.1.get .rax &&& ~~~0xFF ||| v.setWidth 64), t.2)
  | outb => (t.1, t.2 ++ [((t.1.get .rdx).setWidth 16, (t.1.get .rax).setWidth 8)])

def excTrace (num : Nat) : List TraceInstr :=
  [.push .rax, .movDx 0x3F8, .movAl 0x45, .outb, .movAl (BitVec.ofNat 8 (0x30 + num / 10)), .outb,
    .movAl (BitVec.ofNat 8 (0x30 + num % 10)), .outb, .movAl 0x0A, .outb, .pop .rax,
    .pushImm (BitVec.ofNat 64 num)]

/-- The stubs that are an `EXC_STUB_ERR`. -/
def excStubErr (num : Nat) : Bool := num ∈ [8, 10, 11, 12, 13, 14, 17]

def excReturn (err : Bool) : List Instr :=
  isrRestored.map .pop ++ [.addRsp (if err then 2 else 1), .iretq]

def excStub (err : Bool) (ret : Word) (handler : Cpu → Cpu) : List Instr :=
  isrSaved.map .push ++ (.movRsp .rdi :: .call ret handler :: excReturn err)

def runExc (num : Nat) (ret : Word) (handler : Cpu → Cpu) (c : Cpu) : Option (Word × Cpu) :=
  exec 0 (excStub (excStubErr num) ret handler) ((excTrace num).foldl TraceInstr.step (c, [])).1

/-- What the trace leaves in RDX. -/
def traceDx (v : Word) : Word := v &&& ~~~0xFFFF ||| 0x3F8

theorem low_word (v : Word) (w : BitVec 16) :
    (v &&& ~~~0xFFFF ||| w.setWidth 64).setWidth 16 = w := by
  ext i hi
  simp

theorem low_byte (v : Word) (b : Byte) : (v &&& ~~~0xFF ||| b.setWidth 64).setWidth 8 = b := by
  ext i hi
  simp

/-- One character of the trace. -/
theorem trace_char (t : Traced) (b : Byte) (is : List TraceInstr) :
    (.movAl b :: .outb :: is : List TraceInstr).foldl TraceInstr.step t =
      is.foldl TraceInstr.step (t.1.set .rax (t.1.get .rax &&& ~~~0xFF ||| b.setWidth 64),
        t.2 ++ [((t.1.get .rdx).setWidth 16, b)]) := by
  have hal : ∀ v : Word, (t.1.set .rax v).get .rax = v := by simp [Cpu.get, Cpu.set]
  simp only [List.foldl_cons, TraceInstr.step]
  rw [hal, low_byte]
  rfl

/-- `popq %rax` undoes `pushq %rax`, whatever happened to RAX, and the next word takes the slot. -/
theorem push_pop_rax (c : Cpu) (v d w : Word) :
    let c' := ((c.push (c.get .rax)).set .rdx d).set .rax v
    ({ c' with m := c'.m.popTo .rax } : Cpu).push w = (c.set .rdx d).push w := by
  have hsp : c.m.sp - 8 + 8 = c.m.sp := BitVec.sub_add_cancel _ _
  have hreg : Function.update (Function.update (Function.update c.m.reg .rdx d) .rax v) .rax
      (Function.update c.m.mem (c.m.sp - 8) (c.m.reg .rax) (c.m.sp - 8)) =
        Function.update c.m.reg .rdx d := by
    rw [Function.update_self, Function.update_idem]
    exact Function.update_eq_self_iff.mpr rfl
  have hmem : Function.update (Function.update c.m.mem (c.m.sp - 8) (c.m.reg .rax)) (c.m.sp - 8) w =
      Function.update c.m.mem (c.m.sp - 8) w := Function.update_idem _ _ _
  simp only [Cpu.push, Cpu.set, Cpu.get, Machine.push, Machine.popTo, hsp, hreg, hmem]

theorem set_set_rax (c : Cpu) (v w : Word) : (c.set .rax v).set .rax w = c.set .rax w := by
  simp only [Cpu.set, Function.update_idem]

theorem excTrace_run (num : Nat) (c : Cpu) :
    (excTrace num).foldl TraceInstr.step (c, []) =
      ((c.set .rdx (traceDx (c.get .rdx))).push (BitVec.ofNat 64 num),
        [(0x3F8, 0x45), (0x3F8, BitVec.ofNat 8 (0x30 + num / 10)),
          (0x3F8, BitVec.ofNat 8 (0x30 + num % 10)), (0x3F8, 0x0A)]) := by
  have hport : (traceDx (c.get .rdx)).setWidth 16 = 0x3F8 := low_word (c.get .rdx) 0x3F8
  unfold excTrace
  rw [List.foldl_cons, List.foldl_cons, trace_char, trace_char, trace_char, trace_char]
  refine Prod.ext ?_ ?_
  · simp only [set_set_rax]
    exact push_pop_rax c _ (traceDx (c.get .rdx)) _
  · change [((traceDx (c.get .rdx)).setWidth 16, (0x45 : Byte)),
      ((traceDx (c.get .rdx)).setWidth 16, _), ((traceDx (c.get .rdx)).setWidth 16, _),
      ((traceDx (c.get .rdx)).setWidth 16, (0x0A : Byte))] = _
    rw [hport]

/-! ### The frame -/

/-- The registers that the stub saves. -/
def Context.atStub (x : Context) (r : Reg) : Word :=
  if r = .rdx then traceDx (x.reg .rdx) else x.reg r

/-- `ExcFrame`, and the processor's words behind it. -/
def excFrame (x : Context) (n : Nat) (e : Word) : List Word :=
  isrRestored.map x.atStub ++ BitVec.ofNat 64 n :: ((if pushesError n then [e] else []) ++
    [x.rip, x.cs.setWidth 64, x.rflags, x.rsp, x.ss.setWidth 64])

/-- `((u64*)f)[i]` in `exc_handler`. -/
def excRaw (c : Cpu) (i : Nat) : Word := c.m.mem (slot (c.get .rdi) i)

theorem Cpu.pushWords_set (c : Cpu) (ws : List Word) (r : Reg) (v : Word) :
    (c.pushWords ws).set r v = (c.set r v).pushWords ws := by
  induction ws generalizing c with
  | nil => rfl
  | cons w ws ih => exact ih (c.push w)

/-- Behind the pushes of the stub. -/
def excSaved (num : Nat) (c : Cpu) : Cpu :=
  let c1 := (c.set .rdx (traceDx (c.get .rdx))).push (BitVec.ofNat 64 num)
  c1.pushWords (isrSaved.map c1.get)

theorem runExc_call (num : Nat) (ret : Word) (handler : Cpu → Cpu) (c : Cpu) :
    runExc num ret handler c = exec 0 (excReturn (excStubErr num))
      (handler (((excSaved num c).set .rdi (excSaved num c).rsp).push ret)) := by
  unfold runExc excStub excSaved
  rw [excTrace_run, exec_pushes, exec_movRsp, exec_call, Cpu.pushRegs_eq]

/-- What the processor pushes and what the stub pushes are the frame, from its end. -/
theorem fault_words (x : Context) (tss : Buf) (gate : Gate) (n : Nat) (e : Word) :
    excSaved n (x.fault tss gate n e) =
      ((x.onStack tss gate).set .rdx (traceDx (x.reg .rdx))).pushWords (excFrame x n e).reverse := by
  let c := x.fault tss gate n e
  let c1 := (c.set .rdx (traceDx (c.get .rdx))).push (BitVec.ofNat 64 n)
  have hget : c1.get = x.atStub := by
    funext r
    have hpush : c1.get r = (c.set .rdx (traceDx (c.get .rdx))).get r := rfl
    have hc : ∀ r, c.get r = x.reg r := Cpu.pushWords_get _ _
    rw [hpush, hc]
    unfold Context.atStub
    by_cases hr : r = .rdx
    · subst hr
      simp [Cpu.get, Cpu.set]
    · rw [if_neg hr, ← hc r]
      exact Function.update_of_ne hr _ _
  have hdx : c.get .rdx = x.reg .rdx := Cpu.pushWords_get _ _ _
  have hsaved : (isrRestored.map x.atStub).reverse = isrSaved.map x.atStub := by
    rw [isrRestored_eq, List.map_reverse, List.reverse_reverse]
  have hc1 : c1 = (((x.onStack tss gate).set .rdx (traceDx (x.reg .rdx))).pushWords
      ([x.ss.setWidth 64, x.rsp, x.rflags, x.cs.setWidth 64, x.rip] ++
        if pushesError n then [e] else [])).pushWords [BitVec.ofNat 64 n] := by
    rw [← hdx, ← Cpu.pushWords_set]
    rfl
  change c1.pushWords (isrSaved.map c1.get) = _
  rw [hget, hc1, ← Cpu.pushWords_append, ← Cpu.pushWords_append]
  congr 1
  unfold excFrame
  rw [List.reverse_append, hsaved]
  split
  · simp
  · simp

/-- `exc_handler` finds the frame, and above it what lay on that stack. -/
theorem excRaw_frame (x : Context) (tss : Buf) (gate : Gate) (n : Nat) (e ret : Word)
    (handler : Cpu → Cpu) :
    ∃ c : Cpu, runExc n ret handler (x.fault tss gate n e) =
        exec 0 (excReturn (excStubErr n)) (handler c) ∧
      (∀ i, i < 500 → excRaw c i = (excFrame x n e)[i]?.getD
        (x.mem (slot (x.stackFor tss gate) (i - (excFrame x n e).length)))) ∧
      slot (c.get .rdi) (excFrame x n e).length = x.stackFor tss gate ∧
      c.get .rdi = c.rsp + 8 := by
  let w := ((x.onStack tss gate).set .rdx (traceDx (x.reg .rdx))).pushWords
    (excFrame x n e).reverse
  have hrdi : ((w.set .rdi w.rsp).push ret).get .rdi = w.rsp := by simp [Cpu.get, Cpu.set, Cpu.push]
  have hcall := runExc_call n ret handler (x.fault tss gate n e)
  rw [fault_words] at hcall
  refine ⟨_, hcall, fun i hi => ?_, ?_, ?_⟩
  · have habove := Machine.push_above (w.set .rdi w.rsp).m ret (i := i) (n := 1000) (by decide)
      (by omega)
    have hstack := Cpu.pushWords_stack ((x.onStack tss gate).set .rdx (traceDx (x.reg .rdx)))
      (excFrame x n e).reverse (i := i) (by omega)
    rw [List.reverse_reverse, List.length_reverse] at hstack
    unfold excRaw
    rw [hrdi]
    exact habove.trans hstack
  · rw [hrdi, ← List.length_reverse]
    exact Cpu.pushWords_slot _ _
  · rw [hrdi]
    exact (BitVec.sub_add_cancel _ _).symm

/-! ### The handler -/

/-- `exc_names`; there is one name more than the handler looks up. -/
def excNames : List (Option String) :=
  [some "DIVIDE_BY_ZERO", some "DEBUG", some "NMI", some "BREAKPOINT", some "OVERFLOW",
    some "BOUND_RANGE", some "INVALID_OPCODE", some "DEVICE_NOT_AVAILABLE", some "DOUBLE_FAULT",
    some "COPROCESSOR_SEGMENT_OVERRUN", some "INVALID_TSS", some "SEGMENT_NOT_PRESENT",
    some "STACK_SEGMENT_FAULT", some "GENERAL_PROTECTION_FAULT", some "PAGE_FAULT"] ++
  List.replicate 14 none ++
  [some "X87_FLOATING_POINT", some "ALIGNMENT_CHECK", some "MACHINE_CHECK",
    some "SIMD_FLOATING_POINT"]

def winStopcodes : List (Option String) :=
  [some "DIVIDE_BY_ZERO", some "KERNEL_EXCEPTION", some "NMI_HARDWARE_FAILURE", some "BREAKPOINT",
    some "OVERFLOW", some "KERNEL_EXCEPTION", some "KERNEL_EXCEPTION", some "DEVICE_NOT_AVAILABLE",
    some "DOUBLE_FAULT", some "KERNEL_EXCEPTION", some "KERNEL_STACK_INPAGE_ERROR",
    some "SEGMENT_NOT_PRESENT", some "KERNEL_STACK_INPAGE_ERROR", some "KERNEL_EXCEPTION",
    some "PAGE_FAULT_IN_NONPAGED_AREA"] ++
  List.replicate 14 none ++
  [some "X87_FLOATING_POINT", some "ALIGNMENT_CHECK", some "MACHINE_CHECK_EXCEPTION",
    some "KERNEL_EXCEPTION"]

/-- `(vec < 32 && names[vec]) ? names[vec] : other`. -/
def excLookup (names : List (Option String)) (other : String) (vec : Word) : String :=
  if vec.toNat < 32 then ((names[vec.toNat]?).getD none).getD other else other

def excHasErr (vec : Word) : Bool :=
  vec = 8 ∨ vec.toNat ≥ 10 ∧ vec.toNat ≤ 14 ∨ vec = 17

/-- The local `rip` of `exc_handler`. -/
def excRip (raw : Nat → Word) : Word := raw (if excHasErr (raw 15) then 17 else 16)

/-- The argument `(u32)v`. -/
def excArg (v : Word) : PrintArg := .int (v.setWidth 32).toNat

/-- What `exc_handler` gives to `out_file_str`, each text with the size of its array, and to
`ds`; `f` is the pointer itself. -/
def excHandler (marker : BitVec 32) (cr2 f : Word) (raw : Nat → Word) :
    List (Nat × Text) × Text :=
  let vec := raw 15
  let newline : Nat × Text := (2, ascii "\n")
  let name := excLookup excNames "UNKNOWN" vec
  ((96, ksprintf (ascii "EXC %d (%s) F=%x")
      [.int (vec.setWidth 32).toInt, .str (ascii name), excArg f]) :: newline ::
    ((List.range 18).map fun (i : Nat) =>
      (48, ksprintf (ascii " [%d]=%x") [.int i, excArg (raw i)])) ++ newline ::
    (40, ksprintf (ascii "MARKER %x") [.int marker.toNat]) :: newline ::
    (if vec = 14 then
      [(48, ksprintf (ascii "[KERNEL/INFO] CR2=%x") [excArg cr2]), newline] else []) ++
    ((List.range' 15 14).map fun (i : Nat) =>
      (32, ksprintf (ascii "[%d]=%x ") [.int i, excArg (raw i)])) ++ [newline],
    ascii (excLookup winStopcodes "KERNEL_EXCEPTION" vec))

theorem pkx_length (v w : Nat) : (pkx v w).length = w := by
  induction w with
  | zero => rfl
  | succ w ih => exact congrArg (· + 1) ih

/-- A text without `%` and NUL. -/
def PlainText (l : Text) : Prop := ∀ c ∈ l, c ≠ 0x25 ∧ c ≠ 0

instance (l : Text) : Decidable (PlainText l) := inferInstanceAs (Decidable (∀ c ∈ l, _))

theorem ksprintf_hex (v : Int) (fmt : Text) (args : List PrintArg) :
    ksprintf (0x25 :: 0x78 :: fmt) (.int v :: args) =
      pkx (BitVec.ofInt 32 v).toNat 8 ++ ksprintf fmt args := rfl

theorem ksprintf_end {l : Text} (h : PlainText l) (args : List PrintArg) : ksprintf l args = l := by
  have hplain := ksprintf_plain h [] args
  rw [List.append_nil] at hplain
  exact hplain.trans (List.append_nil l)

section Lengths

variable {a b c : Text} (ha : PlainText a) (hb : PlainText b) (hc : PlainText c)
include ha hb

theorem length_hex (v : Int) :
    (ksprintf (a ++ 0x25 :: 0x78 :: b) [.int v]).length = a.length + (8 + b.length) := by
  rw [ksprintf_plain ha, ksprintf_hex, ksprintf_end hb, List.length_append, List.length_append,
    pkx_length]

include hc

theorem length_int_hex (v w : Int) :
    (ksprintf (a ++ 0x25 :: 0x64 :: (b ++ 0x25 :: 0x78 :: c)) [.int v, .int w]).length ≤
      a.length + (11 + (b.length + (8 + c.length))) := by
  have hv := pkd_length_le v
  rw [ksprintf_plain ha, ksprintf_int, List.length_append, List.length_append, length_hex hb hc]
  omega

end Lengths

theorem lookup_length (names : List (Option String)) (other : String) (k : Nat)
    (hother : other.length ≤ k)
    (hnames : ∀ s ∈ names, (s.getD other).length ≤ k) (vec : Word) :
    (excLookup names other vec).length ≤ k := by
  unfold excLookup
  split
  · rcases hs : names[vec.toNat]? with _ | s
    · exact hother
    · exact hnames s (List.mem_of_getElem? hs)
  · exact hother

theorem ascii_length (s : String) : (ascii s).length = s.length := by
  unfold ascii
  rw [List.length_map]
  exact String.length_toList

theorem cstr_length_le (s : Text) : (cstr s).length ≤ s.length := (List.takeWhile_sublist _).length_le

theorem title_length (v f : Int) {s : Text} (hs : s.length ≤ 27) :
    (ksprintf (ascii "EXC %d (%s) F=%x") [.int v, .str s, .int f]).length ≤ 56 := by
  have hformat : ascii "EXC %d (%s) F=%x" = ascii "EXC " ++ 0x25 :: 0x64 :: (ascii " (" ++
      0x25 :: 0x73 :: (ascii ") F=" ++ 0x25 :: 0x78 :: [])) := by decide
  have hrest := @length_hex (ascii ") F=") [] (by decide) (by decide) f
  have hcstr := cstr_length_le s
  have hv := pkd_length_le v
  rw [hformat, ksprintf_plain (by decide), ksprintf_int, ksprintf_plain (by decide), ksprintf_str]
  simp only [List.length_append, ascii_length] at hrest ⊢
  rw [hrest]
  change 4 + (_ + (2 + (_ + (4 + (8 + 0))))) ≤ 56
  omega

theorem slot_length (i : Nat) (v : Word) :
    (ksprintf (ascii " [%d]=%x") [.int i, excArg v]).length ≤ 23 ∧
      (ksprintf (ascii "[%d]=%x ") [.int i, excArg v]).length ≤ 23 := by
  have hfirst : ascii " [%d]=%x" =
      ascii " [" ++ 0x25 :: 0x64 :: (ascii "]=" ++ 0x25 :: 0x78 :: []) := by decide
  have hsecond : ascii "[%d]=%x " =
      ascii "[" ++ 0x25 :: 0x64 :: (ascii "]=" ++ 0x25 :: 0x78 :: ascii " ") := by decide
  rw [hfirst, hsecond]
  exact ⟨length_int_hex (by decide) (by decide) (by decide) _ _,
    length_int_hex (by decide) (by decide) (by decide) _ _⟩

theorem line_length (v : Int) :
    (ksprintf (ascii "MARKER %x") [.int v]).length = 15 ∧
      (ksprintf (ascii "[KERNEL/INFO] CR2=%x") [.int v]).length = 26 := by
  have hmarker : ascii "MARKER %x" = ascii "MARKER " ++ 0x25 :: 0x78 :: [] := by decide
  have hcr2 : ascii "[KERNEL/INFO] CR2=%x" = ascii "[KERNEL/INFO] CR2=" ++ 0x25 :: 0x78 :: [] := by
    decide
  rw [hmarker, hcr2]
  exact ⟨length_hex (by decide) (by decide) _, length_hex (by decide) (by decide) _⟩

/-- Whatever the frame holds, each text and its NUL fit into their array. -/
theorem excHandler_fits (marker : BitVec 32) (cr2 f : Word) (raw : Nat → Word) :
    (∀ p ∈ (excHandler marker cr2 f raw).1, p.2.length < p.1) ∧
      (excHandler marker cr2 f raw).2.length ≤ 27 := by
  have hname : (ascii (excLookup excNames "UNKNOWN" (raw 15))).length ≤ 27 := by
    rw [ascii_length]
    exact lookup_length _ _ _ (by decide) (by decide) _
  constructor
  · unfold excHandler
    simp only [List.cons_append, List.forall_mem_cons, List.forall_mem_append, List.forall_mem_map]
    have hnewline : (ascii "\n").length < 2 := by decide
    refine ⟨lt_of_le_of_lt (title_length _ _ hname) (by decide), hnewline,
      ⟨⟨fun i _ => lt_of_le_of_lt (slot_length i _).1 (by decide), hnewline, ?_, hnewline, ?_⟩,
        fun i _ => lt_of_le_of_lt (slot_length i _).2 (by decide)⟩, hnewline, List.forall_mem_nil _⟩
    · rw [(line_length _).1]
      decide
    · split
      · refine List.forall_mem_cons.mpr ⟨?_, List.forall_mem_singleton.mpr hnewline⟩
        have hlt : 26 < 48 := by decide
        exact (line_length _).2.trans_lt hlt
      · exact List.forall_mem_nil _
  · change (ascii _).length ≤ 27
    rw [ascii_length]
    exact lookup_length _ _ _ (by decide) (by decide) _

/-! ### From the exception to the handler -/

theorem aligned_mod (v : Word) : (v &&& ~~~15).toNat % 16 = 0 := by
  have hlow : (v &&& ~~~15).setWidth 4 = 0 := by
    ext i hi
    simp
  have hnat := congrArg BitVec.toNat hlow
  rwa [BitVec.toNat_setWidth] at hnat

/-- The processor, the stubs and the handler agree on the exceptions with an error code. -/
theorem hasErr_agrees {n : Nat} (hn : (excTbl n).isSome) :
    excHasErr (BitVec.ofNat 64 n) = pushesError n ∧ excStubErr n = pushesError n ∧ n < 20 ∧
      stubOf n = .exc n := by
  have hlt : n < 20 := by
    unfold excTbl at hn
    split at hn
    · omega
    · cases hn
  have hall : ∀ n < 20, (excTbl n).isSome → excHasErr (BitVec.ofNat 64 n) = pushesError n ∧
      excStubErr n = pushesError n ∧ n < 20 ∧ stubOf n = .exc n := by decide
  exact hall n hlt hn

theorem excFrame_tail (x : Context) (n : Nat) (e : Word) :
    (excFrame x n e)[15]? = some (BitVec.ofNat 64 n) ∧
      (pushesError n = true → (excFrame x n e).length = 22 ∧ (excFrame x n e)[16]? = some e ∧
        (excFrame x n e)[17]? = some x.rip) ∧
      (pushesError n = false → (excFrame x n e).length = 21 ∧
        (excFrame x n e)[16]? = some x.rip) := by
  refine ⟨rfl, fun herr => ?_, fun herr => ?_⟩
  · unfold excFrame
    rw [if_pos herr]
    exact ⟨rfl, rfl, rfl⟩
  · unfold excFrame
    rw [if_neg (Bool.eq_false_iff.mp herr)]
    exact ⟨rfl, rfl⟩

/-- The stack of the handler: its own for the double fault, the interrupted one in Ring 0, else
the one of `tss_set_rsp0`. -/
theorem stackFor_start (kernBase tssAddr dfStack rsp0 : Word) (link : Stub → Word) (tss : Buf)
    {n : Nat} (hn : n < 256) (x : Context) :
    x.stackFor (tssSetRsp0 rsp0 (gdtInit tssAddr dfStack tss).2.2)
        (Gate.decode (startGates kernBase link bssIdt n).bits) =
      (if n = 8 then dfStack + 8192 else if x.cs &&& 3 = 0 then x.rsp else rsp0) &&& ~~~15 := by
  obtain ⟨hrsp0, hist⟩ := tss_stacks tssAddr dfStack rsp0 tss
  rw [startGates_decode kernBase link hn]
  unfold Context.stackFor
  by_cases h8 : n = 8
  · have hslot : 36 + 8 * ((1 : BitVec 3).toNat - 1) = 36 := rfl
    have hone : (1 : BitVec 3) ≠ 0 := by decide
    simp only [if_pos h8, if_pos hone]
    rw [hslot, hist, BitVec.and_assoc]
    rfl
  · have hzero : ¬ (0 : BitVec 3) ≠ 0 := by decide
    simp only [if_neg h8, if_neg hzero, hrsp0]

/-- An exception comes to its stub on the stack that the kernel meant, and the handler finds the
vector, the interrupted registers, but for what the trace did to RDX, and the processor's words. -/
theorem exception_frame (kernBase tssAddr dfStack rsp0 : Word) (link : Stub → Word) (tss : Buf)
    {n : Nat} (hn : (excTbl n).isSome) (x : Context) (e ret : Word) (handler : Cpu → Cpu) :
    let gate := Gate.decode (startGates kernBase link bssIdt n).bits
    let found := TssDescriptor.decode (gdtInit tssAddr dfStack tss).1 (gdtInit tssAddr dfStack tss).2.1
    let stack :=
      (if n = 8 then dfStack + 8192 else if x.cs &&& 3 = 0 then x.rsp else rsp0) &&& ~~~15
    gate.offset = kernBase + link (.exc n) ∧ found = ⟨tssAddr, 103, 9, true⟩ ∧
      ∃ c : Cpu, runExc n ret handler
          (x.fault (tssSetRsp0 rsp0 (gdtInit tssAddr dfStack tss).2.2) gate n e) =
          exec 0 (excReturn (excStubErr n)) (handler c) ∧
        (∀ i, i < 500 → excRaw c i =
          (excFrame x n e)[i]?.getD (x.mem (slot stack (i - (excFrame x n e).length)))) ∧
        excRip (excRaw c) = x.rip ∧ (pushesError n → excRaw c 16 = e) ∧
        (c.rsp + 8).toNat % 16 = if pushesError n then 0 else 8 := by
  intro gate found stack
  obtain ⟨hasErr, hstub, hlt, hstubOf⟩ := hasErr_agrees hn
  obtain ⟨c, hrun, hraw, hslot, hrsp⟩ := excRaw_frame x
    (tssSetRsp0 rsp0 (gdtInit tssAddr dfStack tss).2.2) gate n e ret handler
  have hgate := startGates_decode kernBase link (show n < 256 by omega)
  have hstack : x.stackFor _ gate = stack :=
    stackFor_start kernBase tssAddr dfStack rsp0 link tss (by omega) x
  obtain ⟨hvec, herr, hnoerr⟩ := excFrame_tail x n e
  refine ⟨?_, gdtInit_decode tssAddr dfStack tss, c, hrun, fun i hi => ?_, ?_, fun h => ?_, ?_⟩
  · change (Gate.decode (startGates kernBase link bssIdt n).bits).offset = _
    rw [hgate, hstubOf]
  · rw [hraw i hi, hstack]
  · have h15 : excRaw c 15 = BitVec.ofNat 64 n := by rw [hraw 15 (by decide), hvec]; rfl
    unfold excRip
    rw [h15, hasErr]
    cases hp : pushesError n with
    | true =>
      rw [if_pos rfl, hraw 17 (by decide), (herr hp).2.2]
      rfl
    | false =>
      rw [if_neg Bool.false_ne_true, hraw 16 (by decide), (hnoerr hp).2]
      rfl
  · rw [hraw 16 (by decide), (herr h).2.1]
    rfl
  · rw [hstack, hrsp] at hslot
    have halign := aligned_mod (if n = 8 then dfStack + 8192 else if x.cs &&& 3 = 0 then x.rsp
      else rsp0)
    have hmod : (slot (c.rsp + 8) (excFrame x n e).length).toNat % 16 = 0 := by
      rw [hslot]
      exact halign
    unfold slot at hmod
    rw [BitVec.toNat_add, BitVec.toNat_ofNat] at hmod
    cases hp : pushesError n with
    | true =>
      rw [(herr hp).1] at hmod
      rw [if_pos rfl]
      omega
    | false =>
      rw [(hnoerr hp).1] at hmod
      rw [if_neg Bool.false_ne_true]
      omega

/-- A page fault in the kernel. -/
theorem exception_frame_page_fault : ∃ c : Cpu,
    excRip (excRaw c) = 0x100000 ∧ excRaw c 16 = 0x2 ∧ (c.rsp + 8).toNat % 16 = 0 := by
  obtain ⟨-, -, c, -, -, hrip, herr, halign⟩ := exception_frame 0x200000 0x5000 0x6000 0x9000
    (fun _ => 0x100) (fun _ => 0) (n := 14) (by decide) kernelContext 0x2 0x1234 scratchHandler
  exact ⟨c, hrip, herr (by decide), halign⟩

end WinDOS
