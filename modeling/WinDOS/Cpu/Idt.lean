import WinDOS.Cpu.IsrStub
import WinDOS.Lib.Bytes

/-!
# Gates and the task state segment (`sys/idt.h`, `sys/exception.h`, `sys/gdt.h`)

The kernel fills in a gate field by field and the descriptor of the task state segment with shifts;
the processor has its own view of these bits. Symbols are link addresses, to which `set_gate` adds
`KERN_BASE`.
-/

set_option autoImplicit false

namespace WinDOS

open WordStack Bytes

structure IdtEntry where
  lo : BitVec 16
  sel : BitVec 16
  ist : BitVec 8
  attr : BitVec 8
  mid : BitVec 16
  hi : BitVec 32
  rsv : BitVec 32

namespace IdtEntry

/-- The entries in the zeroed `.bss`. -/
def zero : IdtEntry := ⟨0, 0, 0, 0, 0, 0, 0⟩

/-- The packed structure. -/
def bits (e : IdtEntry) : BitVec 128 := e.rsv ++ e.hi ++ e.mid ++ e.attr ++ e.ist ++ e.sel ++ e.lo

/-- What `set_gate` changes for the address `a`. -/
def aim (e : IdtEntry) (a : Word) : IdtEntry :=
  { e with
    lo := a.setWidth 16
    mid := (a >>> 16).setWidth 16
    hi := (a >>> 32).setWidth 32
    sel := 0x08
    attr := 0x8E }

end IdtEntry

/-- A gate as the processor reads it. -/
structure Gate where
  offset : Word
  sel : BitVec 16
  ist : BitVec 3
  type : BitVec 4
  dpl : BitVec 2
  present : Bool

def Gate.decode (d : BitVec 128) : Gate where
  offset := d.extractLsb' 64 32 ++ d.extractLsb' 48 16 ++ d.extractLsb' 0 16
  sel := d.extractLsb' 16 16
  ist := d.extractLsb' 32 3
  type := d.extractLsb' 40 4
  dpl := d.extractLsb' 45 2
  present := d.getLsbD 47

namespace IdtEntry

variable (e : IdtEntry)

theorem bits_hi : e.bits.extractLsb' 64 32 = e.hi := by
  unfold bits
  iterate 5 rw [BitVec.extractLsb'_append_eq_of_le (by decide)]
  rw [BitVec.extractLsb'_append_eq_of_add_le (by decide)]
  exact BitVec.extractLsb'_eq_self

theorem bits_mid : e.bits.extractLsb' 48 16 = e.mid := by
  unfold bits
  iterate 4 rw [BitVec.extractLsb'_append_eq_of_le (by decide)]
  rw [BitVec.extractLsb'_append_eq_of_add_le (by decide)]
  exact BitVec.extractLsb'_eq_self

theorem bits_lo : e.bits.extractLsb' 0 16 = e.lo := by
  unfold bits
  rw [BitVec.extractLsb'_append_eq_of_add_le (by decide)]
  exact BitVec.extractLsb'_eq_self

theorem bits_sel : e.bits.extractLsb' 16 16 = e.sel := by
  unfold bits
  rw [BitVec.extractLsb'_append_eq_of_le (by decide),
    BitVec.extractLsb'_append_eq_of_add_le (by decide)]
  exact BitVec.extractLsb'_eq_self

theorem bits_ist : e.bits.extractLsb' 32 3 = e.ist.extractLsb' 0 3 := by
  unfold bits
  iterate 2 rw [BitVec.extractLsb'_append_eq_of_le (by decide)]
  rw [BitVec.extractLsb'_append_eq_of_add_le (by decide)]

/-- A part of the attributes. -/
theorem bits_attr {i n : Nat} (h : i + n ≤ 8) :
    e.bits.extractLsb' (40 + i) n = e.attr.extractLsb' i n := by
  unfold bits
  iterate 3 rw [BitVec.extractLsb'_append_eq_of_le (by omega)]
  rw [BitVec.extractLsb'_append_eq_of_add_le (by omega)]
  congr 1
  omega

theorem bits_present : e.bits.getLsbD 47 = e.attr.getLsbD 7 := by
  unfold bits
  simp only [BitVec.getLsbD_append]
  rfl

end IdtEntry

/-- The address in three parts is the address. -/
theorem address_parts (a : Word) :
    (a >>> 32).setWidth 32 ++ (a >>> 16).setWidth 16 ++ a.setWidth 16 = a := by
  ext i hi
  simp only [BitVec.getElem_append, BitVec.getElem_setWidth, BitVec.getLsbD_ushiftRight]
  grind

/-- An interrupt gate for `a`, whatever the entry held; the stack stays as it was. -/
theorem Gate.decode_aim (e : IdtEntry) (a : Word) :
    Gate.decode (e.aim a).bits = ⟨a, 0x08, e.ist.extractLsb' 0 3, 0xE, 0, true⟩ := by
  have hattr : (0x8E : BitVec 8).extractLsb' 0 4 = 0xE ∧ (0x8E : BitVec 8).extractLsb' 5 2 = 0 ∧
      (0x8E : BitVec 8).getLsbD 7 = true := by decide
  unfold Gate.decode
  rw [IdtEntry.bits_hi, IdtEntry.bits_mid, IdtEntry.bits_lo, IdtEntry.bits_sel, IdtEntry.bits_ist,
    IdtEntry.bits_present, IdtEntry.bits_attr (i := 0) _ (by decide),
    IdtEntry.bits_attr (i := 5) _ (by decide)]
  unfold IdtEntry.aim
  rw [address_parts, hattr.1, hattr.2.1, hattr.2.2]

/-! ### The table -/

abbrev Idt := Nat → IdtEntry

def setGate (kernBase : Word) (idt : Idt) (n : Nat) (h : Word) : Idt :=
  Function.update idt n ((idt n).aim (kernBase + h))

/-- The symbols of `isr.S`. -/
inductive Stub where
  | exc (num : Nat)
  | isr (v : Vector)
deriving DecidableEq

/-- `tbl` of `exc_init`. -/
def excTbl (i : Nat) : Option Stub :=
  if i ≤ 14 ∨ 16 ≤ i ∧ i ≤ 19 then some (.exc i) else none

/-- `for (i < n) if (tbl[i]) set_gate(i, tbl[i]);` -/
def setGates (kernBase : Word) (tbl : Nat → Option Word) (n : Nat) (idt : Idt) : Idt :=
  (List.range n).foldl (fun idt i =>
    match tbl i with
    | some h => setGate kernBase idt i h
    | none => idt) idt

def excInit (kernBase : Word) (link : Stub → Word) (idt : Idt) : Idt :=
  let idt := setGates kernBase (fun i => (excTbl i).map link) 32 idt
  Function.update idt 8 { idt 8 with ist := 1 }

/-- The gates that `_start` sets. -/
def startGates (kernBase : Word) (link : Stub → Word) (idt : Idt) : Idt :=
  let idt := setGates kernBase (fun _ => some (link (.isr .isr_default))) 256 idt
  let idt := excInit kernBase link idt
  let idt := setGate kernBase idt 0x20 (link (.isr .isr20))
  let idt := setGate kernBase idt 0x21 (link (.isr .isr21))
  setGate kernBase idt 0x2C (link (.isr .isr2c))

/-- The table in the zeroed `.bss`. -/
def bssIdt : Idt := fun _ => IdtEntry.zero

/-- The stub for a vector from 0x20 on. -/
def gateOf (vector : Nat) : Vector :=
  if vector = 0x20 then .isr20 else if vector = 0x21 then .isr21
  else if vector = 0x2C then .isr2c else .isr_default

def stubOf (vector : Nat) : Stub := (excTbl vector).getD (.isr (gateOf vector))

theorem setGates_at (kernBase : Word) (tbl : Nat → Option Word) (n : Nat) (idt : Idt) (i : Nat) :
    setGates kernBase tbl n idt i = if i < n then
      ((tbl i).map fun h => (idt i).aim (kernBase + h)).getD (idt i) else idt i := by
  induction n with
  | zero => rfl
  | succ n ih =>
    have hsucc : setGates kernBase tbl (n + 1) idt =
        match tbl n with
        | some h => setGate kernBase (setGates kernBase tbl n idt) n h
        | none => setGates kernBase tbl n idt := by
      unfold setGates
      rw [List.range_succ, List.foldl_append]
      rfl
    rw [hsucc]
    by_cases hi : i = n
    · subst hi
      rw [if_neg (Nat.lt_irrefl i)] at ih
      rw [if_pos (Nat.lt_succ_self i)]
      cases tbl i with
      | none => exact ih
      | some h =>
        change Function.update _ i _ i = _
        rw [Function.update_self, ih]
        rfl
    · have hlt : i < n + 1 ↔ i < n := by omega
      simp only [hlt]
      rw [← ih]
      cases tbl n with
      | none => rfl
      | some h => exact Function.update_of_ne hi _ _

theorem setGate_at (kernBase : Word) (idt : Idt) (n : Nat) (h : Word) (i : Nat) :
    setGate kernBase idt n h i = if i = n then (idt i).aim (kernBase + h) else idt i := by
  unfold setGate
  split
  · rename_i hi
    rw [hi, Function.update_self]
  · rename_i hi
    exact Function.update_of_ne hi _ _

/-- The last call for a vector counts. -/
theorem startGates_at (kernBase : Word) (link : Stub → Word) {n : Nat} (hn : n < 256) :
    startGates kernBase link bssIdt n =
      ({ IdtEntry.zero with ist := if n = 8 then 1 else 0 } : IdtEntry).aim
        (kernBase + link (stubOf n)) := by
  unfold startGates excInit
  simp only [setGate_at, Function.update_apply, setGates_at, hn, if_true]
  by_cases h20 : n = 0x20
  · subst h20
    rfl
  by_cases h21 : n = 0x21
  · subst h21
    rfl
  by_cases h2c : n = 0x2C
  · subst h2c
    rfl
  rw [if_neg h20, if_neg h21, if_neg h2c]
  have hgate : gateOf n = .isr_default := by
    unfold gateOf
    rw [if_neg h20, if_neg h21, if_neg h2c]
  unfold stubOf
  rw [hgate]
  by_cases h8 : n = 8
  · subst h8
    rfl
  rw [if_neg h8, if_neg h8]
  cases htbl : excTbl n with
  | some s =>
    have hlt : n < 32 := by
      unfold excTbl at htbl
      split at htbl
      · omega
      · cases htbl
    rw [if_pos hlt]
    rfl
  | none =>
    split
    · rfl
    · rfl

/-- Every vector has its stub, and only the double fault a stack of its own. -/
theorem startGates_decode (kernBase : Word) (link : Stub → Word) {n : Nat} (hn : n < 256) :
    Gate.decode (startGates kernBase link bssIdt n).bits =
      ⟨kernBase + link (stubOf n), 0x08, if n = 8 then 1 else 0, 0xE, 0, true⟩ := by
  rw [startGates_at kernBase link hn, Gate.decode_aim]
  congr 1
  dsimp only
  split
  · rfl
  · rfl

/-! ### The task state segment -/

/-- The descriptor in `gdt[6]` and `gdt[7]`, and `tss`; `dfStack` is the address of `df_stack`. -/
def gdtInit (tssAddr dfStack : Word) (tss : Buf) : Word × Word × Buf :=
  let base := tssAddr
  let lim := 103#64
  ((lim &&& 0xFFFF#64) ||| ((base &&& 0xFFFFFF#64) <<< 16) ||| (0x89#64 <<< 40) |||
      (((base >>> 24) &&& 0xFF#64) <<< 56),
    base >>> 32, blit tss 36 (leBytes ((dfStack + 8192) &&& ~~~0xF).toNat) 8)

def tssSetRsp0 (rsp0 : Word) (tss : Buf) : Buf := blit tss 4 (leBytes rsp0.toNat) 8

/-- The descriptor of a task state segment as the processor reads it. -/
structure TssDescriptor where
  base : Word
  limit : BitVec 20
  type : BitVec 4
  present : Bool

def TssDescriptor.decode (lo hi : Word) : TssDescriptor where
  base := hi.setWidth 32 ++ lo.extractLsb' 56 8 ++ lo.extractLsb' 16 24
  limit := lo.extractLsb' 48 4 ++ lo.extractLsb' 0 16
  type := lo.extractLsb' 40 4
  present := lo.getLsbD 47

/-- A quadword of the task state segment. -/
def tssWord (tss : Buf) (off : Nat) : Word := BitVec.ofNat 64 (le tss off 8)

theorem and_mask (a : Word) (n : Nat) :
    a &&& (BitVec.allOnes n).setWidth 64 = (a.setWidth n).setWidth 64 := by
  ext i hi
  simp only [BitVec.getElem_and, BitVec.getElem_setWidth, BitVec.getLsbD_allOnes,
    BitVec.getLsbD_setWidth]
  grind

/-- The shifts of `gdt_init` put the parts where they belong. -/
theorem gdtInit_low (tssAddr dfStack : Word) (tss : Buf) : (gdtInit tssAddr dfStack tss).1 =
    tssAddr.extractLsb' 24 8 ++ 0#8 ++ 0x89#8 ++ tssAddr.setWidth 24 ++ 103#16 := by
  have hlim : 103#64 &&& 0xFFFF#64 = (103#16).setWidth 64 := rfl
  have htype : 0x89#64 = (0x89#8).setWidth 64 := rfl
  have hmask : 0xFFFFFF#64 = (BitVec.allOnes 24).setWidth 64 := rfl
  have hbyte : 0xFF#64 = (BitVec.allOnes 8).setWidth 64 := rfl
  unfold gdtInit
  dsimp only
  rw [hlim, htype, hmask, hbyte, and_mask, and_mask]
  ext i hi
  simp only [BitVec.getElem_or, BitVec.getElem_shiftLeft, BitVec.getElem_setWidth,
    BitVec.getLsbD_setWidth, BitVec.getLsbD_ushiftRight]
  grind

/-- The fields of a descriptor's low half. -/
theorem low_fields (base1 flags type : BitVec 8) (base0 : BitVec 24) (limit : BitVec 16) :
    (base1 ++ flags ++ type ++ base0 ++ limit).extractLsb' 56 8 = base1 ∧
      (base1 ++ flags ++ type ++ base0 ++ limit).extractLsb' 48 4 = flags.extractLsb' 0 4 ∧
      (base1 ++ flags ++ type ++ base0 ++ limit).extractLsb' 40 4 = type.extractLsb' 0 4 ∧
      (base1 ++ flags ++ type ++ base0 ++ limit).getLsbD 47 = type.getLsbD 7 ∧
      (base1 ++ flags ++ type ++ base0 ++ limit).extractLsb' 16 24 = base0 ∧
      (base1 ++ flags ++ type ++ base0 ++ limit).extractLsb' 0 16 = limit := by
  refine ⟨?_, ?_, ?_, ?_, ?_, ?_⟩
  · iterate 4 rw [BitVec.extractLsb'_append_eq_of_le (by decide)]
    exact BitVec.extractLsb'_eq_self
  · iterate 3 rw [BitVec.extractLsb'_append_eq_of_le (by decide)]
    rw [BitVec.extractLsb'_append_eq_of_add_le (by decide)]
  · iterate 2 rw [BitVec.extractLsb'_append_eq_of_le (by decide)]
    rw [BitVec.extractLsb'_append_eq_of_add_le (by decide)]
  · simp only [BitVec.getLsbD_append]
    rfl
  · rw [BitVec.extractLsb'_append_eq_of_le (by decide),
      BitVec.extractLsb'_append_eq_of_add_le (by decide)]
    exact BitVec.extractLsb'_eq_self
  · rw [BitVec.extractLsb'_append_eq_of_add_le (by decide)]
    exact BitVec.extractLsb'_eq_self

/-- The address in the three parts of a descriptor. -/
theorem base_parts (a : Word) :
    (a >>> 32).setWidth 32 ++ a.extractLsb' 24 8 ++ a.setWidth 24 = a := by
  ext i hi
  simp only [BitVec.getElem_append, BitVec.getElem_setWidth, BitVec.getLsbD_ushiftRight,
    BitVec.getElem_extractLsb']
  grind

/-- An available 64-bit task state segment of 104 bytes at `tss`, wherever that is. -/
theorem gdtInit_decode (tssAddr dfStack : Word) (tss : Buf) :
    TssDescriptor.decode (gdtInit tssAddr dfStack tss).1 (gdtInit tssAddr dfStack tss).2.1 =
      ⟨tssAddr, 103, 9, true⟩ := by
  obtain ⟨hbase1, hflags, htype, hpresent, hbase0, hlimit⟩ :=
    low_fields (tssAddr.extractLsb' 24 8) 0#8 0x89#8 (tssAddr.setWidth 24) 103#16
  have hhigh : (gdtInit tssAddr dfStack tss).2.1 = tssAddr >>> 32 := rfl
  have hconst : (0#8).extractLsb' 0 4 ++ 103#16 = 103#20 ∧ (0x89#8).extractLsb' 0 4 = 9#4 ∧
      (0x89#8).getLsbD 7 = true := by decide
  unfold TssDescriptor.decode
  rw [hhigh, gdtInit_low, hbase1, hflags, htype, hpresent, hbase0, hlimit, base_parts, hconst.2.1,
    hconst.2.2]
  exact congrArg (fun l => TssDescriptor.mk tssAddr l 9 true) hconst.1

/-- What the processor finds behind `gdt_init` and `tss_set_rsp0`: the stack for interrupts from
Ring 3 and the one for the double fault. -/
theorem tss_stacks (tssAddr dfStack rsp0 : Word) (tss : Buf) :
    tssWord (tssSetRsp0 rsp0 (gdtInit tssAddr dfStack tss).2.2) 4 = rsp0 ∧
      tssWord (tssSetRsp0 rsp0 (gdtInit tssAddr dfStack tss).2.2) 36 =
        (dfStack + 8192) &&& ~~~0xF := by
  have hlt : ∀ a : Word, a.toNat < 256 ^ 8 := fun a => a.isLt
  constructor
  · unfold tssWord tssSetRsp0
    rw [le_blit_leBytes (hlt _), BitVec.ofNat_toNat, BitVec.setWidth_eq]
  · have hkeep : le (tssSetRsp0 rsp0 (gdtInit tssAddr dfStack tss).2.2) 36 8 =
        le (gdtInit tssAddr dfStack tss).2.2 36 8 :=
      le_congr fun i hi _ => blit_above (by omega)
    unfold tssWord
    rw [hkeep]
    unfold gdtInit
    rw [le_blit_leBytes (hlt _), BitVec.ofNat_toNat, BitVec.setWidth_eq]

end WinDOS
