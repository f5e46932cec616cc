import WinDOS.Fs.Block
import Mathlib.Data.List.ModifyLast

/-!
# The ATA driver (`fs/ata.h`)

Both functions at the level of the registers of a channel: what they write there, the commands
that this starts, and the words that pass through the data register. A drive is what it answers:
the status bytes that it shows at the places where the driver looks at them, and its data.
-/

set_option autoImplicit false

namespace WinDOS

open Bytes

namespace Ata

/-! ### The channel -/

abbrev Word16 := BitVec 16

/-- The registers of a channel that the driver writes, at `base + 2` to `base + 7`. -/
inductive Reg where
  | sct
  | lbal
  | lbam
  | lbah
  | drv
  | stat

/-- A command with the registers as they are when it starts, and the words moved since. -/
structure Command where
  op : Nat
  drv : Nat
  sct : Nat
  lbal : Nat
  lbam : Nat
  lbah : Nat
  words : List Word16

def READ_SECTORS : Nat := 0x20
def WRITE_SECTORS : Nat := 0x30
def FLUSH_CACHE : Nat := 0xE7

namespace Command

/-- The sector number of 28 bits in the registers. -/
def address (c : Command) : Nat :=
  (c.drv &&& 0x0F) * 2 ^ 24 + c.lbah * 2 ^ 16 + c.lbam * 2 ^ 8 + c.lbal

def slave (c : Command) : Bool := c.drv.testBit 4

end Command

structure Channel where
  sct : Nat
  lbal : Nat
  lbam : Nat
  lbah : Nat
  drv : Nat
  cmds : List Command

namespace Channel

/-- `out8` to a register. A byte in the command register starts a command. -/
def out8 (b : Channel) : Reg → Nat → Channel
  | .sct, v => { b with sct := v }
  | .lbal, v => { b with lbal := v }
  | .lbam, v => { b with lbam := v }
  | .lbah, v => { b with lbah := v }
  | .drv, v => { b with drv := v }
  | .stat, v => { b with cmds := b.cmds ++ [⟨v, b.drv, b.sct, b.lbal, b.lbam, b.lbah, []⟩] }

/-- A word passes through the data register. -/
def move (b : Channel) (w : Word16) : Channel :=
  { b with cmds := b.cmds.modifyLast fun c => { c with words := c.words ++ [w] } }

end Channel

/-- What a drive answers during a call: for the sector number `s` of the call, the status bytes
shown one after another before the command, until it asks for data, behind the data and behind the
flush; and the words that it gives. -/
structure Drive where
  ready : Nat → Nat → Byte
  request : Nat → Nat → Byte
  stored : Nat → Nat → Byte
  flushed : Nat → Nat → Byte
  word : Nat → Nat → Word16

/-! ### Polling -/

def BSY_POLLS : Nat := 200000
def DRQ_POLLS : Nat := 1000000

/-- The loop of `ata_wait_bsy`: `n` looks are left, `i` is the next one. -/
def waitBsy (polls : Nat → Byte) : Nat → Nat → Int
  | 0, _ => -1
  | n + 1, i => if polls i &&& 0x80 = 0 then 0 else waitBsy polls n (i + 1)

def ataWaitBsy (polls : Nat → Byte) : Int := waitBsy polls BSY_POLLS 0

/-- The loop that waits for the data request, with the checks behind it. -/
def waitDrq (polls : Nat → Byte) : Nat → Nat → Int
  | 0, _ => -4
  | n + 1, i =>
    let st := polls i
    if st &&& 0x08 ≠ 0 then 0
    else if st = 0 ∨ st = 0xFF then -2
    else if st &&& 0x01 ≠ 0 then -3
    else waitDrq polls n (i + 1)

/-! ### The two functions -/

/-- From the choice of the drive up to the command. -/
def program (b : Channel) (drive lba cmd : Nat) : Channel :=
  let b := b.out8 .drv ((if drive = 0 then 0xE0 else 0xF0) ||| ((lba >>> 24) &&& 0x0F))
  let b := b.out8 .sct 1
  let b := b.out8 .lbal (lba &&& 0xFF)
  let b := b.out8 .lbam ((lba >>> 8) &&& 0xFF)
  let b := b.out8 .lbah ((lba >>> 16) &&& 0xFF)
  b.out8 .stat cmd

/-- The index `s * 512 + i * 2 + k`, of type `u32`. -/
def bufIndex (s i k : Nat) : Nat := wrap32 (s * 512 + i * 2 + k)

/-- The words of a sector are read: `n` are left, `i` is the next one. -/
def readWords (word : Nat → Word16) (s : Nat) : Nat → Nat → Buf → Channel → Buf × Channel
  | 0, _, buf, b => (buf, b)
  | n + 1, i, buf, b =>
    let v := word i
    let buf := Function.update buf (bufIndex s i 0) (v.extractLsb' 0 8)
    let buf := Function.update buf (bufIndex s i 1) (v.extractLsb' 8 8)
    readWords word s n (i + 1) buf (b.move v)

def wordOf (buf : Buf) (s i : Nat) : Word16 := buf (bufIndex s i 1) ++ buf (bufIndex s i 0)

def writeWords (buf : Buf) (s : Nat) : Nat → Nat → Channel → Channel
  | 0, _, b => b
  | n + 1, i, b => writeWords buf s n (i + 1) (b.move (wordOf buf s i))

/-- The loop of `ide_read_sector`: `n` sectors are left, `s` is the next one. -/
def ideReadSector (d : Drive) (drive : Nat) :
    Nat → Nat → Nat → Buf → Channel → Int × Buf × Channel
  | 0, _, _, buf, b => (0, buf, b)
  | n + 1, s, lba, buf, b =>
    if ataWaitBsy (d.ready s) ≠ 0 then (-1, buf, b)
    else
      let b := program b drive lba READ_SECTORS
      let code := waitDrq (d.request s) DRQ_POLLS 0
      if code ≠ 0 then (code, buf, b)
      else
        let (buf, b) := readWords (d.word s) s 256 0 buf b
        ideReadSector d drive n (s + 1) (wrap32 (lba + 1)) buf b

/-- The loop of `ide_write_sector`. -/
def ideWriteSector (d : Drive) (drive : Nat) (buf : Buf) :
    Nat → Nat → Nat → Channel → Int × Channel
  | 0, _, _, b => (0, b)
  | n + 1, s, lba, b =>
    if ataWaitBsy (d.ready s) ≠ 0 then (-1, b)
    else
      let b := program b drive lba WRITE_SECTORS
      let code := waitDrq (d.request s) DRQ_POLLS 0
      if code ≠ 0 then (code, b)
      else
        let b := writeWords buf s 256 0 b
        if ataWaitBsy (d.stored s) ≠ 0 then (-5, b)
        else
          let b := b.out8 .stat FLUSH_CACHE
          if ataWaitBsy (d.flushed s) ≠ 0 then (-6, b)
          else ideWriteSector d drive buf n (s + 1) (wrap32 (lba + 1)) b

/-! ### When the waits end well -/

/-- The first look with BSY clear is number `i`, and one of those that the driver takes. -/
def Ends (polls : Nat → Byte) (i : Nat) : Prop :=
  i < BSY_POLLS ∧ polls i &&& 0x80 = 0 ∧ ∀ j < i, polls j &&& 0x80 ≠ 0

/-- The drive asks for data, and shows no error before. -/
def Requests (polls : Nat → Byte) : Prop :=
  ∃ i < DRQ_POLLS, polls i &&& 0x08 ≠ 0 ∧ ∀ j < i, polls j &&& 0x08 = 0 ∧ polls j ≠ 0 ∧
    polls j ≠ 0xFF ∧ polls j &&& 0x01 = 0

theorem waitBsy_cases (polls : Nat → Byte) (n i : Nat) :
    waitBsy polls n i = -1 ∧ (∀ j < n, polls (i + j) &&& 0x80 ≠ 0) ∨
      waitBsy polls n i = 0 ∧ ∃ j < n, polls (i + j) &&& 0x80 = 0 ∧
        ∀ k < j, polls (i + k) &&& 0x80 ≠ 0 := by
  induction n generalizing i with
  | zero => exact .inl ⟨rfl, fun j hj => absurd hj (Nat.not_lt_zero j)⟩
  | succ n ih =>
    rw [waitBsy]
    by_cases hclear : polls i &&& 0x80 = 0
    · rw [if_pos hclear]
      exact .inr ⟨rfl, 0, Nat.succ_pos n, hclear, fun k hk => absurd hk (Nat.not_lt_zero k)⟩
    · rw [if_neg hclear]
      rcases ih (i + 1) with ⟨hcode, hall⟩ | ⟨hcode, j, hj, hend, hbefore⟩
      · refine .inl ⟨hcode, fun j hj => ?_⟩
        cases j with
        | zero => exact hclear
        | succ j =>
          rw [show i + (j + 1) = i + 1 + j by omega]
          exact hall j (by omega)
      · refine .inr ⟨hcode, j + 1, by omega, ?_, fun k hk => ?_⟩
        · rw [show i + (j + 1) = i + 1 + j by omega]
          exact hend
        · cases k with
          | zero => exact hclear
          | succ k =>
            rw [show i + (k + 1) = i + 1 + k by omega]
            exact hbefore k (by omega)

theorem ataWaitBsy_iff (polls : Nat → Byte) : ataWaitBsy polls = 0 ↔ ∃ i, Ends polls i := by
  rcases waitBsy_cases polls BSY_POLLS 0 with ⟨hcode, hall⟩ | ⟨hcode, j, hj, hend, hbefore⟩
  · refine iff_of_false (by rw [ataWaitBsy, hcode]; decide) ?_
    rintro ⟨i, hi, hclear, -⟩
    exact hall i hi (by rwa [Nat.zero_add])
  · refine iff_of_true hcode ⟨j, hj, by rwa [Nat.zero_add] at hend, fun k hk => ?_⟩
    have := hbefore k hk
    rwa [Nat.zero_add] at this

theorem Ends.unique {polls : Nat → Byte} {i j : Nat} (h : Ends polls i) (h' : Ends polls j) :
    i = j := by
  rcases Nat.lt_trichotomy i j with hlt | heq | hgt
  · exact absurd h.2.1 (h'.2.2 i hlt)
  · exact heq
  · exact absurd h'.2.1 (h.2.2 j hgt)

theorem waitDrq_iff (polls : Nat → Byte) (n i : Nat) : waitDrq polls n i = 0 ↔
    ∃ j < n, polls (i + j) &&& 0x08 ≠ 0 ∧ ∀ k < j, polls (i + k) &&& 0x08 = 0 ∧ polls (i + k) ≠ 0 ∧
      polls (i + k) ≠ 0xFF ∧ polls (i + k) &&& 0x01 = 0 := by
  induction n generalizing i with
  | zero =>
    exact iff_of_false (show (-4 : Int) ≠ 0 by decide)
      fun ⟨j, hj, _⟩ => absurd hj (Nat.not_lt_zero j)
  | succ n ih =>
    rw [waitDrq]
    by_cases hdrq : polls i &&& 0x08 ≠ 0
    · rw [if_pos hdrq]
      exact iff_of_true rfl
        ⟨0, Nat.succ_pos n, hdrq, fun k hk => absurd hk (Nat.not_lt_zero k)⟩
    · rw [if_neg hdrq]
      -- a later look decides, if this one shows no error
      have hlater : (∃ j < n + 1, polls (i + j) &&& 0x08 ≠ 0 ∧ ∀ k < j,
          polls (i + k) &&& 0x08 = 0 ∧ polls (i + k) ≠ 0 ∧ polls (i + k) ≠ 0xFF ∧
            polls (i + k) &&& 0x01 = 0) ↔
          (polls i ≠ 0 ∧ polls i ≠ 0xFF ∧ polls i &&& 0x01 = 0) ∧ ∃ j < n,
            polls (i + 1 + j) &&& 0x08 ≠ 0 ∧ ∀ k < j, polls (i + 1 + k) &&& 0x08 = 0 ∧
              polls (i + 1 + k) ≠ 0 ∧ polls (i + 1 + k) ≠ 0xFF ∧ polls (i + 1 + k) &&& 0x01 = 0 := by
        constructor
        · rintro ⟨j, hj, hend, hbefore⟩
          cases j with
          | zero => exact absurd hend hdrq
          | succ j =>
            refine ⟨(hbefore 0 (Nat.succ_pos j)).2, j, by omega, ?_, fun k hk => ?_⟩
            · rwa [show i + 1 + j = i + (j + 1) by omega]
            · rw [show i + 1 + k = i + (k + 1) by omega]
              exact hbefore (k + 1) (by omega)
        · rintro ⟨hnow, j, hj, hend, hbefore⟩
          refine ⟨j + 1, by omega, ?_, fun k hk => ?_⟩
          · rwa [show i + (j + 1) = i + 1 + j by omega]
          · cases k with
            | zero => exact ⟨not_not.mp hdrq, hnow⟩
            | succ k =>
              rw [show i + (k + 1) = i + 1 + k by omega]
              exact hbefore k (by omega)
      rw [hlater, ← ih (i + 1)]
      by_cases hnone : polls i = 0 ∨ polls i = 0xFF
      · rw [if_pos hnone]
        exact iff_of_false (by decide) fun ⟨⟨h0, hff, _⟩, _⟩ => hnone.elim h0 hff
      · rw [if_neg hnone]
        rw [not_or] at hnone
        by_cases herr : polls i &&& 0x01 ≠ 0
        · rw [if_pos herr]
          exact iff_of_false (by decide) fun ⟨⟨_, _, h⟩, _⟩ => herr h
        · rw [if_neg herr]
          exact (and_iff_right ⟨hnone.1, hnone.2, not_not.mp herr⟩).symm

theorem requests_iff (polls : Nat → Byte) : waitDrq polls DRQ_POLLS 0 = 0 ↔ Requests polls := by
  rw [waitDrq_iff]
  simp only [Nat.zero_add]
  exact Iff.rfl

end Ata

end WinDOS
