import WinDOS.Cpu.IsrStub
import WinDOS.Lib.Bytes

/-!
# The interrupt controllers

Two 8259A, the second on line 2 of the first: requests are latched at their edge, lower numbers
have priority, and a line in service holds back itself and the lines behind it. Of their commands
these are the ones that `pic_init` and the handlers send.
-/

set_option autoImplicit false

namespace WinDOS

open Bytes

structure Pic where
  /-- The latched requests. -/
  irr : Nat → Bool
  /-- The lines in service. -/
  isr : Nat → Bool
  imr : Byte
  base : Byte
  /-- The initialization word that the data port takes next; 0 if it takes the mask. -/
  word : Nat

namespace Pic

/-- A byte for the command port: the first initialization word, or a specific end of interrupt. -/
def command (p : Pic) (b : Byte) : Pic :=
  if b.getLsbD 4 then
    { irr := fun _ => false, isr := fun _ => false, imr := 0, base := p.base, word := 2 }
  else if b &&& 0xF8 = 0x60 then
    { p with isr := Function.update p.isr (b &&& 0x07).toNat false }
  else p

def data (p : Pic) (b : Byte) : Pic :=
  match p.word with
  | 2 => { p with base := b &&& 0xF8, word := 3 }
  | 3 => { p with word := 4 }
  | 4 => { p with word := 0 }
  | _ => { p with imr := b }

/-- The request that the chip passes on. -/
def wins (p : Pic) : Option Nat :=
  (List.range 8).find? fun i =>
    p.irr i && !p.imr.getLsbD i && (List.range (i + 1)).all fun j => !p.isr j

def raise (p : Pic) (i : Nat) : Pic := { p with irr := Function.update p.irr i true }

/-- The processor takes the request: it is in service. -/
def take (p : Pic) (i : Nat) : Pic :=
  { p with irr := Function.update p.irr i false, isr := Function.update p.isr i true }

end Pic

structure Pics where
  master : Pic
  slave : Pic

namespace Pics

def out8 (p : Pics) (port : Nat) (b : Byte) : Pics :=
  match port with
  | 0x20 => { p with master := p.master.command b }
  | 0x21 => { p with master := p.master.data b }
  | 0xA0 => { p with slave := p.slave.command b }
  | 0xA1 => { p with slave := p.slave.data b }
  | _ => p

/-- The writes of `pic_init`. -/
def picInit (p : Pics) : Pics :=
  [(0x21, 0xFF), (0xA1, 0xFF), (0x20, 0x11), (0x21, 0x20), (0x21, 4), (0x21, 1), (0xA0, 0x11),
    (0xA1, 0x28), (0xA1, 2), (0xA1, 1), (0x21, 0xF8), (0xA1, 0xEF)].foldl
      (fun p (w : Nat × Byte) => p.out8 w.1 w.2) p

/-- The interrupt line, 0 to 15, that the processor is asked to serve. Line 2 of the first chip
is the second chip. -/
def line (p : Pics) : Option Nat :=
  ({ p.master with irr := Function.update p.master.irr 2 p.slave.wins.isSome } : Pic).wins.bind
    fun i => if i = 2 then p.slave.wins.map (· + 8) else some i

def raise (p : Pics) (irq : Nat) : Pics :=
  if irq < 8 then { p with master := p.master.raise irq }
  else { p with slave := p.slave.raise (irq - 8) }

def requested (p : Pics) (irq : Nat) : Bool :=
  if irq < 8 then p.master.irr irq else p.slave.irr (irq - 8)

def take (p : Pics) (irq : Nat) : Pics :=
  if irq < 8 then { p with master := p.master.take irq }
  else { p with
    master := { p.master with isr := Function.update p.master.isr 2 true }
    slave := p.slave.take (irq - 8) }

/-- The vector the processor gets. -/
def vector (p : Pics) (irq : Nat) : Nat :=
  if irq < 8 then p.master.base.toNat + irq else p.slave.base.toNat + (irq - 8)

/-- What `pic_init` leaves but for requests and services: vectors from 0x20 and 0x28 on, and only
timer, keyboard, second chip and mouse unmasked. -/
structure Programmed (p : Pics) : Prop where
  masterMask : p.master.imr = 0xF8
  slaveMask : p.slave.imr = 0xEF
  masterBase : p.master.base = 0x20
  slaveBase : p.slave.base = 0x28
  masterWord : p.master.word = 0
  slaveWord : p.slave.word = 0

/-- No line is in service. -/
def Idle (p : Pics) : Prop := (∀ i, p.master.isr i = false) ∧ ∀ i, p.slave.isr i = false

/-- `pic_init` works from any state that the firmware left. -/
theorem picInit_programmed (p : Pics) :
    p.picInit.Programmed ∧ p.picInit.Idle ∧ ∀ irq, p.picInit.requested irq = false := by
  refine ⟨⟨rfl, rfl, rfl, rfl, rfl, rfl⟩, ⟨fun _ => rfl, fun _ => rfl⟩, fun irq => ?_⟩
  unfold requested
  split
  · rfl
  · rfl

theorem Programmed.of_same {p q : Pics} (h : p.Programmed)
    (hm : q.master.imr = p.master.imr ∧ q.master.base = p.master.base ∧
      q.master.word = p.master.word)
    (hs : q.slave.imr = p.slave.imr ∧ q.slave.base = p.slave.base ∧ q.slave.word = p.slave.word) :
    q.Programmed :=
  ⟨hm.1.trans h.masterMask, hs.1.trans h.slaveMask, hm.2.1.trans h.masterBase,
    hs.2.1.trans h.slaveBase, hm.2.2.trans h.masterWord, hs.2.2.trans h.slaveWord⟩

theorem Programmed.raise {p : Pics} (h : p.Programmed) (irq : Nat) : (p.raise irq).Programmed := by
  unfold Pics.raise
  split
  · exact h.of_same ⟨rfl, rfl, rfl⟩ ⟨rfl, rfl, rfl⟩
  · exact h.of_same ⟨rfl, rfl, rfl⟩ ⟨rfl, rfl, rfl⟩

theorem Programmed.take {p : Pics} (h : p.Programmed) (irq : Nat) : (p.take irq).Programmed := by
  unfold Pics.take
  split
  · exact h.of_same ⟨rfl, rfl, rfl⟩ ⟨rfl, rfl, rfl⟩
  · exact h.of_same ⟨rfl, rfl, rfl⟩ ⟨rfl, rfl, rfl⟩

/-- Writing the latch of one line leaves those of the others, on both chips. -/
theorem requested_of_irr {p q : Pics} {irq : Nat} {v : Bool}
    (hmaster : q.master.irr = if irq < 8 then Function.update p.master.irr irq v else p.master.irr)
    (hslave : q.slave.irr = if irq < 8 then p.slave.irr
      else Function.update p.slave.irr (irq - 8) v) (irq' : Nat) :
    q.requested irq' = if irq' = irq then v else p.requested irq' := by
  unfold requested
  rw [hmaster, hslave]
  by_cases heq : irq' = irq
  · subst heq
    by_cases hlt : irq' < 8
    · simp [hlt]
    · simp [hlt]
  · by_cases hlt : irq < 8
    · simp [hlt, heq]
    · by_cases hlt' : irq' < 8
      · simp [hlt, hlt', heq]
      · have hne : irq' - 8 ≠ irq - 8 := by omega
        simp [hlt, hlt', heq, hne]

theorem requested_raise (p : Pics) (irq irq' : Nat) :
    (p.raise irq).requested irq' = (decide (irq' = irq) || p.requested irq') := by
  have hirr := @requested_of_irr p (p.raise irq) irq true
    (by unfold Pics.raise Pic.raise; split <;> rfl) (by unfold Pics.raise Pic.raise; split <;> rfl)
    irq'
  rw [hirr]
  by_cases heq : irq' = irq
  · simp [heq]
  · simp [heq]

theorem raise_isr (p : Pics) (irq : Nat) :
    (p.raise irq).master.isr = p.master.isr ∧ (p.raise irq).slave.isr = p.slave.isr := by
  unfold Pics.raise
  split
  · exact ⟨rfl, rfl⟩
  · exact ⟨rfl, rfl⟩

theorem requested_take (p : Pics) (irq irq' : Nat) :
    (p.take irq).requested irq' = (decide (irq' ≠ irq) && p.requested irq') := by
  have hirr := @requested_of_irr p (p.take irq) irq false
    (by unfold Pics.take Pic.take; split <;> rfl) (by unfold Pics.take Pic.take; split <;> rfl)
    irq'
  rw [hirr]
  by_cases heq : irq' = irq
  · simp [heq]
  · simp [heq]

/-- With nothing in service the first of the three requests gets through, the timer before the
keyboard before the mouse. -/
theorem line_idle {p : Pics} (h : p.Programmed) (hidle : p.Idle) :
    p.line = if p.requested 0 then some 0 else if p.requested 1 then some 1
      else if p.requested 12 then some 12 else none := by
  have hslave : p.slave.wins = if p.slave.irr 4 then some 4 else none := by
    unfold Pic.wins
    rw [h.slaveMask]
    cases h4 : p.slave.irr 4
    · simp [List.range, List.range.loop, hidle.2, h4]
    · simp [List.range, List.range.loop, hidle.2, h4]
  unfold Pics.line
  rw [hslave]
  unfold Pic.wins requested
  rw [h.masterMask]
  cases h0 : p.master.irr 0 <;> cases h1 : p.master.irr 1 <;> cases h4 : p.slave.irr 4 <;>
    simp [List.range, List.range.loop, hidle.1, h0, h1]

end Pics

end WinDOS
