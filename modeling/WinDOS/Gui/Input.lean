import Mathlib.Logic.Relation
import WinDOS.Cpu.Idt
import WinDOS.Cpu.Pic
import WinDOS.Gui.Events
import WinDOS.Gui.Fifo
import WinDOS.Gui.Mouse

/-!
# From the keyboard controller to the FIFO and the GUI

Keyboard and mouse share one output buffer. A byte in it raises line 1 or 12; the handler for the
line ends the service first, then reads the status and, if the byte is its own, the byte. Devices
work at any time, also between two port accesses of a handler. The main code runs with interrupts
on or off; with interrupts off it takes bytes out of the FIFO and draws. On F1 it minimises a window
with interrupts on, and then nothing is said of the GUI.
-/

set_option autoImplicit false

namespace WinDOS

open Bytes

inductive Source where
  | keyboard | mouse
deriving DecidableEq, Repr

def Source.irq : Source → Nat
  | keyboard => 1
  | mouse => 12

def Source.bytes (src : Source) (l : List (Source × Byte)) : List Byte :=
  (l.filter fun p => p.1 = src).map Prod.snd

/-- The next port access of a handler; behind the read of the status it is the one that `s`
decides on. -/
inductive Pc where
  | timer
  | key0 | key1 | key2 (s : Byte)
  | mouse0 | mouse1 | mouse2 | mouse3 (s : Byte)
  | leave

/-- The main code with its interrupt flag, or a handler. -/
inductive At where
  | main (iflag : Bool)
  | handler (pc : Pc)

def Vector.entry : Vector → Pc
  | isr20 => .timer
  | isr21 => .key0
  | isr2c => .mouse0
  | isr_default => .leave

structure Sys where
  pics : Pics
  /-- The output buffer of the keyboard controller. -/
  out : Option (Source × Byte)
  cpu : At
  ticks : BitVec 32
  kfifo : Fifo
  gui : Gui
  m : MP
  /-- The bytes that the devices have sent and those that `fp` and `md` got, in their order. -/
  sent : List (Source × Byte)
  keys : List Byte
  moves : List Byte
  /-- A packet may have come in the middle of a change of the GUI. -/
  torn : Bool

/-- What port 0x64 says of the output buffer; the other bits are free. -/
structure Status (out : Option (Source × Byte)) (s : Byte) : Prop where
  full : s &&& 0x01 ≠ 0 ↔ out.isSome = true
  keyboard : ∀ d, out = some (.keyboard, d) → s &&& 0x20 = 0
  mouse : ∀ d, out = some (.mouse, d) → s &&& 0x20 ≠ 0

/-- What port 0x60 gives; without a byte in the buffer anything. -/
def Data (out : Option (Source × Byte)) (d : Byte) : Prop := ∀ src e, out = some (src, e) → d = e

namespace Sys

def out8 (x : Sys) (port : Nat) (b : Byte) (pc : Pc) : Sys :=
  { x with pics := x.pics.out8 port b, cpu := .handler pc }

def goto (x : Sys) (pc : Pc) : Sys := { x with cpu := .handler pc }

/-- One step of a handler, with what the ports would give. -/
def advance (font : Font) (x : Sys) (s d : Byte) : Pc → Sys
  | .timer => ({ x with ticks := x.ticks + 1 } : Sys).out8 0x20 0x60 .leave
  | .key0 => x.out8 0x20 0x61 .key1
  | .key1 => x.goto (.key2 s)
  | .key2 s =>
    if s &&& 0x01 ≠ 0 ∧ s &&& 0x20 = 0 then
      ({ x with out := none, kfifo := fp x.kfifo d, keys := x.keys ++ [d] } : Sys).goto .leave
    else x.goto .leave
  | .mouse0 => x.out8 0xA0 0x64 .mouse1
  | .mouse1 => x.out8 0x20 0x62 .mouse2
  | .mouse2 => x.goto (.mouse3 s)
  | .mouse3 s =>
    if s &&& 0x01 ≠ 0 ∧ s &&& 0x20 ≠ 0 then
      let r := isr2cHandler font x.gui x.m s d
      ({ x with out := none, gui := r.1, m := r.2, moves := x.moves ++ [d] } : Sys).goto .leave
    else x.goto .leave
  | .leave => { x with cpu := .main true }

/-- Keyboard, mouse and the devices behind the other lines. -/
inductive DeviceStep (x : Sys) : Sys → Prop where
  | fill (src : Source) (d : Byte) (h : x.out = none) : DeviceStep x
      { x with out := some (src, d), pics := x.pics.raise src.irq, sent := x.sent ++ [(src, d)] }
  | raise (irq : Nat) (h : irq ≠ 1 ∧ irq ≠ 12) : DeviceStep x { x with pics := x.pics.raise irq }

/-- The main loop, or the user program. -/
inductive MainStep (font : Font) (x : Sys) : Sys → Prop where
  | flag (old iflag : Bool) (h : x.cpu = .main old) : MainStep font x { x with cpu := .main iflag }
  | get (h : x.cpu = .main false) : MainStep font x { x with kfifo := (fg x.kfifo 0).2.2 }
  | draw (e : Event) (h : x.cpu = .main false) (ok : e.Enabled x.gui) :
      MainStep font x { x with gui := e.run font x.gui }
  | minimise (g : Gui) (h : x.cpu = .main true) : MainStep font x { x with gui := g, torn := true }

/-- The processor takes an interrupt or goes on in a handler. -/
inductive CpuStep (font : Font) (x : Sys) : Sys → Prop where
  | accept (irq : Nat) (h : x.cpu = .main true) (hline : x.pics.line = some irq) :
      CpuStep font x { x with
        pics := x.pics.take irq
        cpu := .handler (gateOf (x.pics.vector irq)).entry }
  | handler (pc : Pc) (s d : Byte) (h : x.cpu = .handler pc) (hs : Status x.out s)
      (hd : Data x.out d) : CpuStep font x (x.advance font s d pc)

def Step (font : Font) (x y : Sys) : Prop := DeviceStep x y ∨ MainStep font x y ∨ CpuStep font x y

def read (x : Sys) : Source → List Byte
  | .keyboard => x.keys
  | .mouse => x.moves

end Sys

/-! ### The invariant -/

/-- The lines of the two chips that are in service. -/
def At.inService : At → List Nat × List Nat
  | handler .timer => ([0], [])
  | handler .key0 => ([1], [])
  | handler .mouse0 => ([2], [4])
  | handler .mouse1 => ([2], [])
  | _ => ([], [])

/-- The status has shown a byte of this source. -/
def At.found : At → Source → Prop
  | handler (.key2 s), .keyboard => s &&& 0x01 ≠ 0 ∧ s &&& 0x20 = 0
  | handler (.mouse3 s), .mouse => s &&& 0x01 ≠ 0 ∧ s &&& 0x20 ≠ 0
  | _, _ => False

/-- The handler for the source is running, and a byte that waits will be read. -/
def At.willRead : At → Source → Prop
  | handler .key0, .keyboard => True
  | handler .key1, .keyboard => True
  | handler .mouse0, .mouse => True
  | handler .mouse1, .mouse => True
  | handler .mouse2, .mouse => True
  | cpu, src => cpu.found src

/-- A waiting byte has its request or its handler. -/
structure Awake (x : Sys) : Prop where
  programmed : x.pics.Programmed
  service : (∀ i, x.pics.master.isr i = decide (i ∈ x.cpu.inService.1)) ∧
    ∀ i, x.pics.slave.isr i = decide (i ∈ x.cpu.inService.2)
  pending : ∀ src d, x.out = some (src, d) →
    x.pics.requested src.irq = true ∨ x.cpu.willRead src
  found : ∀ src, x.cpu.found src → ∃ d, x.out = some (src, d)

namespace Awake

variable {font : Font} {x y : Sys}

theorem device (h : Awake x) (hstep : Sys.DeviceStep x y) : Awake y := by
  cases hstep with
  | fill src d hout =>
    obtain ⟨hm, hs⟩ := Pics.raise_isr x.pics src.irq
    refine ⟨h.programmed.raise _, ?_, fun src' d' heq => .inl ?_, fun src' hfound => ?_⟩
    · rw [hm, hs]
      exact h.service
    · obtain ⟨rfl, -⟩ := Prod.mk.inj (Option.some.inj heq)
      rw [Pics.requested_raise, decide_eq_true rfl, Bool.true_or]
    · obtain ⟨d', heq⟩ := h.found src' hfound
      rw [hout] at heq
      cases heq
  | raise irq hirq =>
    obtain ⟨hm, hs⟩ := Pics.raise_isr x.pics irq
    refine ⟨h.programmed.raise _, ?_, fun src d heq => ?_, h.found⟩
    · rw [hm, hs]
      exact h.service
    · refine (h.pending src d heq).imp_left fun hreq => ?_
      rw [Pics.requested_raise, hreq, Bool.or_true]

theorem main (h : Awake x) (hstep : Sys.MainStep font x y) : Awake y := by
  cases hstep with
  | flag old iflag hcpu =>
    have hserv := h.service
    have hpend := h.pending
    rw [hcpu] at hserv hpend
    refine ⟨h.programmed, hserv, fun src d heq => ?_, fun src hfound => ?_⟩
    · refine (hpend src d heq).imp_right fun hread => ?_
      cases src <;> exact hread
    · cases src <;> exact hfound.elim
  | get hcpu => exact ⟨h.programmed, h.service, h.pending, h.found⟩
  | draw e hcpu ok => exact ⟨h.programmed, h.service, h.pending, h.found⟩
  | minimise g hcpu => exact ⟨h.programmed, h.service, h.pending, h.found⟩

theorem idle (h : Awake x) {iflag : Bool} (hcpu : x.cpu = .main iflag) : x.pics.Idle := by
  have hserv := h.service
  rw [hcpu] at hserv
  exact ⟨fun i => hserv.1 i, fun i => hserv.2 i⟩

/-- The interrupts that come, and where their handlers begin. -/
theorem accepted (h : Awake x) {iflag : Bool} (hcpu : x.cpu = .main iflag) {irq : Nat}
    (hline : x.pics.line = some irq) : x.pics.requested irq = true ∧
      (irq = 0 ∧ (gateOf (x.pics.vector irq)).entry = .timer ∨
        irq = 1 ∧ (gateOf (x.pics.vector irq)).entry = .key0 ∨
        irq = 12 ∧ (gateOf (x.pics.vector irq)).entry = .mouse0) := by
  have hm := h.programmed.masterBase
  have hs := h.programmed.slaveBase
  rw [Pics.line_idle h.programmed (h.idle hcpu)] at hline
  unfold Pics.vector
  rw [hm, hs]
  split at hline
  · rename_i hreq
    obtain rfl := Option.some.inj hline
    exact ⟨hreq, .inl ⟨rfl, rfl⟩⟩
  split at hline
  · rename_i hreq
    obtain rfl := Option.some.inj hline
    exact ⟨hreq, .inr (.inl ⟨rfl, rfl⟩)⟩
  split at hline
  · rename_i hreq
    obtain rfl := Option.some.inj hline
    exact ⟨hreq, .inr (.inr ⟨rfl, rfl⟩)⟩
  · cases hline

theorem service_taken {isr : Nat → Bool} (h : ∀ i, isr i = false) (k i : Nat) :
    Function.update isr k true i = decide (i ∈ [k]) := by
  simp [Function.update_apply, h]

theorem service_ended {isr : Nat → Bool} {k : Nat} (h : ∀ i, isr i = decide (i ∈ [k])) (i : Nat) :
    Function.update isr k false i = decide (i ∈ ([] : List Nat)) := by
  by_cases hi : i = k
  · simp [hi]
  · simpa [hi] using h i

/-- Between two port accesses of a handler; an end of interrupt changes what is in service. -/
theorem goto (h : Awake x) {pc : Pc} (hcpu : x.cpu = .handler pc) (m sl : Nat → Bool) (pc' : Pc)
    (hpics : y.pics = ⟨{ x.pics.master with isr := m }, { x.pics.slave with isr := sl }⟩)
    (hcpu' : y.cpu = .handler pc') (hout : y.out = x.out)
    (hserv : (∀ i, m i = decide (i ∈ (At.handler pc').inService.1)) ∧
      ∀ i, sl i = decide (i ∈ (At.handler pc').inService.2))
    (hread : ∀ src d, x.out = some (src, d) → (At.handler pc).willRead src →
      (At.handler pc').willRead src)
    (hfound : ∀ src, (At.handler pc').found src → ∃ d, x.out = some (src, d)) : Awake y := by
  refine ⟨hpics ▸ h.programmed.of_same ⟨rfl, rfl, rfl⟩ ⟨rfl, rfl, rfl⟩, ?_, fun src d heq => ?_,
    fun src hf => ?_⟩
  · rw [hcpu', hpics]
    exact hserv
  · rw [hout] at heq
    have hreq : y.pics.requested src.irq = x.pics.requested src.irq := by
      rw [hpics]
      rfl
    rw [hreq, hcpu']
    exact (h.pending src d heq).imp_right fun hr => hread src d heq (hcpu ▸ hr)
  · rw [hout]
    exact hfound src (hcpu' ▸ hf)

/-- A handler that has read its byte, or has found none of its own. -/
theorem read_out (h : Awake x) {pc : Pc} (hcpu : x.cpu = .handler pc) (hidle : x.pics.Idle)
    (hcpu' : y.cpu = .handler .leave) (hpics : y.pics = x.pics)
    (hout : y.out = none ∨ y.out = x.out ∧ ∀ src, ¬ (At.handler pc).willRead src) : Awake y := by
  refine ⟨hpics ▸ h.programmed, ?_, fun src d heq => ?_, fun src hf => ?_⟩
  · rw [hcpu', hpics]
    exact ⟨fun i => hidle.1 i, fun i => hidle.2 i⟩
  · rcases hout with hnone | ⟨hsame, hno⟩
    · rw [hnone] at heq
      cases heq
    · rw [hsame] at heq
      rw [hpics]
      exact .inl ((h.pending src d heq).resolve_right fun hr => hno src (hcpu ▸ hr))
  · rw [hcpu'] at hf
    cases src <;> exact hf.elim

/-- The processor enters the handler of a line. -/
theorem taken (h : Awake x) {iflag : Bool} (hcpu : x.cpu = .main iflag) (irq : Nat) (pc : Pc)
    (hserv : (∀ i, (x.pics.take irq).master.isr i = decide (i ∈ (At.handler pc).inService.1)) ∧
      ∀ i, (x.pics.take irq).slave.isr i = decide (i ∈ (At.handler pc).inService.2))
    (hread : ∀ src : Source, src.irq = irq → (At.handler pc).willRead src)
    (hfound : ∀ src, ¬ (At.handler pc).found src) :
    Awake { x with pics := x.pics.take irq, cpu := .handler pc } := by
  refine ⟨h.programmed.take irq, hserv, fun src d heq => ?_, fun src hf => absurd hf (hfound src)⟩
  by_cases hirq : src.irq = irq
  · exact .inr (hread src hirq)
  · have hwait : x.pics.requested src.irq = true := (h.pending src d heq).resolve_right fun hr => by
      rw [hcpu] at hr
      cases src <;> exact hr
    refine .inl ?_
    change (x.pics.take irq).requested src.irq = true
    rw [Pics.requested_take, decide_eq_true hirq, hwait]
    rfl

theorem accept (h : Awake x) {iflag : Bool} (hcpu : x.cpu = .main iflag) {irq : Nat}
    (hline : x.pics.line = some irq) : Awake { x with
      pics := x.pics.take irq
      cpu := .handler (gateOf (x.pics.vector irq)).entry } := by
  obtain ⟨hm, hs⟩ := h.idle hcpu
  rcases (h.accepted hcpu hline).2 with ⟨rfl, hentry⟩ | ⟨rfl, hentry⟩ | ⟨rfl, hentry⟩
  · rw [hentry]
    refine h.taken hcpu 0 .timer ⟨service_taken hm 0, hs⟩ (fun src heq => ?_) fun src hf => ?_
    · cases src <;> cases heq
    · cases src <;> exact hf
  · rw [hentry]
    refine h.taken hcpu 1 .key0 ⟨service_taken hm 1, hs⟩ (fun src heq => ?_) fun src hf => ?_
    · cases src with
      | keyboard => exact trivial
      | mouse => cases heq
    · cases src <;> exact hf
  · rw [hentry]
    refine h.taken hcpu 12 .mouse0 ⟨service_taken hm 2, service_taken hs 4⟩ (fun src heq => ?_)
      fun src hf => ?_
    · cases src with
      | keyboard => cases heq
      | mouse => exact trivial
    · cases src <;> exact hf

theorem status_found {s : Byte} (hs : Status x.out s) :
    (s &&& 0x01 ≠ 0 ∧ s &&& 0x20 = 0 ↔ ∃ d, x.out = some (.keyboard, d)) ∧
      (s &&& 0x01 ≠ 0 ∧ s &&& 0x20 ≠ 0 ↔ ∃ d, x.out = some (.mouse, d)) := by
  obtain ⟨hfull, hkey, hmouse⟩ := hs
  rcases hout : x.out with _ | ⟨src, d⟩
  · rw [hout, Option.isSome_none] at hfull
    refine ⟨⟨fun h => ?_, ?_⟩, ⟨fun h => ?_, ?_⟩⟩
    · exact absurd (hfull.mp h.1) Bool.false_ne_true
    · rintro ⟨d, heq⟩
      cases heq
    · exact absurd (hfull.mp h.1) Bool.false_ne_true
    · rintro ⟨d, heq⟩
      cases heq
  · rw [hout, Option.isSome_some] at hfull
    have hone := hfull.mpr rfl
    cases src with
    | keyboard =>
      have hzero := hkey d hout
      refine ⟨iff_of_true ⟨hone, hzero⟩ ⟨d, rfl⟩, iff_of_false (fun h => h.2 hzero) ?_⟩
      rintro ⟨e, heq⟩
      cases heq
    | mouse =>
      have hset := hmouse d hout
      refine ⟨iff_of_false (fun h => hset h.2) ?_, iff_of_true ⟨hone, hset⟩ ⟨d, rfl⟩⟩
      rintro ⟨e, heq⟩
      cases heq

theorem handler (h : Awake x) {pc : Pc} {s d : Byte} (hcpu : x.cpu = .handler pc)
    (hs : Status x.out s) : Awake (x.advance font s d pc) := by
  obtain ⟨hm, hsl⟩ := h.service
  rw [hcpu] at hm hsl
  obtain ⟨hkey, hmouse⟩ := status_found hs
  have hno : ∀ {pc : Pc}, (∀ src, ¬ (At.handler pc).found src) → ∀ src, (At.handler pc).found src →
      ∃ d, x.out = some (src, d) := fun hnot src hf => absurd hf (hnot src)
  cases pc with
  | timer =>
    refine h.goto hcpu (Function.update x.pics.master.isr 0 false) x.pics.slave.isr .leave rfl rfl
      rfl ⟨service_ended hm, hsl⟩ (fun src d _ hr => ?_) (hno fun src hf => ?_)
    · cases src <;> exact hr
    · cases src <;> exact hf
  | key0 =>
    refine h.goto hcpu (Function.update x.pics.master.isr 1 false) x.pics.slave.isr .key1 rfl rfl
      rfl ⟨service_ended hm, hsl⟩ (fun src d _ hr => ?_) (hno fun src hf => ?_)
    · cases src <;> exact hr
    · cases src <;> exact hf
  | key1 =>
    refine h.goto hcpu x.pics.master.isr x.pics.slave.isr (.key2 s) rfl rfl rfl ⟨hm, hsl⟩
      (fun src e heq hr => ?_) fun src hf => ?_
    · cases src with
      | keyboard => exact hkey.mpr ⟨e, heq⟩
      | mouse => exact hr.elim
    · cases src with
      | keyboard => exact hkey.mp hf
      | mouse => exact hf.elim
  | key2 t =>
    have hidle : x.pics.Idle := ⟨fun i => hm i, fun i => hsl i⟩
    simp only [Sys.advance]
    split
    · exact h.read_out hcpu hidle rfl rfl (.inl rfl)
    · rename_i hnot
      refine h.read_out hcpu hidle rfl rfl (.inr ⟨rfl, fun src hr => ?_⟩)
      cases src with
      | keyboard => exact hnot hr
      | mouse => exact hr
  | mouse0 =>
    refine h.goto hcpu x.pics.master.isr (Function.update x.pics.slave.isr 4 false) .mouse1 rfl rfl
      rfl ⟨hm, service_ended hsl⟩ (fun src d _ hr => ?_) (hno fun src hf => ?_)
    · cases src <;> exact hr
    · cases src <;> exact hf
  | mouse1 =>
    refine h.goto hcpu (Function.update x.pics.master.isr 2 false) x.pics.slave.isr .mouse2 rfl rfl
      rfl ⟨service_ended hm, hsl⟩ (fun src d _ hr => ?_) (hno fun src hf => ?_)
    · cases src <;> exact hr
    · cases src <;> exact hf
  | mouse2 =>
    refine h.goto hcpu x.pics.master.isr x.pics.slave.isr (.mouse3 s) rfl rfl rfl ⟨hm, hsl⟩
      (fun src e heq hr => ?_) fun src hf => ?_
    · cases src with
      | keyboard => exact hr.elim
      | mouse => exact hmouse.mpr ⟨e, heq⟩
    · cases src with
      | keyboard => exact hf.elim
      | mouse => exact hmouse.mp hf
  | mouse3 t =>
    have hidle : x.pics.Idle := ⟨fun i => hm i, fun i => hsl i⟩
    simp only [Sys.advance]
    split
    · exact h.read_out hcpu hidle rfl rfl (.inl rfl)
    · rename_i hnot
      refine h.read_out hcpu hidle rfl rfl (.inr ⟨rfl, fun src hr => ?_⟩)
      cases src with
      | keyboard => exact hr
      | mouse => exact hnot hr
  | leave =>
    refine ⟨h.programmed, ⟨hm, hsl⟩, fun src e heq => .inl ?_, fun src hf => ?_⟩
    · refine (h.pending src e heq).resolve_right fun hr => ?_
      rw [hcpu] at hr
      cases src <;> exact hr
    · cases src <;> exact hf.elim

theorem step (h : Awake x) (hstep : Sys.Step font x y) : Awake y := by
  rcases hstep with hdev | hmain | hcpu
  · exact h.device hdev
  · exact h.main hmain
  · cases hcpu with
    | accept irq hmain hline => exact h.accept hmain hline
    | handler pc s d hpc hs hd => exact h.handler hpc hs

end Awake

/-! ### What the consumers get -/

/-- The bytes that `fp` is called with. -/
def FifoCall.put? : FifoCall → Option Byte
  | fp d => some d
  | fg _ => none

/-- From the state `x0` on every byte of a source went to its consumer or still waits. -/
structure Fed (x0 x : Sys) : Prop where
  bytes : ∀ src : Source, src.bytes x.sent = x.read src ++ src.bytes x.out.toList
  decoder : x.m = x.moves.foldl (fun m d => (m.md d).1) x0.m
  ring : ∃ calls : List FifoCall, x.kfifo = calls.foldl fifo.next x0.kfifo ∧
    calls.filterMap FifoCall.put? = x.keys

namespace Fed

variable {font : Font} {x0 x y : Sys}

theorem bytes_append (src : Source) (l l' : List (Source × Byte)) :
    src.bytes (l ++ l') = src.bytes l ++ src.bytes l' := by
  unfold Source.bytes
  rw [List.filter_append, List.map_append]

theorem same (f : Fed x0 x) (hsent : y.sent = x.sent) (hout : y.out = x.out)
    (hkeys : y.keys = x.keys) (hmoves : y.moves = x.moves) (hm : y.m = x.m)
    (hfifo : y.kfifo = x.kfifo) : Fed x0 y := by
  refine ⟨fun src => ?_, ?_, ?_⟩
  · rw [hsent, hout, f.bytes src]
    cases src with
    | keyboard => exact congrArg (· ++ _) hkeys.symm
    | mouse => exact congrArg (· ++ _) hmoves.symm
  · rw [hm, hmoves]
    exact f.decoder
  · rw [hfifo, hkeys]
    exact f.ring

/-- The waiting byte goes to its consumer. -/
theorem taken (f : Fed x0 x) {src : Source} {d : Byte} (hout : x.out = some (src, d))
    (hsent : y.sent = x.sent) (hnone : y.out = none)
    (hread : ∀ src', y.read src' = if src' = src then x.read src' ++ [d] else x.read src')
    (src' : Source) : src'.bytes y.sent = y.read src' ++ src'.bytes y.out.toList := by
  have hb := f.bytes src'
  rw [hsent, hb, hout, hnone, hread]
  by_cases heq : src' = src
  · subst heq
    simp [Source.bytes]
  · have hne : src ≠ src' := fun h => heq h.symm
    simp [Source.bytes, heq, hne]

theorem isr2c_decoder (g : Gui) (m : MP) {s : Byte} (hs : s &&& 0x01 ≠ 0 ∧ s &&& 0x20 ≠ 0)
    (d : Byte) : (isr2cHandler font g m s d).2 = (m.md d).1 := by
  unfold isr2cHandler
  rw [if_pos hs]
  split
  · rfl
  · rfl

theorem device (f : Fed x0 x) (hstep : Sys.DeviceStep x y) : Fed x0 y := by
  cases hstep with
  | fill src d hout =>
    refine ⟨fun src' => ?_, f.decoder, f.ring⟩
    have hb := f.bytes src'
    rw [hout] at hb
    change src'.bytes (x.sent ++ [(src, d)]) = x.read src' ++ src'.bytes [(src, d)]
    rw [bytes_append, hb]
    exact congrArg (· ++ _) (List.append_nil _)
  | raise irq hirq => exact f.same rfl rfl rfl rfl rfl rfl

theorem main (f : Fed x0 x) (hstep : Sys.MainStep font x y) : Fed x0 y := by
  cases hstep with
  | flag old iflag hcpu => exact f.same rfl rfl rfl rfl rfl rfl
  | get hcpu =>
    obtain ⟨calls, hfifo, hputs⟩ := f.ring
    refine ⟨fun src => ?_, f.decoder, ⟨calls ++ [.fg 0], ?_, ?_⟩⟩
    · cases src with
      | keyboard => exact f.bytes .keyboard
      | mouse => exact f.bytes .mouse
    · rw [List.foldl_append, ← hfifo]
      rfl
    · rw [List.filterMap_append, hputs]
      exact List.append_nil _
  | draw e hcpu ok => exact f.same rfl rfl rfl rfl rfl rfl
  | minimise g hcpu => exact f.same rfl rfl rfl rfl rfl rfl

theorem handler (f : Fed x0 x) (h : Awake x) {pc : Pc} {s d : Byte} (hcpu : x.cpu = .handler pc)
    (hd : Data x.out d) : Fed x0 (x.advance font s d pc) := by
  cases pc with
  | key2 t =>
    simp only [Sys.advance]
    split
    · rename_i hkey
      obtain ⟨e, hout⟩ := h.found .keyboard (hcpu ▸ hkey)
      obtain rfl := hd .keyboard e hout
      obtain ⟨calls, hfifo, hputs⟩ := f.ring
      refine ⟨f.taken hout rfl rfl fun src' => ?_, f.decoder, ⟨calls ++ [.fp d], ?_, ?_⟩⟩
      · cases src' <;> rfl
      · rw [List.foldl_append, ← hfifo]
        rfl
      · rw [List.filterMap_append, hputs]
        rfl
    · exact f.same rfl rfl rfl rfl rfl rfl
  | mouse3 t =>
    simp only [Sys.advance]
    split
    · rename_i hmouse
      obtain ⟨e, hout⟩ := h.found .mouse (hcpu ▸ hmouse)
      obtain rfl := hd .mouse e hout
      refine ⟨f.taken hout rfl rfl fun src' => ?_, ?_, f.ring⟩
      · cases src' <;> rfl
      · change (isr2cHandler font x.gui x.m t d).2 = (x.moves ++ [d]).foldl _ x0.m
        rw [isr2c_decoder _ _ hmouse, List.foldl_append, ← f.decoder]
        rfl
    · exact f.same rfl rfl rfl rfl rfl rfl
  | _ => exact f.same rfl rfl rfl rfl rfl rfl

theorem step (f : Fed x0 x) (h : Awake x) (hstep : Sys.Step font x y) : Fed x0 y := by
  rcases hstep with hdev | hmain | hcpu
  · exact f.device hdev
  · exact f.main hmain
  · cases hcpu with
    | accept irq hmain hline => exact f.same rfl rfl rfl rfl rfl rfl
    | handler pc s d hpc hs hd => exact f.handler h hpc hd

end Fed

/-- Whatever comes from the mouse, and whenever, the GUI makes one of its steps. -/
theorem Reachable.sysStep {font : Font} {b : StartUp} {x y : Sys}
    (hgui : x.torn = false → Reachable font b x.gui) (hstep : Sys.Step font x y) :
    y.torn = false → Reachable font b y.gui := by
  rcases hstep with hdev | hmain | hcpu
  · cases hdev with
    | fill src d hout => exact hgui
    | raise irq hirq => exact hgui
  · cases hmain with
    | flag old iflag hcpu => exact hgui
    | get hcpu => exact hgui
    | draw e hcpu ok => exact fun hwhole => .step (hgui hwhole) e ok
    | minimise g hcpu => exact fun hwhole => Bool.noConfusion hwhole
  · cases hcpu with
    | accept irq hmain hline => exact hgui
    | handler pc s d hpc hs hd =>
      cases pc with
      | key2 t =>
        simp only [Sys.advance]
        split
        · exact hgui
        · exact hgui
      | mouse3 t =>
        simp only [Sys.advance]
        split
        · rename_i hmouse
          intro hwhole
          change Reachable font b (isr2cHandler font x.gui x.m t d).1
          unfold isr2cHandler
          rw [if_pos hmouse]
          split
          · exact .step (hgui hwhole) (.packet _ _ _) trivial
          · exact hgui hwhole
        · exact hgui
      | _ => exact hgui

end WinDOS
