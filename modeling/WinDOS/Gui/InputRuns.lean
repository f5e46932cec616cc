import WinDOS.Gui.Input

/-!
# From the start of the interrupts on

The writes of `pic_init` forget the requests that the firmware left. A byte that waited before them
never asks again, and as long as it waits no other byte comes; `init_keyboard` looks into the output
buffer before interrupts are on. From then on every byte of keyboard and mouse comes to its
consumer, in every order of devices, handlers and main code.
-/

set_option autoImplicit false

namespace WinDOS

open Bytes

namespace Sys

/-! ### Start-up -/

/-- Before the configuration byte of `init_keyboard` the controller may keep its lines down. -/
inductive SetupStep (x : Sys) : Sys → Prop where
  | device (y : Sys) (h : DeviceStep x y) : SetupStep x y
  | silent (src : Source) (d : Byte) (h : x.out = none) :
      SetupStep x { x with out := some (src, d) }

/-- The wait of `init_keyboard` for 0xFA, with `n` looks left; what else it reads is lost. -/
inductive AckLoop : Nat → Sys → Sys → Prop where
  | timeout (x : Sys) : AckLoop 0 x x
  | device {n : Nat} {x y z : Sys} (h : DeviceStep x y) (rest : AckLoop n y z) : AckLoop n x z
  | empty {n : Nat} {x z : Sys} (h : x.out = none) (rest : AckLoop n x z) : AckLoop (n + 1) x z
  | other {n : Nat} {x z : Sys} (src : Source) (d : Byte) (h : x.out = some (src, d))
      (hd : d ≠ 0xFA) (rest : AckLoop n { x with out := none } z) : AckLoop (n + 1) x z
  | ack {n : Nat} {x : Sys} (src : Source) (h : x.out = some (src, 0xFA)) :
      AckLoop (n + 1) x { x with out := none }

/-- `mouse_enable` behind its wait. -/
inductive MouseAck (x : Sys) : Sys → Prop where
  | read (src : Source) (d : Byte) (h : x.out = some (src, d)) : MouseAck x { x with out := none }
  | silent (h : x.out = none) : MouseAck x x

/-- Interrupts are off, and `pic_init` has run. -/
def atInit (x : Sys) : Sys :=
  { x with pics := x.pics.picInit, cpu := .main false, kfifo := Fifo.zero, m := MP.zero }

/-- `sti`; the bytes are counted from here on. -/
def sti (x : Sys) : Sys :=
  { x with cpu := .main true, sent := x.out.toList, keys := [], moves := [] }

/-- `io_cli`, and the GUI is set up. A packet before has met a desk without its last window. -/
def ready (x : Sys) (g : Gui) : Sys :=
  { x with cpu := .main false, gui := g, torn := decide (x.moves ≠ []) }

/-- Devices and handlers. -/
def Outside (font : Font) (x y : Sys) : Prop := DeviceStep x y ∨ CpuStep font x y

/-- `x` is in front of `pic_init`, `w` at the main loop. The GUI is the one of the start if the
mouse has waited for it, else any. -/
inductive Started (font : Font) (b : StartUp) (w : Sys) : Prop where
  | mk (x x1 x2 x3 x4 x5 z : Sys) (g : Gui) (iflag : Bool)
      (hsetup : Relation.ReflTransGen SetupStep x.atInit x1)
      (hkeyboard : AckLoop 200000 x1 x2)
      (hwait : Relation.ReflTransGen DeviceStep x2 x3)
      (hmouse : MouseAck x3 x4)
      (hrest : Relation.ReflTransGen DeviceStep x4 x5)
      (hquiet : Relation.ReflTransGen (Outside font) x5.sti z)
      (hcpu : z.cpu = .main iflag)
      (hgui : z.moves = [] → startUp font b = some g)
      (hready : w = z.ready g)

/-- Devices change requests, the buffer and what was sent. -/
structure SameCode (x y : Sys) : Prop where
  programmed : x.pics.Programmed → y.pics.Programmed
  idle : x.pics.Idle → y.pics.Idle
  cpu : y.cpu = x.cpu
  kfifo : y.kfifo = x.kfifo
  m : y.m = x.m

namespace SameCode

variable {x y z : Sys}

theorem refl (x : Sys) : SameCode x x := ⟨id, id, rfl, rfl, rfl⟩

theorem trans (h : SameCode x y) (h' : SameCode y z) : SameCode x z :=
  ⟨h'.programmed ∘ h.programmed, h'.idle ∘ h.idle, h'.cpu.trans h.cpu, h'.kfifo.trans h.kfifo,
    h'.m.trans h.m⟩

theorem out (x : Sys) (out : Option (Source × Byte)) : SameCode x { x with out := out } :=
  ⟨id, id, rfl, rfl, rfl⟩

theorem idle_raise (p : Pics) (irq : Nat) (h : p.Idle) : (p.raise irq).Idle := by
  obtain ⟨hm, hs⟩ := Pics.raise_isr p irq
  refine ⟨fun i => ?_, fun i => ?_⟩
  · rw [hm]
    exact h.1 i
  · rw [hs]
    exact h.2 i

theorem device (h : DeviceStep x y) : SameCode x y := by
  cases h with
  | fill src d hout => exact ⟨fun h => h.raise _, idle_raise _ _, rfl, rfl, rfl⟩
  | raise irq hirq => exact ⟨fun h => h.raise _, idle_raise _ _, rfl, rfl, rfl⟩

theorem setup (h : Relation.ReflTransGen SetupStep x y) : SameCode x y := by
  induction h with
  | refl => exact .refl x
  | tail _ hstep ih =>
    cases hstep with
    | device _ h => exact ih.trans (.device h)
    | silent src d h => exact ih.trans (.out _ _)

theorem devices (h : Relation.ReflTransGen DeviceStep x y) : SameCode x y := by
  induction h with
  | refl => exact .refl x
  | tail _ hstep ih => exact ih.trans (.device hstep)

theorem ackLoop {n : Nat} (h : AckLoop n x y) : SameCode x y := by
  induction h with
  | timeout x => exact .refl x
  | device h _ ih => exact (device h).trans ih
  | empty _ _ ih => exact ih
  | other src d h hd _ ih => exact (out _ _).trans ih
  | ack src h => exact .out _ _

theorem mouseAck (h : MouseAck x y) : SameCode x y := by
  cases h with
  | read src d h => exact .out _ _
  | silent h => exact .refl x

end SameCode

/-- A waiting byte has its request. -/
def Asks (x : Sys) : Prop := ∀ src d, x.out = some (src, d) → x.pics.requested src.irq = true

theorem asks_none {x : Sys} (h : x.out = none) : Asks x := by
  intro src d heq
  rw [h] at heq
  cases heq

theorem Asks.device {x y : Sys} (h : Asks x) (hstep : DeviceStep x y) : Asks y := by
  cases hstep with
  | fill src d hout =>
    intro src' d' heq
    obtain ⟨rfl, -⟩ := Prod.mk.inj (Option.some.inj heq)
    change (x.pics.raise src.irq).requested src.irq = true
    rw [Pics.requested_raise, decide_eq_true rfl, Bool.true_or]
  | raise irq hirq =>
    intro src d heq
    change (x.pics.raise irq).requested src.irq = true
    rw [Pics.requested_raise, h src d heq, Bool.or_true]

theorem Asks.devices {x y : Sys} (h : Asks x) (hrun : Relation.ReflTransGen DeviceStep x y) :
    Asks y := by
  induction hrun with
  | refl => exact h
  | tail _ hstep ih => exact ih.device hstep

theorem Asks.ackLoop {n : Nat} {x y : Sys} (h : Asks x) (hloop : AckLoop n x y) : Asks y := by
  induction hloop with
  | timeout x => exact h
  | device hstep _ ih => exact ih (h.device hstep)
  | empty _ _ ih => exact ih h
  | other src d hout hd _ ih => exact ih (asks_none rfl)
  | ack src hout => exact asks_none rfl

theorem Asks.mouseAck {x y : Sys} (h : Asks x) (hack : MouseAck x y) : Asks y := by
  cases hack with
  | read src d hout => exact asks_none rfl
  | silent hout => exact h

/-- One look into the buffer is enough, whatever the firmware left in it. -/
theorem AckLoop.asks {n : Nat} {x y : Sys} (h : AckLoop n x y) (hn : n ≠ 0) : Asks y := by
  induction h with
  | timeout x => exact absurd rfl hn
  | device _ _ ih => exact ih hn
  | empty hout rest _ => exact (asks_none hout).ackLoop rest
  | other src d hout hd rest _ => exact Asks.ackLoop (asks_none rfl) rest
  | ack src hout => exact asks_none rfl

/-! ### Every run -/

section Runs

variable {font : Font} {b : StartUp} {w x y : Sys}

/-- What holds from `sti` on, with the bytes since `x0`. -/
structure Live (font : Font) (b : StartUp) (x : Sys) : Prop where
  awake : Awake x
  fed : ∃ x0 : Sys, x0.kfifo = Fifo.zero ∧ x0.m = MP.zero ∧ Fed x0 x
  gui : x.torn = false → Reachable font b x.gui

theorem Live.step (h : Live font b x) (hstep : Step font x y) : Live font b y := by
  obtain ⟨x0, hfifo, hm, f⟩ := h.fed
  exact ⟨h.awake.step hstep, ⟨x0, hfifo, hm, f.step h.awake hstep⟩, Reachable.sysStep h.gui hstep⟩

theorem fed_sti (x : Sys) : Fed x.sti x.sti where
  bytes src := by cases src <;> rfl
  decoder := rfl
  ring := ⟨[], rfl, rfl⟩

theorem Asks.awake_sti (h : Asks x) (hprog : x.pics.Programmed) (hidle : x.pics.Idle) :
    Awake x.sti where
  programmed := hprog
  service := ⟨fun i => hidle.1 i, fun i => hidle.2 i⟩
  pending src d heq := .inl (h src d heq)
  found src hf := by cases src <;> exact hf.elim

/-- Handlers and devices between `sti` and `io_cli`. -/
theorem outside_run {x0 : Sys} (h : Awake x) (f : Fed x0 x)
    (hrun : Relation.ReflTransGen (Outside font) x y) : Awake y ∧ Fed x0 y := by
  induction hrun with
  | refl => exact ⟨h, f⟩
  | tail _ hout ih =>
    have hstep : Step font _ _ := hout.imp_right .inr
    exact ⟨ih.1.step hstep, ih.2.step ih.1 hstep⟩

theorem Started.live (h : Started font b w) : Live font b w := by
  cases h with
  | mk x x1 x2 x3 x4 x5 z g iflag hsetup hkeyboard hwait hmouse hrest hquiet hcpu hgui hready =>
    obtain ⟨hprog, hidle, -⟩ := Pics.picInit_programmed x.pics
    have hsame : SameCode x.atInit x5 := (SameCode.setup hsetup).trans <|
      (SameCode.ackLoop hkeyboard).trans <| (SameCode.devices hwait).trans <|
        (SameCode.mouseAck hmouse).trans <| SameCode.devices hrest
    have hasks : Asks x5 :=
      (((hkeyboard.asks (by decide)).devices hwait).mouseAck hmouse).devices hrest
    obtain ⟨ha, f⟩ := outside_run (hasks.awake_sti (hsame.programmed hprog) (hsame.idle hidle))
      (fed_sti x5) hquiet
    -- `io_cli` is a step of the main code
    have hoff : Step font z { z with cpu := .main false } := .inr (.inl (.flag iflag false hcpu))
    have ha' := ha.step hoff
    have f' := f.step ha hoff
    subst hready
    refine ⟨⟨ha'.programmed, ha'.service, ha'.pending, ha'.found⟩,
      ⟨x5.sti, hsame.kfifo, hsame.m, f'.same rfl rfl rfl rfl rfl rfl⟩, fun hwhole => ?_⟩
    exact .start (hgui (not_not.mp (of_decide_eq_false hwhole)))

theorem Live.run (h : Live font b w) (hrun : Relation.ReflTransGen (Step font) w x) :
    Live font b x := by
  induction hrun with
  | refl => exact h
  | tail _ hstep ih => exact ih.step hstep

def firmwarePics : Pics :=
  ⟨⟨fun _ => false, fun _ => false, 0xB8, 0x08, 0⟩, ⟨fun _ => false, fun _ => false, 0x8F, 0x70, 0⟩⟩

/-- What a firmware leaves: other vectors, and a byte that nobody has read. -/
def fromFirmware (g : Gui) : Sys where
  pics := firmwarePics
  out := some (.mouse, 0x08)
  cpu := .main false
  ticks := 0
  kfifo := Fifo.zero
  gui := g
  m := MP.zero
  sent := []
  keys := []
  moves := []
  torn := false

/-- `fromFirmware` at the main loop: that byte was read and lost, then the keyboard acknowledged. -/
def afterInit (g : Gui) : Sys :=
  { fromFirmware g with pics := firmwarePics.picInit.raise 1, out := none }

theorem started_afterInit {font : Font} {b : StartUp} {g : Gui} (hg : startUp font b = some g) :
    Started font b (afterInit g) := by
  have hack : AckLoop 200000 (fromFirmware g).atInit _ :=
    .other .mouse 0x08 rfl (by decide) (.device (.fill .keyboard 0xFA rfl) (.ack .keyboard rfl))
  exact .mk (fromFirmware g) _ _ _ _ _ _ g true .refl hack .refl (.silent rfl) .refl .refl rfl
    (fun _ => hg) rfl

/-- A key is pressed, and not read yet. -/
def keyDown (g : Gui) : Sys :=
  { afterInit g with
    pics := (afterInit g).pics.raise 1
    out := some (.keyboard, 0x1E)
    sent := [(.keyboard, 0x1E)] }

theorem keyDown_run {font : Font} (g : Gui) :
    Relation.ReflTransGen (Step font) (afterInit g) (keyDown g) :=
  .single (.inl (.fill .keyboard 0x1E rfl))

end Runs

/-! ### No byte waits for ever -/

/-- The steps that the handler still needs. -/
def left : At → Nat
  | .handler .timer => 2
  | .handler .key0 => 4
  | .handler .key1 => 3
  | .handler (.key2 _) => 2
  | .handler .mouse0 => 5
  | .handler .mouse1 => 4
  | .handler .mouse2 => 3
  | .handler (.mouse3 _) => 2
  | .handler .leave => 1
  | .main _ => 0

/-- The steps for the requests, each with its way into the handler. -/
def asked (p : Pics) : Nat :=
  (if p.requested 0 then 3 else 0) + (if p.requested 1 then 5 else 0) +
    (if p.requested 12 then 6 else 0)

/-- `n` steps of the processor and `k` of the devices; the main code waits. -/
inductive Busy (font : Font) : Nat → Nat → Sys → Sys → Prop where
  | start (x : Sys) : Busy font 0 0 x x
  | device {n k : Nat} {x y z : Sys} (run : Busy font n k x y) (h : DeviceStep y z) :
      Busy font n (k + 1) x z
  | cpu {n k : Nat} {x y z : Sys} (run : Busy font n k x y) (h : CpuStep font y z) :
      Busy font (n + 1) k x z

section Work

variable {font : Font} {b : StartUp} {w x y : Sys}

theorem left_le (cpu : At) : left cpu ≤ 5 := by
  cases cpu with
  | main iflag => exact Nat.zero_le _
  | handler pc => cases pc <;> simp [left]

theorem asked_le (p : Pics) : asked p ≤ 14 := by
  have h0 : (if p.requested 0 then 3 else 0) ≤ 3 := by split <;> decide
  have h1 : (if p.requested 1 then 5 else 0) ≤ 5 := by split <;> decide
  have h12 : (if p.requested 12 then 6 else 0) ≤ 6 := by split <;> decide
  unfold asked
  omega

theorem asked_raise (p : Pics) (irq : Nat) : asked (p.raise irq) ≤ asked p + 6 := by
  unfold asked
  simp only [Pics.requested_raise, Bool.or_eq_true, decide_eq_true_eq]
  by_cases h0 : 0 = irq
  · subst h0
    simp
    omega
  by_cases h1 : 1 = irq
  · subst h1
    simp
    omega
  by_cases h12 : 12 = irq
  · subst h12
    simp
  · simp [h0, h1, h12]

theorem asked_congr {p q : Pics} (h : ∀ irq, q.requested irq = p.requested irq) :
    asked q = asked p := by
  unfold asked
  rw [h, h, h]

theorem device_work (h : DeviceStep x y) : left y.cpu + asked y.pics ≤
    left x.cpu + asked x.pics + 6 := by
  cases h with
  | fill src d hout => exact Nat.add_le_add_left (asked_raise _ _) _
  | raise irq hirq => exact Nat.add_le_add_left (asked_raise _ _) _

/-- A handler changes no request, and each of its steps brings it nearer to the end. -/
theorem advance_work (x : Sys) (s d : Byte) (pc : Pc) :
    (∀ irq, (x.advance font s d pc).pics.requested irq = x.pics.requested irq) ∧
      left (.handler pc) = left (x.advance font s d pc).cpu + 1 := by
  cases pc with
  | key2 t =>
    simp only [advance]
    split
    · exact ⟨fun _ => rfl, rfl⟩
    · exact ⟨fun _ => rfl, rfl⟩
  | mouse3 t =>
    simp only [advance]
    split
    · exact ⟨fun _ => rfl, rfl⟩
    · exact ⟨fun _ => rfl, rfl⟩
  | _ => exact ⟨fun _ => rfl, rfl⟩

theorem cpu_work (h : Awake x) (hstep : CpuStep font x y) :
    left x.cpu + asked x.pics = left y.cpu + asked y.pics + 1 := by
  cases hstep with
  | accept irq hcpu hline =>
    obtain ⟨hreq, hirq⟩ := h.accepted hcpu hline
    unfold asked
    simp only [hcpu, Pics.requested_take]
    rcases hirq with ⟨rfl, hentry⟩ | ⟨rfl, hentry⟩ | ⟨rfl, hentry⟩
    · rw [hentry, hreq]
      simp [left]
      omega
    · rw [hentry, hreq]
      simp [left]
      omega
    · rw [hentry, hreq]
      simp [left]
      omega
  | handler pc s d hcpu hs hd =>
    obtain ⟨hreq, hleft⟩ := @advance_work font x s d pc
    rw [hcpu, hleft, asked_congr hreq]
    omega

theorem Busy.run {n k : Nat} (h : Live font b x) (hrun : Busy font n k x y) :
    Live font b y ∧ left y.cpu + asked y.pics + n ≤ left x.cpu + asked x.pics + 6 * k := by
  induction hrun with
  | start x => exact ⟨h, Nat.le_refl _⟩
  | device _ hstep ih =>
    obtain ⟨hlive, hle⟩ := ih h
    have := device_work hstep
    exact ⟨hlive.step (.inl hstep), by omega⟩
  | cpu _ hstep ih =>
    obtain ⟨hlive, hle⟩ := ih h
    have := cpu_work hlive.awake hstep
    exact ⟨hlive.step (.inr (.inr hstep)), by omega⟩

/-- The ports always answer. -/
theorem status_exists (out : Option (Source × Byte)) : ∃ s d, Status out s ∧ Data out d := by
  rcases out with _ | ⟨src, e⟩
  · refine ⟨0, 0, ⟨by simp, fun _ h => ?_, fun _ h => ?_⟩, fun _ _ h => ?_⟩
    · cases h
    · cases h
    · cases h
  · have hdata : Data (some (src, e)) e := fun _ _ h => (Prod.mk.inj (Option.some.inj h)).2
    cases src with
    | keyboard =>
      refine ⟨0x01, e, ⟨by simp, fun _ _ => by decide, fun _ h => ?_⟩, hdata⟩
      cases h
    | mouse =>
      refine ⟨0x21, e, ⟨by simp, fun _ h => ?_, fun _ _ => by decide⟩, hdata⟩
      cases h

/-- The processor stops only in the main code: with interrupts off, or without a request. -/
theorem stopped (h : Awake x) (hstop : ∀ y, ¬ CpuStep font x y) :
    x.cpu = .main false ∨ x.cpu = .main true ∧ x.out = none := by
  rcases hcpu : x.cpu with iflag | pc
  · cases iflag with
    | false => exact .inl rfl
    | true =>
      refine .inr ⟨rfl, ?_⟩
      have hnone : x.pics.line = none := by
        rcases hline : x.pics.line with _ | irq
        · rfl
        · exact absurd (.accept irq hcpu hline) (hstop _)
      rw [Pics.line_idle h.programmed (h.idle hcpu)] at hnone
      have hquiet : ∀ src : Source, x.pics.requested src.irq = false := by
        intro src
        split at hnone
        · cases hnone
        split at hnone
        · cases hnone
        split at hnone
        · cases hnone
        · rename_i _ h1 h12
          cases src with
          | keyboard => exact Bool.eq_false_iff.mpr h1
          | mouse => exact Bool.eq_false_iff.mpr h12
      rcases hout : x.out with _ | ⟨src, d⟩
      · rfl
      · have hwait := h.pending src d hout
        rw [hquiet, hcpu] at hwait
        cases src <;> simp [At.willRead, At.found] at hwait
  · obtain ⟨s, d, hs, hd⟩ := status_exists x.out
    exact absurd (.handler pc s d hcpu hs hd) (hstop _)

/-- Each interrupt that comes has its handler. Unless the main code holds interrupts off, handlers
end, after at most 19 steps and 6 more for every step of a device, and then all that was sent has
been read. -/
theorem Started.answers (h : Started font b w) (hrun : Relation.ReflTransGen (Step font) w x)
    {n k : Nat} (hbusy : Busy font n k x y) :
    n ≤ 19 + 6 * k ∧
      (∀ irq, y.cpu = .main true → y.pics.line = some irq →
        gateOf (y.pics.vector irq) ≠ .isr_default) ∧
      ((∀ z, ¬ CpuStep font y z) → y.cpu = .main false ∨
        y.cpu = .main true ∧ ∀ src : Source, src.bytes y.sent = y.read src) := by
  obtain ⟨hlive, hwork⟩ := hbusy.run (h.live.run hrun)
  refine ⟨?_, fun irq hcpu hline hdefault => ?_, fun hstop => ?_⟩
  · have := left_le x.cpu
    have := asked_le x.pics
    omega
  · have hentry := (hlive.awake.accepted hcpu hline).2
    rw [hdefault] at hentry
    rcases hentry with ⟨-, h⟩ | ⟨-, h⟩ | ⟨-, h⟩
    · cases h
    · cases h
    · cases h
  · refine (stopped hlive.awake hstop).imp_right fun ⟨hcpu, hout⟩ => ⟨hcpu, fun src => ?_⟩
    obtain ⟨x0, -, -, f⟩ := hlive.fed
    have hbytes := f.bytes src
    rw [hout] at hbytes
    exact hbytes.trans (List.append_nil _)

/-- The same key goes to `fp` in five steps, and the processor is back in the main code. -/
theorem answers_keyDown : ∃ g y, Started (fun _ _ => 0) blankStart (afterInit g) ∧
    Busy (fun _ _ => 0) 5 0 { keyDown g with cpu := .main true } y ∧ y.cpu = .main true ∧
    y.keys = [0x1E] ∧ ∀ irq, y.cpu = .main true → y.pics.line = some irq →
      gateOf (y.pics.vector irq) ≠ .isr_default := by
  obtain ⟨g, hg, -⟩ := startUp_inv (fun _ _ => 0) blankStart
  have hw := started_afterInit hg
  have hrun := (@keyDown_run (fun _ _ => 0) g).tail (.inr (.inl (.flag false true rfl)))
  have hdata : Data (keyDown g).out 0x1E := fun _ _ h => (Prod.mk.inj (Option.some.inj h)).2
  have hstatus : Status (keyDown g).out 0x01 := by
    refine ⟨by simp [keyDown], fun _ _ => by decide, fun _ h => ?_⟩
    cases h
  have hline : ((firmwarePics.picInit.raise 1).raise 1).line = some 1 := by decide
  have h1 : Busy (fun _ _ => 0) 1 0 { keyDown g with cpu := .main true } _ :=
    .cpu (.start _) (.accept 1 rfl hline)
  have h2 := h1.cpu (.handler .key0 0x01 0x1E rfl hstatus hdata)
  have h3 := h2.cpu (.handler .key1 0x01 0x1E rfl hstatus hdata)
  have h4 := h3.cpu (.handler (.key2 0x01) 0x01 0x1E rfl hstatus hdata)
  obtain ⟨s, d, hs, hd⟩ := status_exists none
  have h5 := h4.cpu (.handler .leave s d rfl hs hd)
  obtain ⟨-, hgate, -⟩ := hw.answers hrun h5
  exact ⟨g, _, hw, h5, rfl, rfl, hgate⟩

end Work

end Sys

end WinDOS
