import WinDOS.Lib.Polling
import WinDOS.Lib.Trace
import WinDOS.Fs.NvmeWire
import WinDOS.Desk.Page

/-!
# How the NVMe controller is found and started (`nvme_find`, `nvme_init`)

The controller's registers answer as they like: an answer may depend on every access before it.
What the driver does is the log of its accesses.
-/

set_option autoImplicit false

namespace WinDOS

namespace Nvme

open Polling Trace PagePool

/-! ### The PCI configuration space -/

/-- The dwords of the configuration space, by bus, device, function and register. -/
abbrev PciSpace := Nat → Nat → Nat → Nat → Nat

/-- The dword at 0xCFC for the address at 0xCF8, as the host bridge decodes it. -/
def PciSpace.port (s : PciSpace) (addr : Nat) : Nat :=
  s (addr / 2 ^ 16 % 2 ^ 8) (addr / 2 ^ 11 % 2 ^ 5) (addr / 2 ^ 8 % 2 ^ 3) (addr % 2 ^ 8 / 4 * 4)

def pciRead (s : PciSpace) (bus dev fn reg : Nat) : Nat :=
  s.port (0x80000000 ||| bus <<< 16 ||| dev <<< 11 ||| fn <<< 8 ||| (reg &&& 0xFC))

/-- The body of the loops of `nvme_find`: the base address, when it is an NVMe controller. -/
def probe (s : PciSpace) (bus dev : Nat) : Option Nat :=
  let vid := pciRead s bus dev 0 0 &&& 0xFFFF
  if vid = 0xFFFF ∨ vid = 0 then none
  else
    let cls := pciRead s bus dev 0 8
    let baseCls := cls >>> 24 &&& 0xFF
    let subCls := cls >>> 16 &&& 0xFF
    if (baseCls = 0x01 ∧ subCls = 0x08) ∨ vid = 0x1B36 then
      let bar0 := pciRead s bus dev 0 0x10
      let bar1 := pciRead s bus dev 0 0x14
      let bar := bar0 &&& 0xFFFFFFF0
      -- a BAR of 64 bits, or the vendor that has one without saying so
      some (if bar0 &&& 0x6 = 0x4 ∨ vid = 0x1B36 then bar ||| bar1 <<< 32 else bar)
    else none

/-- Four buses of 32 devices. -/
def nvmeFind (s : PciSpace) : Nat :=
  ((List.range 4).findSome? fun bus => (List.range 32).findSome? fun dev => probe s bus dev).getD 0

/-! ### The registers -/

def NVME_CC : Nat := 0x14
def NVME_CSTS : Nat := 0x1C
def NVME_AQA : Nat := 0x24
def NVME_ASQ : Nat := 0x28
def NVME_ACQ : Nat := 0x30

/-- An access to a register of the controller. -/
inductive Mmio where
  | read (off v : Nat)
  | write (off v : Nat)
  deriving DecidableEq

/-- What a register reads after the accesses so far. -/
abbrev Controller := List Mmio → Nat → Nat

/-- A 64-bit register takes two writes. -/
def nvmeWrite64 (off v : Nat) : List Mmio :=
  [.write off (v % 2 ^ 32), .write (off + 4) (v >>> 32 % 2 ^ 32)]

/-- Steps 3 to 6 of `nvme_init`: the registers cleared, the queues set, the controller enabled. -/
def setup (asq acq : Nat) : List Mmio :=
  [.write NVME_AQA 0] ++ nvmeWrite64 NVME_ASQ 0 ++ nvmeWrite64 NVME_ACQ 0 ++
    [.write NVME_AQA (NVME_ADMIN_QD ||| NVME_ADMIN_QD <<< 16)] ++
    nvmeWrite64 NVME_ASQ asq ++ nvmeWrite64 NVME_ACQ acq ++ [.write NVME_CC 0x00460001]

/-- `CSTS.RDY` is clear. -/
def notReady (csts : Nat) : Bool := csts &&& 1 = 0

/-- `CSTS.RDY` or `CSTS.CFS` is set. -/
def decided (csts : Nat) : Bool := csts &&& 1 ≠ 0 ∨ csts &&& 2 ≠ 0

/-- Step 7: what the answer that ended the loop says. -/
def verdict : Option Nat → Int
  | some csts => if csts &&& 1 ≠ 0 then 0 else -3
  | none => -4

/-- Look at CSTS at most `n` times, until an answer stops the loop. -/
def pollCsts (c : Controller) (stop : Nat → Bool) (n : Nat) (log : List Mmio) :
    List Mmio × Option Nat :=
  poll (fun log => c log NVME_CSTS) (.read NVME_CSTS) stop n log

/-- Step 2: a controller that was enabled is disabled. -/
def disable (c : Controller) (log : List Mmio) : List Mmio :=
  let cc := c log NVME_CC
  let log := log ++ [.read NVME_CC cc]
  if cc &&& 1 ≠ 0 then (pollCsts c notReady 1000000 (log ++ [.write NVME_CC 0])).1 else log

/-- Steps 2 to 7, with the queues at `asq` and `acq`. -/
def enable (c : Controller) (asq acq : Nat) (log : List Mmio) : Int × List Mmio :=
  let log := (pollCsts c notReady 100000 (disable c log)).1
  let (log, csts) := pollCsts c decided 2000000 (log ++ setup asq acq)
  (verdict csts, log)

/-- `g_nvme`. -/
structure NVMeDev where
  bar : Nat
  asq : Nat
  acq : Nat
  sqTail : Nat
  cqHead : Nat
  cqPhase : Nat
  cid : Nat
  ready : Bool

/-- What `nvme_init` works on; `mem` are the words of memory by address. -/
structure Host where
  dev : NVMeDev
  pool : PagePool
  mem : Nat → Nat
  log : List Mmio

/-- `asq[i] = 0; acq[i] = 0`, up to `n`. -/
def clearQueues (asq acq : Nat) : Nat → (Nat → Nat) → Nat → Nat
  | 0, mem => mem
  | n + 1, mem =>
    Function.update (Function.update (clearQueues asq acq n mem) (asq + 8 * n) 0) (acq + 8 * n) 0

def Host.nvmeInit (c : Controller) (s : PciSpace) (h : Host) : Int × Host :=
  let bar := nvmeFind s
  let dev := { h.dev with bar := bar }
  if bar = 0 then (-1, { h with dev := dev })
  else
    let (asq, pool) := h.pool.pageAlloc 1
    let (acq, pool) := pool.pageAlloc 1
    if asq = 0 ∨ acq = 0 then (-2, { h with dev := dev, pool := pool })
    else
      let mem := clearQueues asq acq 512 h.mem
      let dev := { dev with
        asq := asq, acq := acq, sqTail := 0, cqHead := 0, cqPhase := 1, cid := 1 }
      let (code, log) := enable c asq acq h.log
      (code, ⟨if code = 0 then { dev with ready := true } else dev, pool, mem, log⟩)

/-! ### The exchange -/

/-- What the controller answers in one start: to the first look at CC, in the two waits for
`RDY` = 0 (the first only if the controller was enabled), and in the wait for `RDY` = 1. -/
structure Replies where
  cc : Nat
  disable : List Nat
  settle : List Nat
  ready : List Nat

namespace Replies

/-- The accesses of step 2. -/
def opening (a : Replies) : List Mmio :=
  .read NVME_CC a.cc :: if a.cc &&& 1 ≠ 0 then
    .write NVME_CC 0 :: a.disable.map (.read NVME_CSTS) else []

/-- The accesses of the exchange. -/
def log (a : Replies) (asq acq : Nat) : List Mmio :=
  a.opening ++ (a.settle.map (.read NVME_CSTS) ++ (setup asq acq ++
    a.ready.map (.read NVME_CSTS)))

/-- The replies are those of one start. -/
structure Possible (a : Replies) : Prop where
  disable : if a.cc &&& 1 ≠ 0 then Answers notReady 1000000 a.disable else a.disable = []
  settle : Answers notReady 100000 a.settle
  ready : Answers decided 2000000 a.ready

/-- What `nvme_init` returns. -/
def code (a : Replies) : Int := verdict (a.ready.find? decided)

end Replies

theorem enable_replies (c : Controller) (asq acq : Nat) (log : List Mmio) :
    ∃ a : Replies, a.Possible ∧ enable c asq acq log = (a.code, log ++ a.log asq acq) := by
  have hdisable : ∃ as, (if c log NVME_CC &&& 1 ≠ 0 then Answers notReady 1000000 as else as = []) ∧
      disable c log = log ++ Replies.opening ⟨c log NVME_CC, as, [], []⟩ := by
    unfold disable Replies.opening
    dsimp only
    by_cases hcc : c log NVME_CC &&& 1 ≠ 0
    · obtain ⟨as, hw, heq⟩ := poll_answers (fun log => c log NVME_CSTS) (.read NVME_CSTS) notReady
        1000000 (log ++ [.read NVME_CC (c log NVME_CC)] ++ [.write NVME_CC 0])
      refine ⟨as, by rwa [if_pos hcc], ?_⟩
      rw [if_pos hcc, if_pos hcc, pollCsts, heq, List.append_assoc, List.append_assoc]
      rfl
    · exact ⟨[], by rw [if_neg hcc], by rw [if_neg hcc, if_neg hcc]⟩
  obtain ⟨first, hfirst, hopening⟩ := hdisable
  obtain ⟨settle, hsettle, heq⟩ := poll_answers (fun log => c log NVME_CSTS) (.read NVME_CSTS)
    notReady 100000 (disable c log)
  obtain ⟨ready, hready, heq'⟩ := poll_answers (fun log => c log NVME_CSTS) (.read NVME_CSTS)
    decided 2000000 (disable c log ++ settle.map (.read NVME_CSTS) ++ setup asq acq)
  refine ⟨⟨c log NVME_CC, first, settle, ready⟩, ⟨hfirst, hsettle, hready⟩, ?_⟩
  unfold enable pollCsts
  rw [heq]
  dsimp only
  rw [heq', hopening]
  simp only [List.append_assoc, Replies.log, Replies.opening, Replies.code]

/-- The controller that gives these replies. -/
def Replies.controller (a : Replies) (before : List Mmio) (asq acq : Nat) : Controller :=
  fun past _ => match (before ++ a.log asq acq)[past.length]? with
    | some (.read _ v) => v
    | _ => 0

theorem controller_reads {a : Replies} {before past later : List Mmio} {asq acq off v : Nat}
    (h : before ++ a.log asq acq = past ++ .read off v :: later) (reg : Nat) :
    a.controller before asq acq past reg = v := by
  unfold Replies.controller
  rw [h, List.getElem?_append_right (Nat.le_refl _), Nat.sub_self]
  rfl

theorem enable_controller {a : Replies} (h : a.Possible) (asq acq : Nat) (log : List Mmio) :
    enable (a.controller log asq acq) asq acq log = (a.code, log ++ a.log asq acq) := by
  have hask : ∀ past v later, log ++ a.log asq acq = past ++ .read NVME_CSTS v :: later →
      a.controller log asq acq past NVME_CSTS = v := fun _ _ _ hscript =>
    controller_reads hscript NVME_CSTS
  have hcc : a.controller log asq acq log NVME_CC = a.cc := controller_reads rfl NVME_CC
  have hopening : disable (a.controller log asq acq) log = log ++ a.opening := by
    have hfirst := h.disable
    unfold disable Replies.opening
    dsimp only
    rw [hcc]
    by_cases hen : a.cc &&& 1 ≠ 0
    · rw [if_pos hen] at hfirst
      have hscript : log ++ a.log asq acq = log ++ [.read NVME_CC a.cc] ++ [.write NVME_CC 0] ++
          (a.disable.map (.read NVME_CSTS) ++
            (a.settle.map (.read NVME_CSTS) ++ (setup asq acq ++ a.ready.map (.read NVME_CSTS)))) := by
        rw [Replies.log, Replies.opening, if_pos hen]
        simp only [List.append_assoc, List.cons_append, List.nil_append]
      rw [if_pos hen, if_pos hen, pollCsts, poll_of_answers hask hfirst hscript, List.append_assoc,
        List.append_assoc]
      rfl
    · rw [if_neg hen, if_neg hen]
  have hsettle : log ++ a.log asq acq = log ++ a.opening ++ (a.settle.map (.read NVME_CSTS) ++
      (setup asq acq ++ a.ready.map (.read NVME_CSTS))) := by
    rw [Replies.log, List.append_assoc]
  have hready : log ++ a.log asq acq = log ++ a.opening ++ a.settle.map (.read NVME_CSTS) ++
      setup asq acq ++ (a.ready.map (.read NVME_CSTS) ++ []) := by
    simp only [Replies.log, List.append_assoc, List.append_nil]
  unfold enable pollCsts
  rw [hopening, poll_of_answers hask h.settle hsettle]
  dsimp only
  rw [poll_of_answers hask h.ready hready]
  simp only [Replies.log, List.append_assoc, Replies.code]

/-! ### What the controller has been told, and when -/

def Mmio.off : Mmio → Nat
  | .read off _ => off
  | .write off _ => off

def Mmio.val : Mmio → Nat
  | .read _ v => v
  | .write _ v => v

/-- A write to one of the registers that place and size the admin queues. -/
def Mmio.setsQueue : Mmio → Prop
  | .read _ _ => False
  | .write off _ => NVME_AQA ≤ off ∧ off ≤ NVME_ACQ + 4

/-- The value of a register at its last access. -/
def track (reg : Nat) (known : Option Nat) (e : Mmio) : Option Nat :=
  if e.off = reg then some e.val else known

def lastKnown (reg : Nat) (log : List Mmio) : Option Nat := log.foldl (track reg) none

/-- Bit 0 of the register was clear at the last access: CC.EN, or CSTS.RDY. -/
def SeenClear (reg : Nat) (past : List Mmio) : Prop :=
  ∃ v, lastKnown reg past = some v ∧ notReady v = true

/-- Queue registers are written only when the bit was seen clear. -/
def QueueSetWhileClear (reg : Nat) : List Mmio → Prop :=
  Always fun past e => e.setsQueue → SeenClear reg past

def bitClear (known : Option Nat) (e : Mmio) : Prop :=
  e.setsQueue → ∃ v, known = some v ∧ notReady v = true

theorem queueSet_iff (reg : Nat) (log : List Mmio) :
    QueueSetWhileClear reg log ↔ Checked (track reg) bitClear none log := by
  change Always (fun past e => bitClear (past.foldl (track reg) none) e) log ↔ _
  exact always_iff_checked

theorem checked_reads (reg r : Nat) (known : Option Nat) (vs : List Nat) :
    Checked (track reg) bitClear known (vs.map (.read r)) := by
  induction vs generalizing known with
  | nil => exact trivial
  | cons v vs ih => exact ⟨fun h => h.elim, ih _⟩

theorem track_reads_ne {reg r : Nat} (h : r ≠ reg) (known : Option Nat) (vs : List Nat) :
    (vs.map (Mmio.read r)).foldl (track reg) known = known := by
  induction vs with
  | nil => rfl
  | cons v vs ih =>
    rw [List.map_cons, List.foldl_cons]
    exact (congrArg (List.foldl _ · _) (if_neg h)).trans ih

theorem track_reads (r : Nat) (known : Option Nat) (vs : List Nat) :
    (vs.map (Mmio.read r)).foldl (track r) known = vs.getLast?.or known := by
  induction vs generalizing known with
  | nil => rfl
  | cons v vs ih =>
    rw [List.map_cons, List.foldl_cons, List.getLast?_cons, Option.some_or]
    refine (congrArg (List.foldl _ · _) (if_pos rfl)).trans ((ih _).trans ?_)
    cases vs.getLast? <;> rfl

/-- The first writes of `setup` place the queues, the last enables the controller. -/
theorem setup_eq (asq acq : Nat) : ∃ ws, ws ≠ [] ∧ (∀ e ∈ ws, e.setsQueue) ∧
    setup asq acq = ws ++ [.write NVME_CC 0x00460001] := by
  refine ⟨_, ?_, ?_, rfl⟩
  · exact List.cons_ne_nil _ _
  · intro e he
    simp only [nvmeWrite64, List.cons_append, List.nil_append, List.mem_cons, List.not_mem_nil,
      or_false] at he
    rcases he with rfl | rfl | rfl | rfl | rfl | rfl | rfl | rfl | rfl | rfl <;>
      exact ⟨by decide, by decide⟩

theorem checked_queueWrites {reg : Nat} (hreg : reg < NVME_AQA) {ws : List Mmio} (hne : ws ≠ [])
    (hws : ∀ e ∈ ws, e.setsQueue) (known : Option Nat) : ws.foldl (track reg) known = known ∧
      (Checked (track reg) bitClear known ws ↔ ∃ v, known = some v ∧ notReady v = true) := by
  have hkeep : ∀ e ∈ ws, track reg known e = known := fun e he => by
    have hq := hws e he
    cases e with
    | read => exact hq.elim
    | write off v =>
      refine if_neg fun h => ?_
      have : off = reg := h
      have := hq.1
      omega
  induction ws with
  | nil => exact absurd rfl hne
  | cons e ws ih =>
    have htrack := hkeep e List.mem_cons_self
    rw [List.foldl_cons, Checked, htrack]
    have hbit : bitClear known e ↔ ∃ v, known = some v ∧ notReady v = true :=
      imp_iff_right (hws e List.mem_cons_self)
    cases ws with
    | nil => exact ⟨rfl, (and_iff_left trivial).trans hbit⟩
    | cons e' ws =>
      obtain ⟨hfold, hiff⟩ := ih (List.cons_ne_nil _ _) (fun d hd => hws d (List.mem_cons_of_mem e hd))
        fun d hd => hkeep d (List.mem_cons_of_mem e hd)
      rw [hiff, hbit, and_self_iff]
      exact ⟨hfold, Iff.rfl⟩

theorem checked_setup {reg : Nat} (hreg : reg < NVME_AQA) (asq acq : Nat) (known : Option Nat) :
    Checked (track reg) bitClear known (setup asq acq) ↔ ∃ v, known = some v ∧ notReady v = true := by
  obtain ⟨ws, hne, hws, heq⟩ := setup_eq asq acq
  obtain ⟨-, hiff⟩ := checked_queueWrites hreg hne hws known
  have hlast : ¬ (Mmio.write NVME_CC 0x00460001).setsQueue := fun h => absurd h.1 (by decide)
  rw [heq, checked_append, hiff]
  exact and_iff_left ⟨fun h => (hlast h).elim, trivial⟩

theorem Replies.checked_log {reg : Nat} (hreg : reg < NVME_AQA) (a : Replies) (asq acq : Nat) :
    Checked (track reg) bitClear none (a.log asq acq) ↔
      ∃ v, (a.settle.map (.read NVME_CSTS)).foldl (track reg) (lastKnown reg a.opening) = some v ∧
        notReady v = true := by
  have hopening : ∀ known, Checked (track reg) bitClear known a.opening := by
    intro known
    unfold opening
    refine ⟨fun h => h.elim, ?_⟩
    split
    · exact ⟨fun h => absurd h.1 (by decide), checked_reads _ _ _ _⟩
    · exact trivial
  rw [log, checked_append, and_iff_right (hopening _), checked_append,
    and_iff_right (checked_reads _ _ _ _), checked_append, and_iff_left (checked_reads _ _ _ _),
    checked_setup hreg]
  rfl

/-- Every start sets the queues while the controller is disabled; it sets them while `RDY` is
clear exactly if the second wait has seen that. -/
theorem Replies.queue_set {a : Replies} (h : a.Possible) (asq acq : Nat) :
    QueueSetWhileClear NVME_CC (a.log asq acq) ∧
      (QueueSetWhileClear NVME_CSTS (a.log asq acq) ↔ ∃ v ∈ a.settle, notReady v = true) := by
  rw [queueSet_iff, queueSet_iff, a.checked_log (by decide), a.checked_log (by decide),
    track_reads_ne (by decide), track_reads]
  constructor
  · unfold opening lastKnown
    rw [List.foldl_cons]
    by_cases hen : a.cc &&& 1 ≠ 0
    · rw [if_pos hen, List.foldl_cons, track_reads_ne (by decide)]
      exact ⟨0, rfl, rfl⟩
    · rw [if_neg hen]
      exact ⟨a.cc, rfl, decide_eq_true (not_not.mp hen)⟩
  · obtain ⟨v, hlast, hiff⟩ := h.settle.last_stops
    rw [hlast, Option.some_or, ← hiff]
    exact ⟨fun ⟨w, hw, hs⟩ => Option.some.inj hw ▸ hs, fun hs => ⟨v, rfl, hs⟩⟩

/-! ### What the driver leaves in the registers -/

/-- The last value written to a register. -/
def written (reg : Nat) (log : List Mmio) : Option Nat :=
  log.foldl (fun known e => match e with
    | .read _ _ => known
    | .write off v => if off = reg then some v else known) none

/-- A 64-bit register holds the value, in two halves. -/
def Holds64 (off v : Nat) (log : List Mmio) : Prop :=
  ∃ lo hi, written off log = some lo ∧ written (off + 4) log = some hi ∧ v = lo + hi * 2 ^ 32

/-- The registers of a controller that has two admin queues of 64 entries and is enabled. -/
structure QueuesSet (asq acq : Nat) (log : List Mmio) : Prop where
  size : written NVME_AQA log = some (63 + 63 * 2 ^ 16)
  asq : Holds64 NVME_ASQ asq log
  acq : Holds64 NVME_ACQ acq log
  enabled : written NVME_CC log = some 0x00460001

theorem written_reads (reg r : Nat) (log : List Mmio) (vs : List Nat) :
    written reg (log ++ vs.map (.read r)) = written reg log := by
  induction vs using List.reverseRecOn with
  | nil => rw [List.map_nil, List.append_nil]
  | append_singleton vs v ih =>
    rw [List.map_append, ← List.append_assoc, written, List.foldl_append]
    exact ih

theorem halves {v : Nat} (h : v < 2 ^ 64) : v = v % 2 ^ 32 + (v >>> 32 % 2 ^ 32) * 2 ^ 32 := by
  rw [Nat.shiftRight_eq_div_pow]
  omega

theorem Replies.queuesSet (a : Replies) {asq acq : Nat} (hasq : asq < 2 ^ 64) (hacq : acq < 2 ^ 64) :
    QueuesSet asq acq (a.log asq acq) := by
  have hlog : a.log asq acq = (a.opening ++ a.settle.map (.read NVME_CSTS) ++ setup asq acq) ++
      a.ready.map (.read NVME_CSTS) := by
    simp only [log, List.append_assoc]
  rw [hlog]
  constructor
  · rw [written_reads, written, List.foldl_append]
    rfl
  · refine ⟨_, _, ?_, ?_, halves hasq⟩
    · rw [written_reads, written, List.foldl_append]
      rfl
    · rw [written_reads, written, List.foldl_append]
      rfl
  · refine ⟨_, _, ?_, ?_, halves hacq⟩
    · rw [written_reads, written, List.foldl_append]
      rfl
    · rw [written_reads, written, List.foldl_append]
      rfl
  · rw [written_reads, written, List.foldl_append]
    rfl

/-- What the end of the last wait says. -/
theorem Replies.outcome {a : Replies} (h : a.Possible) :
    (a.code = 0 ↔ ∃ v, a.ready.getLast? = some v ∧ v &&& 1 ≠ 0) ∧
    (a.code = -3 ↔ ∃ v, a.ready.getLast? = some v ∧ v &&& 1 = 0 ∧ v &&& 2 ≠ 0) ∧
    (a.code = -4 ↔ a.ready.length = 2000000 ∧ ∀ v ∈ a.ready, v &&& 1 = 0 ∧ v &&& 2 = 0) := by
  unfold code
  cases hfind : a.ready.find? decided with
  | none =>
    have hno : ∀ v ∈ a.ready, v &&& 1 = 0 ∧ v &&& 2 = 0 := fun v hv => by
      have hundecided := List.find?_eq_none.mp hfind v hv
      rw [decided, decide_eq_true_eq, not_or, not_not, not_not] at hundecided
      exact hundecided
    refine ⟨iff_of_false (by decide) ?_, iff_of_false (by decide) ?_,
      iff_of_true rfl ⟨h.ready.find_eq_none hfind, hno⟩⟩
    · rintro ⟨v, hlast, hready⟩
      exact hready (hno v (List.mem_of_getLast? hlast)).1
    · rintro ⟨v, hlast, -, hfatal⟩
      exact hfatal (hno v (List.mem_of_getLast? hlast)).2
  | some v =>
    have hdec := List.find?_some hfind
    have hsome : ∀ w, a.ready.getLast? = some w ↔ v = w := fun w => by
      rw [h.ready.find_eq_some hfind, Option.some_inj]
    have hmem := List.mem_of_find?_eq_some hfind
    rw [decided, decide_eq_true_eq] at hdec
    unfold verdict
    dsimp only
    simp only [hsome, exists_eq_left']
    by_cases hready : v &&& 1 ≠ 0
    · rw [if_pos hready]
      exact ⟨iff_of_true rfl hready, iff_of_false (by decide) fun h0 => hready h0.1,
        iff_of_false (by decide) fun h0 => hready (h0.2 v hmem).1⟩
    · rw [if_neg hready]
      exact ⟨iff_of_false (by decide) hready,
        iff_of_true rfl ⟨not_not.mp hready, hdec.resolve_left hready⟩,
        iff_of_false (by decide) fun h0 => hdec.resolve_left hready (h0.2 v hmem).2⟩

/-! ### The search -/

/-- The address of a register names its device and register. -/
theorem pciRead_eq (s : PciSpace) {bus dev reg : Nat} (hbus : bus < 2 ^ 8) (hdev : dev < 2 ^ 5)
    (hreg : reg < 2 ^ 8) (halign : reg % 4 = 0) : pciRead s bus dev 0 reg = s bus dev 0 reg := by
  have hmask : reg &&& 0xFC = reg := by
    have hall : ∀ r < 2 ^ 8, r % 4 = 0 → r &&& 0xFC = r := by decide +kernel
    exact hall reg hreg halign
  have henable : 0x8000 ||| bus = 0x8000 + bus := (Nat.two_pow_add_eq_or_of_lt
    (show bus < 2 ^ 15 by omega) 1).symm
  have haddr : 0x80000000 ||| bus <<< 16 ||| dev <<< 11 ||| 0 <<< 8 ||| (reg &&& 0xFC) =
      ((0x8000 + bus) * 2 ^ 5 + dev) * 2 ^ 11 + reg := by
    rw [show 0x80000000 = 0x8000 <<< 16 by decide, ← Nat.shiftLeft_or_distrib, henable,
      Nat.zero_shiftLeft, Nat.or_zero, ← Nat.shiftLeft_add_eq_or_of_lt, hmask]
    · rw [show (0x8000 + bus) <<< 16 + dev <<< 11 = ((0x8000 + bus) * 2 ^ 5 + dev) <<< 11 by
        rw [Nat.shiftLeft_eq, Nat.shiftLeft_eq, Nat.shiftLeft_eq]; omega,
        ← Nat.shiftLeft_add_eq_or_of_lt (show reg < 2 ^ 11 by omega), Nat.shiftLeft_eq]
    · rw [Nat.shiftLeft_eq]
      omega
  unfold pciRead PciSpace.port
  rw [haddr, show (((0x8000 + bus) * 2 ^ 5 + dev) * 2 ^ 11 + reg) / 2 ^ 16 % 2 ^ 8 = bus by omega,
    show (((0x8000 + bus) * 2 ^ 5 + dev) * 2 ^ 11 + reg) / 2 ^ 11 % 2 ^ 5 = dev by omega,
    show (((0x8000 + bus) * 2 ^ 5 + dev) * 2 ^ 11 + reg) / 2 ^ 8 % 2 ^ 3 = 0 by omega,
    show (((0x8000 + bus) * 2 ^ 5 + dev) * 2 ^ 11 + reg) % 2 ^ 8 / 4 * 4 = reg by omega]

/-- The vendor of a device, all ones where there is none. -/
def PciSpace.vendor (s : PciSpace) (bus dev : Nat) : Nat := s bus dev 0 0 % 2 ^ 16

/-- Class and subclass. -/
def PciSpace.devClass (s : PciSpace) (bus dev : Nat) : Nat := s bus dev 0 8 / 2 ^ 16 % 2 ^ 16

/-- A device that the driver takes for an NVMe controller: mass storage, non-volatile memory, or
the vendor of the emulated one. -/
def PciSpace.IsNvme (s : PciSpace) (bus dev : Nat) : Prop :=
  s.vendor bus dev ≠ 0xFFFF ∧ s.vendor bus dev ≠ 0 ∧
    (s.devClass bus dev = 0x0108 ∨ s.vendor bus dev = 0x1B36)

/-- The base address, of 64 bits when the BAR says so or for that vendor. -/
def PciSpace.base (s : PciSpace) (bus dev : Nat) : Nat :=
  s bus dev 0 0x10 % 2 ^ 32 / 16 * 16 +
    if s bus dev 0 0x10 / 2 % 4 = 2 ∨ s.vendor bus dev = 0x1B36 then s bus dev 0 0x14 * 2 ^ 32
    else 0

theorem and_high (x m k : Nat) : x &&& m <<< k = (x >>> k &&& m) <<< k := by
  refine Nat.eq_of_testBit_eq fun i => ?_
  rw [Nat.testBit_and, Nat.testBit_shiftLeft, Nat.testBit_shiftLeft, Nat.testBit_and,
    Nat.testBit_shiftRight]
  by_cases hi : k ≤ i
  · rw [Nat.add_sub_cancel' hi]
    simp [hi]
  · simp [hi]

theorem bar_low (x : Nat) : x &&& 0xFFFFFFF0 = x % 2 ^ 32 / 16 * 16 := by
  rw [show 0xFFFFFFF0 = (2 ^ 28 - 1) <<< 4 by decide, and_high, Nat.and_two_pow_sub_one_eq_mod,
    Nat.shiftLeft_eq, Nat.shiftRight_eq_div_pow]
  omega

theorem bar_type (x : Nat) : x &&& 0x6 = 0x4 ↔ x / 2 % 4 = 2 := by
  rw [show 0x6 = (2 ^ 2 - 1) <<< 1 by decide, and_high, Nat.and_two_pow_sub_one_eq_mod,
    Nat.shiftLeft_eq, Nat.shiftRight_eq_div_pow]
  omega

theorem bar_wide (x hi : Nat) : x &&& 0xFFFFFFF0 ||| hi <<< 32 =
    x % 2 ^ 32 / 16 * 16 + hi * 2 ^ 32 := by
  rw [bar_low, Nat.or_comm, ← Nat.shiftLeft_add_eq_or_of_lt (by omega), Nat.shiftLeft_eq,
    Nat.add_comm]

/-- A probe finds the controllers and nothing else. -/
theorem probe_eq (s : PciSpace) {bus dev : Nat} (hbus : bus < 4) (hdev : dev < 32) :
    (s.IsNvme bus dev ∧ probe s bus dev = some (s.base bus dev)) ∨
      ¬ s.IsNvme bus dev ∧ probe s bus dev = none := by
  have hread : ∀ reg < 2 ^ 8, reg % 4 = 0 → pciRead s bus dev 0 reg = s bus dev 0 reg :=
    fun reg hreg halign => pciRead_eq s (by omega) hdev hreg halign
  have hvendor : s bus dev 0 0 &&& 0xFFFF = s.vendor bus dev :=
    Nat.and_two_pow_sub_one_eq_mod (s bus dev 0 0) 16
  have hclass : s bus dev 0 8 >>> 24 &&& 0xFF = 0x01 ∧ s bus dev 0 8 >>> 16 &&& 0xFF = 0x08 ↔
      s.devClass bus dev = 0x0108 := by
    rw [Nat.and_two_pow_sub_one_eq_mod _ 8, Nat.and_two_pow_sub_one_eq_mod _ 8,
      Nat.shiftRight_eq_div_pow, Nat.shiftRight_eq_div_pow]
    unfold PciSpace.devClass
    omega
  unfold probe
  rw [hread 0 (by decide) rfl, hread 8 (by decide) rfl, hread 0x10 (by decide) rfl,
    hread 0x14 (by decide) rfl]
  dsimp only
  simp only [hvendor, hclass, bar_type, bar_wide]
  rw [bar_low]
  unfold PciSpace.IsNvme
  by_cases habsent : s.vendor bus dev = 0xFFFF ∨ s.vendor bus dev = 0
  · rw [if_pos habsent]
    exact .inr ⟨fun h => habsent.elim h.1 h.2.1, rfl⟩
  · rw [if_neg habsent]
    obtain ⟨hff, hzero⟩ := not_or.mp habsent
    by_cases hnvme : s.devClass bus dev = 0x0108 ∨ s.vendor bus dev = 0x1B36
    · rw [if_pos hnvme]
      refine .inl ⟨⟨hff, hzero, hnvme⟩, congrArg some ?_⟩
      unfold PciSpace.base
      split <;> rfl
    · rw [if_neg hnvme]
      exact .inr ⟨fun h => hnvme h.2.2, rfl⟩

theorem findSome_range {α : Type} {f : Nat → Option α} {n : Nat} {v : α}
    (h : (List.range n).findSome? f = some v) : ∃ i < n, f i = some v ∧ ∀ j < i, f j = none := by
  induction n with
  | zero => exact absurd h (by simp)
  | succ n ih =>
    rw [List.range_succ, List.findSome?_append] at h
    cases hlow : (List.range n).findSome? f with
    | some w =>
      rw [hlow, Option.some_or] at h
      obtain ⟨i, hi, hv, hnone⟩ := ih (hlow.trans h)
      exact ⟨i, Nat.lt_succ_of_lt hi, hv, hnone⟩
    | none =>
      rw [hlow, Option.none_or, List.findSome?_singleton] at h
      refine ⟨n, Nat.lt_succ_self n, h, fun j hj => ?_⟩
      exact List.findSome?_eq_none_iff.mp hlow j (List.mem_range.mpr hj)

/-- The driver takes the first controller, by bus and then by device. -/
theorem nvmeFind_first (s : PciSpace) :
    (nvmeFind s = 0 ∧ ∀ bus < 4, ∀ dev < 32, ¬ s.IsNvme bus dev) ∨
    ∃ bus < 4, ∃ dev < 32, s.IsNvme bus dev ∧ nvmeFind s = s.base bus dev ∧
      ∀ b ≤ bus, ∀ d < 32, b < bus ∨ d < dev → ¬ s.IsNvme b d := by
  have hnot : ∀ {bus dev : Nat}, bus < 4 → dev < 32 → probe s bus dev = none → ¬ s.IsNvme bus dev :=
    fun hbus hdev hnone hnvme => by
      rcases probe_eq s hbus hdev with ⟨-, hsome⟩ | ⟨hno, -⟩
      · rw [hnone] at hsome
        cases hsome
      · exact hno hnvme
  unfold nvmeFind
  cases hfind : (List.range 4).findSome? fun bus => (List.range 32).findSome? (probe s bus) with
  | none =>
    refine .inl ⟨rfl, fun bus hbus dev hdev => hnot hbus hdev ?_⟩
    have hbus' := List.findSome?_eq_none_iff.mp hfind bus (List.mem_range.mpr hbus)
    exact List.findSome?_eq_none_iff.mp hbus' dev (List.mem_range.mpr hdev)
  | some v =>
    obtain ⟨bus, hbus, hin, hbefore⟩ := findSome_range hfind
    obtain ⟨dev, hdev, hv, hnone⟩ := findSome_range hin
    rcases probe_eq s hbus hdev with ⟨hnvme, hsome⟩ | ⟨-, hno⟩
    · refine .inr ⟨bus, hbus, dev, hdev, hnvme, Option.some.inj (hv.symm.trans hsome), ?_⟩
      intro b hb d hd hlt
      by_cases hbb : b < bus
      · refine hnot (by omega) hd ?_
        exact List.findSome?_eq_none_iff.mp (hbefore b hbb) d (List.mem_range.mpr hd)
      · rw [show b = bus by omega]
        exact hnot hbus hd (hnone d (by omega))
    · rw [hv] at hno
      cases hno

/-! ### The whole start -/

theorem clearQueues_eq {asq acq : Nat} (n : Nat) (mem : Nat → Nat) :
    (∀ i < n, clearQueues asq acq n mem (asq + 8 * i) = 0 ∧
      clearQueues asq acq n mem (acq + 8 * i) = 0) ∧
    ∀ x, (∀ i < n, x ≠ asq + 8 * i ∧ x ≠ acq + 8 * i) → clearQueues asq acq n mem x = mem x := by
  induction n with
  | zero => exact ⟨fun i hi => absurd hi (Nat.not_lt_zero i), fun _ _ => rfl⟩
  | succ n ih =>
    obtain ⟨hzero, hother⟩ := ih
    have hstep : ∀ x, clearQueues asq acq (n + 1) mem x =
        if x = acq + 8 * n then 0 else if x = asq + 8 * n then 0
        else clearQueues asq acq n mem x := fun x => by
      rw [clearQueues, Function.update_apply, Function.update_apply]
    refine ⟨fun i hi => ?_, fun x hx => ?_⟩
    · rw [hstep, hstep]
      rcases Nat.lt_succ_iff_lt_or_eq.mp hi with hlt | rfl
      · obtain ⟨hs, hc⟩ := hzero i hlt
        rw [hs, hc]
        simp only [ite_self, and_self]
      · rw [if_pos rfl, if_pos rfl, ite_self]
        exact ⟨rfl, rfl⟩
    · obtain ⟨hs, hc⟩ := hx n (Nat.lt_succ_self n)
      rw [hstep, if_neg hc, if_neg hs]
      exact hother x fun i hi => hx i (Nat.lt_succ_of_lt hi)

/-- The pool after two `page_alloc(1)`, and what they returned. -/
def twoPages (p : PagePool) : Nat × Nat × PagePool :=
  let (asq, p) := p.pageAlloc 1
  let (acq, p) := p.pageAlloc 1
  (asq, acq, p)

theorem twoPages_cases {p : PagePool} {live : List PageBlock} (h : PageRun p live) :
    ∃ asq acq p', twoPages p = (asq, acq, p') ∧
      ((p.freeCnt < 2 ∧ (asq = 0 ∨ acq = 0) ∧ p'.freeCnt = 0) ∨
        (2 ≤ p.freeCnt ∧ asq ≠ 0 ∧ acq ≠ 0 ∧ asq < 2 ^ 64 ∧ acq < 2 ^ 64 ∧
          PageRun p' ((acq, 1) :: (asq, 1) :: live))) := by
  have hplace : ∀ {q : PagePool} {l : List PageBlock} {b : Nat}, PageRun q l → q.firstRun 1 b →
      q.pool + b * PAGE_SIZE ≠ 0 ∧ q.pool + b * PAGE_SIZE < 2 ^ 64 := by
    intro q l b hq hb
    have hin := hb.1
    have hbase := hq.inv.base.1
    have hfits := hq.inv.fits
    unfold PAGE_SIZE at *
    omega
  have h1 := PageRun.alloc h (show 1 < 2 ^ 32 by decide)
  unfold twoPages
  rcases pageAlloc_one h.inv.counts with ⟨hzero, hrun⟩ | ⟨b, hb, hpos, hrun⟩
  · rw [hrun]
    dsimp only
    rw [hrun]
    exact ⟨0, 0, p, rfl, .inl ⟨by omega, .inl rfl, hzero⟩⟩
  · obtain ⟨hne, hlt⟩ := hplace h hb
    rw [hrun, handOut, if_neg hne] at h1
    have h2 := PageRun.alloc h1 (show 1 < 2 ^ 32 by decide)
    rw [hrun]
    dsimp only at h1 h2 ⊢
    rcases pageAlloc_one h1.inv.counts with ⟨hzero, hrun'⟩ | ⟨b', hb', hpos', hrun'⟩
    · rw [hrun']
      refine ⟨_, _, _, rfl, .inl ⟨?_, .inr rfl, hzero⟩⟩
      dsimp only at hzero
      omega
    · obtain ⟨hne', hlt'⟩ := hplace h1 hb'
      rw [hrun', handOut, if_neg hne'] at h2
      rw [hrun']
      refine ⟨_, _, _, rfl, .inr ⟨?_, hne, hne', hlt, hlt', h2⟩⟩
      dsimp only at hpos'
      omega

/-- `nvme_init` with the queues at two new pages. -/
def Host.started (c : Controller) (s : PciSpace) (h : Host) (asq acq : Nat) (pool : PagePool) :
    Int × Host :=
  let (code, log) := enable c asq acq h.log
  (code, {
    dev := {
      bar := nvmeFind s, asq := asq, acq := acq, sqTail := 0, cqHead := 0, cqPhase := 1, cid := 1
      ready := if code = 0 then true else h.dev.ready }
    pool := pool
    mem := clearQueues asq acq 512 h.mem
    log := log })

section Start

variable {h : Host} {live : List PageBlock} (hpool : PageRun h.pool live) (s : PciSpace)
include hpool

/-- The three ways a start can go; only the last touches the controller. -/
theorem Host.nvmeInit_cases :
    (nvmeFind s = 0 ∧ ∀ c, h.nvmeInit c s = (-1, { h with dev := { h.dev with bar := 0 } })) ∨
    (nvmeFind s ≠ 0 ∧ h.pool.freeCnt < 2 ∧ ∃ pool, pool.freeCnt = 0 ∧ ∀ c, h.nvmeInit c s =
      (-2, { h with dev := { h.dev with bar := nvmeFind s }, pool := pool })) ∨
    (nvmeFind s ≠ 0 ∧ 2 ≤ h.pool.freeCnt ∧ ∃ asq acq pool, asq < 2 ^ 64 ∧ acq < 2 ^ 64 ∧
      PageRun pool ((acq, 1) :: (asq, 1) :: live) ∧
      ∀ c, h.nvmeInit c s = h.started c s asq acq pool) := by
  by_cases hfound : nvmeFind s = 0
  · refine .inl ⟨hfound, fun c => ?_⟩
    unfold nvmeInit
    rw [hfound]
    rfl
  · obtain ⟨asq, acq, pool, htwo, hcases⟩ := twoPages_cases hpool
    unfold twoPages at htwo
    dsimp only at htwo
    obtain ⟨hasq, hrest⟩ := Prod.mk.inj htwo
    obtain ⟨hacq, hp⟩ := Prod.mk.inj hrest
    rcases hcases with ⟨hfew, hbad, hcnt⟩ | ⟨hfree, hne, hne', hlt, hlt', hrun⟩
    · refine .inr (.inl ⟨hfound, hfew, pool, hcnt, fun c => ?_⟩)
      unfold nvmeInit
      dsimp only
      rw [if_neg hfound, hasq, hacq, hp, if_pos hbad]
    · refine .inr (.inr ⟨hfound, hfree, asq, acq, pool, hlt, hlt', hrun, fun c => ?_⟩)
      unfold nvmeInit started
      dsimp only
      rw [if_neg hfound, hasq, hacq, hp, if_neg (not_or.mpr ⟨hne, hne'⟩)]
      by_cases hcode : (enable c asq acq h.log).1 = 0
      · rw [if_pos hcode, if_pos hcode]
      · rw [if_neg hcode, if_neg hcode]

/-- The exchanges of a start are exactly the possible ones: whatever the controller answers, the
driver follows one of them, and each is followed with some controller. The queues are the two
pages that every start takes from the pool. -/
theorem start_exchanges (hfound : nvmeFind s ≠ 0) (hfree : 2 ≤ h.pool.freeCnt) :
    ∃ asq acq, (∀ c, PageRun (h.nvmeInit c s).2.pool ((acq, 1) :: (asq, 1) :: live)) ∧
      ∀ code log, (∃ c, (h.nvmeInit c s).1 = code ∧ (h.nvmeInit c s).2.log = log) ↔
        ∃ a : Replies, a.Possible ∧ a.code = code ∧ h.log ++ a.log asq acq = log := by
  rcases h.nvmeInit_cases hpool s with ⟨h0, -⟩ | ⟨-, hfew, -⟩ |
    ⟨-, -, asq, acq, pool, -, -, hrun, heq⟩
  · exact absurd h0 hfound
  · omega
  · refine ⟨asq, acq, fun c => ?_, fun code log => ⟨fun ⟨c, hcode, hlog⟩ => ?_, ?_⟩⟩
    · rw [heq]
      exact hrun
    · obtain ⟨a, ha, henable⟩ := enable_replies c asq acq h.log
      rw [heq] at hcode hlog
      unfold Host.started at hcode hlog
      rw [henable] at hcode hlog
      exact ⟨a, ha, hcode, hlog⟩
    · rintro ⟨a, ha, hcode, hlog⟩
      refine ⟨a.controller h.log asq acq, ?_⟩
      rw [heq]
      unfold Host.started
      rw [enable_controller ha]
      exact ⟨hcode, hlog⟩

/-- Whatever the controller answers, its queue registers are written only while it is disabled,
and a start that comes to the controller leaves it two zeroed pages as queues. -/
theorem start_order (hlog : h.log = []) (c : Controller) :
    QueueSetWhileClear NVME_CC (h.nvmeInit c s).2.log ∧
      ((h.nvmeInit c s).1 = -1 ∨ (h.nvmeInit c s).1 = -2 ∨ ∃ asq acq,
        PageRun (h.nvmeInit c s).2.pool ((acq, 1) :: (asq, 1) :: live) ∧
        QueuesSet asq acq (h.nvmeInit c s).2.log ∧
        ∀ i < 512, (h.nvmeInit c s).2.mem (asq + 8 * i) = 0 ∧
          (h.nvmeInit c s).2.mem (acq + 8 * i) = 0) := by
  rcases h.nvmeInit_cases hpool s with ⟨-, heq⟩ | ⟨-, -, pool, -, heq⟩ |
    ⟨-, -, asq, acq, pool, hasq, hacq, hrun, heq⟩
  · rw [heq]
    exact ⟨hlog ▸ always_nil, .inl rfl⟩
  · rw [heq]
    exact ⟨hlog ▸ always_nil, .inr (.inl rfl)⟩
  · obtain ⟨a, ha, henable⟩ := enable_replies c asq acq h.log
    rw [heq]
    unfold Host.started
    rw [henable, hlog, List.nil_append]
    refine ⟨(a.queue_set ha asq acq).1, .inr (.inr ⟨asq, acq, hrun, a.queuesSet hasq hacq, ?_⟩)⟩
    exact (clearQueues_eq 512 h.mem).1

/-- What a start that comes to the controller says about the answers: when the queues were set
while `RDY` was clear, and which answers make it ready, fail or give up. -/
theorem start_outcome (hlog : h.log = []) (hdown : h.dev.ready = false) (hfound : nvmeFind s ≠ 0)
    (hfree : 2 ≤ h.pool.freeCnt) (c : Controller) : ∃ (a : Replies) (asq acq : Nat),
      a.Possible ∧ (h.nvmeInit c s).2.log = a.log asq acq ∧
      (QueueSetWhileClear NVME_CSTS (h.nvmeInit c s).2.log ↔
        ¬ (a.settle.length = 100000 ∧ ∀ v ∈ a.settle, notReady v = false)) ∧
      ((h.nvmeInit c s).2.dev.ready = true ↔ ∃ v, a.ready.getLast? = some v ∧ v &&& 1 ≠ 0) ∧
      ((h.nvmeInit c s).1 = 0 ↔ (h.nvmeInit c s).2.dev.ready = true) ∧
      ((h.nvmeInit c s).1 = -3 ↔ ∃ v, a.ready.getLast? = some v ∧ v &&& 1 = 0 ∧ v &&& 2 ≠ 0) ∧
      ((h.nvmeInit c s).1 = -4 ↔ a.ready.length = 2000000 ∧
        ∀ v ∈ a.ready, v &&& 1 = 0 ∧ v &&& 2 = 0) := by
  rcases h.nvmeInit_cases hpool s with ⟨h0, -⟩ | ⟨-, hfew, -⟩ | ⟨-, -, asq, acq, pool, -, -, -, heq⟩
  · exact absurd h0 hfound
  · omega
  · obtain ⟨a, ha, henable⟩ := enable_replies c asq acq h.log
    obtain ⟨hzero, hfatal, hlimit⟩ := a.outcome ha
    have hready : (if a.code = 0 then true else h.dev.ready) = true ↔ a.code = 0 := by
      rw [hdown]
      by_cases hc : a.code = 0
      · exact iff_of_true (if_pos hc) hc
      · exact iff_of_false (by rw [if_neg hc]; exact Bool.false_ne_true) hc
    rw [heq]
    unfold Host.started
    rw [henable, hlog, List.nil_append]
    refine ⟨a, asq, acq, ha, rfl, ?_, hready.trans hzero, hready.symm, hfatal, hlimit⟩
    rw [(a.queue_set ha asq acq).2]
    constructor
    · rintro ⟨v, hv, hs⟩ ⟨-, hall⟩
      exact Bool.false_ne_true ((hall v hv).symm.trans hs)
    · intro hnot
      by_contra hsettled
      have hno : ∀ v ∈ a.settle, ¬ notReady v = true := fun v hv hs => hsettled ⟨v, hv, hs⟩
      exact hnot ⟨ha.settle.find_eq_none (List.find?_eq_none.mpr hno),
        fun v hv => Bool.eq_false_iff.mpr (hno v hv)⟩

end Start

/-- Sixteen free pages at 1 MiB, and a controller at device 4 of bus 0. -/
def oneHost : Host where
  dev := ⟨0, 0, 0, 0, 0, 1, 0, false⟩
  pool := ⟨0x100000, 16, Bytes.blit (fun _ => 0) 0 (fun _ => 0) PAGE_BMP_SZ, 16⟩
  mem := fun _ => 0
  log := []

def onePci : PciSpace := fun bus dev _ reg =>
  if bus = 0 ∧ dev = 4 then
    if reg = 0 then 0x00101B36 else if reg = 8 then 0x01080202 else if reg = 0x10 then 0xFEBD0004
    else 0
  else 0xFFFFFFFF

theorem oneHost_run : PageRun oneHost.pool [] :=
  @PageRun.init ⟨0, 0, fun _ => 0, 0⟩ _ 0x100000 0x10000 rfl (by decide) (by decide)

theorem start_exchanges_one : ∃ asq acq,
    (∀ c, PageRun (oneHost.nvmeInit c onePci).2.pool [(acq, 1), (asq, 1)]) ∧ ∀ code log,
    (∃ c, (oneHost.nvmeInit c onePci).1 = code ∧ (oneHost.nvmeInit c onePci).2.log = log) ↔
      ∃ a : Replies, a.Possible ∧ a.code = code ∧ oneHost.log ++ a.log asq acq = log :=
  start_exchanges oneHost_run onePci (by decide +kernel) (by decide)

theorem start_order_one : QueueSetWhileClear NVME_CC (oneHost.nvmeInit (fun _ _ => 0) onePci).2.log :=
  (start_order oneHost_run onePci rfl fun _ _ => 0).1

theorem start_outcome_one : ∃ a asq acq,
    (oneHost.nvmeInit (fun _ _ => 0) onePci).2.log = Replies.log a asq acq := by
  obtain ⟨a, asq, acq, -, hlog, -⟩ := start_outcome oneHost_run onePci rfl rfl (by decide +kernel)
    (by decide) fun _ _ => 0
  exact ⟨a, asq, acq, hlog⟩

end Nvme

end WinDOS
