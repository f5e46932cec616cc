import Mathlib.Logic.Function.Basic
import WinDOS.Lib.Trace
import WinDOS.Gui.Handlers

/-!
# The main loop of `_start` and the interrupt flag

One iteration polls the clock and the keyboard. What it does is a list of operations in the
order of the source: switches of the interrupt flag and calls that touch the sheets, besides
the heartbeat, the login file and the two ways to leave the loop.
-/

set_option autoImplicit false

namespace WinDOS

open Trace

def LOGIN_BX : Int := 176
def LOGIN_BY : Int := 56
def LOGIN_BW : Int := 360
def LOGIN_BH : Int := 40

/-- The characters of the scancodes without Shift. -/
def keytable0 : List Nat :=
  [0, 0, 0x31, 0x32, 0x33, 0x34, 0x35, 0x36, 0x37, 0x38, 0x39, 0x30, 0x2D, 0x5E, 0x08, 0,
   0x51, 0x57, 0x45, 0x52, 0x54, 0x59, 0x55, 0x49, 0x4F, 0x50, 0x40, 0x5B, 0x0A, 0, 0x41, 0x53,
   0x44, 0x46, 0x47, 0x48, 0x4A, 0x4B, 0x4C, 0x3B, 0x3A, 0, 0, 0x5D, 0x5A, 0x58, 0x43, 0x56,
   0x42, 0x4E, 0x4D, 0x2C, 0x2E, 0x2F, 0, 0x2A, 0, 0x20, 0, 0, 0, 0, 0, 0,
   0, 0, 0, 0, 0, 0, 0, 0x37, 0x38, 0x39, 0x2D, 0x34, 0x35, 0x36, 0x2B, 0x31,
   0x32, 0x33, 0x30, 0x2E, 0, 0, 0, 0, 0, 0, 0, 0, 0, 0, 0, 0,
   0, 0, 0, 0, 0, 0, 0, 0, 0, 0, 0, 0, 0, 0, 0, 0,
   0, 0, 0, 0x5C, 0, 0, 0, 0, 0, 0, 0, 0, 0, 0x5C, 0, 0]

/-- The characters of the scancodes with Shift. -/
def keytable1 : List Nat :=
  [0, 0, 0x21, 0x22, 0x23, 0x24, 0x25, 0x26, 0x27, 0x28, 0x29, 0x7E, 0x3D, 0x7E, 0x08, 0,
   0x51, 0x57, 0x45, 0x52, 0x54, 0x59, 0x55, 0x49, 0x4F, 0x50, 0x60, 0x7B, 0x0A, 0, 0x41, 0x53,
   0x44, 0x46, 0x47, 0x48, 0x4A, 0x4B, 0x4C, 0x2B, 0x2A, 0, 0, 0x7D, 0x5A, 0x58, 0x43, 0x56,
   0x42, 0x4E, 0x4D, 0x3C, 0x3E, 0x3F, 0, 0x2A, 0, 0x20, 0, 0, 0, 0, 0, 0,
   0, 0, 0, 0, 0, 0, 0, 0x37, 0x38, 0x39, 0x2D, 0x34, 0x35, 0x36, 0x2B, 0x31,
   0x32, 0x33, 0x30, 0x2E, 0, 0, 0, 0, 0, 0, 0, 0, 0, 0, 0, 0,
   0, 0, 0, 0, 0, 0, 0, 0, 0, 0, 0, 0, 0, 0, 0, 0,
   0, 0, 0, 0x5F, 0, 0, 0, 0, 0, 0, 0, 0, 0, 0x7C, 0, 0]

/-- The locals of `_start` the loop reads and writes. -/
structure LoopState where
  lastTick : Nat
  hb : Nat
  keyShift : BitVec 32
  keyLeds : BitVec 32
  bsodTriggered : Bool
  keystatus : Nat → Bool
  loginBuf : Nat → Nat
  loginLen : Nat
  loggedIn : Bool

/-- What one iteration finds: the tick counter and the next scancode of the keyboard FIFO. -/
structure Poll where
  ticks : Nat
  key : Option Nat

/-- The sheets and the screen size the loop works with. -/
structure Desk where
  shtBack : Sid
  winSht : Sid
  loginSht : Sid
  hr : Int
  vr : Int

/-- The calls that read or change the sheet tables. -/
inductive SheetCall where
  | sheetRefresh (s : Sid) (b : Rect)
  | winMinimize (s : Sid)
  | winRemove (s : Sid)
  | sheetFree (s : Sid)
  | shtctlRefreshAll

inductive Op where
  | ioCli
  | ioSti
  | ioStihlt
  | call (c : SheetCall)
  | heartbeat
  | writeLogin (name : List Nat)
  | keyboardLeds (leds : BitVec 32)
  | jumpUser (ring : Nat)
  | panic

def clockOps (desk : Desk) (st : LoopState) (ticks : Nat) : List Op :=
  if ticks ≠ st.lastTick then
    (if (st.hb + 1) % 200 = 0 then [.heartbeat] else []) ++
      if ticks % 100 = 0 then
        [.call (.sheetRefresh desk.shtBack ⟨desk.hr - 56, desk.vr - 20, desk.hr, desk.vr⟩)]
      else []
  else []

def clockTicked (st : LoopState) (ticks : Nat) : LoopState :=
  if ticks ≠ st.lastTick then { st with lastTick := ticks, hb := st.hb + 1 } else st

/-- The character of a pressed key; Caps Lock and Shift undo each other on letters. -/
def keyChar (st : LoopState) (d : Nat) : Nat :=
  let s0 := (if st.keyShift = 0 then keytable0 else keytable1).getD d 0
  if 0x41 ≤ s0 ∧ s0 ≤ 0x5A ∧
      (st.keyLeds &&& 4 = 0 ∧ st.keyShift = 0 ∨ st.keyLeds &&& 4 ≠ 0 ∧ st.keyShift ≠ 0) then
    s0 + 0x20
  else s0

/-- `Sysdebug` gets ring 1. -/
def loginRing (buf : Nat → Nat) : Nat :=
  if (List.range 9).map buf = [0x53, 0x79, 0x73, 0x64, 0x65, 0x62, 0x75, 0x67, 0] then 1 else 3

/-- The login input: `none` when the loop is left for user mode. -/
def loginKey (desk : Desk) (st : LoopState) (s0 : Nat) : List Op × Option LoopState :=
  if s0 = 0x0A then
    let buf := Function.update st.loginBuf st.loginLen 0
    ([.writeLogin ((List.range st.loginLen).map buf), .ioCli, .call (.winRemove desk.loginSht),
      .call (.sheetFree desk.loginSht), .call .shtctlRefreshAll, .jumpUser (loginRing buf)], none)
  else
    let st :=
      if s0 = 0x08 then { st with loginLen := st.loginLen - 1 }
      else if 0x20 ≤ s0 ∧ st.loginLen < 31 then
        { st with loginBuf := Function.update st.loginBuf st.loginLen s0
                  loginLen := st.loginLen + 1 }
      else st
    ([.ioCli, .call (.sheetRefresh desk.loginSht
        ⟨LOGIN_BX - 8 + SHADOW, LOGIN_BY - 8 + SHADOW, LOGIN_BX + LOGIN_BW + 8 + SHADOW,
          LOGIN_BY + LOGIN_BH + 8 + SHADOW⟩), .ioSti], some st)

/-- Shift, Caps Lock and the table of pressed keys after a scancode. -/
def keyTracked (st : LoopState) (d : Nat) : LoopState :=
  let shift := st.keyShift
  let shift := if d = 0x2A then shift ||| 1 else shift
  let shift := if d = 0x36 then shift ||| 2 else shift
  let shift := if d = 0xAA then shift &&& ~~~1 else shift
  let shift := if d = 0xB6 then shift &&& ~~~2 else shift
  let keystatus :=
    if d = 0xFF then fun _ => false
    else if d < 0x80 then Function.update st.keystatus d true
    else Function.update st.keystatus (d % 0x80) false
  { st with
    keyShift := shift
    keyLeds := if d = 0x3A then st.keyLeds ^^^ 4 else st.keyLeds
    keystatus := keystatus }

/-- The end of an iteration, which every key but F1 and the last Enter reaches. -/
def trackKey (st : LoopState) (d : Nat) : List Op × Option LoopState :=
  let st := keyTracked st d
  let ops : List Op := if d = 0x3A then [.keyboardLeds st.keyLeds] else []
  -- Ctrl+Shift+B: `panic` does not return.
  if !st.bsodTriggered && st.keystatus 0x1D && st.keyShift != 0 && st.keystatus 0x30 then
    (ops ++ [.panic], none)
  else (ops, some st)

/-- A scancode from the FIFO. -/
def keyOps (desk : Desk) (st : LoopState) (d : Nat) : List Op × Option LoopState :=
  if d < 0x80 then
    if d = 0x3B then ([.call (.winMinimize desk.winSht)], some st)
    else if st.loggedIn then trackKey st d
    else
      match loginKey desk st (keyChar st d) with
      | (ops, none) => (ops, none)
      | (ops, some st) => (ops ++ (trackKey st d).1, (trackKey st d).2)
  else trackKey st d

/-- One iteration; without a next state the loop has been left. -/
def iteration (desk : Desk) (st : LoopState) (p : Poll) : List Op × Option LoopState :=
  let head := .ioCli :: clockOps desk st p.ticks
  let st := clockTicked st p.ticks
  match p.key with
  | none => (head ++ [.ioStihlt], some st)
  | some d => (head ++ .ioSti :: (keyOps desk st d).1, (keyOps desk st d).2)

/-- The loop from a state: the polls it has made, what it has done and where it is. -/
inductive LoopRun (desk : Desk) (st0 : LoopState) : List Poll → List Op → Option LoopState → Prop
  | enter : LoopRun desk st0 [] [] (some st0)
  | iterate {polls : List Poll} {ops : List Op} {st : LoopState}
      (h : LoopRun desk st0 polls ops (some st)) (p : Poll) :
      LoopRun desk st0 (polls ++ [p]) (ops ++ (iteration desk st p).1) (iteration desk st p).2

/-! ### The calls on the GUI state -/

def SheetCall.run (font : Font) (g : Gui) : SheetCall → Gui
  | sheetRefresh s b => { g with ctl := g.ctl.sheetRefresh g.shadowShts s b }
  | winMinimize s => g.winMinimize font s
  | winRemove s => g.winRemove s
  | sheetFree s => g.free s
  | shtctlRefreshAll => g.refreshAll font

def sheetCalls (ops : List Op) : List SheetCall :=
  ops.filterMap fun | .call c => some c | _ => none

/-- The last Enter of the login makes the calls of the teardown. -/
theorem enter_tears_down (font : Font) (desk : Desk) (st : LoopState) (g : Gui)
    (h : g.login = desk.loginSht) :
    (sheetCalls (loginKey desk st 0x0A).1).foldl (SheetCall.run font) g = g.loginTeardown font := by
  unfold Gui.loginTeardown
  rw [h]
  rfl

/-! ### The interrupt flag -/

def Op.flag (i : Bool) : Op → Bool
  | ioCli => false
  | ioSti => true
  | ioStihlt => true
  | _ => i

/-- The interrupt flag after the operations done so far; the loop is entered with it clear. -/
def interruptFlag (past : List Op) : Bool := past.foldl Op.flag false

/-- A call on the sheets is not interrupted. -/
def CallMasked (i : Bool) (op : Op) : Prop := ∀ c, op = .call c → i = false

/-- Every call on the sheets is made with interrupts disabled. -/
def SheetCallsMasked (ops : List Op) : Prop :=
  Always (fun past op => CallMasked (interruptFlag past) op) ops

abbrev MaskedFrom (i : Bool) (ops : List Op) : Prop := Checked Op.flag CallMasked i ops

@[simp] theorem callMasked_call {i : Bool} {c : SheetCall} :
    CallMasked i (.call c) ↔ i = false := ⟨fun h => h c rfl, fun h _ _ => h⟩

theorem callMasked_of_ne {i : Bool} {op : Op} (h : ∀ c, op ≠ .call c) : CallMasked i op :=
  fun c hc => absurd hc (h c)

theorem maskedFrom_clock (desk : Desk) (st : LoopState) (ticks : Nat) :
    MaskedFrom false (clockOps desk st ticks) ∧
      (clockOps desk st ticks).foldl Op.flag false = false := by
  unfold clockOps
  split_ifs <;> simp [MaskedFrom, Checked, Op.flag, CallMasked]

theorem maskedFrom_loginKey (desk : Desk) (st : LoopState) (s0 : Nat) (i : Bool) :
    MaskedFrom i (loginKey desk st s0).1 := by
  unfold loginKey
  split_ifs <;> simp [MaskedFrom, Checked, Op.flag, CallMasked]

theorem maskedFrom_trackKey (st : LoopState) (d : Nat) (i : Bool) :
    MaskedFrom i (trackKey st d).1 := by
  unfold trackKey
  dsimp only
  split_ifs <;> simp [MaskedFrom, Checked, CallMasked]

/-- Behind the `io_sti` only F1 leads to a call with interrupts enabled. -/
theorem maskedFrom_keyOps (desk : Desk) (st : LoopState) (d : Nat) :
    MaskedFrom true (keyOps desk st d).1 ↔ d ≠ 0x3B := by
  unfold keyOps
  by_cases hd : d < 0x80
  · rw [if_pos hd]
    by_cases hf : d = 0x3B
    · rw [if_pos hf]
      exact iff_of_false (fun h => Bool.noConfusion (h.1 _ rfl)) fun h => h hf
    · rw [if_neg hf]
      refine iff_of_true ?_ hf
      split
      · exact maskedFrom_trackKey _ _ _
      · have hlogin := maskedFrom_loginKey desk st (keyChar st d) true
        split
        · rename_i ops heq
          rwa [heq] at hlogin
        · rename_i ops st' heq
          rw [heq] at hlogin
          exact checked_append.mpr ⟨hlogin, maskedFrom_trackKey _ _ _⟩
  · rw [if_neg hd]
    exact iff_of_true (maskedFrom_trackKey _ _ _) fun h => hd (h ▸ by decide)

theorem maskedFrom_iteration (desk : Desk) (st : LoopState) (p : Poll) (i : Bool) :
    MaskedFrom i (iteration desk st p).1 ↔ p.key ≠ some 0x3B := by
  obtain ⟨hclock, hflag⟩ := maskedFrom_clock desk st p.ticks
  have hhead : MaskedFrom i (.ioCli :: clockOps desk st p.ticks) :=
    ⟨callMasked_of_ne fun _ => Op.noConfusion, hclock⟩
  unfold iteration
  dsimp only
  cases p.key with
  | none =>
    refine iff_of_true (checked_append.mpr ⟨hhead, ?_, trivial⟩) (by simp)
    exact callMasked_of_ne fun _ => Op.noConfusion
  | some d =>
    have hsti : ∀ i, CallMasked i .ioSti := fun i => callMasked_of_ne fun _ => Op.noConfusion
    rw [MaskedFrom, checked_append, and_iff_right hhead, Checked, and_iff_right (hsti _)]
    refine (maskedFrom_keyOps desk _ d).trans ?_
    simp

/-- The main loop calls nothing on the sheets with interrupts enabled, as long as no F1 comes. -/
theorem sheetCalls_masked_iff {desk : Desk} {st0 : LoopState} {polls : List Poll}
    {ops : List Op} {r : Option LoopState} (h : LoopRun desk st0 polls ops r) :
    SheetCallsMasked ops ↔ ∀ p ∈ polls, p.key ≠ some 0x3B := by
  unfold SheetCallsMasked interruptFlag
  rw [always_iff_checked]
  induction h with
  | enter => exact iff_of_true trivial fun _ hp => absurd hp List.not_mem_nil
  | iterate h p ih =>
    rw [checked_append, ih, List.forall_mem_append]
    refine and_congr_right fun _ => (maskedFrom_iteration desk _ p _).trans ?_
    simp

/-- The state the loop is entered in. -/
def loopStart : LoopState where
  lastTick := 0
  hb := 0
  keyShift := 0
  keyLeds := 0
  bsodTriggered := false
  keystatus _ := false
  loginBuf _ := 0
  loginLen := 0
  loggedIn := false

attribute [local instance] Sid.neZero in
def startDesk : Desk := ⟨0, 1, 3, 800, 600⟩

/-- A tick with nothing typed, then the letter A. -/
theorem sheetCalls_masked_letter :
    SheetCallsMasked ((iteration startDesk loopStart ⟨100, none⟩).1 ++
      (iteration startDesk (clockTicked loopStart 100) ⟨100, some 0x1E⟩).1) := by
  refine (sheetCalls_masked_iff (.iterate (.iterate .enter ⟨100, none⟩) ⟨100, some 0x1E⟩)).mpr ?_
  decide

/-- F1 minimises the first window with interrupts enabled. -/
theorem f1_not_masked : ∃ ops, LoopRun startDesk loopStart [⟨0, some 0x3B⟩] ops (some loopStart) ∧
    ops = [.ioCli, .ioSti, .call (.winMinimize 1)] ∧ ¬ SheetCallsMasked ops := by
  refine ⟨_, .iterate .enter ⟨0, some 0x3B⟩, rfl, fun h => ?_⟩
  exact Bool.noConfusion (h [.ioCli, .ioSti] _ (List.prefix_refl _) _ rfl)

end WinDOS
