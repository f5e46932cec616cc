import WinDOS.Window.Sheet

/-!
# The GUI state and its handlers (`kernel.cpp`, `sys/isr.h`)

The globals of the mouse and window handling, and the handlers as functions on them. The
list `wins` holds the first `g_wincnt` slots of `g_wins`. Drawing to a buffer is drawing
to the sheet it belongs to: `g_backfb` is named by the background sheet.
-/

set_option autoImplicit false

namespace WinDOS

open Loop Overwrite

def SHADOW : Int := 16
def UI_SCALE : Int := 2
def CUR_W : Int := 18 * UI_SCALE
def CUR_H : Int := 16 * UI_SCALE
def LOGIN_W : Int := 560
def LOGIN_H : Int := 150

/-- The transparent colour of windows and cursor. -/
def COL_INV : Pixel := 0x00FF00FF

structure WinSlot where
  sht : Option Sid
  title : Option Text
  min : Int

structure Gui where
  ctl : Shtctl
  shadowShts : List (Option Sid)
  wins : List WinSlot
  backfb : Option Sid
  backSht : Option Sid
  hr2 : Int
  vr2 : Int
  curSht : Option Sid
  dragSht : Option Sid
  loginSht : Option Sid
  mx : Int
  my : Int
  mmx : Int
  mmy : Int
  /-- `g_taskbar_paint` points to `taskbar_paint`. -/
  hooked : Bool
  /-- The locals `win_sht` and `login_sht` of `_start`. -/
  win : Sid
  login : Sid

/-- One button of the task bar. -/
def paintButton (font : Font) (stride w h : Int) (fb : Buffer) (slot : WinSlot × Nat) : Buffer :=
  let x := 8 + (slot.2 : Int) * 148
  let y := h - 40 + 7
  match slot.1.title with
  | none => fb
  | some title =>
    let bg : Pixel := if slot.1.min ≠ 0 then 0x00202020 else 0x004A4A4A
    putStrC font stride w h (x + 6) (y + 6) title 0x00FFFFFF
      (fillRectC stride w h x y 140 26 bg fb)

theorem paintButton_overwrites (font : Font) (stride w h : Int) (slot : WinSlot × Nat) :
    Overwrites (fun p : Pixel => p.isShadow = false)
      (fun fb => paintButton font stride w h fb slot) := by
  unfold paintButton
  cases slot.1.title with
  | none => exact .id
  | some title =>
    refine (putStrC_overwrites ?_ _ _ _ _ _ _ _).comp (fillRectC_overwrites ?_ _ _ _ _ _ _ _)
    · decide
    · split <;> decide

def taskbarPaint (font : Font) (wins : List WinSlot) : TaskbarHook where
  paint stride w h fb := wins.zipIdx.foldl (paintButton font stride w h) fb
  overwrites stride w h := .foldl _ fun slot _ => paintButton_overwrites font stride w h slot

/-- The digits of the task bar clock. -/
def clockText (now : Nat) : Text :=
  let rh := now / 3600 % 24
  let rm := now / 60 % 60
  [48 + rh / 10, 48 + rh % 10, 58, 48 + rm / 10, 48 + rm % 10].map (BitVec.ofNat 8)

namespace Gui

def updown (g : Gui) (s : Sid) (height : Int) : Gui :=
  { g with ctl := g.ctl.sheetUpdown s height }

def slide (g : Gui) (s : Sid) (vx0 vy0 : Int) : Gui :=
  { g with ctl := g.ctl.sheetSlide s vx0 vy0 }

def setMin (g : Gui) (i : Nat) (min : Int) : Gui :=
  { g with wins := g.wins.modify i fun slot => { slot with min := min } }

/-- What a slot keeps as long as its window is open. -/
def slots (g : Gui) : List (Option Sid × Option Text) :=
  g.wins.map fun slot => (slot.sht, slot.title)

theorem setMin_slots (g : Gui) (i : Nat) (min : Int) : (g.setMin i min).slots = g.slots := by
  apply List.ext_getElem?
  intro j
  unfold slots setMin
  rw [List.getElem?_map, List.getElem?_modify, List.getElem?_map]
  cases g.wins[j]? with
  | none => rfl
  | some a =>
    simp only [Option.map_eq_map, Option.map_some]
    split <;> rfl

theorem map_fst_slots (g : Gui) : g.slots.map Prod.fst = g.wins.map WinSlot.sht := List.map_map

/-- `if (g_drag_sht == s) g_drag_sht = 0;` -/
def dropDrag (g : Gui) (s : Sid) : Gui :=
  { g with dragSht := if g.dragSht = some s then none else g.dragSht }

/-- `sheet_refresh(g_back_sht, bx0, by0, bx1, by1)`, if there is a background. -/
def refreshBack (g : Gui) (b : Rect) : Gui :=
  match g.backSht with
  | none => g
  | some back => { g with ctl := g.ctl.sheetRefresh g.shadowShts back b }

def refreshTaskbar (g : Gui) : Gui := g.refreshBack ⟨0, g.vr2 - 40, g.hr2, g.vr2⟩

section Font

variable (font : Font)

def taskbarDraw (g : Gui) : Gui :=
  match g.backfb with
  | none => g
  | some back =>
    let sht := g.ctl.sheets0 back
    let buf := (taskbarPaint font g.wins).paint g.hr2 g.hr2 g.vr2 sht.buf
    { g with ctl := g.ctl.setSheet back (sht.withBuf buf) }

def refreshAll (g : Gui) : Gui :=
  { g with ctl := g.ctl.shtctlRefreshAll (if g.hooked then some (taskbarPaint font g.wins) else none) }

/-- The first slot whose task bar button is at `x`. -/
def buttonAt (g : Gui) (x : Int) : Option Nat :=
  (List.range g.wins.length).find? fun i =>
    let bx := 8 + (i : Int) * 148
    bx ≤ x && x < bx + 140 && ((g.wins[i]?).bind WinSlot.title).isSome

def taskbarClick (g : Gui) (x y : Int) : Gui :=
  if g.backfb = none ∨ y < g.vr2 - 40 then g
  else
    match g.buttonAt x with
    | none => g
    | some i =>
      match g.wins[i]? with
      | none => g
      | some slot =>
        match slot.sht with
        | none => g
        | some s =>
          let g :=
            if slot.min ≠ 0 then
              let g := (g.setMin i 0).updown s g.ctl.top
              match g.curSht with
              | none => g
              | some cur => g.updown cur g.ctl.top
            else ((g.setMin i 1).updown s (-1)).dropDrag s
          (g.taskbarDraw font).refreshTaskbar

/-- The slot of a sheet. -/
def slotOf (g : Gui) (s : Sid) : Option Nat := g.wins.findIdx? fun slot => slot.sht == some s

def winMinimize (g : Gui) (s : Sid) : Gui :=
  match g.slotOf s with
  | none => g
  | some i =>
    if g.ctl.height s < 0 then g
    else ((((g.setMin i 1).dropDrag s).updown s (-1)).taskbarDraw font).refreshTaskbar

/-! The two things a handler does to a window that stays open. -/

/-- The window of slot `i` is shown below the cursor. -/
def showSlot (g : Gui) (i : Nat) (s : Sid) : Gui :=
  let g := (g.setMin i 0).updown s g.ctl.top
  match g.curSht with
  | none => g
  | some cur => g.updown cur g.ctl.top

/-- The window of slot `i` is hidden. -/
def hideSlot (g : Gui) (i : Nat) (s : Sid) : Gui :=
  ((g.setMin i 1).updown s (-1)).dropDrag s

theorem slotOf_spec {g : Gui} {s : Sid} {i : Nat} (hi : g.slotOf s = some i) :
    ∃ slot, g.wins[i]? = some slot ∧ slot.sht = some s := by
  obtain ⟨hlt, hp, -⟩ := List.findIdx?_eq_some_iff_getElem.mp hi
  exact ⟨g.wins[i], List.getElem?_eq_getElem hlt, by simpa using hp⟩

/-- A click off the buttons does nothing, one on a button shows or hides its window. -/
theorem taskbarClick_cases (g : Gui) (x y : Int) : g.taskbarClick font x y = g ∨
    ∃ i slot s, g.wins[i]? = some slot ∧ slot.sht = some s ∧
      (slot.min ≠ 0 ∧ g.taskbarClick font x y =
          ((g.showSlot i s).taskbarDraw font).refreshTaskbar ∨
        slot.min = 0 ∧ g.taskbarClick font x y =
          ((g.hideSlot i s).taskbarDraw font).refreshTaskbar) := by
  unfold taskbarClick
  split
  · exact .inl rfl
  cases g.buttonAt x with
  | none => exact .inl rfl
  | some i =>
    cases hi : g.wins[i]? with
    | none => exact .inl (by simp only [hi])
    | some slot =>
      cases hslot : slot.sht with
      | none => exact .inl (by simp only [hi, hslot])
      | some s =>
        refine .inr ⟨i, slot, s, hi, hslot, ?_⟩
        simp only [hi, hslot]
        by_cases hmin : slot.min = 0
        · rw [if_neg (not_not.mpr hmin)]
          exact .inr ⟨hmin, rfl⟩
        · rw [if_pos hmin]
          exact .inl ⟨hmin, rfl⟩

/-- `win_minimize` hides a window that has a slot and is shown. -/
theorem winMinimize_cases (g : Gui) (s : Sid) : g.winMinimize font s = g ∨
    ∃ i slot, g.wins[i]? = some slot ∧ slot.sht = some s ∧
      g.winMinimize font s = ((g.hideSlot i s).taskbarDraw font).refreshTaskbar := by
  unfold winMinimize
  cases hi : g.slotOf s with
  | none => exact .inl rfl
  | some i =>
    obtain ⟨slot, hslot, hsht⟩ := slotOf_spec hi
    dsimp only
    split
    · exact .inl rfl
    · exact .inr ⟨i, slot, hslot, hsht, rfl⟩

def winRemove (g : Gui) (s : Sid) : Gui :=
  match g.slotOf s with
  | none => g
  | some i =>
    { g with
      wins := g.wins.eraseIdx i
      loginSht := if g.loginSht = some s then none else g.loginSht }

/-- Only the slot of the sheet is taken out. -/
theorem mem_winRemove (g : Gui) (s : Sid) :
    (∀ slot ∈ (g.winRemove s).wins, slot ∈ g.wins) ∧
      ∀ slot ∈ g.wins, slot.sht ≠ some s → slot ∈ (g.winRemove s).wins := by
  unfold winRemove
  cases hi : g.slotOf s with
  | none => exact ⟨fun slot h => h, fun slot h _ => h⟩
  | some i =>
    obtain ⟨a, ha, hsht⟩ := slotOf_spec hi
    refine ⟨fun slot h => List.mem_of_mem_eraseIdx h, fun slot hslot hne => ?_⟩
    obtain ⟨j, hj⟩ := List.getElem?_of_mem hslot
    refine List.mem_eraseIdx_iff_getElem?.mpr ⟨j, fun heq => hne ?_, hj⟩
    rw [heq, ha] at hj
    exact Option.some.inj hj ▸ hsht

def free (g : Gui) (s : Sid) : Gui := { g with ctl := g.ctl.sheetFree s }

def winClosed (g : Gui) (s : Sid) : Gui :=
  (((g.winRemove s).free s).taskbarDraw font).refreshAll font

/-- The end of the login: `win_remove`, `sheet_free` and a full refresh. -/
def loginTeardown (g : Gui) : Gui := ((g.winRemove g.login).free g.login).refreshAll font

/-- The clock of the task bar, once a second. -/
def clock (g : Gui) (now : Nat) : Gui :=
  match g.backfb with
  | none => g
  | some back =>
    let sht := g.ctl.sheets0 back
    let cleared := forUp 0 20 (fun yy => forUp 0 56 fun xx bp =>
      Function.update bp (u32 ((g.vr2 - 20 + yy) * g.hr2 + (g.hr2 - 56 + xx))) 0) sht.buf
    let buf := putStrC font g.hr2 g.hr2 g.vr2 (g.hr2 - 52) (g.vr2 - 14) (clockText now) 0x00FFFFFF
      cleared
    ({ g with ctl := g.ctl.setSheet back (sht.withBuf buf) } : Gui).refreshBack
      ⟨g.hr2 - 56, g.vr2 - 20, g.hr2, g.vr2⟩

/-! ### `isr2c_handler` -/

/-- The pointer is on the sheet, on a pixel that is not transparent. -/
def hits (g : Gui) (s : Sid) : Bool :=
  let sht := g.ctl.sheets0 s
  let x := g.mx - sht.vx0
  let y := g.my - sht.vy0
  0 ≤ x && x < sht.bxsize && 0 ≤ y && y < sht.bysize && sht.pixel x y != 0x00FF00FF

/-- The click loop: heights from `top` down to 1, the cursor skipped. -/
def hitHeight (g : Gui) : Option Int :=
  ((List.range g.ctl.top.toNat).map fun k : Nat => g.ctl.top - k).find? fun j =>
    g.curSht != some (g.ctl.sheets j) && g.hits (g.ctl.sheets j)

/-- `x` lies in a title bar button that starts `left` before the right border. -/
def onButton (sht : Sheet) (left right x y : Int) : Bool :=
  sht.bxsize - SHADOW - left * UI_SCALE ≤ x && x < sht.bxsize - SHADOW - right * UI_SCALE &&
    5 * UI_SCALE + SHADOW ≤ y && y < 19 * UI_SCALE + SHADOW

def inClose (sht : Sheet) (x y : Int) : Bool := onButton sht 21 5 x y

def inMin (sht : Sheet) (x y : Int) : Bool := onButton sht 37 21 x y

def inTitle (sht : Sheet) (x y : Int) : Bool :=
  3 * UI_SCALE ≤ x && x < sht.bxsize - 3 * UI_SCALE &&
    3 * UI_SCALE + SHADOW ≤ y && y < 21 * UI_SCALE + SHADOW

/-- The window at height `j` comes to the front, below the cursor. -/
def bringUp (g : Gui) (j : Int) : Gui :=
  let s := g.ctl.sheets j
  let g := if j < g.ctl.top - 1 then g.updown s (g.ctl.top - 1) else g
  match g.curSht with
  | none => g
  | some cur => g.updown cur g.ctl.top

/-- A click that has hit the sheet at height `j`. -/
def clicked (g : Gui) (j : Int) : Gui :=
  let s := g.ctl.sheets j
  let sht := g.ctl.sheets0 s
  let x := g.mx - sht.vx0
  let y := g.my - sht.vy0
  let g := g.bringUp j
  if g.loginSht != some s && inClose sht x y then
    { g.winClosed font s with mmx := -1, dragSht := none }
  else if inMin sht x y then { g.winMinimize font s with mmx := -1, dragSht := none }
  else if inTitle sht x y then { g with mmx := g.mx, mmy := g.my, dragSht := some s }
  else g

/-- Left button down in normal mode. -/
def press (g : Gui) : Gui :=
  if g.my ≥ g.ctl.ysize - 40 then g.taskbarClick font g.mx g.my
  else
    match g.hitHeight with
    | none => g
    | some j => g.clicked font j

/-- Left button down in drag mode. -/
def drag (g : Gui) : Gui :=
  let x := g.mx - g.mmx
  let y := g.my - g.mmy
  if x < -1 ∨ x > 1 ∨ y < -1 ∨ y > 1 then
    let g := match g.dragSht with
      | none => g
      | some s => g.slide s ((g.ctl.sheets0 s).vx0 + x) ((g.ctl.sheets0 s).vy0 + y)
    { g with mmx := g.mx, mmy := g.my }
  else g

def moveCursor (g : Gui) (dx dy : Int) : Gui :=
  let mx := g.mx + dx
  let my := g.my + dy
  let mx := if mx < 0 then 0 else mx
  let my := if my < 0 then 0 else my
  let mx := if mx > g.ctl.xsize - CUR_H then g.ctl.xsize - 1 else mx
  let my := if my > g.ctl.ysize - CUR_H then g.ctl.ysize - 1 else my
  let g := { g with mx := mx, my := my }
  match g.curSht with
  | none => g
  | some cur => g.slide cur mx my

/-- The packet branch of `isr2c_handler`, for a decoded packet. -/
def isr2cPacket (g : Gui) (btn : Nat) (dx dy : Int) : Gui :=
  let g :=
    if btn.testBit 0 then if g.mmx < 0 then g.press font else g.drag
    else { g with mmx := -1, dragSht := none }
  g.moveCursor dx dy

end Font

end Gui

/-! ### Start-up -/

/-- What the GUI part of `_start` begins with: the static `shtctl`, the frame buffer, the map
and the drawn buffers. -/
structure StartUp where
  mem : Shtctl
  fb : Buffer
  lmMap : Int → BitVec 8
  hr : Int
  vr : Int
  backBuf : Buffer
  winBuf : Buffer
  curBuf : Buffer
  loginBuf : Buffer

/-- `sheet_alloc`, `sheet_setbuf`, the position, `sheet_updown`. -/
def addSheet (ctl : Shtctl) (buf : Buffer) (xsize ysize : Int) (colInv : Pixel)
    (vx0 vy0 height : Int) : Option (Sid × Shtctl) :=
  match ctl.sheetAlloc with
  | none => none
  | some (s, ctl) =>
    let ctl := ctl.sheetSetbuf s buf xsize ysize colInv
    let ctl := ctl.setSheet s ((ctl.sheets0 s).moveTo vx0 vy0)
    some (s, ctl.sheetUpdown s height)

def titleWin : Text := [0x57, 0x69, 0x6E, 0x44, 0x4F, 0x53]
def titleLogin : Text := [0x4C, 0x6F, 0x67, 0x69, 0x6E]

/-- The sheets of `_start` in the order they are created. `none` is a null sheet pointer. -/
def startSheets (b : StartUp) : Option (Sid × Sid × Sid × Sid × Shtctl) :=
  (addSheet (b.mem.shtctlInit b.fb b.hr b.vr b.lmMap) b.backBuf b.hr b.vr colInvNone 0 0 0).bind
    fun (back, ctl) =>
  (addSheet ctl b.winBuf (200 * UI_SCALE + 2 * SHADOW) (120 * UI_SCALE + 2 * SHADOW) COL_INV
    (80 - SHADOW) (72 - SHADOW) 1).bind fun (win, ctl) =>
  (addSheet ctl b.curBuf CUR_W CUR_H COL_INV (b.hr / 2) (b.vr / 2) 2).bind fun (cur, ctl) =>
  (addSheet (ctl.shtctlRefreshAll none) b.loginBuf (LOGIN_W + 2 * SHADOW) (LOGIN_H + 2 * SHADOW)
    COL_INV (b.hr / 2 - LOGIN_W / 2 - SHADOW) (b.vr / 2 - LOGIN_H / 2 - SHADOW) 3).bind
    fun (login, ctl) => some (back, win, cur, login, ctl)

/-- The globals at the end of the GUI start-up. -/
def startUp (font : Font) (b : StartUp) : Option Gui :=
  (startSheets b).map fun (back, win, cur, login, ctl) =>
    let ctl := (ctl.sheetUpdown cur ctl.top).shtctlRefreshAll none
    let g : Gui :=
      { ctl := ctl, shadowShts := [some win, some login]
        wins := [⟨some win, some titleWin, 0⟩, ⟨some login, some titleLogin, 0⟩]
        backfb := some back, backSht := some back, hr2 := b.hr, vr2 := b.vr
        curSht := some cur, dragSht := none, loginSht := some login
        mx := b.hr / 2, my := b.vr / 2, mmx := -1, mmy := -1, hooked := false
        win := win, login := login }
    ({ g.taskbarDraw font with hooked := true } : Gui).refreshAll font

end WinDOS
