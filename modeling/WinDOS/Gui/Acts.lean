import WinDOS.Gui.Events
import WinDOS.Window.Attributes

/-!
# What a packet does to windows

A left press in normal mode may toggle a window from the task bar, close or minimise one or
start to drag one. `pressAct` says which of these branches the handler takes; all other
effects of a press are a window brought to the front and the cursor.
-/

set_option autoImplicit false

namespace WinDOS

open Shtctl

inductive Act where
  | toggle (i : Nat)
  | close (s : Sid)
  | minimise (s : Sid)
  | dragStart (s : Sid)
deriving DecidableEq, Repr

namespace Gui

/-- The slot whose button is at `x`, if a click there does anything. -/
def taskbarAct (g : Gui) (x y : Int) : Option Act :=
  if g.backfb = none ∨ y < g.vr2 - 40 then none
  else
    (g.buttonAt x).bind fun i =>
      if ((g.wins[i]?).bind WinSlot.sht).isSome then some (.toggle i) else none

/-- The branch a click on the sheet at height `j` takes. -/
def clickAct (g : Gui) (j : Int) : Option Act :=
  let s := g.ctl.sheets j
  let sht := g.ctl.sheets0 s
  let x := g.mx - sht.vx0
  let y := g.my - sht.vy0
  if g.loginSht != some s && inClose sht x y then some (.close s)
  else if inMin sht x y then some (.minimise s)
  else if inTitle sht x y then some (.dragStart s)
  else none

def pressAct (g : Gui) : Option Act :=
  if g.my ≥ g.ctl.ysize - 40 then g.taskbarAct g.mx g.my else g.hitHeight.bind g.clickAct

def packetAct (g : Gui) (btn : Nat) : Option Act :=
  if btn.testBit 0 = true ∧ g.mmx < 0 then g.pressAct else none

/-- A press moves the window it hits to the front before it acts. -/
def raised (g : Gui) : Gui :=
  if g.my ≥ g.ctl.ysize - 40 then g
  else match g.hitHeight with
    | none => g
    | some j => g.bringUp j

variable (font : Font)

/-- The four branches, on the state with the window in front. -/
def perform (g : Gui) : Act → Gui
  | .toggle _ => g.taskbarClick font g.mx g.my
  | .close s => { g.winClosed font s with mmx := -1, dragSht := none }
  | .minimise s => { g.winMinimize font s with mmx := -1, dragSht := none }
  | .dragStart s => { g with mmx := g.mx, mmy := g.my, dragSht := some s }

theorem bringUp_same (g : Gui) (j : Int) :
    (g.bringUp j).mx = g.mx ∧ (g.bringUp j).my = g.my ∧ (g.bringUp j).mmx = g.mmx ∧
      (g.bringUp j).loginSht = g.loginSht := by
  unfold bringUp updown
  dsimp only
  split <;> split <;> exact ⟨rfl, rfl, rfl, rfl⟩

theorem taskbarClick_of_none {g : Gui} {x y : Int} (h : g.taskbarAct x y = none) :
    g.taskbarClick font x y = g := by
  unfold taskbarAct at h
  unfold taskbarClick
  split
  · rfl
  rename_i hbar
  rw [if_neg hbar] at h
  cases hbutton : g.buttonAt x with
  | none => rfl
  | some i =>
    rw [hbutton, Option.bind_some] at h
    cases hi : g.wins[i]? with
    | none => simp only [hi]
    | some slot =>
      cases hslot : slot.sht with
      | none => simp only [hi, hslot]
      | some s => simp [hi, hslot] at h

theorem clicked_eq (g : Gui) (j : Int) : g.clicked font j =
    match g.clickAct j with
    | none => g.bringUp j
    | some a => (g.bringUp j).perform font a := by
  obtain ⟨hx, hy, -, hlogin⟩ := bringUp_same g j
  unfold clicked clickAct
  dsimp only
  rw [hlogin]
  split
  · rfl
  split
  · rfl
  split
  · dsimp only [perform]
    rw [hx, hy, hlogin]
  · rfl

theorem press_eq (g : Gui) : g.press font =
    match g.pressAct with
    | none => g.raised
    | some a => g.raised.perform font a := by
  unfold press pressAct raised
  by_cases hbar : g.my ≥ g.ctl.ysize - 40
  · rw [if_pos hbar, if_pos hbar, if_pos hbar]
    cases hact : g.taskbarAct g.mx g.my with
    | none => exact taskbarClick_of_none font hact
    | some a =>
      unfold taskbarAct at hact
      split at hact
      · contradiction
      obtain ⟨i, -, hi⟩ := Option.bind_eq_some_iff.mp hact
      split at hi
      · obtain rfl := Option.some.inj hi
        rfl
      · contradiction
  · rw [if_neg hbar, if_neg hbar, if_neg hbar]
    cases g.hitHeight with
    | none => rfl
    | some j =>
      rw [Option.bind_some]
      exact clicked_eq font g j

theorem isr2cPacket_eq (g : Gui) (btn : Nat) (dx dy : Int) : g.isr2cPacket font btn dx dy =
    (if btn.testBit 0 then if g.mmx < 0 then g.press font else g.drag
      else { g with mmx := -1, dragSht := none }).moveCursor dx dy := rfl

/-- The sheet of an action on a window stands between background and cursor. -/
theorem clickAct_of_press {g : Gui} {a : Act} (h : g.pressAct = some a)
    (ha : ∀ i, a ≠ .toggle i) :
    ∃ j, 1 ≤ j ∧ j ≤ g.ctl.top ∧ g.curSht ≠ some (g.ctl.sheets j) ∧ g.hitHeight = some j ∧
      g.clickAct j = some a := by
  unfold pressAct at h
  split at h
  · unfold taskbarAct at h
    split at h
    · contradiction
    obtain ⟨i, -, hi⟩ := Option.bind_eq_some_iff.mp h
    split at hi
    · exact absurd (Option.some.inj hi).symm (ha i)
    · contradiction
  · obtain ⟨j, hj, hact⟩ := Option.bind_eq_some_iff.mp h
    have hfound := List.find?_some hj
    obtain ⟨k, hk, rfl⟩ := List.mem_map.mp (List.mem_of_find?_eq_some hj)
    rw [List.mem_range] at hk
    rw [Bool.and_eq_true] at hfound
    exact ⟨_, by omega, by omega, by simpa using hfound.1, hj, hact⟩

/-- Closing, minimising and dragging are about the sheet that was hit. -/
theorem clickAct_sheet {g : Gui} {j : Int} {a : Act} (h : g.clickAct j = some a) :
    a = .close (g.ctl.sheets j) ∨ a = .minimise (g.ctl.sheets j) ∨
      a = .dragStart (g.ctl.sheets j) := by
  unfold clickAct at h
  dsimp only at h
  split at h
  · exact .inl (Option.some.inj h).symm
  split at h
  · exact .inr (.inl (Option.some.inj h).symm)
  split at h
  · exact .inr (.inr (Option.some.inj h).symm)
  · contradiction

/-! ### What the handlers keep -/

/-- No sheet is freed, and slots and pointers to sheets stay, but for what is dragged. -/
structure Keeps (g g' : Gui) : Prop where
  attrs : SameAttrs g.ctl g'.ctl
  shadowShts : g'.shadowShts = g.shadowShts
  loginSht : g'.loginSht = g.loginSht
  login : g'.login = g.login
  vr2 : g'.vr2 = g.vr2
  slots : g'.slots = g.slots
  dragSht : ∀ s, g'.dragSht = some s → g.dragSht = some s ∨ g.ctl.inUse s

/-- `s` is freed, and no other sheet; no slot but its own is taken out. -/
structure Frees (s : Sid) (g g' : Gui) : Prop where
  xsize : g'.ctl.xsize = g.ctl.xsize
  flags : ∀ t, (g'.ctl.sheets0 t).flags = if t = s then 0 else (g.ctl.sheets0 t).flags
  colInv : ∀ t, (g'.ctl.sheets0 t).colInv = (g.ctl.sheets0 t).colInv
  shadowShts : g'.shadowShts = g.shadowShts
  login : g'.login = g.login
  vr2 : g'.vr2 = g.vr2
  slots : ∀ w ∈ g'.slots, w ∈ g.slots
  others : ∀ w ∈ g.slots, w.1 ≠ some s → w ∈ g'.slots

variable {font}

theorem Keeps.trans {a b c : Gui} (h : Keeps a b) (h' : Keeps b c) : Keeps a c :=
  ⟨h.attrs.trans h'.attrs, h'.shadowShts.trans h.shadowShts, h'.loginSht.trans h.loginSht,
    h'.login.trans h.login, h'.vr2.trans h.vr2, h'.slots.trans h.slots,
    fun s hs => (h'.dragSht s hs).elim (h.dragSht s)
      fun hu => .inr ((h.attrs.inUse s).mp hu)⟩

theorem Keeps.of_ctl (g : Gui) {ctl : Shtctl} (h : SameAttrs g.ctl ctl) :
    Keeps g { g with ctl := ctl } := ⟨h, rfl, rfl, rfl, rfl, rfl, fun _ => .inl⟩

theorem Keeps.refl (g : Gui) : Keeps g g := .of_ctl g (.refl _)

theorem Frees.trans_keeps {s : Sid} {a b c : Gui} (h : Frees s a b) (h' : Keeps b c) :
    Frees s a c :=
  ⟨h'.attrs.xsize.trans h.xsize, fun t => (h'.attrs.flags t).trans (h.flags t),
    fun t => (h'.attrs.colInv t).trans (h.colInv t), h'.shadowShts.trans h.shadowShts,
    h'.login.trans h.login, h'.vr2.trans h.vr2, fun w hw => h.slots w (h'.slots ▸ hw),
    fun w hw hne => h'.slots ▸ h.others w hw hne⟩

theorem Keeps.trans_frees {s : Sid} {a b c : Gui} (h : Keeps a b) (h' : Frees s b c) :
    Frees s a c :=
  ⟨h'.xsize.trans h.attrs.xsize, fun t => by rw [h'.flags, h.attrs.flags],
    fun t => (h'.colInv t).trans (h.attrs.colInv t), h'.shadowShts.trans h.shadowShts,
    h'.login.trans h.login, h'.vr2.trans h.vr2, fun w hw => h.slots ▸ h'.slots w hw,
    fun w hw hne => h'.others w (h.slots ▸ hw) hne⟩

theorem keeps_updown (g : Gui) (s : Sid) (height : Int) : Keeps g (g.updown s height) :=
  .of_ctl g (sameAttrs_updown _ _ _)

theorem keeps_setMin (g : Gui) (i : Nat) (min : Int) : Keeps g (g.setMin i min) :=
  ⟨.refl _, rfl, rfl, rfl, rfl, setMin_slots g i min, fun _ => .inl⟩

theorem keeps_dropDrag (g : Gui) (s : Sid) : Keeps g (g.dropDrag s) := by
  refine ⟨.refl _, rfl, rfl, rfl, rfl, rfl, fun t ht => ?_⟩
  unfold dropDrag at ht
  dsimp only at ht
  split at ht
  · contradiction
  · exact .inl ht

theorem keeps_refreshBack (g : Gui) (b : Rect) : Keeps g (g.refreshBack b) := by
  unfold refreshBack
  split
  · exact .refl g
  · exact .of_ctl g (sameStack_sheetRefresh _ _ _ _).1.sameAttrs

theorem keeps_taskbarDraw (font : Font) (g : Gui) : Keeps g (g.taskbarDraw font) := by
  unfold taskbarDraw
  split
  · exact .refl g
  · exact .of_ctl g (sameAttrs_setSheet rfl rfl)

theorem keeps_refreshAll (font : Font) (g : Gui) : Keeps g (g.refreshAll font) :=
  .of_ctl g (sameAttrs_refreshAll _ _)

theorem keeps_redrawBar (font : Font) (g : Gui) : Keeps g (g.taskbarDraw font).refreshTaskbar :=
  (keeps_taskbarDraw font g).trans (keeps_refreshBack _ _)

theorem keeps_clock (font : Font) (g : Gui) (now : Nat) : Keeps g (g.clock font now) := by
  unfold clock
  split
  · exact .refl g
  · refine Keeps.trans ?_ (keeps_refreshBack _ _)
    exact .of_ctl g (sameAttrs_setSheet rfl rfl)

theorem keeps_moveCursor (g : Gui) (dx dy : Int) : Keeps g (g.moveCursor dx dy) := by
  unfold moveCursor
  dsimp only
  split
  · exact ⟨.refl _, rfl, rfl, rfl, rfl, rfl, fun _ => .inl⟩
  · exact ⟨sameAttrs_slide _ _ _ _, rfl, rfl, rfl, rfl, rfl, fun _ => .inl⟩

theorem keeps_drag (g : Gui) : Keeps g g.drag := by
  unfold drag
  dsimp only
  split
  · split
    · exact ⟨.refl _, rfl, rfl, rfl, rfl, rfl, fun _ => .inl⟩
    · exact ⟨sameAttrs_slide _ _ _ _, rfl, rfl, rfl, rfl, rfl, fun _ => .inl⟩
  · exact .refl g

theorem keeps_showSlot (g : Gui) (i : Nat) (s : Sid) : Keeps g (g.showSlot i s) := by
  have hup := (keeps_setMin g i 0).trans (keeps_updown _ s g.ctl.top)
  unfold showSlot
  dsimp only
  split
  · exact hup
  · exact hup.trans (keeps_updown _ _ _)

theorem keeps_hideSlot (g : Gui) (i : Nat) (s : Sid) : Keeps g (g.hideSlot i s) :=
  ((keeps_setMin g _ _).trans (keeps_updown _ _ _)).trans (keeps_dropDrag _ _)

theorem keeps_taskbarClick (font : Font) (g : Gui) (x y : Int) :
    Keeps g (g.taskbarClick font x y) := by
  rcases taskbarClick_cases font g x y with heq | ⟨i, slot, s, -, -, ⟨-, heq⟩ | ⟨-, heq⟩⟩
  · rw [heq]
    exact .refl g
  · rw [heq]
    exact (keeps_showSlot g i s).trans (keeps_redrawBar font _)
  · rw [heq]
    exact (keeps_hideSlot g i s).trans (keeps_redrawBar font _)

theorem keeps_winMinimize (font : Font) (g : Gui) (s : Sid) : Keeps g (g.winMinimize font s) := by
  rcases winMinimize_cases font g s with heq | ⟨i, slot, -, -, heq⟩
  · rw [heq]
    exact .refl g
  · rw [heq]
    exact (keeps_hideSlot g i s).trans (keeps_redrawBar font _)

theorem keeps_bringUp (g : Gui) (j : Int) : Keeps g (g.bringUp j) := by
  have hraise : Keeps g
      (if j < g.ctl.top - 1 then g.updown (g.ctl.sheets j) (g.ctl.top - 1) else g) := by
    split
    · exact keeps_updown _ _ _
    · exact .refl g
  unfold bringUp
  dsimp only
  split
  · exact hraise
  · exact hraise.trans (keeps_updown _ _ _)

theorem Keeps.released {a b : Gui} (h : Keeps a b) (mmx mmy : Int) :
    Keeps a { b with mmx := mmx, mmy := mmy, dragSht := none } :=
  ⟨h.attrs, h.shadowShts, h.loginSht, h.login, h.vr2, h.slots, fun _ hs => nomatch hs⟩

theorem keeps_raised (g : Gui) : Keeps g g.raised := by
  unfold raised
  split
  · exact .refl g
  split
  · exact .refl g
  · exact keeps_bringUp _ _

theorem frees_removed (g : Gui) (s : Sid) : Frees s g ((g.winRemove s).free s) := by
  have hctl : (g.winRemove s).ctl = g.ctl ∧ (g.winRemove s).shadowShts = g.shadowShts ∧
      (g.winRemove s).login = g.login ∧ (g.winRemove s).vr2 = g.vr2 := by
    unfold winRemove
    split <;> exact ⟨rfl, rfl, rfl, rfl⟩
  obtain ⟨hctl, hshadow, hlogin, hvr2⟩ := hctl
  obtain ⟨hfewer, hother⟩ := mem_winRemove g s
  unfold free
  rw [hctl]
  refine ⟨sheetFree_xsize _ _, sheetFree_flags _ _, sheetFree_colInv _ _, hshadow, hlogin, hvr2,
    fun w hw => ?_, fun w hw hne => ?_⟩
  · obtain ⟨slot, hslot, rfl⟩ := List.mem_map.mp hw
    exact List.mem_map_of_mem (hfewer slot hslot)
  · obtain ⟨slot, hslot, rfl⟩ := List.mem_map.mp hw
    exact List.mem_map_of_mem (hother slot hslot hne)

theorem frees_winClosed (font : Font) (g : Gui) (s : Sid) : Frees s g (g.winClosed font s) :=
  (frees_removed g s).trans_keeps ((keeps_taskbarDraw font _).trans (keeps_refreshAll font _))

theorem frees_loginTeardown (font : Font) (g : Gui) : Frees g.login g (g.loginTeardown font) :=
  (frees_removed g g.login).trans_keeps (keeps_refreshAll font _)

end Gui

end WinDOS
