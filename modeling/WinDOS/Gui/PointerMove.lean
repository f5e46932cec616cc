import WinDOS.Gui.Press

/-!
# Where a packet moves the pointer

`isr2c_handler` tests the new coordinate against the screen less the height of the cursor, but
then assigns the last column or row. A target in between is not cut off: the pointer jumps to
the border, and from the border it does not come back by small steps.
-/

set_option autoImplicit false

namespace WinDOS

open Shtctl Gui

/-- One axis of the cursor update. -/
def pointerStep (size p d : Int) : Int :=
  let p := p + d
  let p := if p < 0 then 0 else p
  if p > size - CUR_H then size - 1 else p

/-- The pointer stays on the screen, goes from `p` towards `p + d` and not beyond, and does
move unless a border is in its way. -/
structure Follows (size p d p' : Int) : Prop where
  inside : 0 ≤ p' ∧ p' < size
  bound : (p' - p).natAbs ≤ d.natAbs
  direction : (0 ≤ d → p ≤ p') ∧ (d ≤ 0 → p' ≤ p)
  moves : (0 < d → p < size - 1 → p < p') ∧ (d < 0 → 0 < p → p' < p)

/-- The target, not below 0, is within the limit that is tested, or at the border assigned. -/
def ClampAgrees (size p d : Int) : Prop :=
  0 < size ∧ (max 0 (p + d) ≤ size - CUR_H ∨ size - 1 ≤ max 0 (p + d))

theorem pointerStep_eq (size p d : Int) : pointerStep size p d =
    if max 0 (p + d) > size - CUR_H then size - 1 else max 0 (p + d) := by
  have hmax : (if p + d < 0 then 0 else p + d) = max 0 (p + d) := by omega
  unfold pointerStep
  dsimp only
  rw [hmax]

theorem follows_iff {size p d : Int} (hp : 0 < size → 0 ≤ p ∧ p < size) :
    Follows size p d (pointerStep size p d) ↔ ClampAgrees size p d := by
  have hcur : 1 ≤ CUR_H := by decide
  rw [pointerStep_eq, ClampAgrees]
  generalize hq : max 0 (p + d) = q
  by_cases hlimit : q > size - CUR_H
  · rw [if_pos hlimit]
    constructor
    · rintro ⟨inside, bound, direction, moves⟩
      omega
    · rintro ⟨hsize, hborder⟩
      have := hp hsize
      exact ⟨by omega, by omega, by omega, by omega⟩
  · rw [if_neg hlimit]
    refine iff_of_true ?_ ⟨by omega, .inl (by omega)⟩
    have := hp (by omega)
    exact ⟨by omega, by omega, by omega, by omega⟩

theorem pointerStep_inside {size : Int} (hsize : 0 < size) (p d : Int) :
    0 ≤ pointerStep size p d ∧ pointerStep size p d < size := by
  have hcur : 1 ≤ CUR_H := by decide
  rw [pointerStep_eq]
  split <;> omega

/-! ### The rest of the handler -/

namespace Gui

/-- The row of the pointer and the size of the screen. -/
structure SameScreen (g g' : Gui) : Prop where
  my : g'.my = g.my
  xsize : g'.ctl.xsize = g.ctl.xsize
  ysize : g'.ctl.ysize = g.ctl.ysize

theorem SameScreen.trans {a b c : Gui} (h : SameScreen a b) (h' : SameScreen b c) :
    SameScreen a c :=
  ⟨h'.my.trans h.my, h'.xsize.trans h.xsize, h'.ysize.trans h.ysize⟩

/-- Drawing and restacking keep the size of the screen. -/
theorem SameScreen.of_keeps {g g' : Gui} (hk : Keeps g g') (hmy : g'.my = g.my) :
    SameScreen g g' :=
  ⟨hmy, hk.attrs.xsize, hk.attrs.ysize⟩

variable (font : Font) (g : Gui)

theorem refreshBack_my (r : Rect) : (g.refreshBack r).my = g.my := by
  unfold refreshBack
  split <;> rfl

theorem taskbarDraw_my : (g.taskbarDraw font).my = g.my := by
  unfold taskbarDraw
  split <;> rfl

theorem redrawBar_my : (g.taskbarDraw font).refreshTaskbar.my = g.my :=
  (refreshBack_my _ _).trans (taskbarDraw_my font g)

theorem sameScreen_clock (now : Nat) : SameScreen g (g.clock font now) := by
  refine .of_keeps (keeps_clock font g now) ?_
  unfold clock
  split
  · rfl
  · exact refreshBack_my _ _

theorem showSlot_my (i : Nat) (s : Sid) : (g.showSlot i s).my = g.my := by
  unfold showSlot
  dsimp only
  split <;> rfl

theorem sameScreen_taskbarClick (x y : Int) : SameScreen g (g.taskbarClick font x y) := by
  refine .of_keeps (keeps_taskbarClick font g x y) ?_
  rcases taskbarClick_cases font g x y with heq | ⟨i, slot, s, -, -, ⟨-, heq⟩ | ⟨-, heq⟩⟩
  · rw [heq]
  · rw [heq]
    exact (redrawBar_my font _).trans (showSlot_my g i s)
  · rw [heq]
    exact redrawBar_my font _

theorem sameScreen_winMinimize (s : Sid) : SameScreen g (g.winMinimize font s) := by
  refine .of_keeps (keeps_winMinimize font g s) ?_
  rcases winMinimize_cases font g s with heq | ⟨i, slot, -, -, heq⟩
  · rw [heq]
  · rw [heq]
    exact redrawBar_my font _

theorem sameScreen_removed (s : Sid) : SameScreen g ((g.winRemove s).free s) := by
  have hremove : (g.winRemove s).my = g.my ∧ (g.winRemove s).ctl = g.ctl := by
    unfold winRemove
    split <;> exact ⟨rfl, rfl⟩
  unfold free
  rw [hremove.2]
  exact ⟨hremove.1, sheetFree_xsize _ s, sheetFree_ysize _ s⟩

theorem sameScreen_winClosed (s : Sid) : SameScreen g (g.winClosed font s) :=
  (sameScreen_removed g s).trans (.of_keeps
    ((keeps_taskbarDraw font _).trans (keeps_refreshAll font _)) (taskbarDraw_my font _))

theorem sameScreen_loginTeardown : SameScreen g (g.loginTeardown font) :=
  (sameScreen_removed g g.login).trans (.of_keeps (keeps_refreshAll font _) rfl)

theorem sameScreen_raised : SameScreen g g.raised := by
  refine .of_keeps (keeps_raised g) ?_
  unfold raised
  split
  · rfl
  split
  · rfl
  · exact (bringUp_same g _).2.1

theorem sameScreen_press : SameScreen g (g.press font) := by
  have hraised := sameScreen_raised g
  rw [press_eq]
  cases g.pressAct with
  | none => exact hraised
  | some a =>
    cases a with
    | toggle i => exact hraised.trans (sameScreen_taskbarClick font _ _ _)
    | close s =>
      have hclosed := hraised.trans (sameScreen_winClosed font _ s)
      exact ⟨hclosed.my, hclosed.xsize, hclosed.ysize⟩
    | minimise s =>
      have hmin := hraised.trans (sameScreen_winMinimize font _ s)
      exact ⟨hmin.my, hmin.xsize, hmin.ysize⟩
    | dragStart s => exact ⟨hraised.my, hraised.xsize, hraised.ysize⟩

theorem press_mx : (g.press font).mx = g.mx := by
  have hraised := (sameMouse_raised g).mx
  rw [press_eq]
  cases g.pressAct with
  | none => exact hraised
  | some a =>
    cases a with
    | toggle i => exact (sameMouse_taskbarClick font _ _ _).mx.trans hraised
    | close s => exact (sameMouse_winClosed font _ s).mx.trans hraised
    | minimise s => exact (sameMouse_winMinimize font _ s).mx.trans hraised
    | dragStart s => exact hraised

theorem drag_place : g.drag.mx = g.mx ∧ SameScreen g g.drag := by
  have hplace : g.drag.mx = g.mx ∧ g.drag.my = g.my := by
    unfold drag
    dsimp only
    split
    · split <;> exact ⟨rfl, rfl⟩
    · exact ⟨rfl, rfl⟩
  exact ⟨hplace.1, .of_keeps (keeps_drag g) hplace.2⟩

theorem moveCursor_place (dx dy : Int) :
    (g.moveCursor dx dy).mx = pointerStep g.ctl.xsize g.mx dx ∧
      (g.moveCursor dx dy).my = pointerStep g.ctl.ysize g.my dy := by
  unfold moveCursor
  dsimp only
  split <;> exact ⟨rfl, rfl⟩

/-- A packet moves each coordinate by one step of its axis, on a screen that stays as it is. -/
theorem isr2cPacket_place (btn : Nat) (dx dy : Int) :
    (g.isr2cPacket font btn dx dy).mx = pointerStep g.ctl.xsize g.mx dx ∧
      (g.isr2cPacket font btn dx dy).my = pointerStep g.ctl.ysize g.my dy ∧
      (g.isr2cPacket font btn dx dy).ctl.xsize = g.ctl.xsize ∧
      (g.isr2cPacket font btn dx dy).ctl.ysize = g.ctl.ysize := by
  rw [isr2cPacket_eq]
  generalize hg : (if btn.testBit 0 then if g.mmx < 0 then g.press font else g.drag
    else { g with mmx := -1, dragSht := none }) = g'
  have hbuttons : g'.mx = g.mx ∧ SameScreen g g' := by
    rw [← hg]
    split
    · split
      · exact ⟨press_mx font g, sameScreen_press font g⟩
      · exact drag_place g
    · exact ⟨rfl, rfl, rfl, rfl⟩
  obtain ⟨hmx, hscreen⟩ := hbuttons
  obtain ⟨hx, hy⟩ := moveCursor_place g' dx dy
  have hkeep := (keeps_moveCursor g' dx dy).attrs
  rw [hmx, hscreen.xsize] at hx
  rw [hscreen.my, hscreen.ysize] at hy
  exact ⟨hx, hy, hkeep.xsize.trans hscreen.xsize, hkeep.ysize.trans hscreen.ysize⟩

end Gui

theorem sameScreen_run (font : Font) (g : Gui) {e : Event} (he : e.isPacket = false) :
    SameScreen g (e.run font g) := by
  cases e with
  | packet btn dx dy => contradiction
  | taskbar x y => exact sameScreen_taskbarClick font g x y
  | minimize s => exact sameScreen_winMinimize font g s
  | close s => exact sameScreen_winClosed font g s
  | teardown => exact sameScreen_loginTeardown font g
  | tick now => exact sameScreen_clock font g now

/-! ### Runs -/

theorem startUp_place {font : Font} {b : StartUp} {g : Gui} (h : startUp font b = some g) :
    g.my = b.vr / 2 ∧ g.ctl.ysize = b.vr := by
  obtain ⟨ctl, g0, hstart, -, hattrs, hkeep, -⟩ := startUp_globals h
  have hy : ctl.ysize = b.vr := (startSheets_attrs hstart).1.2
  refine ⟨?_, hkeep.attrs.ysize.trans (hattrs.ysize.trans hy)⟩
  unfold startUp at h
  rw [hstart] at h
  obtain rfl := Option.some.inj h
  rfl

section Runs

variable {font : Font} {b : StartUp} {g : Gui}

theorem Reachable.onScreen (h : Reachable font b g) :
    (g.ctl.xsize = b.hr ∧ g.ctl.ysize = b.vr) ∧ (0 < b.hr → 0 ≤ g.mx ∧ g.mx < b.hr) ∧
      (0 < b.vr → 0 ≤ g.my ∧ g.my < b.vr) := by
  induction h with
  | start h =>
    obtain ⟨-, -, -, -, -, -, -, -, -, -, -, hmx⟩ := startUp_globals h
    obtain ⟨hmy, hy⟩ := startUp_place h
    exact ⟨⟨(startUp_pool h).xsize, hy⟩, by omega, by omega⟩
  | @step g _ e ok ih =>
    obtain ⟨⟨hxsize, hysize⟩, hmx, hmy⟩ := ih
    cases hp : e.isPacket with
    | false =>
      have hscreen := sameScreen_run font g hp
      rw [hscreen.my, hscreen.xsize, hscreen.ysize, (sameMouse_run font g hp).mx]
      exact ⟨⟨hxsize, hysize⟩, hmx, hmy⟩
    | true =>
      obtain ⟨btn, dx, dy, rfl⟩ := Event.exists_packet hp
      have hplace := isr2cPacket_place font g btn dx dy
      rw [hxsize, hysize] at hplace
      generalize hg : g.isr2cPacket font btn dx dy = g' at hplace
      obtain ⟨hx, hy, hsize⟩ := hplace
      rw [show (Event.packet btn dx dy).run font g = g' from hg, hx, hy]
      exact ⟨hsize, fun hr => pointerStep_inside hr _ _, fun hr => pointerStep_inside hr _ _⟩

/-- Where the limit tested and the border assigned agree, the pointer follows the packet. -/
theorem pointer_follows_iff (h : Reachable font b g) (btn : Nat) (dx dy : Int) :
    Follows g.ctl.xsize g.mx dx (g.isr2cPacket font btn dx dy).mx ∧
        Follows g.ctl.ysize g.my dy (g.isr2cPacket font btn dx dy).my ↔
      ClampAgrees g.ctl.xsize g.mx dx ∧ ClampAgrees g.ctl.ysize g.my dy := by
  obtain ⟨⟨hxsize, hysize⟩, hmx, hmy⟩ := h.onScreen
  obtain ⟨hx, hy, -⟩ := isr2cPacket_place font g btn dx dy
  rw [hx, hy]
  exact and_congr (follows_iff (hxsize ▸ hmx)) (follows_iff (hysize ▸ hmy))

end Runs

/-- The first packet on an 800×600 screen, from its middle. -/
theorem pointer_follows_blankStart : ∃ g, startUp (fun _ _ => 0) blankStart = some g ∧
    (Follows g.ctl.xsize g.mx 255 (g.isr2cPacket (fun _ _ => 0) 0 255 (-3)).mx ∧
        Follows g.ctl.ysize g.my (-3) (g.isr2cPacket (fun _ _ => 0) 0 255 (-3)).my ↔
      ClampAgrees g.ctl.xsize g.mx 255 ∧ ClampAgrees g.ctl.ysize g.my (-3)) := by
  obtain ⟨g, hg, -⟩ := startUp_inv (fun _ _ => 0) blankStart
  exact ⟨g, hg, pointer_follows_iff (.start hg) 0 255 (-3)⟩

/-- From column 760 a packet of 20 to the right moves the pointer by 39 to the border, and a
packet of 5 to the left does not move it from there. -/
theorem pointer_jumps_to_border : ∃ g, Reachable (fun _ _ => 0) blankStart g ∧ g.mx = 760 ∧
    (g.isr2cPacket (fun _ _ => 0) 0 20 0).mx = 799 ∧
    ((g.isr2cPacket (fun _ _ => 0) 0 20 0).isr2cPacket (fun _ _ => 0) 0 (-5) 0).mx = 799 ∧
    ¬ Follows g.ctl.xsize g.mx 20 (g.isr2cPacket (fun _ _ => 0) 0 20 0).mx := by
  obtain ⟨g, hg, -⟩ := startUp_inv (fun _ _ => 0) blankStart
  have h0 : Reachable (fun _ _ => 0) blankStart g := .start hg
  obtain ⟨-, -, -, -, -, -, -, -, -, -, -, hmx⟩ := startUp_globals hg
  have hstep : ∀ {g}, Reachable (fun _ _ => 0) blankStart g → ∀ d : Int,
      Reachable (fun _ _ => 0) blankStart (g.isr2cPacket (fun _ _ => 0) 0 d 0) ∧
        (g.isr2cPacket (fun _ _ => 0) 0 d 0).mx = pointerStep 800 g.mx d := by
    intro g h d
    refine ⟨h.step (.packet 0 d 0) trivial, ?_⟩
    rw [(isr2cPacket_place _ g 0 d 0).1, h.onScreen.1.1]
    rfl
  obtain ⟨h1, hx1⟩ := hstep h0 255
  obtain ⟨h2, hx2⟩ := hstep h1 105
  obtain ⟨h3, hx3⟩ := hstep h2 20
  obtain ⟨-, hx4⟩ := hstep h3 (-5)
  rw [hx1, hmx] at hx2
  replace hx2 := hx2.trans (by decide : _ = (760 : Int))
  rw [hx2] at hx3
  replace hx3 := hx3.trans (by decide : _ = (799 : Int))
  rw [hx3] at hx4
  refine ⟨_, h2, hx2, hx3, hx4.trans (by decide), fun hfollow => ?_⟩
  have := hfollow.bound
  rw [hx3, hx2] at this
  exact absurd this (by decide)

end WinDOS
