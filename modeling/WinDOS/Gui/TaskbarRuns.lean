import WinDOS.Gui.Taskbar

/-!
# The task bar under every sequence of GUI events

The background's buffer is drawn piece by piece: the buttons when a window is hidden or shown, the
clock each second, everything in a full refresh. Beside the clock it is always what a full repaint
would leave, and a click finds the button that is drawn there.
-/

set_option autoImplicit false

namespace WinDOS

open Shtctl Gui Loop Drawing

/-- The corner of the task bar that the clock is drawn to. -/
def OnClock (hr vr px py : Int) : Prop := hr - 56 ≤ px ∧ vr - 20 ≤ py

/-- Desktop and globals of the task bar are the same. -/
structure SameDesk (g g' : Gui) : Prop where
  bufs : SameBufs g.ctl g'.ctl
  hr2 : g'.hr2 = g.hr2
  vr2 : g'.vr2 = g.vr2
  backfb : g'.backfb = g.backfb
  hooked : g'.hooked = g.hooked

namespace SameDesk

variable {a b c : Gui}

theorem trans (h : SameDesk a b) (h' : SameDesk b c) : SameDesk a c :=
  ⟨h.bufs.trans h'.bufs, h'.hr2.trans h.hr2, h'.vr2.trans h.vr2, h'.backfb.trans h.backfb,
    h'.hooked.trans h.hooked⟩

theorem of_ctl {ctl : Shtctl} (h : SameBufs a.ctl ctl) : SameDesk a { a with ctl := ctl } :=
  ⟨h, rfl, rfl, rfl, rfl⟩

theorem updown (g : Gui) (s : Sid) (height : Int) : SameDesk g (g.updown s height) :=
  of_ctl (.sheetUpdown _ _ _)

theorem setMin (g : Gui) (i : Nat) (min : Int) : SameDesk g (g.setMin i min) :=
  ⟨.refl _, rfl, rfl, rfl, rfl⟩

theorem dropDrag (g : Gui) (s : Sid) : SameDesk g (g.dropDrag s) := ⟨.refl _, rfl, rfl, rfl, rfl⟩

theorem winRemove (g : Gui) (s : Sid) : SameDesk g (g.winRemove s) := by
  unfold Gui.winRemove
  split
  · exact ⟨.refl _, rfl, rfl, rfl, rfl⟩
  · exact ⟨.refl _, rfl, rfl, rfl, rfl⟩

theorem removed (g : Gui) (s : Sid) : SameDesk g ((g.winRemove s).free s) :=
  (winRemove g s).trans (of_ctl (.sheetFree _ _))

theorem refreshBack (g : Gui) (r : Rect) : SameDesk g (g.refreshBack r) := by
  unfold Gui.refreshBack
  split
  · exact ⟨.refl _, rfl, rfl, rfl, rfl⟩
  · exact of_ctl (.of_sameStack (sameStack_sheetRefresh _ _ _ _).1)

end SameDesk

/-! ### The invariant -/

/-- What the drawing of the task bar relies on. -/
structure BarBase (back : Sid) (hr vr : Int) (g : Gui) : Prop where
  hr2 : g.hr2 = hr
  vr2 : g.vr2 = vr
  backfb : g.backfb = some back
  bxsize : (g.ctl.sheets0 back).bxsize = hr
  bysize : (g.ctl.sheets0 back).bysize = vr
  fits : ∀ slot ∈ g.wins, slot.Fits

/-- Between the buttons is the desktop. -/
structure BarBlank (back : Sid) (hr vr : Int) (g : Gui) : Prop extends BarBase back hr vr g where
  hooked : g.hooked = true
  blank : ∀ px py, Visible hr vr px py → ¬ OnClock hr vr px py →
    (∀ i < g.wins.length, ¬ OnBarButton vr i px py) →
    (g.ctl.sheets0 back).buf (py * hr + px) = desktopPixel vr py

/-- The buttons show the windows. -/
structure BarRight (font : Font) (back : Sid) (hr vr : Int) (g : Gui) : Prop extends
    BarBlank back hr vr g where
  shows : ∀ px py, Visible hr vr px py → ¬ OnClock hr vr px py → ∀ i slot, g.wins[i]? = some slot →
    OnBarButton vr i px py → ButtonShows font vr slot i px py
      ((g.ctl.sheets0 back).buf (py * hr + px))

section Bar

variable {font : Font} {back : Sid} {hr vr : Int} {g g' : Gui}

theorem BarBase.same (h : BarBase back hr vr g) (hsame : SameDesk g g')
    (hfits : ∀ slot ∈ g'.wins, slot.Fits) : BarBase back hr vr g' :=
  ⟨hsame.hr2.trans h.hr2, hsame.vr2.trans h.vr2, hsame.backfb.trans h.backfb,
    (hsame.bufs back).2.1.trans h.bxsize, (hsame.bufs back).2.2.trans h.bysize, hfits⟩

theorem BarBase.hook (h : BarBase back hr vr g) : BarBase back hr vr { g with hooked := true } :=
  ⟨h.hr2, h.vr2, h.backfb, h.bxsize, h.bysize, h.fits⟩

theorem BarBlank.same (h : BarBlank back hr vr g) (hsame : SameDesk g g')
    (hfits : ∀ slot ∈ g'.wins, slot.Fits) (hlen : g'.wins.length = g.wins.length) :
    BarBlank back hr vr g' := by
  refine ⟨h.toBarBase.same hsame hfits, hsame.hooked.trans h.hooked,
    fun px py hp hclock hno => ?_⟩
  rw [(hsame.bufs back).1]
  exact h.blank px py hp hclock fun i hi => hno i (hlen ▸ hi)

theorem BarBlank.updown (h : BarBlank back hr vr g) (s : Sid) (height : Int) :
    BarBlank back hr vr (g.updown s height) :=
  h.same (.updown _ _ _) h.fits rfl

theorem BarBlank.dropDrag (h : BarBlank back hr vr g) (s : Sid) :
    BarBlank back hr vr (g.dropDrag s) :=
  h.same (.dropDrag _ _) h.fits rfl

theorem BarRight.same (h : BarRight font back hr vr g) (hsame : SameDesk g g')
    (hwins : g'.wins = g.wins) : BarRight font back hr vr g' := by
  refine ⟨h.toBarBlank.same hsame (hwins ▸ h.fits) (congrArg List.length hwins),
    fun px py hp hclock i slot hi hon => ?_⟩
  rw [(hsame.bufs back).1]
  exact h.shows px py hp hclock i slot (hwins ▸ hi) hon

theorem refreshBack_wins (g : Gui) (r : Rect) : (g.refreshBack r).wins = g.wins := by
  unfold Gui.refreshBack
  split
  · rfl
  · rfl

/-! ### Drawing -/

variable (t : Target hr hr vr)
include t

theorem sides_lt (hhr : 56 ≤ hr) (hvr : 40 ≤ vr) : hr < 2 ^ 32 ∧ vr < 2 ^ 32 := by
  have hwords := t.words
  constructor
  · have : hr * 1 ≤ hr * vr := Int.mul_le_mul_of_nonneg_left (by omega) (by omega)
    omega
  · have : 1 * vr ≤ hr * vr := Int.mul_le_mul_of_nonneg_right (by omega) (by omega)
    omega

omit t in
theorem BarBase.taskbarDraw_back (h : BarBase back hr vr g) (font : Font) :
    (g.taskbarDraw font).ctl.sheets0 back = (g.ctl.sheets0 back).withBuf
      ((taskbarPaint font g.wins).paint hr hr vr (g.ctl.sheets0 back).buf) := by
  unfold Gui.taskbarDraw
  rw [h.backfb, h.hr2, h.vr2]
  exact (setSheet_sheets0 _ _ _ _).trans (if_pos rfl)

omit t in
theorem taskbarDraw_wins (font : Font) (g : Gui) : (g.taskbarDraw font).wins = g.wins ∧
    (g.taskbarDraw font).hooked = g.hooked := by
  unfold Gui.taskbarDraw
  split
  · exact ⟨rfl, rfl⟩
  · exact ⟨rfl, rfl⟩

omit t in
theorem BarBase.taskbarDraw (h : BarBase back hr vr g) :
    BarBase back hr vr (g.taskbarDraw font) := by
  have hself := h.taskbarDraw_back font
  obtain ⟨h1, h2, h3⟩ : (g.taskbarDraw font).hr2 = g.hr2 ∧ (g.taskbarDraw font).vr2 = g.vr2 ∧
      (g.taskbarDraw font).backfb = g.backfb := by
    unfold Gui.taskbarDraw
    rw [h.backfb]
    exact ⟨rfl, rfl, rfl⟩
  exact ⟨h1.trans h.hr2, h2.trans h.vr2, h3.trans h.backfb,
    (congrArg Sheet.bxsize hself).trans h.bxsize, (congrArg Sheet.bysize hself).trans h.bysize,
    (taskbarDraw_wins font g).1 ▸ h.fits⟩

theorem BarBlank.taskbarDraw (h : BarBlank back hr vr g) :
    BarRight font back hr vr (g.taskbarDraw font) := by
  have hself := h.toBarBase.taskbarDraw_back font
  obtain ⟨hwins, hhook⟩ := taskbarDraw_wins font g
  refine ⟨⟨h.toBarBase.taskbarDraw, hhook.trans h.hooked, fun px py hp hclock hno => ?_⟩,
    fun px py hp hclock i slot hi hon => ?_⟩
  · rw [hself]
    rw [hwins] at hno
    exact (painted_blank t h.fits hp hno _).trans (h.blank px py hp hclock hno)
  · rw [hself]
    rw [hwins] at hi
    exact painted_shows t h.fits hp hi hon _

theorem BarBlank.redrawBar (h : BarBlank back hr vr g) :
    BarRight font back hr vr (g.taskbarDraw font).refreshTaskbar :=
  (h.taskbarDraw t).same (.refreshBack _ _) (refreshBack_wins _ _)

/-- A full refresh mends the task bar whatever the buffer held before. -/
theorem BarBase.refreshAll (h : BarBase back hr vr g) (hhook : g.hooked = true)
    (hbottom : g.ctl.sheets 0 = back) (hhr : 56 ≤ hr) (hvr : 40 ≤ vr) :
    BarRight font back hr vr (g.refreshAll font) := by
  obtain ⟨hhr', hvr'⟩ := sides_lt t hhr hvr
  have hself : (g.refreshAll font).ctl.sheets0 back = (g.ctl.sheets0 back).withBuf
      ((taskbarPaint font g.wins).paint hr hr vr (desktopFill hr vr (g.ctl.sheets0 back).buf)) := by
    have hu : u32 hr = hr := Int.emod_eq_of_lt (by omega) hhr'
    have hv : u32 vr = vr := Int.emod_eq_of_lt (by omega) hvr'
    unfold Gui.refreshAll
    rw [hhook, if_pos rfl]
    change (g.ctl.repaintBack _).sheets0 back = _
    unfold repaintBack
    dsimp only
    rw [hbottom, setSheet_sheets0, if_pos rfl, h.bxsize, h.bysize, hu, hv]
    rfl
  have hfill := desktopFill_cells t hvr hvr'
  refine ⟨⟨⟨h.hr2, h.vr2, h.backfb, (congrArg Sheet.bxsize hself).trans h.bxsize,
    (congrArg Sheet.bysize hself).trans h.bysize, h.fits⟩, hhook, fun px py hp hclock hno => ?_⟩,
    fun px py hp hclock i slot hi hon => ?_⟩
  · rw [hself]
    exact (painted_blank t h.fits hp hno _).trans (drawn_at hfill hp rfl _)
  · rw [hself]
    exact painted_shows t h.fits hp hi hon _

/-- The clock stays in its corner. -/
theorem BarRight.clock (h : BarRight font back hr vr g) (hhr : 56 ≤ hr) (hvr : 40 ≤ vr) (now : Nat) :
    BarRight font back hr vr (g.clock font now) := by
  have hcorner : Draws (Cells hr vr fun px py v => v = 0 ∧ px < hr ∧ OnClock hr vr px py)
      (forUp 0 20 fun yy => forUp 0 56 fun xx bp =>
        Function.update bp (u32 ((vr - 20 + yy) * hr + (hr - 56 + xx))) 0) := by
    refine (Draws.forUp (fun y _ _ => Draws.forUp (fun x _ _ => Draws.update _ _) ?_) ?_).congr
      fun a v => ?_
    · rintro k l a v w - - - - ⟨-, rfl⟩ ⟨-, rfl⟩
      rfl
    · rintro k l a v w - - - - ⟨x, -, -, -, rfl⟩ ⟨x', -, -, -, rfl⟩
      rfl
    · constructor
      · rintro ⟨y, hy0, hy1, x, hx0, hx1, rfl, rfl⟩
        have hp : Visible hr vr (hr - 56 + x) (vr - 20 + y) :=
          ⟨⟨by omega, by omega⟩, by omega, by omega⟩
        exact ⟨hr - 56 + x, vr - 20 + y, hp, ⟨rfl, by omega, by unfold OnClock; omega⟩,
          visible_word t hp⟩
      · rintro ⟨px, py, hp, ⟨rfl, -, hx, hy⟩, rfl⟩
        have h1 := hp.1.2
        have h2 := hp.2.2
        refine ⟨py - (vr - 20), by omega, by omega, px - (hr - 56), by omega, by omega, ?_, rfl⟩
        rw [show vr - 20 + (py - (vr - 20)) = py by omega,
          show hr - 56 + (px - (hr - 56)) = px by omega, visible_word t hp]
  have htext := putStrC_cells t font (hr - 52) (vr - 14) (clockText now) 0x00FFFFFF
  unfold Gui.clock
  rw [h.backfb]
  dsimp only
  rw [h.hr2, h.vr2]
  generalize hbuf : putStrC font hr hr vr (hr - 52) (vr - 14) (clockText now) 0x00FFFFFF _ = buf
  have hkept : ∀ px py, Visible hr vr px py → ¬ OnClock hr vr px py →
      buf (py * hr + px) = (g.ctl.sheets0 back).buf (py * hr + px) := by
    intro px py hp hclock
    rw [← hbuf, kept_at htext hp, kept_at hcorner hp]
    · rintro v ⟨-, -, hon⟩
      exact hclock hon
    · rintro v ⟨-, ⟨hchar, hrow, -⟩⟩
      refine hclock ?_
      unfold OnClock
      omega
  have hself : (g.ctl.setSheet back ((g.ctl.sheets0 back).withBuf buf)).sheets0 back =
      (g.ctl.sheets0 back).withBuf buf := by rw [setSheet_sheets0, if_pos rfl]
  have hdrawn : BarRight font back hr vr
      { g with
        ctl := g.ctl.setSheet back ((g.ctl.sheets0 back).withBuf buf)
        backfb := some back, hr2 := hr, vr2 := vr } := by
    refine ⟨⟨⟨rfl, rfl, rfl, (congrArg Sheet.bxsize hself).trans h.bxsize,
      (congrArg Sheet.bysize hself).trans h.bysize, h.fits⟩, h.hooked,
      fun px py hp hclock hno => ?_⟩, fun px py hp hclock i slot hi hon => ?_⟩
    · rw [hself]
      exact (hkept px py hp hclock).trans (h.blank px py hp hclock hno)
    · rw [hself]
      change ButtonShows font vr slot i px py (buf (py * hr + px))
      rw [hkept px py hp hclock]
      exact h.shows px py hp hclock i slot hi hon
  exact hdrawn.same (.refreshBack _ _) (refreshBack_wins _ _)

end Bar

/-! ### Handlers -/

theorem WinSlot.Fits.setMin {g : Gui} (h : ∀ slot ∈ g.wins, slot.Fits) (i : Nat) (min : Int) :
    (∀ slot ∈ (g.setMin i min).wins, slot.Fits) ∧
      (g.setMin i min).wins.length = g.wins.length := by
  refine ⟨fun slot hslot => ?_, List.length_modify _ _ _⟩
  obtain ⟨j, hj⟩ := List.getElem?_of_mem hslot
  change (g.wins.modify i fun slot => { slot with min := min })[j]? = some slot at hj
  rw [List.getElem?_modify] at hj
  obtain ⟨old, hold, rfl⟩ := Option.map_eq_some_iff.mp hj
  have hfit := h old (List.mem_of_getElem? hold)
  split
  · exact hfit
  · exact hfit

section Handlers

variable {font : Font} {back cur : Sid} {hr vr : Int} {g : Gui} (t : Target hr hr vr)
  (hhr : 56 ≤ hr) (hvr : 40 ≤ vr)

namespace BarRight

theorem updown (r : BarRight font back hr vr g) (s : Sid) (height : Int) :
    BarRight font back hr vr (g.updown s height) :=
  r.same (.updown _ _ _) rfl

theorem withMouse (r : BarRight font back hr vr g) (mmx mmy : Int) (dragSht : Option Sid) :
    BarRight font back hr vr { g with mmx := mmx, mmy := mmy, dragSht := dragSht } :=
  r.same ⟨.refl _, rfl, rfl, rfl, rfl⟩ rfl

theorem setMin (r : BarRight font back hr vr g) (i : Nat) (min : Int) :
    BarBlank back hr vr (g.setMin i min) := by
  obtain ⟨hfits, hlen⟩ := WinSlot.Fits.setMin r.fits i min
  exact r.toBarBlank.same (.setMin _ _ _) hfits hlen

theorem bringUp (r : BarRight font back hr vr g) (j : Int) :
    BarRight font back hr vr (g.bringUp j) := by
  have hraise : BarRight font back hr vr
      (if j < g.ctl.top - 1 then g.updown (g.ctl.sheets j) (g.ctl.top - 1) else g) := by
    split
    · exact r.updown _ _
    · exact r
  unfold Gui.bringUp
  dsimp only
  split
  · exact hraise
  · exact hraise.updown _ _

theorem drag (r : BarRight font back hr vr g) : BarRight font back hr vr g.drag := by
  unfold Gui.drag
  dsimp only
  split
  · split
    · exact r.same ⟨.refl _, rfl, rfl, rfl, rfl⟩ rfl
    · exact r.same ⟨.sheetSlide _ _ _ _, rfl, rfl, rfl, rfl⟩ rfl
  · exact r

theorem moveCursor (r : BarRight font back hr vr g) (dx dy : Int) :
    BarRight font back hr vr (g.moveCursor dx dy) := by
  unfold Gui.moveCursor
  dsimp only
  split
  · exact r.same ⟨.refl _, rfl, rfl, rfl, rfl⟩ rfl
  · exact r.same ⟨.sheetSlide _ _ _ _, rfl, rfl, rfl, rfl⟩ rfl

include t

theorem hideSlot (r : BarRight font back hr vr g) (i : Nat) (s : Sid) :
    BarRight font back hr vr ((g.hideSlot i s).taskbarDraw font).refreshTaskbar :=
  (((r.setMin i 1).updown s _).dropDrag s).redrawBar t

theorem showSlot (r : BarRight font back hr vr g) (i : Nat) (s : Sid) :
    BarRight font back hr vr ((g.showSlot i s).taskbarDraw font).refreshTaskbar := by
  have hup := (r.setMin i 0).updown s g.ctl.top
  refine BarBlank.redrawBar t ?_
  unfold Gui.showSlot
  dsimp only
  split
  · exact hup
  · exact hup.updown _ _

theorem taskbarClick (r : BarRight font back hr vr g) (x y : Int) :
    BarRight font back hr vr (g.taskbarClick font x y) := by
  rcases taskbarClick_cases font g x y with heq | ⟨i, slot, s, -, -, ⟨-, heq⟩ | ⟨-, heq⟩⟩
  · rw [heq]
    exact r
  · rw [heq]
    exact r.showSlot t i s
  · rw [heq]
    exact r.hideSlot t i s

theorem winMinimize (r : BarRight font back hr vr g) (s : Sid) :
    BarRight font back hr vr (g.winMinimize font s) := by
  rcases winMinimize_cases font g s with heq | ⟨i, slot, -, -, heq⟩
  · rw [heq]
    exact r
  · rw [heq]
    exact r.hideSlot t i s

omit t in
theorem removed (r : BarRight font back hr vr g) (s : Sid) :
    BarBase back hr vr ((g.winRemove s).free s) ∧ ((g.winRemove s).free s).hooked = true := by
  have hsame := SameDesk.removed g s
  exact ⟨r.toBarBase.same hsame fun slot hslot => r.fits slot ((mem_winRemove g s).1 slot hslot),
    hsame.hooked.trans r.hooked⟩

include hhr hvr

theorem loginTeardown (r : BarRight font back hr vr g) (m : Mapped back g) (h : GuiInv back cur g) :
    BarRight font back hr vr (g.loginTeardown font) := by
  obtain ⟨hbase, hhook⟩ := r.removed g.login
  exact hbase.refreshAll t hhook
    (sheets_zero (m.removed h.loginUse h.loginNe.1).desktop.bottom) hhr hvr

theorem winClosed (r : BarRight font back hr vr g) (m : Mapped back g) {s : Sid}
    (hs : g.ctl.Settled s) (hback : s ≠ back) : BarRight font back hr vr (g.winClosed font s) := by
  obtain ⟨hbase, hhook⟩ := r.removed s
  have hdesk := ((m.removed hs hback).taskbarDraw font).desktop
  exact hbase.taskbarDraw.refreshAll t ((taskbarDraw_wins font _).2.trans hhook)
    (sheets_zero hdesk.bottom) hhr hvr

theorem clicked (r : BarRight font back hr vr g) (m : Mapped back g) (h : GuiInv back cur g)
    {j : Int} (h0 : 1 ≤ j) (h1 : j ≤ g.ctl.top) (hc : g.ctl.sheets j ≠ cur) :
    BarRight font back hr vr (g.clicked font j) := by
  have hb := h.sheets_ne_back h0 h1
  obtain ⟨hup, hiff⟩ := h.bringUp h0 h1 hc
  have rup := r.bringUp j
  have huse := hup.pinned.consistent.inUse_of_mem
    ((hiff _).mpr (mem_layers.mpr ⟨j, by omega, h1, rfl⟩))
  unfold Gui.clicked
  dsimp only
  split
  · exact (rup.winClosed t hhr hvr (m.bringUp h h0 h1 hc) (.inl huse) hb).withMouse _ _ _
  split
  · exact (rup.winMinimize t _).withMouse _ _ _
  split
  · exact rup.withMouse _ _ _
  · exact rup

theorem press (r : BarRight font back hr vr g) (m : Mapped back g) (h : GuiInv back cur g) :
    BarRight font back hr vr (g.press font) := by
  unfold Gui.press
  split
  · exact r.taskbarClick t _ _
  cases hhit : g.hitHeight with
  | none => exact r
  | some j =>
    obtain ⟨h0, h1, hc⟩ := h.hit_between hhit
    exact r.clicked t hhr hvr m h h0 h1 hc

theorem run (r : BarRight font back hr vr g) (m : Mapped back g) (h : GuiInv back cur g)
    {e : Event} (ok : e.Enabled g) : BarRight font back hr vr (e.run font g) := by
  cases e with
  | packet btn dx dy =>
    change BarRight font back hr vr (g.isr2cPacket font btn dx dy)
    unfold Gui.isr2cPacket
    dsimp only
    refine BarRight.moveCursor ?_ dx dy
    split
    · split
      · exact r.press t hhr hvr m h
      · exact r.drag
    · exact r.withMouse _ _ _
  | taskbar x y => exact r.taskbarClick t x y
  | minimize s => exact r.winMinimize t s
  | close s =>
    obtain ⟨hs, hb, -⟩ := ok
    exact r.winClosed t hhr hvr m (.inl hs) fun heq => hb (heq ▸ h.background)
  | teardown => exact r.loginTeardown t hhr hvr m h
  | tick now => exact r.clock t hhr hvr now

end BarRight

end Handlers

/-! ### Start-up -/

/-- The sheet has this size. -/
def Shtctl.Sized (ctl : Shtctl) (s : Sid) (xsize ysize : Int) : Prop :=
  (ctl.sheets0 s).bxsize = xsize ∧ (ctl.sheets0 s).bysize = ysize

theorem SameBufs.sized {c c' : Shtctl} (h : SameBufs c c') {s : Sid} {xsize ysize : Int}
    (hs : c.Sized s xsize ysize) : c'.Sized s xsize ysize :=
  ⟨(h s).2.1.trans hs.1, (h s).2.2.trans hs.2⟩

theorem addSheet_sized {ctl ctl' : Shtctl} {s : Sid} {buf : Buffer} {xsize ysize : Int}
    {colInv : Pixel} {vx0 vy0 height : Int}
    (h : addSheet ctl buf xsize ysize colInv vx0 vy0 height = some (s, ctl')) :
    ctl'.Sized s xsize ysize ∧
      ∀ t w d, t ≠ s → ctl.Sized t w d → ctl'.Sized t w d := by
  obtain ⟨-, rfl⟩ := addSheet_eq h
  refine ⟨(SameBufs.sheetUpdown _ _ _).sized ?_,
    fun t w d hne ht => (SameBufs.sheetUpdown _ _ _).sized ?_⟩
  · unfold Shtctl.Sized
    rw [setSheet_sheets0, if_pos rfl]
    exact ⟨rfl, rfl⟩
  · unfold Shtctl.Sized
    rw [setSheet_sheets0, if_neg hne]
    exact ht

theorem refreshAll_sized {ctl : Shtctl} (hook : Option TaskbarHook) {s : Sid} {w d : Int}
    (h : ctl.Sized s w d) : (ctl.shtctlRefreshAll hook).Sized s w d := by
  change (ctl.repaintBack hook).Sized s w d
  unfold repaintBack Shtctl.Sized
  dsimp only
  rw [setSheet_sheets0]
  split
  · rename_i heq
    rw [← heq]
    exact h
  · exact h

theorem startSheets_sized {b : StartUp} {ctl : Shtctl}
    (h : startSheets b = some (0, 1, 2, 3, ctl)) : ctl.Sized 0 b.hr b.vr := by
  unfold startSheets at h
  obtain ⟨⟨s0, c0⟩, h0, h⟩ := Option.bind_eq_some_iff.mp h
  obtain ⟨⟨s1, c1⟩, h1, h⟩ := Option.bind_eq_some_iff.mp h
  obtain ⟨⟨s2, c2⟩, h2, h⟩ := Option.bind_eq_some_iff.mp h
  obtain ⟨⟨s3, c3⟩, h3, h⟩ := Option.bind_eq_some_iff.mp h
  simp only [Option.some.injEq, Prod.mk.injEq] at h
  obtain ⟨rfl, rfl, rfl, rfl, rfl⟩ := h
  have d1 := (addSheet_sized h1).2 0 _ _ (by decide) (addSheet_sized h0).1
  have d2 := (addSheet_sized h2).2 0 _ _ (by decide) d1
  exact (addSheet_sized h3).2 0 _ _ (by decide) (refreshAll_sized none d2)

theorem startUp_bar {font : Font} {b : StartUp} {g : Gui} (t : Target b.hr b.hr b.vr)
    (hhr : 56 ≤ b.hr) (hvr : 40 ≤ b.vr) (h : startUp font b = some g) :
    BarRight font 0 b.hr b.vr g := by
  have m := startUp_mapped h
  obtain ⟨ctl, hstart, -⟩ := startSheets_opened b
  unfold startUp at h
  rw [hstart] at h
  obtain rfl := Option.some.inj h
  have hsize := refreshAll_sized none ((SameBufs.sheetUpdown ctl 2 ctl.top).sized
    (startSheets_sized hstart))
  have base : BarBase 0 b.hr b.vr
      { ctl := (ctl.sheetUpdown 2 ctl.top).shtctlRefreshAll none
        shadowShts := [some 1, some 3]
        wins := [⟨some 1, some titleWin, 0⟩, ⟨some 3, some titleLogin, 0⟩]
        backfb := some 0, backSht := some 0, hr2 := b.hr, vr2 := b.vr
        curSht := some 2, dragSht := none, loginSht := some 3
        mx := b.hr / 2, my := b.vr / 2, mmx := -1, mmy := -1, hooked := false
        win := 1, login := 3 } := by
    refine ⟨rfl, rfl, rfl, hsize.1, hsize.2, fun slot hslot => ?_⟩
    rcases List.mem_pair.mp hslot with rfl | rfl
    · exact ⟨titleWin, rfl, by decide⟩
    · exact ⟨titleLogin, rfl, by decide⟩
  refine base.taskbarDraw.hook.refreshAll t rfl ?_ hhr hvr
  rw [← (sameShape_refreshAll _ _).sheets]
  exact sheets_zero m.desktop.bottom

theorem Reachable.bar {font : Font} {b : StartUp} {g : Gui} (h : Reachable font b g)
    (t : Target b.hr b.hr b.vr) (hhr : 56 ≤ b.hr) (hvr : 40 ≤ b.vr) :
    BarRight font 0 b.hr b.vr g := by
  induction h with
  | start h => exact startUp_bar t hhr hvr h
  | step hg e ok ih => exact ih.run t hhr hvr hg.mapped hg.inv ok

/-! ### What a click does -/

theorem BarBase.buttonAt {back : Sid} {hr vr : Int} {g : Gui} (h : BarBase back hr vr g) {i : Nat}
    {slot : WinSlot} (hi : g.wins[i]? = some slot) {px py : Int} (hon : OnBarButton vr i px py) :
    g.buttonAt px = some i := by
  obtain ⟨hlt, -⟩ := List.getElem?_eq_some_iff.mp hi
  obtain ⟨title, htitle, -⟩ := h.fits slot (List.mem_of_getElem? hi)
  have hx := hon.1
  refine List.find?_range_eq_some.mpr ⟨?_, List.mem_range.mpr hlt, fun j hj => ?_⟩
  · simp [hi, htitle, hx]
  · simp
    omega

/-- The windows after a click on button `i`. -/
theorem BarBase.taskbarClick_wins {back cur : Sid} {hr vr : Int} {g : Gui}
    (h : BarBase back hr vr g) (hinv : GuiInv back cur g) {i : Nat} {slot : WinSlot}
    (hi : g.wins[i]? = some slot) {px py : Int} (hon : OnBarButton vr i px py) (font : Font) :
    (g.taskbarClick font px py).wins = g.wins.modify i fun slot =>
      { slot with min := if slot.min = 0 then 1 else 0 } := by
  obtain ⟨s, hs, -⟩ := hinv.slots slot (List.mem_of_getElem? hi)
  have hrow := hon.2
  have hmodify : ∀ min : Int, min = (if slot.min = 0 then 1 else 0) →
      (g.setMin i min).wins = g.wins.modify i fun slot =>
        { slot with min := if slot.min = 0 then 1 else 0 } := by
    rintro min rfl
    apply List.ext_getElem?
    intro j
    change (g.wins.modify i _)[j]? = _
    rw [List.getElem?_modify, List.getElem?_modify]
    by_cases hij : i = j
    · subst hij
      simp [hi]
    · simp [hij]
  unfold Gui.taskbarClick
  rw [if_neg (by rw [h.backfb, h.vr2]; simp; omega), h.buttonAt hi hon]
  dsimp only
  rw [hi]
  dsimp only
  rw [hs]
  dsimp only
  refine (refreshBack_wins _ _).trans ((taskbarDraw_wins font _).1.trans ?_)
  split
  · rename_i hmin
    have hzero := hmodify 0 (by rw [if_neg hmin])
    split
    · exact hzero
    · exact hzero
  · rename_i hmin
    exact hmodify 1 (by rw [if_pos (not_not.mp hmin)])

theorem GuiInv.slot_hidden {back cur : Sid} {g : Gui} (h : GuiInv back cur g) {slot : WinSlot}
    (hslot : slot ∈ g.wins) : ∃ s, slot.sht = some s ∧ (slot.min = 0 ∨ slot.min = 1) ∧
      (g.ctl.height s = -1 ↔ slot.min ≠ 0) := by
  obtain ⟨s, hs, huse, -, -, hmin, hvis⟩ := h.slots slot hslot
  refine ⟨s, hs, hmin, ((h.pinned.consistent.hidden_iff huse).trans hvis.symm).trans ?_⟩
  constructor
  · intro hone
    rw [hone]
    exact one_ne_zero
  · exact hmin.resolve_left

/-- A pixel of the buffer of the background. -/
def Gui.desk (g : Gui) (back : Sid) (hr px py : Int) : Pixel :=
  (g.ctl.sheets0 back).buf (py * hr + px)

section Reachable

variable {font : Font} {b : StartUp} {g : Gui} (h : Reachable font b g)
  (t : Target b.hr b.hr b.vr) (hhr : 56 ≤ b.hr) (hvr : 40 ≤ b.vr)
include h t hhr hvr

/-- Beside the clock the buffer of the background shows after every sequence of events the desktop
and one button for each window, dark exactly when that is hidden; a click on it finds it. -/
theorem Reachable.taskbar_shows {px py : Int} (hp : Visible b.hr b.vr px py)
    (hclock : ¬ OnClock b.hr b.vr px py) :
    ((∀ i < g.wins.length, ¬ OnBarButton b.vr i px py) →
      g.desk 0 b.hr px py = desktopPixel b.vr py) ∧
    ∀ i slot, g.wins[i]? = some slot → OnBarButton b.vr i px py →
      g.buttonAt px = some i ∧ ∃ s, slot.sht = some s ∧
        (OnTitle font b.vr slot i px py → g.desk 0 b.hr px py = 0x00FFFFFF) ∧
        (¬ OnTitle font b.vr slot i px py →
          g.desk 0 b.hr px py = if g.ctl.height s = -1 then 0x00202020 else 0x004A4A4A) := by
  have r := h.bar t hhr hvr
  refine ⟨r.blank px py hp hclock, fun i slot hi hon => ?_⟩
  obtain ⟨s, hs, -, hhid⟩ := h.inv.slot_hidden (List.mem_of_getElem? hi)
  obtain ⟨hwhite, hbg⟩ := r.shows px py hp hclock i slot hi hon
  refine ⟨r.buttonAt hi hon, s, hs, hwhite, fun hno => (hbg hno).trans ?_⟩
  simp only [hhid]

/-- A click on a button shows its window or hides it, changes the colour of this button and
nothing else of the task bar, and leaves the other windows shown or hidden as they were. -/
theorem Reachable.taskbarClick_flips {px py : Int} {i : Nat} {slot : WinSlot}
    (hi : g.wins[i]? = some slot) (hon : OnBarButton b.vr i px py) :
    (∃ s, slot.sht = some s ∧
      ((g.taskbarClick font px py).ctl.height s = -1 ↔ g.ctl.height s ≠ -1) ∧
      ∀ qx qy, Visible b.hr b.vr qx qy → ¬ OnClock b.hr b.vr qx qy →
        OnBarButton b.vr i qx qy → ¬ OnTitle font b.vr slot i qx qy →
        g.desk 0 b.hr qx qy = (if g.ctl.height s = -1 then 0x00202020 else 0x004A4A4A) ∧
          (g.taskbarClick font px py).desk 0 b.hr qx qy =
            if g.ctl.height s = -1 then 0x004A4A4A else 0x00202020) ∧
    (∀ qx qy, Visible b.hr b.vr qx qy → ¬ OnClock b.hr b.vr qx qy →
      ¬ OnBarButton b.vr i qx qy ∨ OnTitle font b.vr slot i qx qy →
      (g.taskbarClick font px py).desk 0 b.hr qx qy = g.desk 0 b.hr qx qy) ∧
    ∀ j other, j ≠ i → g.wins[j]? = some other → ∃ s, other.sht = some s ∧
      ((g.taskbarClick font px py).ctl.height s = -1 ↔ g.ctl.height s = -1) := by
  have r := h.bar t hhr hvr
  have h' : Reachable font b (g.taskbarClick font px py) := .step h (.taskbar px py) trivial
  have r' := h'.bar t hhr hvr
  have hwins := r.toBarBase.taskbarClick_wins h.inv hi hon font
  have hsame : ∀ j, j ≠ i → (g.taskbarClick font px py).wins[j]? = g.wins[j]? := fun j hj => by
    rw [hwins, List.getElem?_modify_ne _ _ hj.symm]
  have hself : (g.taskbarClick font px py).wins[i]? =
      some { slot with min := if slot.min = 0 then 1 else 0 } := by
    rw [hwins, List.getElem?_modify_eq, hi]
    rfl
  refine ⟨?_, fun qx qy hq hclock hout => ?_, fun j other hj hother => ?_⟩
  · obtain ⟨s, hs, hmin, hhid⟩ := h.inv.slot_hidden (List.mem_of_getElem? hi)
    obtain ⟨s', hs', -, hhid'⟩ := h'.inv.slot_hidden (List.mem_of_getElem? hself)
    obtain rfl : s = s' := Option.some.inj (hs.symm.trans hs')
    refine ⟨s, hs, ?_, fun qx qy hq hclock hq' hno => ?_⟩
    · refine hhid'.trans (Iff.trans ?_ (not_congr hhid).symm)
      change (if slot.min = 0 then (1 : Int) else 0) ≠ 0 ↔ ¬ slot.min ≠ 0
      by_cases hzero : slot.min = 0
      · simp [hzero]
      · simp [hzero]
    · have hold := (r.shows qx qy hq hclock i slot hi hq').2 hno
      have hnew := (r'.shows qx qy hq hclock i _ hself hq').2 hno
      refine ⟨hold.trans (by simp only [hhid]), hnew.trans ?_⟩
      rcases hmin with hzero | hone
      · rw [if_neg (hhid.not.mpr (not_not.mpr hzero)), hzero]
        rfl
      · rw [if_pos (hhid.mpr (by rw [hone]; exact one_ne_zero)), hone]
        rfl
  -- elsewhere the same window is drawn, with the same flag, or the desktop
  · by_cases hany : ∃ j < g.wins.length, OnBarButton b.vr j qx qy
    · obtain ⟨j, hlt, hqj⟩ := hany
      have hj := List.getElem?_eq_getElem hlt
      by_cases hji : j = i
      · subst hji
        have htext := hout.resolve_left (not_not.mpr hqj)
        exact ((r'.shows qx qy hq hclock j _ hself hqj).1 htext).trans
          ((r.shows qx qy hq hclock j slot hi hqj).1 htext).symm
      · have hold := r.shows qx qy hq hclock j _ hj hqj
        have hnew := r'.shows qx qy hq hclock j _ ((hsame j hji).trans hj) hqj
        exact hnew.unique hold
    · have hno : ∀ j < g.wins.length, ¬ OnBarButton b.vr j qx qy := fun j hlt hqj =>
        hany ⟨j, hlt, hqj⟩
      refine (r'.blank qx qy hq hclock fun j hlt => hno j ?_).trans (r.blank qx qy hq hclock hno).symm
      rwa [hwins, List.length_modify] at hlt
  · obtain ⟨s, hs, -, hhid⟩ := h.inv.slot_hidden (List.mem_of_getElem? hother)
    obtain ⟨s', hs', -, hhid'⟩ :=
      h'.inv.slot_hidden (List.mem_of_getElem? ((hsame j hj).trans hother))
    obtain rfl : s = s' := Option.some.inj (hs.symm.trans hs')
    exact ⟨s, hs, hhid'.trans hhid.symm⟩

end Reachable

theorem refreshAll_wins (font : Font) (g : Gui) :
    (({ g.taskbarDraw font with hooked := true } : Gui).refreshAll font).wins = g.wins :=
  (taskbarDraw_wins font g).1

theorem startUp_wins {font : Font} {b : StartUp} {g : Gui} (h : startUp font b = some g) :
    g.wins = [⟨some 1, some titleWin, 0⟩, ⟨some 3, some titleLogin, 0⟩] := by
  obtain ⟨ctl, hstart, -⟩ := startSheets_opened b
  unfold startUp at h
  rw [hstart] at h
  rw [← Option.some.inj h]
  exact refreshAll_wins font _

theorem blankStart_target : Target blankStart.hr blankStart.hr blankStart.vr :=
  ⟨by decide, by decide, by decide, by decide⟩

/-- After the login the desktop is still the desktop. -/
theorem taskbar_shows_blankStart : ∃ g, Reachable (fun _ _ => 0) blankStart g ∧
    g.desk 0 800 100 100 = 0x00008080 := by
  obtain ⟨g, hg, -⟩ := startUp_inv (fun _ _ => 0) blankStart
  have hreach := Reachable.step (.start hg) .teardown trivial
  refine ⟨_, hreach, (hreach.taskbar_shows blankStart_target (by decide) (by decide)
    (by unfold Visible; decide) (by unfold OnClock; decide)).1 fun i _ hon => ?_⟩
  have hrow := hon.2
  change (600 : Int) - 33 ≤ 100 ∧ _ at hrow
  omega

/-- A click on the button of the first window of the blank desk hides it. -/
theorem taskbarClick_flips_blankStart : ∃ g, startUp (fun _ _ => 0) blankStart = some g ∧
    ((g.taskbarClick (fun _ _ => 0) 10 570).ctl.height 1 = -1 ↔ g.ctl.height 1 ≠ -1) := by
  obtain ⟨g, hg, -⟩ := startUp_inv (fun _ _ => 0) blankStart
  have hwins := startUp_wins hg
  have hi : g.wins[0]? = some ⟨some 1, some titleWin, 0⟩ := by rw [hwins]; rfl
  have hon : OnBarButton blankStart.vr 0 10 570 := by
    unfold OnBarButton
    decide
  obtain ⟨s, hs, hflip, -⟩ := (Reachable.taskbarClick_flips (.start hg) blankStart_target
    (by decide) (by decide) hi hon).1
  obtain rfl : 1 = s := Option.some.inj hs
  exact ⟨g, hg, hflip⟩

end WinDOS
