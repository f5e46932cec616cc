import WinDOS.Gui.PointerMove
import WinDOS.Window.Compose

/-!
# The layer map under every sequence of GUI events

The handlers draw to the background only, whose pixels are all opaque, and never name it in a
call that moves, restacks or frees a sheet. A sheet being dragged may have been freed before:
it is hidden then, and moving it changes no pixel. So the map names the topmost sheet in every
state that the events of the GUI reach.
-/

set_option autoImplicit false

namespace WinDOS

open Shtctl Gui Layers

/-- A sheet in use, or one that was hidden before it was freed. -/
def Shtctl.Settled (ctl : Shtctl) (s : Sid) : Prop := ctl.inUse s ∨ ctl.height s < 0

structure Mapped (back : Sid) (g : Gui) : Prop where
  desktop : Desktop g.ctl back
  map : MapRight g.ctl
  backfb : g.backfb = some back
  drag : ∀ s, g.dragSht = some s → s ≠ back ∧ g.ctl.Settled s

theorem Shtctl.SameShape.settled {a b : Shtctl} (h : SameShape a b) {s : Sid}
    (hs : a.Settled s) : b.Settled s := by
  unfold Shtctl.Settled
  rw [h.inUse, h.height]
  exact hs

/-- Drawing to an opaque sheet keeps every pixel opaque. -/
theorem Shtctl.Desktop.keepsOpacity {ctl : Shtctl} {back : Sid} (hd : Desktop ctl back)
    (buf : Buffer) : KeepsOpacity (ctl.sheets0 back) buf := by
  intro bX bY _ _ _ _
  unfold Sheet.registers
  rw [show ((ctl.sheets0 back).withBuf buf).colInv = colInvNone from hd.solid, hd.solid]
  rfl

namespace Mapped

variable {back : Sid} {g : Gui}

theorem of_shape {g' : Gui} (m : Mapped back g) (hd : Desktop g'.ctl back)
    (hmap : MapRight g'.ctl) (hfb : g'.backfb = g.backfb) (hdrag : g'.dragSht = g.dragSht)
    (hshape : SameShape g.ctl g'.ctl) : Mapped back g' := by
  refine ⟨hd, hmap, hfb.trans m.backfb, fun s hs => ?_⟩
  obtain ⟨hb, hset⟩ := m.drag s (hdrag ▸ hs)
  exact ⟨hb, hshape.settled hset⟩

/-! ### Drawing and refreshing -/

theorem draw (m : Mapped back g) (buf : Buffer) :
    Mapped back { g with ctl := g.ctl.draw back buf } :=
  m.of_shape (m.desktop.draw back buf) (draw_step m.map (m.desktop.keepsOpacity buf)) rfl rfl
    (sameShape_setSheet rfl rfl)

theorem refreshBack (m : Mapped back g) (b : Rect) : Mapped back (g.refreshBack b) := by
  unfold Gui.refreshBack
  split
  · exact m
  · rename_i s _
    obtain ⟨hsame, hmap⟩ := sameStack_sheetRefresh g.shadowShts g.ctl s b
    exact m.of_shape (hsame.desktop m.desktop) (SameStack.mapRight m.map hsame hmap) rfl rfl
      hsame.sameShape

theorem taskbarDraw (m : Mapped back g) (font : Font) : Mapped back (g.taskbarDraw font) := by
  unfold Gui.taskbarDraw
  split
  · exact m
  · rename_i s hs
    obtain rfl : back = s := Option.some.inj (m.backfb.symm.trans hs)
    exact m.draw _

theorem redrawBar (m : Mapped back g) (font : Font) :
    Mapped back (g.taskbarDraw font).refreshTaskbar :=
  (m.taskbarDraw font).refreshBack _

theorem clock (m : Mapped back g) (font : Font) (now : Nat) :
    Mapped back (g.clock font now) := by
  unfold Gui.clock
  split
  · exact m
  · rename_i s hs
    obtain rfl : back = s := Option.some.inj (m.backfb.symm.trans hs)
    exact (m.draw _).refreshBack _

theorem refreshAll_right {ctl : Shtctl} (hd : Desktop ctl back) (hook : Option TaskbarHook) :
    Desktop (ctl.shtctlRefreshAll hook) back ∧ MapRight (ctl.shtctlRefreshAll hook) := by
  rw [shtctlRefreshAll_eq]
  have hd' := repaintBack_desktop hd hook
  refine ⟨(sameStack_redrawAll _).desktop hd', ?_⟩
  exact refreshmap_all_right hd' fun _ _ hon => screen_contains hon

theorem refreshAll (m : Mapped back g) (font : Font) : Mapped back (g.refreshAll font) := by
  obtain ⟨hd, hmap⟩ := refreshAll_right m.desktop
    (if g.hooked then some (taskbarPaint font g.wins) else none)
  exact m.of_shape hd hmap rfl rfl (sameShape_refreshAll _ _)

theorem hook (m : Mapped back g) : Mapped back { g with hooked := true } :=
  ⟨m.desktop, m.map, m.backfb, m.drag⟩

/-! ### Calls on one sheet -/

theorem setMin (m : Mapped back g) (i : Nat) (min : Int) : Mapped back (g.setMin i min) :=
  ⟨m.desktop, m.map, m.backfb, m.drag⟩

theorem withMouse (m : Mapped back g) (mmx mmy : Int) (dragSht : Option Sid)
    (hdrag : ∀ s, dragSht = some s → s ≠ back ∧ g.ctl.Settled s) :
    Mapped back { g with mmx := mmx, mmy := mmy, dragSht := dragSht } :=
  ⟨m.desktop, m.map, m.backfb, hdrag⟩

theorem dropDrag (m : Mapped back g) (s : Sid) : Mapped back (g.dropDrag s) := by
  refine m.withMouse _ _ _ fun t ht => ?_
  split at ht
  · exact nomatch ht
  · exact m.drag t ht

/-- Restacking one sheet in use leaves every other sheet settled. -/
theorem settled_updown {ctl : Shtctl} (hd : Desktop ctl back) {s t : Sid} {height : Int}
    (hs : ctl.inUse s) (hback : s = back ↔ height = 0)
    (htarget : 0 ≤ ctl.height s → height ≤ ctl.top) (ht : ctl.Settled t) :
    (ctl.sheetUpdown s height).Settled t := by
  obtain ⟨st, hre, -, h⟩ := hd.updown hs hback htarget
  refine h.sameStack.sameShape.settled ?_
  by_cases huse : ctl.inUse t
  · refine .inl ?_
    rw [inUse, hre.frame.sheet]
    exact huse
  · have hhid := ht.resolve_left huse
    refine .inr ?_
    rw [hre.hidden t (fun heq => huse (heq ▸ hs)) fun hm =>
      huse (hd.consistent.inUse_of_mem hm)]
    exact hhid

theorem updown (m : Mapped back g) {s : Sid} {height : Int} (hs : g.ctl.inUse s)
    (hback : s ≠ back) (hheight : height ≠ 0) (htarget : 0 ≤ g.ctl.height s → height ≤ g.ctl.top) :
    Mapped back (g.updown s height) := by
  have hiff : s = back ↔ height = 0 := iff_of_false hback hheight
  obtain ⟨hd, hmap, -⟩ := updown_step m.desktop m.map height hs hiff htarget
  refine ⟨hd, hmap, m.backfb, fun t ht => ?_⟩
  obtain ⟨hb, hset⟩ := m.drag t ht
  exact ⟨hb, settled_updown m.desktop hs hiff htarget hset⟩

theorem slide_right {ctl : Shtctl} (hd : Desktop ctl back) (hmap : MapRight ctl) {s : Sid}
    (hs : ctl.Settled s) (hback : s ≠ back) (vx0 vy0 : Int) :
    Desktop (ctl.sheetSlide s vx0 vy0) back ∧ MapRight (ctl.sheetSlide s vx0 vy0) := by
  by_cases huse : ctl.inUse s
  · exact slide_step hd hmap huse fun heq => absurd heq hback
  -- a freed sheet is hidden: only its position changes
  · have hhid : ¬ 0 ≤ ctl.height s := not_le.mpr (hs.resolve_left huse)
    rw [sheetSlide_hidden hhid]
    have hnot : s ∉ ctl.layers := fun hm => hhid (hd.consistent.height_of_mem hm).1
    refine ⟨hd.setSheet rfl (fun hu => hu) (fun hm => absurd hm hnot)
      fun heq => absurd heq hback, fun x y hon => ?_⟩
    have howner : (ctl.setSheet s ((ctl.sheets0 s).moveTo vx0 vy0)).owner x y =
        ctl.owner x y :=
      topmost_congr fun t ht => setSheet_opaqueLayer_ne
        (fun h => hhid (hd.consistent.height_of_mem (h ▸ ht)).1) _ x y
    rw [howner]
    exact hmap x y hon

theorem slide (m : Mapped back g) {s : Sid} (hs : g.ctl.Settled s) (hback : s ≠ back)
    (vx0 vy0 : Int) : Mapped back (g.slide s vx0 vy0) := by
  obtain ⟨hd, hmap⟩ := slide_right m.desktop m.map hs hback vx0 vy0
  exact m.of_shape hd hmap rfl rfl (sameShape_slide _ _ _ _)

theorem free_right {ctl : Shtctl} (hd : Desktop ctl back) (hmap : MapRight ctl) {s : Sid}
    (hs : ctl.Settled s) (hback : s ≠ back) :
    Desktop (ctl.sheetFree s) back ∧ MapRight (ctl.sheetFree s) ∧
      ∀ t, ctl.Settled t → (ctl.sheetFree s).Settled t := by
  obtain ⟨c, hfree, hnot, hneg, hdc, hmc, hset⟩ : ∃ c,
      ctl.sheetFree s = c.setSheet s { c.sheets0 s with flags := 0 } ∧ s ∉ c.layers ∧
      c.height s < 0 ∧ Desktop c back ∧ MapRight c ∧ ∀ t, ctl.Settled t → c.Settled t := by
    by_cases huse : ctl.inUse s
    · obtain ⟨c, hfree, hnot, hneg, hc⟩ := free_hides hd hmap huse hback
      refine ⟨c, hfree, hnot, hneg, ?_⟩
      rcases hc with rfl | ⟨-, rfl⟩
      · exact ⟨hd, hmap, fun _ ht => ht⟩
      · have htop := hd.top_nonneg
        have hiff : s = back ↔ (-1 : Int) = 0 := by simp [hback]
        obtain ⟨h1, h2, -⟩ := updown_step hd hmap (-1) huse hiff fun _ => by omega
        exact ⟨h1, h2, fun t => settled_updown hd huse hiff fun _ => by omega⟩
    · have hhid := hs.resolve_left huse
      refine ⟨ctl, ?_, fun hm => ?_, hhid, hd, hmap, fun _ ht => ht⟩
      · unfold sheetFree
        rw [if_neg (not_le.mpr hhid)]
      · exact huse (hd.consistent.inUse_of_mem hm)
  have hheight : ∀ t, (ctl.sheetFree s).height t = c.height t := by
    intro t
    rw [hfree, height, setSheet_sheets0]
    split
    · rename_i ht
      rw [ht]
      rfl
    · rfl
  refine ⟨?_, fun x y hon => ?_, fun t ht => ?_⟩
  · rw [hfree]
    exact hdc.setSheet rfl (fun h => absurd rfl h) (fun h => absurd h hnot)
      fun h => absurd h hback
  · rw [hfree] at hon ⊢
    rw [@setSheet_owner c s { c.sheets0 s with flags := 0 } _ _ rfl]
    exact hmc x y hon
  · by_cases hts : t = s
    · subst hts
      refine .inr ?_
      rw [hheight]
      exact hneg
    · refine (hset t ht).imp (fun hu => ?_) fun hh => ?_
      · rw [inUse, hfree, setSheet_sheets0, if_neg hts]
        exact hu
      · rw [hheight]
        exact hh

theorem free (m : Mapped back g) {s : Sid} (hs : g.ctl.Settled s) (hback : s ≠ back) :
    Mapped back (g.free s) := by
  obtain ⟨hd, hmap, hset⟩ := free_right m.desktop m.map hs hback
  refine ⟨hd, hmap, m.backfb, fun t ht => ?_⟩
  obtain ⟨hb, ht'⟩ := m.drag t ht
  exact ⟨hb, hset t ht'⟩

theorem winRemove_ctl (g : Gui) (s : Sid) : (g.winRemove s).ctl = g.ctl := by
  unfold Gui.winRemove
  split <;> rfl

theorem winRemove (m : Mapped back g) (s : Sid) : Mapped back (g.winRemove s) := by
  unfold Gui.winRemove
  split
  · exact m
  · exact ⟨m.desktop, m.map, m.backfb, m.drag⟩

theorem removed (m : Mapped back g) {s : Sid} (hs : g.ctl.Settled s) (hback : s ≠ back) :
    Mapped back ((g.winRemove s).free s) :=
  (m.winRemove s).free (by rwa [winRemove_ctl]) hback

theorem winClosed (m : Mapped back g) (font : Font) {s : Sid} (hs : g.ctl.Settled s)
    (hback : s ≠ back) : Mapped back (g.winClosed font s) :=
  ((m.removed hs hback).taskbarDraw font).refreshAll font

/-! ### Handlers -/

section Handlers

variable {cur : Sid} (m : Mapped back g) (h : GuiInv back cur g) (font : Font)
include m h

theorem minimised {i : Nat} {slot : WinSlot} {s : Sid} (hi : g.wins[i]? = some slot)
    (hslot : slot.sht = some s) : Mapped back (g.hideSlot i s) := by
  obtain ⟨t, ht, huse, hb, -⟩ := h.slots slot (List.mem_of_getElem? hi)
  obtain rfl : s = t := Option.some.inj (hslot.symm.trans ht)
  have htop := h.pinned.top_pos
  exact ((m.setMin i 1).updown huse hb (by decide) fun _ => by
    change (-1 : Int) ≤ g.ctl.top
    omega).dropDrag s

theorem restored {i : Nat} {slot : WinSlot} {s : Sid} (hi : g.wins[i]? = some slot)
    (hslot : slot.sht = some s) : Mapped back ((g.setMin i 0).updown s g.ctl.top) := by
  obtain ⟨t, ht, huse, hb, -⟩ := h.slots slot (List.mem_of_getElem? hi)
  obtain rfl : s = t := Option.some.inj (hslot.symm.trans ht)
  have htop := h.pinned.top_pos
  exact (m.setMin i 0).updown huse hb (by omega) fun _ => le_refl _

theorem showSlot {i : Nat} {slot : WinSlot} {s : Sid} (hi : g.wins[i]? = some slot)
    (hslot : slot.sht = some s) (hmin : slot.min ≠ 0) : Mapped back (g.showSlot i s) := by
  have hup := m.restored h hi hslot
  unfold Gui.showSlot
  dsimp only
  split
  · exact hup
  · rename_i c hc
    rwa [(h.restored hi hslot hmin).cursor_on_top hc]

theorem taskbarClick (x y : Int) : Mapped back (g.taskbarClick font x y) := by
  rcases taskbarClick_cases font g x y with heq | ⟨i, slot, s, hi, hslot, ⟨hmin, heq⟩ | ⟨-, heq⟩⟩
  · rw [heq]
    exact m
  · rw [heq]
    exact (m.showSlot h hi hslot hmin).redrawBar font
  · rw [heq]
    exact (m.minimised h hi hslot).redrawBar font

theorem winMinimize (s : Sid) : Mapped back (g.winMinimize font s) := by
  rcases winMinimize_cases font g s with heq | ⟨i, slot, hi, hslot, heq⟩
  · rw [heq]
    exact m
  · rw [heq]
    exact (m.minimised h hi hslot).redrawBar font

theorem loginTeardown : Mapped back (g.loginTeardown font) :=
  (m.removed h.loginUse h.loginNe.1).refreshAll font

theorem bringUp {j : Int} (h0 : 1 ≤ j) (h1 : j ≤ g.ctl.top) (hc : g.ctl.sheets j ≠ cur) :
    Mapped back (g.bringUp j) := by
  have hmem : g.ctl.sheets j ∈ g.ctl.layers := mem_layers.mpr ⟨j, by omega, h1, rfl⟩
  have hb := h.sheets_ne_back h0 h1
  have hlen := h.pinned.consistent.others_length (s := g.ctl.sheets j)
  rw [if_pos hmem] at hlen
  unfold Gui.bringUp
  dsimp only
  by_cases hj : j < g.ctl.top - 1
  · have hr := (h.raised hmem hb hc (g.ctl.top - 1) (by omega) (by omega)).1
    have hm : Mapped back (g.updown (g.ctl.sheets j) (g.ctl.top - 1)) :=
      m.updown (h.pinned.consistent.inUse_of_mem hmem) hb (by omega) fun _ => by omega
    simp only [if_pos hj]
    split
    · exact hm
    · rename_i c hcur
      rwa [hr.cursor_on_top hcur]
  · simp only [if_neg hj]
    split
    · exact m
    · rename_i c hcur
      rwa [h.cursor_on_top hcur]

theorem clicked {j : Int} (h0 : 1 ≤ j) (h1 : j ≤ g.ctl.top) (hc : g.ctl.sheets j ≠ cur) :
    Mapped back (g.clicked font j) := by
  have hb := h.sheets_ne_back h0 h1
  obtain ⟨hup, hiff⟩ := h.bringUp h0 h1 hc
  have mup := m.bringUp h h0 h1 hc
  have huse := hup.pinned.consistent.inUse_of_mem
    ((hiff _).mpr (mem_layers.mpr ⟨j, by omega, h1, rfl⟩))
  unfold Gui.clicked
  dsimp only
  split
  · exact (mup.winClosed font (.inl huse) hb).withMouse _ _ _ fun _ hs => nomatch hs
  split
  · exact (mup.winMinimize hup font _).withMouse _ _ _ fun _ hs => nomatch hs
  split
  · refine mup.withMouse _ _ _ fun s hs => ?_
    obtain rfl := Option.some.inj hs
    exact ⟨hb, .inl huse⟩
  · exact mup

theorem press : Mapped back (g.press font) := by
  unfold Gui.press
  split
  · exact m.taskbarClick h font _ _
  cases hhit : g.hitHeight with
  | none => exact m
  | some j =>
    obtain ⟨h0, h1, hc⟩ := h.hit_between hhit
    exact m.clicked h font h0 h1 hc

omit h in
theorem dragged : Mapped back g.drag := by
  unfold Gui.drag
  dsimp only
  split
  · split
    · exact ⟨m.desktop, m.map, m.backfb, m.drag⟩
    · rename_i s hs
      obtain ⟨hb, hset⟩ := m.drag s hs
      have hslide := m.slide hset hb ((g.ctl.sheets0 s).vx0 + (g.mx - g.mmx))
        ((g.ctl.sheets0 s).vy0 + (g.my - g.mmy))
      exact ⟨hslide.desktop, hslide.map, hslide.backfb, hslide.drag⟩
  · exact m

theorem moveCursor (dx dy : Int) : Mapped back (g.moveCursor dx dy) := by
  unfold Gui.moveCursor
  dsimp only
  split
  · exact ⟨m.desktop, m.map, m.backfb, m.drag⟩
  · rename_i c hc
    obtain rfl : cur = c := Option.some.inj (h.cursor.symm.trans hc)
    have huse := h.pinned.consistent.inUse_of_mem h.pinned.cur_mem
    generalize (if (if g.mx + dx < 0 then 0 else g.mx + dx) > g.ctl.xsize - CUR_H then
      g.ctl.xsize - 1 else (if g.mx + dx < 0 then 0 else g.mx + dx)) = mx
    generalize (if (if g.my + dy < 0 then 0 else g.my + dy) > g.ctl.ysize - CUR_H then
      g.ctl.ysize - 1 else (if g.my + dy < 0 then 0 else g.my + dy)) = my
    have hslide := m.slide (.inl huse) h.pinned.ne.symm mx my
    exact ⟨hslide.desktop, hslide.map, hslide.backfb, hslide.drag⟩

theorem isr2cPacket (btn : Nat) (dx dy : Int) : Mapped back (g.isr2cPacket font btn dx dy) := by
  unfold Gui.isr2cPacket
  dsimp only
  split
  · split
    · exact (m.press h font).moveCursor (h.press font) dx dy
    · exact m.dragged.moveCursor ((sameGui_drag g).inv h) dx dy
  · exact (m.withMouse (-1) g.mmy none fun _ hs => nomatch hs).moveCursor (h.withMouse _ _ _) dx dy

theorem run {e : Event} (ok : e.Enabled g) : Mapped back (e.run font g) := by
  cases e with
  | packet btn dx dy => exact m.isr2cPacket h font btn dx dy
  | taskbar x y => exact m.taskbarClick h font x y
  | minimize s => exact m.winMinimize h font s
  | close s =>
    obtain ⟨hs, hb, -⟩ := ok
    exact m.winClosed font (.inl hs) fun heq => hb (heq ▸ h.background)
  | teardown => exact m.loginTeardown h font
  | tick now => exact m.clock font now

end Handlers

end Mapped

/-! ### Start-up -/

/-- A new sheet takes a free place of the pool and is shown from there. -/
theorem addSheet_eq {ctl ctl' : Shtctl} {s : Sid} {buf : Buffer} {xsize ysize : Int}
    {colInv : Pixel} {vx0 vy0 height : Int}
    (h : addSheet ctl buf xsize ysize colInv vx0 vy0 height = some (s, ctl')) :
    (ctl.sheets0 s).flags = 0 ∧ ctl' = (ctl.setSheet s
      { buf := buf, bxsize := xsize, bysize := ysize, vx0 := vx0, vy0 := vy0, colInv := colInv
        height := -1, flags := 1 }).sheetUpdown s height := by
  unfold addSheet at h
  split at h
  · contradiction
  rename_i s' c halloc
  unfold sheetAlloc at halloc
  split at halloc
  · contradiction
  rename_i s'' hfind
  obtain ⟨rfl, rfl⟩ := Prod.mk.inj (Option.some.inj halloc)
  obtain ⟨rfl, rfl⟩ := Prod.mk.inj (Option.some.inj h)
  refine ⟨by simpa using List.find?_some hfind, congrArg (sheetUpdown · s'' height) ?_⟩
  simp [sheetSetbuf, setSheet, Sheet.moveTo]

/-- A new sheet goes above the background. -/
theorem Shtctl.Desktop.addSheet {ctl ctl' : Shtctl} {back s : Sid} {buf : Buffer}
    {xsize ysize : Int} {colInv : Pixel} {vx0 vy0 height : Int} (hd : Desktop ctl back)
    (hheight : height ≠ 0)
    (h : addSheet ctl buf xsize ysize colInv vx0 vy0 height = some (s, ctl')) :
    Desktop ctl' back := by
  obtain ⟨hfree, rfl⟩ := addSheet_eq h
  have hnot : s ∉ ctl.layers := fun hm => hd.consistent.inUse_of_mem hm hfree
  have hne : back ≠ s := fun heq => hnot (heq ▸ hd.back_mem)
  generalize hsht : ({ buf := buf, bxsize := xsize, bysize := ysize, vx0 := vx0, vy0 := vy0
                       colInv := colInv, height := -1, flags := 1 } : Sheet) = sht
  have hself : (ctl.setSheet s sht).sheets0 s = sht := by rw [setSheet_sheets0, if_pos rfl]
  have hback : (ctl.setSheet s sht).sheets0 back = ctl.sheets0 back := by
    rw [setSheet_sheets0, if_neg hne]
  have hnew : Desktop (ctl.setSheet s sht) back := by
    refine ⟨Opened.consistent_alloc hd.consistent hnot sht (hsht ▸ rfl), hd.bottom, ?_, ?_, ?_,
      ?_, ?_⟩
    all_goals rw [hback]
    · exact hd.solid
    · exact hd.left
    · exact hd.upper
    · exact hd.width
    · exact hd.depth
  have huse : (ctl.setSheet s sht).inUse s := by
    rw [inUse, hself, ← hsht]
    exact Nat.one_ne_zero
  obtain ⟨st, -, hst, hup⟩ := hnew.updown huse (iff_of_false hne.symm hheight) fun hv => by
    rw [Shtctl.height, hself, ← hsht] at hv
    contradiction
  exact hup.sameStack.desktop hst

/-- The first sheet becomes the background. -/
theorem firstSheet_desktop {b : StartUp} {s : Sid} {ctl : Shtctl}
    (h : addSheet (b.mem.shtctlInit b.fb b.hr b.vr b.lmMap) b.backBuf b.hr b.vr colInvNone 0 0 0 =
      some (s, ctl)) : Desktop ctl s := by
  obtain ⟨-, rfl⟩ := addSheet_eq h
  have h0 := (opened_shtctlInit b.mem b.fb b.hr b.vr b.lmMap).consistent
  have hempty : s ∉ (b.mem.shtctlInit b.fb b.hr b.vr b.lmMap).layers := List.not_mem_nil
  refine (Start.preserves (.first _ (Opened.consistent_alloc h0 hempty _ rfl) ?_ rfl ?_ ?_ ?_ ?_
    ?_)).1
  · rw [inUse, setSheet_sheets0, if_pos rfl]
    exact Nat.one_ne_zero
  all_goals rw [setSheet_sheets0, if_pos rfl]
  · exact le_refl _
  · exact le_refl _

theorem startSheets_desktop {b : StartUp} {ctl : Shtctl}
    (h : startSheets b = some (0, 1, 2, 3, ctl)) : Desktop ctl 0 := by
  unfold startSheets at h
  obtain ⟨⟨s0, c0⟩, h0, h⟩ := Option.bind_eq_some_iff.mp h
  obtain ⟨⟨s1, c1⟩, h1, h⟩ := Option.bind_eq_some_iff.mp h
  obtain ⟨⟨s2, c2⟩, h2, h⟩ := Option.bind_eq_some_iff.mp h
  obtain ⟨⟨s3, c3⟩, h3, h⟩ := Option.bind_eq_some_iff.mp h
  simp only [Option.some.injEq, Prod.mk.injEq] at h
  obtain ⟨rfl, rfl, rfl, rfl, rfl⟩ := h
  have d2 := ((firstSheet_desktop h0).addSheet (by decide) h1).addSheet (by decide) h2
  exact (Mapped.refreshAll_right d2 none).1.addSheet (by decide) h3

theorem startUp_mapped {font : Font} {b : StartUp} {g : Gui} (h : startUp font b = some g) :
    Mapped 0 g := by
  obtain ⟨ctl, hstart, hopen⟩ := startSheets_opened b
  unfold startUp at h
  rw [hstart] at h
  obtain rfl := Option.some.inj h
  have htop := hopen.top_eq (by omega)
  obtain ⟨st, -, hst, hup⟩ := (startSheets_desktop hstart).updown ((hopen.inUse 2).mpr (by decide))
    (iff_of_false (by decide) (by omega)) fun _ => le_refl ctl.top
  obtain ⟨hd, hmap⟩ := Mapped.refreshAll_right (hup.sameStack.desktop hst) none
  have m0 : Mapped 0
      { ctl := (ctl.sheetUpdown 2 ctl.top).shtctlRefreshAll none
        shadowShts := [some 1, some 3]
        wins := [⟨some 1, some titleWin, 0⟩, ⟨some 3, some titleLogin, 0⟩]
        backfb := some 0, backSht := some 0, hr2 := b.hr, vr2 := b.vr
        curSht := some 2, dragSht := none, loginSht := some 3
        mx := b.hr / 2, my := b.vr / 2, mmx := -1, mmy := -1, hooked := false
        win := 1, login := 3 } :=
    ⟨hd, hmap, rfl, fun _ hs => nomatch hs⟩
  exact (m0.taskbarDraw font).hook.refreshAll font

theorem Reachable.mapped {font : Font} {b : StartUp} {g : Gui} (h : Reachable font b g) :
    Mapped 0 g := by
  induction h with
  | start h => exact startUp_mapped h
  | step hg e ok ih => exact ih.run hg.inv font ok

end WinDOS
