import WinDOS.Window.InBounds
import WinDOS.Window.Wrapping

/-!
# Runs of calls in 32-bit `int`

As long as the positions, the sizes and the coordinates of the calls lie between `-2^29` and `2^29`
nothing wraps, and a run of calls is a run of the plain functions: the map stays right, and
incremental drawing agrees with a full redraw. A slide to the end of `int` breaks both.
-/

set_option autoImplicit false

namespace WinDOS

open Layers

namespace Shtctl

theorem anyAccess_permits : Checked.Permits anyAccess IsI32 where
  toPermitsEntries := anyAccess_entries
  toPermitsArrays := anyAccess_arrays
  int _ h := i32_small h.1 h.2
  coord _ _ := rfl

/-! ### What stays small -/

theorem Frame.small {a b : Shtctl} (h : Frame a b) (ha : Small a) : Small b where
  xsize := h.xsize ▸ ha.xsize
  ysize := h.ysize ▸ ha.ysize
  area := h.xsize ▸ h.ysize ▸ ha.area
  sheet s hs := by
    rw [inUse, h.sheet] at hs
    rw [h.sheet]
    obtain ⟨h1, h2, h3, h4, h5⟩ := ha.sheet s hs
    exact ⟨h1, h2, h3, h4, h5⟩

theorem Small.setSheet {ctl : Shtctl} (h : Small ctl) {s : Sid} {sht : Sheet}
    (hsht : sht.flags ≠ 0 → SmallSheet sht) : Small (ctl.setSheet s sht) := by
  refine ⟨h.xsize, h.ysize, h.area, fun t ht => ?_⟩
  rw [inUse, setSheet_sheets0] at ht
  rw [setSheet_sheets0]
  split at ht
  · rw [if_pos ‹_›]
    exact hsht ht
  · rw [if_neg ‹_›]
    exact h.sheet t ht

theorem SmallSheet.withBuf {sht : Sheet} (h : SmallSheet sht) (buf : Buffer) :
    SmallSheet (sht.withBuf buf) := ⟨h.vx0, h.vy0, h.bxsize, h.bysize, h.area⟩

theorem Small.draw {ctl : Shtctl} (h : Small ctl) (s : Sid) (buf : Buffer) :
    Small (ctl.draw s buf) := h.setSheet fun hs => (h.sheet s hs).withBuf buf

theorem Small.repaintBack {ctl : Shtctl} (h : Small ctl) (hook : Option TaskbarHook) :
    Small (ctl.repaintBack hook) := h.setSheet fun hs => (h.sheet _ hs).withBuf _

theorem SmallCoord.zero : SmallCoord 0 := by decide

theorem Small.screen {ctl : Shtctl} (h : Small ctl) : SumRect ctl.screen :=
  ⟨SmallCoord.zero.sum, SmallCoord.zero.sum, h.xsize.sum, h.ysize.sum⟩

/-! ### The calls -/

def Op.intRun (shadows : List (Option Sid)) (ctl : Shtctl) : Op → Shtctl
  | updown s height => ctl.intUpdown s height
  | slide s vx0 vy0 => ctl.intSlide s vx0 vy0
  | free s => ctl.intFree s
  | refresh s b => ctl.intRefresh shadows s b

/-- The coordinates of the call lie between `-2^29` and `2^29`. -/
def Op.Small : Op → Prop
  | updown _ _ => True
  | slide _ vx0 vy0 => SmallCoord vx0 ∧ SmallCoord vy0
  | free _ => True
  | refresh _ b => SmallRect b

section Equal

variable {ctl : Shtctl} (hc : Consistent ctl) (hsmall : Small ctl) {s : Sid}
include hc hsmall

theorem intRefreshmap_small {r : Rect} (hr : SumRect r) {h0 : Int} (hh0 : 0 ≤ h0) :
    ctl.intRefreshmap r h0 = ctl.sheetRefreshmap r h0 := by
  rw [intRefreshmap, checked_refreshmap anyAccess_permits hc hsmall hr hh0, Option.getD_some]

theorem intRedrawAll_small : ctl.intRedrawAll = ctl.redrawAll := by
  have hmap := intRefreshmap_small hc hsmall hsmall.screen (Int.le_refl 0)
  have hsame := sameStack_refreshmap ctl ctl.screen 0
  unfold intRedrawAll
  rw [hmap, intRefreshsub, checked_refreshsub anyAccess_permits (hsame.consistent hc)
    (hsame.small hsmall) (hsame.small hsmall).screen (Int.le_refl 0) (Int.le_refl _),
    Option.getD_some]
  rfl

theorem intUpdown_small (hs : ctl.inUse s) {height : Int}
    (htarget : 0 ≤ ctl.height s → height ≤ ctl.top) :
    ctl.intUpdown s height = ctl.sheetUpdown s height := by
  rw [intUpdown, checked_updown anyAccess_permits hc hsmall hs htarget, Option.getD_some]

theorem intSlide_small (hs : ctl.inUse s) {vx0 vy0 : Int} (hx : SmallCoord vx0)
    (hy : SmallCoord vy0) : ctl.intSlide s vx0 vy0 = ctl.sheetSlide s vx0 vy0 := by
  rw [intSlide, checked_slide anyAccess_permits hc hsmall hs hx hy, Option.getD_some]

theorem intFree_small (hs : ctl.inUse s) : ctl.intFree s = ctl.sheetFree s := by
  unfold intFree Checked.sheetFree sheetFree
  split_ifs with hvis
  · have htop := hc.top_ge
    rw [checked_updown anyAccess_permits hc hsmall hs fun _ => by omega]
    rfl
  · rfl

theorem intRefresh_small (hs : ctl.inUse s) {shadows : List (Option Sid)}
    (hreg : Registered shadows ctl) {b : Rect} (hb : SmallRect b) :
    ctl.intRefresh shadows s b = ctl.sheetRefresh shadows s b := by
  rw [intRefresh, checked_refresh anyAccess_permits hc hsmall hs hreg hb, Option.getD_some]

end Equal

section Kept

variable {ctl : Shtctl} {back : Sid} (hd : Desktop ctl back) (hsmall : Small ctl) {s : Sid}
  (hs : ctl.inUse s)
include hd hsmall hs

theorem updown_small {height : Int} (hback : s = back ↔ height = 0)
    (htarget : 0 ≤ ctl.height s → height ≤ ctl.top) : Small (ctl.sheetUpdown s height) := by
  obtain ⟨st, hre, -, h⟩ := hd.updown hs hback htarget
  exact h.sameStack.small (hre.frame.small hsmall)

omit hd in
theorem slide_small {vx0 vy0 : Int} (hx : SmallCoord vx0) (hy : SmallCoord vy0) :
    Small (ctl.sheetSlide s vx0 vy0) := by
  have hsht := hsmall.sheet s hs
  exact sameStack_slide.small
    (hsmall.setSheet fun _ => ⟨hx, hy, hsht.bxsize, hsht.bysize, hsht.area⟩)

theorem free_small (hback : s ≠ back) : Small (ctl.sheetFree s) := by
  have htop := hd.top_nonneg
  unfold sheetFree
  refine Small.setSheet ?_ fun h => absurd rfl h
  split_ifs
  · exact updown_small hd hsmall hs (by simp [hback]) fun _ => by omega
  · exact hsmall

end Kept

/-! ### The map -/

inductive IntStep (shadows : List (Option Sid)) (back : Sid) (ctl : Shtctl) : Shtctl → Prop where
  | call (op : Op) (ok : op.Allowed back ctl) (small : op.Small) :
      IntStep shadows back ctl (op.intRun shadows ctl)
  | draw (s : Sid) (buf : Buffer) (keeps : KeepsOpacity (ctl.sheets0 s) buf) :
      IntStep shadows back ctl (ctl.draw s buf)

/-- How a desktop comes about: by a full refresh of the map over any stack, or by showing
the background first. What the map held before does not matter. -/
inductive IntStart (back : Sid) : Shtctl → Prop where
  | full (ctl : Shtctl) (desktop : Desktop ctl back) (small : Small ctl) :
      IntStart back (ctl.intRefreshmap ctl.screen 0)
  | first (ctl : Shtctl) (consistent : Consistent ctl) (small : Small ctl) (used : ctl.inUse back)
      (empty : ctl.top = -1) (solid : (ctl.sheets0 back).colInv = colInvNone)
      (left : (ctl.sheets0 back).vx0 = 0) (upper : (ctl.sheets0 back).vy0 = 0)
      (width : ctl.xsize ≤ (ctl.sheets0 back).bxsize)
      (depth : ctl.ysize ≤ (ctl.sheets0 back).bysize) :
      IntStart back (ctl.intUpdown back 0)

structure MapKept (back : Sid) (ctl : Shtctl) : Prop where
  desktop : Desktop ctl back
  mapRight : MapRight ctl
  small : Small ctl

theorem IntStep.preserves {shadows : List (Option Sid)} {back : Sid} {ctl c : Shtctl}
    (hstep : IntStep shadows back ctl c) (h : MapKept back ctl) : MapKept back c := by
  have hd := h.desktop
  have hc := hd.consistent
  cases hstep with
  | call op ok small =>
    cases op with
    | updown s height =>
      obtain ⟨h1, h2, -⟩ := updown_step hd h.mapRight _ ok.1 ok.2.1 ok.2.2
      rw [Op.intRun, intUpdown_small hc h.small ok.1 ok.2.2]
      exact ⟨h1, h2, updown_small hd h.small ok.1 ok.2.1 ok.2.2⟩
    | slide s vx0 vy0 =>
      obtain ⟨h1, h2⟩ := slide_step hd h.mapRight ok.1 ok.2
      rw [Op.intRun, intSlide_small hc h.small ok.1 small.1 small.2]
      exact ⟨h1, h2, slide_small h.small ok.1 small.1 small.2⟩
    | free s =>
      obtain ⟨h1, h2⟩ := free_step hd h.mapRight ok.1 ok.2
      rw [Op.intRun, intFree_small hc h.small ok.1]
      exact ⟨h1, h2, free_small hd h.small ok.1 ok.2⟩
    | refresh s b =>
      -- the map is not written, whatever the rectangle is
      obtain ⟨hsame, hmap⟩ := intRefresh_same shadows ctl s b
      exact ⟨hsame.desktop hd, SameStack.mapRight h.mapRight hsame hmap, hsame.small h.small⟩
  | draw s buf keeps => exact ⟨hd.draw s buf, draw_step h.mapRight keeps, h.small.draw s buf⟩

theorem IntStart.preserves {back : Sid} {ctl : Shtctl} (h : IntStart back ctl) :
    MapKept back ctl := by
  cases h with
  | full c hd hsmall =>
    obtain ⟨h1, h2⟩ := (Start.full c hd).preserves
    rw [intRefreshmap_small hd.consistent hsmall hsmall.screen (Int.le_refl 0)]
    exact ⟨h1, h2, (sameStack_refreshmap c c.screen 0).small hsmall⟩
  | first c hc hsmall hused hempty hsolid hleft hupper hwidth hdepth =>
    have htarget : 0 ≤ c.height back → 0 ≤ c.top := fun hvis => by
      have := (hc.height_of_mem (hc.visible hused hvis)).2.1
      omega
    obtain ⟨h1, h2⟩ :=
      (Start.first c hc hused hempty hsolid hleft hupper hwidth hdepth).preserves
    obtain ⟨st, hre, hup⟩ := sheetUpdown_cases hc hused 0 htarget
    rw [intUpdown_small hc hsmall hused htarget]
    exact ⟨h1, h2, hup.sameStack.small (hre.frame.small hsmall)⟩

theorem IntStep.run {shadows : List (Option Sid)} {back : Sid} {start ctl : Shtctl}
    (hstart : IntStart back start) (hrun : Relation.ReflTransGen (IntStep shadows back) start ctl) :
    MapKept back ctl := by
  induction hrun with
  | refl => exact hstart.preserves
  | tail _ hstep ih => exact hstep.preserves ih

/-- In every state of a run the map entry of a screen pixel is the pool index of the topmost
visible sheet that is opaque there. -/
theorem map_names_topmost {shadows : List (Option Sid)} {back : Sid} {start ctl : Shtctl}
    (hstart : IntStart back start) (hrun : Relation.ReflTransGen (IntStep shadows back) start ctl)
    {x y : Int} (hon : ctl.OnScreen x y) :
    ∃ s, topmost (ctl.opaqueLayer x y) ctl.layers = some s ∧
      ctl.map (ctl.idx x y) = sidByte s := by
  have h := IntStep.run hstart hrun
  exact h.mapRight.names h.desktop hon

theorem map_names_topmost_desk :
    ∃ s, topmost (((desk.intRefreshmap desk.screen 0).intUpdown 1 1).opaqueLayer 2 2)
        ((desk.intRefreshmap desk.screen 0).intUpdown 1 1).layers = some s ∧
      ((desk.intRefreshmap desk.screen 0).intUpdown 1 1).map
        (((desk.intRefreshmap desk.screen 0).intUpdown 1 1).idx 2 2) = sidByte s := by
  have hstep : IntStep [] 0 (desk.intRefreshmap desk.screen 0)
      ((desk.intRefreshmap desk.screen 0).intUpdown 1 1) :=
    .call (.updown 1 1) ⟨by decide +kernel, by decide, by decide +kernel⟩ trivial
  exact map_names_topmost (.full desk desk_desktop desk_small) (.single hstep) (by decide +kernel)

attribute [local instance] Sid.neZero in
/-- A 4×1 screen with its background, a window `1`, a window `2` that hangs over the left edge, and
a window `3` in front of it. -/
def edgeDesk : Shtctl where
  vram := fun _ => 0
  map := fun _ => 0
  xsize := 4
  ysize := 1
  top := 3
  sheets := fun h => if h = 1 then 1 else if h = 2 then 2 else if h = 3 then 3 else 0
  sheets0 := fun s =>
    { buf := fun _ => if s = 3 then 0x00C0C0C0 else if s = 2 then 0x00FFFFFF else 0x00008080
      bxsize := if s = 0 ∨ s = 2 then 4 else 1
      bysize := 1
      vx0 := if s = 2 then -2 else 0
      vy0 := 0
      colInv := colInvNone
      height := if s ≤ 3 then s.val else -1
      flags := if s ≤ 3 then 1 else 0 }

theorem edgeDesk_desktop : Desktop edgeDesk 0 where
  consistent := {
    top_ge := by decide
    used := fun h _ _ => by
      have hall : ∀ s : Sid, s ≤ 3 → edgeDesk.inUse s := by decide
      refine hall _ ?_
      change (if h = 1 then (1 : Sid) else if h = 2 then 2 else if h = 3 then 3 else 0) ≤ 3
      split_ifs <;> decide
    at_height := fun h h0 h1 => by
      have h1 : h ≤ 3 := h1
      obtain rfl | rfl | rfl | rfl : h = 0 ∨ h = 1 ∨ h = 2 ∨ h = 3 := by omega
      all_goals rfl
    hidden_or := by decide }
  bottom := rfl
  solid := rfl
  left := rfl
  upper := rfl
  width := by decide
  depth := by decide

theorem edgeDesk_small : Small edgeDesk where
  xsize := by decide
  ysize := by decide
  area := by decide
  sheet s _ := by
    have hall : ∀ s : Sid, SmallCoord (edgeDesk.sheets0 s).vx0 ∧ SmallCoord (edgeDesk.sheets0 s).vy0 ∧
      SmallCoord (edgeDesk.sheets0 s).bxsize ∧ SmallCoord (edgeDesk.sheets0 s).bysize ∧
      (edgeDesk.sheets0 s).bxsize * (edgeDesk.sheets0 s).bysize ≤ 2147483648 := by decide
    obtain ⟨hx, hy, hw, hh, harea⟩ := hall s
    exact ⟨hx, hy, hw, hh, harea⟩

/-- A slide of window 1 to the end of `int`: the difference to the left edge of window 2 wraps, and
the map names window 2 where window 3 stands in front of it. -/
theorem slide_wraps :
    let start := edgeDesk.intRefreshmap edgeDesk.screen 0
    let ctl := start.intSlide 1 2147483646 0
    IntStart 0 start ∧ IsI32 2147483646 ∧ (Op.slide 1 2147483646 0).Allowed 0 start ∧
      ctl.OnScreen 0 0 ∧ topmost (ctl.opaqueLayer 0 0) ctl.layers = some 3 ∧
      ctl.map (ctl.idx 0 0) = sidByte 2 :=
  ⟨.full edgeDesk edgeDesk_desktop edgeDesk_small, by decide, ⟨by decide +kernel, by decide⟩,
    by decide +kernel, by decide +kernel, by decide +kernel⟩

/-! ### The frame buffer -/

/-- Steps of incremental drawing: a call, or new contents for a buffer followed by a
refresh of the rectangle that has changed. -/
inductive IntRedraw (shadows : List (Option Sid)) (back : Sid) (ctl : Shtctl) : Shtctl → Prop where
  | call (op : Op) (ok : op.Allowed back ctl) (small : op.Small) :
      IntRedraw shadows back ctl (op.intRun shadows ctl)
  | edit (s : Sid) (buf : Buffer) (b : Rect) (used : ctl.inUse s) (small : SmallRect b)
      (keeps : KeepsOpacity (ctl.sheets0 s) buf) (plain : ((ctl.sheets0 s).withBuf buf).Plain)
      (outside : ∀ bX bY, b.contains bX bY = false →
        ((ctl.sheets0 s).withBuf buf).pixel bX bY = (ctl.sheets0 s).pixel bX bY) :
      IntRedraw shadows back ctl ((ctl.draw s buf).intRefresh shadows s b)

/-- A step in `int` is a step of the plain functions. -/
theorem IntRedraw.redraw {shadows : List (Option Sid)} {back : Sid} {ctl c : Shtctl}
    (hstep : IntRedraw shadows back ctl c) (h : Shown shadows back ctl) (hsmall : Small ctl) :
    Redraw shadows back ctl c ∧ Small c := by
  have hd := h.desktop
  have hc := hd.consistent
  cases hstep with
  | call op ok small =>
    have hredraw : Redraw shadows back ctl (op.run shadows ctl) := .call op ok
    cases op with
    | updown s height =>
      rw [Op.intRun, intUpdown_small hc hsmall ok.1 ok.2.2]
      exact ⟨hredraw, updown_small hd hsmall ok.1 ok.2.1 ok.2.2⟩
    | slide s vx0 vy0 =>
      rw [Op.intRun, intSlide_small hc hsmall ok.1 small.1 small.2]
      exact ⟨hredraw, slide_small hsmall ok.1 small.1 small.2⟩
    | free s =>
      rw [Op.intRun, intFree_small hc hsmall ok.1]
      exact ⟨hredraw, free_small hd hsmall ok.1 ok.2⟩
    | refresh s b =>
      rw [Op.intRun, intRefresh_small hc hsmall ok h.registered small]
      exact ⟨hredraw, (sameStack_sheetRefresh shadows ctl s b).1.small hsmall⟩
  | edit s buf b used small keeps plain outside =>
    have hcd := (hd.draw s buf).consistent
    have hsd := hsmall.draw s buf
    have hused : (ctl.draw s buf).inUse s := by
      rw [inUse, draw, setSheet_sheets0, if_pos rfl]
      exact used
    have hreg : Registered shadows (ctl.draw s buf) := h.registered.setSheet rfl (.inl rfl)
    rw [intRefresh_small hcd hsd hused hreg small]
    exact ⟨.edit s buf b used keeps plain outside, (sameStack_sheetRefresh shadows _ s b).1.small hsd⟩

theorem IntRedraw.run {shadows : List (Option Sid)} {back : Sid} {start ctl : Shtctl}
    (hrun : Relation.ReflTransGen (IntRedraw shadows back) start ctl)
    (hstart : Shown shadows back start) (hsmall : Small start) :
    Shown shadows back ctl ∧ Small ctl := by
  induction hrun with
  | refl => exact ⟨hstart, hsmall⟩
  | tail _ hstep ih =>
    obtain ⟨hplain, hsmall'⟩ := hstep.redraw ih.1 ih.2
    exact ⟨hplain.preserves ih.1, hsmall'⟩

/-- Without shadow pixels, after `shtctl_refresh_all` and any run of incremental drawing every
pixel shows its topmost opaque sheet, as a full redraw over any old contents would. -/
theorem incremental_eq_full {hook : Option TaskbarHook} {shadows : List (Option Sid)} {back : Sid}
    {start ctl : Shtctl} (hd : Desktop start back) (hsmall : Small start) (hplain : Plain start)
    (hreg : Registered shadows start)
    (hrun : Relation.ReflTransGen (IntRedraw shadows back) (start.intRefreshAll hook) ctl)
    {x y : Int} (hon : ctl.OnScreen x y) :
    (∃ s, topmost (ctl.opaqueLayer x y) ctl.layers = some s ∧
      ctl.vram (ctl.idx x y) = (ctl.sheets0 s).pixelAt x y) ∧
    ∀ vram map, ({ ctl with vram := vram, map := map } : Shtctl).intRedrawAll.vram (ctl.idx x y) =
      ctl.vram (ctl.idx x y) := by
  have hback := repaintBack_desktop hd hook
  have hfirst : start.intRefreshAll hook = start.shtctlRefreshAll hook := by
    rw [intRefreshAll_redraws, shtctlRefreshAll_eq,
      intRedrawAll_small hback.consistent (hsmall.repaintBack hook)]
  rw [hfirst] at hrun
  obtain ⟨h, hsmall'⟩ := IntRedraw.run hrun (refreshAll_shown hd hplain hreg hook)
    ((sameStack_redrawAll _).small (hsmall.repaintBack hook))
  obtain ⟨hshows, hfull⟩ := h.agrees hon
  refine ⟨hshows, fun vram map => ?_⟩
  have hsame : SameStack ctl { ctl with vram := vram, map := map } := ⟨rfl, rfl, rfl, rfl, rfl⟩
  rw [intRedrawAll_small (hsame.consistent h.desktop.consistent) (hsame.small hsmall')]
  exact hfull vram map

theorem incremental_eq_full_desk :
    let ctl := (desk.intRefreshAll none).intUpdown 1 1
    (∃ s, topmost (ctl.opaqueLayer 2 2) ctl.layers = some s ∧
      ctl.vram (ctl.idx 2 2) = (ctl.sheets0 s).pixelAt 2 2) ∧
    ∀ vram map, ({ ctl with vram := vram, map := map } : Shtctl).intRedrawAll.vram (ctl.idx 2 2) =
      ctl.vram (ctl.idx 2 2) := by
  intro ctl
  have hstep : IntRedraw [] 0 (desk.intRefreshAll none) ctl :=
    .call (.updown 1 1) ⟨by decide +kernel, by decide, by decide +kernel⟩ trivial
  have hon : ctl.OnScreen 2 2 := by decide +kernel
  exact incremental_eq_full desk_desktop desk_small desk_plain (fun _ h => by simp at h)
    (.single hstep) hon

theorem edgeDesk_plain : Plain edgeDesk := by
  intro s _ _ _ _ _ _ _
  change Pixel.isShadow (if s = 3 then 0x00C0C0C0 else if s = 2 then 0x00FFFFFF else 0x00008080) = false
  split_ifs <;> decide

/-- The wrong map entry of window 3 lets a refresh of window 2 draw over it. -/
theorem slide_wraps_drawing :
    let start := edgeDesk.intRefreshAll none
    let moved := start.intSlide 1 2147483646 0
    let ctl := moved.intRefresh [] 2 ⟨0, 0, 4, 1⟩
    Desktop edgeDesk 0 ∧ Small edgeDesk ∧ Plain edgeDesk ∧ Registered [] edgeDesk ∧
      IsI32 2147483646 ∧ (Op.slide 1 2147483646 0).Allowed 0 start ∧
      (Op.refresh 2 ⟨0, 0, 4, 1⟩).Allowed 0 moved ∧ ctl.OnScreen 0 0 ∧
      topmost (ctl.opaqueLayer 0 0) ctl.layers = some 3 ∧
      ctl.vram (ctl.idx 0 0) ≠ (ctl.sheets0 3).pixelAt 0 0 := by
  refine ⟨edgeDesk_desktop, edgeDesk_small, edgeDesk_plain, fun _ h => by simp at h, by decide,
    ⟨by decide +kernel, by decide⟩, ?_, by decide +kernel, by decide +kernel, by decide +kernel⟩
  exact show inUse _ _ by decide +kernel

end Shtctl

end WinDOS
