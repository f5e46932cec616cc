import WinDOS.Window.Pinned

/-!
# Calls over a desktop

The background sheet stays at height 0 and covers the screen; the other sheets are shown,
hidden, restacked, moved, refreshed and freed, and their buffers drawn to. Every such call
keeps the desktop and the map.
-/

set_option autoImplicit false

namespace WinDOS

open Layers

namespace Shtctl

/-- A call of `window.h` on a sheet. -/
inductive Op where
  | updown (s : Sid) (height : Int)
  | slide (s : Sid) (vx0 vy0 : Int)
  | free (s : Sid)
  | refresh (s : Sid) (b : Rect)

def Op.run (shadows : List (Option Sid)) (ctl : Shtctl) : Op → Shtctl
  | updown s height => ctl.sheetUpdown s height
  | slide s vx0 vy0 => ctl.sheetSlide s vx0 vy0
  | free s => ctl.sheetFree s
  | refresh s b => ctl.sheetRefresh shadows s b

/-- Only sheets in use are named, the background stays where it is and the others above it,
and a visible sheet is not sent above the top. -/
def Op.Allowed (back : Sid) (ctl : Shtctl) : Op → Prop
  | updown s height => ctl.inUse s ∧ (s = back ↔ height = 0) ∧ (0 ≤ ctl.height s → height ≤ ctl.top)
  | slide s vx0 vy0 => ctl.inUse s ∧ (s = back → vx0 = 0 ∧ vy0 = 0)
  | free s => ctl.inUse s ∧ s ≠ back
  | refresh s _ => ctl.inUse s

/-- New contents for a buffer. -/
def draw (ctl : Shtctl) (s : Sid) (buf : Buffer) : Shtctl :=
  ctl.setSheet s ((ctl.sheets0 s).withBuf buf)

/-- The same pixels of the sheet are opaque with the new contents. -/
def KeepsOpacity (sht : Sheet) (buf : Buffer) : Prop :=
  ∀ bX bY, 0 ≤ bX → bX < sht.bxsize → 0 ≤ bY → bY < sht.bysize →
    (sht.withBuf buf).registers bX bY = sht.registers bX bY

/-! ### The desktop -/

namespace Desktop

variable {ctl : Shtctl} {back : Sid} (hd : Desktop ctl back)
include hd

theorem back_mem : back ∈ ctl.layers := List.mem_of_mem_head? hd.bottom

theorem back_height : ctl.height back = 0 := hd.consistent.height_head hd.bottom

theorem top_nonneg : 0 ≤ ctl.top := by
  have := (hd.consistent.height_of_mem hd.back_mem).2.1
  rwa [hd.back_height] at this

theorem back_opaque {x y : Int} (hon : ctl.OnScreen x y) : ctl.opaqueLayer x y back = true := by
  obtain ⟨hx0, hx1, hy0, hy1⟩ := hon
  have hw := hd.width
  have hh := hd.depth
  rw [opaqueLayer, Sheet.opaqueAt, Bool.and_eq_true, Sheet.covers, Rect.contains_iff]
  constructor
  · simp only [Sheet.rect, hd.left, hd.upper]
    omega
  · rw [Sheet.registers, hd.solid]
    rfl

theorem owner_ne_none {x y : Int} (hon : ctl.OnScreen x y) : ctl.owner x y ≠ none := by
  intro h
  have := topmost_eq_none_iff.mp h back hd.back_mem
  rw [hd.back_opaque hon] at this
  exact Bool.noConfusion this

theorem setSheet {s : Sid} {sht : Sheet} (hheight : sht.height = ctl.height s)
    (huse : sht.flags ≠ 0 → ctl.inUse s) (hvis : s ∈ ctl.layers → sht.flags ≠ 0)
    (hback : s = back → sht.colInv = colInvNone ∧ sht.vx0 = 0 ∧ sht.vy0 = 0 ∧
      ctl.xsize ≤ sht.bxsize ∧ ctl.ysize ≤ sht.bysize) : Desktop (ctl.setSheet s sht) back := by
  have hc := hd.consistent.setSheet hheight huse hvis
  by_cases hs : back = s
  · obtain ⟨h1, h2, h3, h4, h5⟩ := hback hs.symm
    have hsht : (ctl.setSheet s sht).sheets0 back = sht := by rw [setSheet_sheets0, if_pos hs]
    exact ⟨hc, hd.bottom, by rw [hsht, h1], by rw [hsht, h2], by rw [hsht, h3],
      by rw [hsht]; exact h4, by rw [hsht]; exact h5⟩
  · have hsht : (ctl.setSheet s sht).sheets0 back = ctl.sheets0 back := by
      rw [setSheet_sheets0, if_neg hs]
    exact ⟨hc, hd.bottom, by rw [hsht, hd.solid], by rw [hsht, hd.left], by rw [hsht, hd.upper],
      by rw [hsht]; exact hd.width, by rw [hsht]; exact hd.depth⟩

theorem draw (s : Sid) (buf : Buffer) : Desktop (ctl.draw s buf) back := by
  refine hd.setSheet rfl id (fun hs => hd.consistent.inUse_of_mem hs) ?_
  rintro rfl
  exact ⟨hd.solid, hd.left, hd.upper, hd.width, hd.depth⟩

end Desktop

/-- A sheet that is not the background and does not go to height 0 leaves the bottom alone. -/
theorem Updown.bottom {ctl st res : Shtctl} {s back : Sid} (h : Updown ctl s st res)
    (hst : Consistent st) (hbottom : ctl.layers.head? = some back) (hs : s ≠ back)
    (hheight : st.height s ≠ 0) : st.layers.head? = some back := by
  have hfirst : ∀ l, st.layers ≠ s :: l := fun l hl => hheight (hst.height_head (by rw [hl]; rfl))
  have hne : ∀ l, ctl.layers ≠ s :: l := fun l hl => by
    rw [hl] at hbottom
    exact hs (by simpa using hbottom)
  cases h with
  | same order => rw [order, hbottom]
  | lower below passed above before after =>
    cases below with
    | nil => exact absurd after (hfirst _)
    | cons b below =>
      rw [before] at hbottom
      rw [after]
      exact hbottom
  | hide below above before after =>
    cases below with
    | nil => exact absurd before (hne _)
    | cons b below =>
      rw [before] at hbottom
      rw [after]
      exact hbottom
  | raise below passed above before after =>
    cases below with
    | nil => exact absurd before (hne _)
    | cons b below =>
      rw [before] at hbottom
      rw [after]
      exact hbottom
  | appear below above before after =>
    cases below with
    | nil => exact absurd after (hfirst _)
    | cons b below =>
      rw [before] at hbottom
      rw [after]
      exact hbottom

theorem Updown.desktop {ctl st res : Shtctl} {s back : Sid} (h : Updown ctl s st res)
    (hframe : Frame ctl st) (hst : Consistent st) (hd : Desktop ctl back) (hs : s ≠ back)
    (hheight : st.height s ≠ 0) : Desktop st back where
  consistent := hst
  bottom := h.bottom hst hd.bottom hs hheight
  solid := by rw [hframe.sheet]; exact hd.solid
  left := by rw [hframe.sheet]; exact hd.left
  upper := by rw [hframe.sheet]; exact hd.upper
  width := by rw [hframe.sheet, hframe.xsize]; exact hd.width
  depth := by rw [hframe.sheet, hframe.ysize]; exact hd.depth

theorem clampHeight_eq_zero {ctl : Shtctl} (htop : 0 ≤ ctl.top) (height : Int) :
    ctl.clampHeight height = 0 ↔ height = 0 := by
  constructor
  · intro h
    unfold clampHeight at h
    dsimp only at h
    split_ifs at h <;> omega
  · rintro rfl
    exact clampHeight_eq_self (by omega) (by omega)

theorem Desktop.updown {ctl : Shtctl} {back : Sid} (hd : Desktop ctl back) {s : Sid} {height : Int}
    (hs : ctl.inUse s) (hback : s = back ↔ height = 0)
    (htarget : 0 ≤ ctl.height s → height ≤ ctl.top) :
    ∃ st, Restacked ctl s (ctl.clampHeight height) st ∧ Desktop st back ∧
      Updown ctl s st (ctl.sheetUpdown s height) := by
  have hclamp := clampHeight_eq_zero hd.top_nonneg height
  by_cases hsb : s = back
  · have hzero : ctl.clampHeight height = ctl.height s := by
      rw [hclamp.mpr (hback.mp hsb), hsb, hd.back_height]
    rw [sheetUpdown_same hzero]
    exact ⟨ctl, ⟨.refl ctl, hd.consistent, hzero.symm, fun _ _ _ => rfl⟩, hd, .same rfl⟩
  · obtain ⟨st, hre, h⟩ := sheetUpdown_cases hd.consistent hs height htarget
    refine ⟨st, hre, h.desktop hre.frame hre.consistent hd hsb ?_, h⟩
    rw [hre.height]
    exact fun hz => hsb (hback.mpr (hclamp.mp hz))

/-! ### The step lemmas -/

section Slide

variable {ctl : Shtctl} {s : Sid} {vx0 vy0 : Int}

theorem sheetSlide_visible (hv : 0 ≤ ctl.height s) :
    ctl.sheetSlide s vx0 vy0 =
      ((((ctl.setSheet s ((ctl.sheets0 s).moveTo vx0 vy0)).sheetRefreshmap
        (ctl.sheets0 s).rect 0).sheetRefreshmap
        ((ctl.sheets0 s).moveTo vx0 vy0).rect (ctl.height s)).sheetRefreshsub
        (ctl.sheets0 s).rect 0 (ctl.height s - 1)).sheetRefreshsub
        ((ctl.sheets0 s).moveTo vx0 vy0).rect (ctl.height s) (ctl.height s) := by
  unfold sheetSlide
  simp only [setSheet_sheets0, if_true]
  exact if_pos hv

theorem sheetSlide_hidden (hv : ¬ 0 ≤ ctl.height s) :
    ctl.sheetSlide s vx0 vy0 = ctl.setSheet s ((ctl.sheets0 s).moveTo vx0 vy0) := by
  unfold sheetSlide
  simp only [setSheet_sheets0, if_true]
  exact if_neg hv

theorem sameStack_slide :
    SameStack (ctl.setSheet s ((ctl.sheets0 s).moveTo vx0 vy0)) (ctl.sheetSlide s vx0 vy0) := by
  by_cases hv : 0 ≤ ctl.height s
  · rw [sheetSlide_visible hv]
    exact ⟨rfl, rfl, rfl, rfl, rfl⟩
  · rw [sheetSlide_hidden hv]
    exact .refl _

end Slide

section Steps

variable {ctl : Shtctl} {back : Sid} (hd : Desktop ctl back) (hmap : MapRight ctl)
include hd hmap

theorem updown_step {s : Sid} (height : Int) (hs : ctl.inUse s) (hback : s = back ↔ height = 0)
    (htarget : 0 ≤ ctl.height s → height ≤ ctl.top) :
    Desktop (ctl.sheetUpdown s height) back ∧ MapRight (ctl.sheetUpdown s height) ∧
      (ctl.sheetUpdown s height).height s = ctl.clampHeight height := by
  obtain ⟨st, hre, hst, h⟩ := hd.updown hs hback htarget
  have hframe := hre.frame
  have hsame := h.sameStack
  refine ⟨hsame.desktop hst, fun x y hon => ?_, (hsame.height s).trans hre.height⟩
  have hon' : st.OnScreen x y := hsame.onScreen.mp hon
  have hon0 : ctl.OnScreen x y := hframe.onScreen.mp hon'
  rw [hsame.owner, hsame.idx, hframe.idx]
  exact h.map_right hframe hon0 (hmap x y hon0) (hst.owner_ne_none hon')

theorem slide_step {s : Sid} {vx0 vy0 : Int} (hs : ctl.inUse s)
    (hback : s = back → vx0 = 0 ∧ vy0 = 0) :
    Desktop (ctl.sheetSlide s vx0 vy0) back ∧ MapRight (ctl.sheetSlide s vx0 vy0) := by
  let sht := (ctl.sheets0 s).moveTo vx0 vy0
  have hset : Desktop (ctl.setSheet s sht) back := by
    refine hd.setSheet rfl id (fun hm => hd.consistent.inUse_of_mem hm) ?_
    rintro rfl
    exact ⟨hd.solid, (hback rfl).1, (hback rfl).2, hd.width, hd.depth⟩
  have hsame : SameStack (ctl.setSheet s sht) (ctl.sheetSlide s vx0 vy0) := sameStack_slide
  refine ⟨hsame.desktop hset, fun x y hon => ?_⟩
  have hon0 : ctl.OnScreen x y := hsame.onScreen.mp hon
  rw [hsame.owner]
  by_cases hv : 0 ≤ ctl.height s
  · obtain ⟨below, above, hsplit, hlen, hbelow, habove⟩ :=
      hd.consistent.split (hd.consistent.visible hs hv)
    have hright := @slide_map_right _ _ sht _ _ _ _ hsplit hbelow habove hon0 (hmap x y hon0)
      (hset.owner_ne_none hon0)
    rw [hlen] at hright
    rw [sheetSlide_visible hv]
    exact hright
  · have howner : (ctl.setSheet s sht).owner x y = ctl.owner x y :=
      topmost_congr fun t ht => setSheet_opaqueLayer_ne
        (fun h => hv (hd.consistent.height_of_mem (h ▸ ht)).1) sht x y
    rw [howner, sheetSlide_hidden hv]
    exact hmap x y hon0

theorem free_hides {s : Sid} (hs : ctl.inUse s) (hback : s ≠ back) :
    ∃ c, ctl.sheetFree s = c.setSheet s { c.sheets0 s with flags := 0 } ∧ s ∉ c.layers ∧
      c.height s < 0 ∧ (c = ctl ∨ 0 ≤ ctl.height s ∧ c = ctl.sheetUpdown s (-1)) := by
  have htop := hd.top_nonneg
  by_cases hv : 0 ≤ ctl.height s
  · obtain ⟨h1, h2, h3⟩ := updown_step hd hmap (-1) hs (by simp [hback]) fun _ => by omega
    have hclamp : ctl.clampHeight (-1) = -1 := clampHeight_eq_self (by omega) (by omega)
    refine ⟨_, ?_, fun hm => ?_, by omega, .inr ⟨hv, rfl⟩⟩
    · unfold sheetFree
      rw [if_pos hv]
    · have := (h1.consistent.height_of_mem hm).1
      omega
  · refine ⟨ctl, ?_, fun hm => hv (hd.consistent.height_of_mem hm).1, by omega, .inl rfl⟩
    unfold sheetFree
    rw [if_neg hv]

theorem free_step {s : Sid} (hs : ctl.inUse s) (hback : s ≠ back) :
    Desktop (ctl.sheetFree s) back ∧ MapRight (ctl.sheetFree s) := by
  obtain ⟨c, hres, hhid, -, hc⟩ := free_hides hd hmap hs hback
  have hboth : Desktop c back ∧ MapRight c := by
    rcases hc with rfl | ⟨-, rfl⟩
    · exact ⟨hd, hmap⟩
    · have htop := hd.top_nonneg
      obtain ⟨h1, h2, -⟩ := updown_step hd hmap (-1) hs (by simp [hback]) fun _ => by omega
      exact ⟨h1, h2⟩
  rw [hres]
  refine ⟨hboth.1.setSheet rfl (fun h => absurd rfl h) (fun h => absurd h hhid)
    fun h => absurd h hback, fun x y hon => ?_⟩
  rw [@setSheet_owner c s { c.sheets0 s with flags := 0 } _ _ rfl]
  exact hboth.2 x y hon

omit hd in
/-- A call that draws only leaves the map right. -/
theorem SameStack.mapRight {c : Shtctl} (h : SameStack ctl c) (hm : c.map = ctl.map) :
    MapRight c := by
  intro x y hon
  rw [h.owner, h.idx, hm]
  exact hmap x y (h.onScreen.mp hon)

omit hd hmap in
theorem draw_owner {s : Sid} {buf : Buffer} (hkeeps : KeepsOpacity (ctl.sheets0 s) buf)
    {x y : Int} : (ctl.draw s buf).owner x y = ctl.owner x y := by
  refine setSheet_owner ?_
  have hcov : ((ctl.sheets0 s).withBuf buf).covers x y = (ctl.sheets0 s).covers x y := rfl
  rw [Sheet.opaqueAt, Sheet.opaqueAt, hcov]
  by_cases h : (ctl.sheets0 s).covers x y = true
  · have hin := Rect.contains_iff.mp h
    simp only [Sheet.rect] at hin
    have hreg := hkeeps (x - (ctl.sheets0 s).vx0) (y - (ctl.sheets0 s).vy0) (by omega) (by omega)
      (by omega) (by omega)
    exact congrArg _ hreg
  · rw [Bool.eq_false_iff.mpr h, Bool.false_and, Bool.false_and]

omit hd in
theorem draw_step {s : Sid} {buf : Buffer} (hkeeps : KeepsOpacity (ctl.sheets0 s) buf) :
    MapRight (ctl.draw s buf) := by
  intro x y hon
  rw [draw_owner hkeeps]
  exact hmap x y hon

end Steps

/-- How a desktop comes about: by a full refresh of the map over any stack, or by showing
the background first. What the map held before does not matter. -/
inductive Start (back : Sid) : Shtctl → Prop where
  | full (ctl : Shtctl) (desktop : Desktop ctl back) :
      Start back (ctl.sheetRefreshmap ctl.screen 0)
  | first (ctl : Shtctl) (consistent : Consistent ctl) (used : ctl.inUse back)
      (empty : ctl.top = -1) (solid : (ctl.sheets0 back).colInv = colInvNone)
      (left : (ctl.sheets0 back).vx0 = 0) (upper : (ctl.sheets0 back).vy0 = 0)
      (width : ctl.xsize ≤ (ctl.sheets0 back).bxsize)
      (depth : ctl.ysize ≤ (ctl.sheets0 back).bysize) :
      Start back (ctl.sheetUpdown back 0)

/-- Refreshing the map from height 0 over the whole screen makes it right from any contents. -/
theorem refreshmap_all_right {ctl : Shtctl} {back : Sid} (hd : Desktop ctl back) {r : Rect}
    (hr : ∀ x y, ctl.OnScreen x y → r.contains x y = true) : MapRight (ctl.sheetRefreshmap r 0) := by
  intro x y hon
  have hon0 : ctl.OnScreen x y := hon
  have hat := sheetRefreshmap_at hon0 r 0
  rw [if_pos (hr x y hon0)] at hat
  have hsame := sameStack_refreshmap ctl r 0
  rw [hsame.owner, hsame.idx, hat]
  change (ctl.owner x y).map sidByte = some (((ctl.owner x y).map sidByte).getD _)
  cases ho : ctl.owner x y with
  | none => exact absurd ho (hd.owner_ne_none hon0)
  | some s => rfl

theorem screen_contains {ctl : Shtctl} {x y : Int} (hon : ctl.OnScreen x y) :
    ctl.screen.contains x y = true :=
  Rect.contains_iff.mpr ⟨hon.1, hon.2.1, hon.2.2.1, hon.2.2.2⟩

theorem Desktop.rect_contains {ctl : Shtctl} {back : Sid} (hd : Desktop ctl back) {x y : Int}
    (hon : ctl.OnScreen x y) : (ctl.sheets0 back).rect.contains x y = true := by
  have h := hd.back_opaque hon
  rw [opaqueLayer, Sheet.opaqueAt, Bool.and_eq_true] at h
  exact h.1

theorem Start.preserves {back : Sid} {ctl : Shtctl} (h : Start back ctl) :
    Desktop ctl back ∧ MapRight ctl := by
  cases h with
  | full c hd =>
    exact ⟨(sameStack_refreshmap c c.screen 0).desktop hd,
      refreshmap_all_right hd fun _ _ hon => screen_contains hon⟩
  | first c hc hused hempty hsolid hleft hupper hwidth hdepth =>
    have hnil : c.layers = [] := by rw [layers, hempty]; rfl
    have hhid : c.height back = -1 := (hc.hidden_iff hused).mpr (by simp [hnil])
    obtain ⟨st, ⟨hframe, hst, hheight, -⟩, h⟩ :=
      sheetUpdown_cases hc hused 0 fun _ => by omega
    have hclamp : c.clampHeight 0 = 0 := clampHeight_eq_self (by omega) (by omega)
    have hmem : back ∈ st.layers := by
      refine hst.visible ?_ (by omega)
      rw [inUse, hframe.sheet]
      exact hused
    generalize hres : c.sheetUpdown back 0 = res at h
    cases h with
    | same order => simp [order, hnil] at hmem
    | lower below passed above before after => simp [hnil] at before
    | hide below above before after => simp [hnil] at before
    | raise below passed above before after => simp [hnil] at before
    | appear below above before after =>
      obtain ⟨rfl, rfl⟩ : below = [] ∧ above = [] := by simpa [hnil] using before.symm
      have hd : Desktop st back := ⟨hst, by rw [after]; rfl, by rw [hframe.sheet]; exact hsolid,
        by rw [hframe.sheet]; exact hleft, by rw [hframe.sheet]; exact hupper,
        by rw [hframe.sheet, hframe.xsize]; exact hwidth,
        by rw [hframe.sheet, hframe.ysize]; exact hdepth⟩
      have hrect : (st.sheets0 back).rect = (c.sheets0 back).rect := by rw [hframe.sheet]; rfl
      refine ⟨((sameStack_refreshmap _ _ _).trans (sameStack_refreshsub _ _ _ _)).desktop hd, ?_⟩
      exact refreshmap_all_right hd fun x y hon => hrect ▸ hd.rect_contains hon

theorem MapRight.names {ctl : Shtctl} {back : Sid} (hmap : MapRight ctl) (hd : Desktop ctl back)
    {x y : Int} (hon : ctl.OnScreen x y) :
    ∃ s, topmost (ctl.opaqueLayer x y) ctl.layers = some s ∧
      ctl.map (ctl.idx x y) = sidByte s := by
  obtain ⟨s, hs⟩ := Option.ne_none_iff_exists'.mp (hd.owner_ne_none hon)
  have h := hmap x y hon
  rw [hs] at h
  exact ⟨s, hs, by simpa using h.symm⟩

attribute [local instance] Sid.neZero in
/-- A 4×4 screen with its background and a hidden 2×2 window. -/
def desk : Shtctl where
  vram := fun _ => 0
  map := fun _ => 7
  xsize := 4
  ysize := 4
  top := 0
  sheets := fun _ => 0
  sheets0 := fun s =>
    { buf := fun _ => if s = 0 then 0x00008080 else 0x00C0C0C0
      bxsize := if s = 0 then 4 else 2
      bysize := if s = 0 then 4 else 2
      vx0 := if s = 0 then 0 else 1
      vy0 := if s = 0 then 0 else 1
      colInv := if s = 0 then colInvNone else 0x00FF00FF
      height := if s = 0 then 0 else -1
      flags := if s ≤ 1 then 1 else 0 }

theorem desk_desktop : Desktop desk 0 where
  consistent := {
    top_ge := by decide
    used := fun _ _ _ => show desk.inUse 0 by decide
    at_height := fun h h0 h1 => Int.le_antisymm h0 h1
    hidden_or := fun s _ => by revert s; decide }
  bottom := rfl
  solid := rfl
  left := rfl
  upper := rfl
  width := by decide
  depth := by decide

end Shtctl

end WinDOS
