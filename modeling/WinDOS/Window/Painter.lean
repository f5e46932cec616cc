import WinDOS.Window.Compose

/-!
# `shtctl_refresh_all` against the painter's algorithm

The painter goes through the visible sheets from bottom to top, once. The code computes
the owners first and then draws owners and shadows height by height on stale pixels. The
two agree at a pixel because the painter's colour at the owner, the topmost opaque sheet,
forgets everything below it, and above the owner there are only shadows. The rectangle is
that of the screen, so with a screen and buffers of at most 2^31 pixels no index leaves `int`,
wherever the sheets are.
-/

set_option autoImplicit false

namespace WinDOS

open Layers Overwrite

/-- What a sheet does to the colour of a screen pixel in the painter's order. -/
def Sheet.painterStep (sht : Sheet) (x y : Int) (v : Pixel) : Pixel :=
  if sht.covers x y then
    if (sht.pixelAt x y).isShadow then shade v (sht.pixelAt x y)
    else if sht.pixelAt x y = sht.colInv then v
    else sht.pixelAt x y
  else v

namespace Shtctl

/-- The visible sheets painted from bottom to top over the colour `v`. -/
def painter (ctl : Shtctl) (x y : Int) (v : Pixel) : Pixel :=
  ctl.layers.foldl (fun v s => (ctl.sheets0 s).painterStep x y v) v

/-- Sheets without a transparent colour have no shadow pixels. -/
def SolidPlain (ctl : Shtctl) : Prop :=
  ∀ s ∈ ctl.layers, (ctl.sheets0 s).colInv = colInvNone → (ctl.sheets0 s).Plain

theorem registers_at (sht : Sheet) (x y : Int) : sht.registers (x - sht.vx0) (y - sht.vy0) =
    (sht.colInv == colInvNone ||
      (sht.pixelAt x y != sht.colInv && !(sht.pixelAt x y).isShadow)) := rfl

theorem opaque_step {sht : Sheet} {x y : Int} (hsolid : sht.colInv = colInvNone → sht.Plain)
    (hop : sht.opaqueAt x y = true) :
    sht.covers x y = true ∧ (sht.pixelAt x y).isShadow = false ∧
      ∀ v, sht.painterStep x y v = sht.pixelAt x y := by
  rw [Sheet.opaqueAt, Bool.and_eq_true, registers_at, Bool.or_eq_true, Bool.and_eq_true] at hop
  obtain ⟨hcov, hreg⟩ := hop
  have hpix : (sht.pixelAt x y).isShadow = false ∧ sht.pixelAt x y ≠ sht.colInv := by
    rcases hreg with hnone | ⟨hne, hsh⟩
    · have hnone : sht.colInv = colInvNone := by simpa using hnone
      have hsh := (hsolid hnone).pixelAt hcov
      refine ⟨hsh, fun heq => ?_⟩
      rw [heq, hnone] at hsh
      exact absurd hsh (by decide)
    · exact ⟨by simpa using hsh, by simpa using hne⟩
  refine ⟨hcov, hpix.1, fun v => ?_⟩
  rw [Sheet.painterStep, if_pos hcov, hpix.1]
  exact if_neg hpix.2

theorem clear_step {sheets0 : Sid → Sheet} {x y : Int} {s t : Sid} (hst : s ≠ t)
    (hop : (sheets0 s).opaqueAt x y = false) (v : Pixel) :
    paint sheets0 (sidByte t) x y v s = (sheets0 s).painterStep x y v := by
  have hbyte : (sidByte t == sidByte s) = false :=
    beq_eq_false_iff_ne.mpr fun h => hst (sidByte_injective t s h).symm
  rw [paint, Sheet.painterStep, hbyte, Bool.false_or]
  by_cases hcov : (sheets0 s).covers x y = true
  · rw [Sheet.opaqueAt, hcov, Bool.true_and] at hop
    by_cases hsh : ((sheets0 s).pixelAt x y).isShadow = true
    · simp [hcov, hsh]
    · have hinv : (sheets0 s).pixelAt x y = (sheets0 s).colInv := by
        rw [registers_at, Bool.or_eq_false_iff] at hop
        simpa [hsh] using hop.2
      simp only [hcov, hsh, Bool.and_false, if_true, if_pos hinv]
      rfl
  · simp [hcov]

/-- Drawing for the owner over any colour is painting over any other. -/
theorem foldl_paint_eq_painter {ctl : Shtctl} (hc : Consistent ctl) (hsolid : SolidPlain ctl)
    {x y : Int} {t : Sid} (howner : ctl.owner x y = some t) (v w : Pixel) :
    ctl.layers.foldl (paint ctl.sheets0 (sidByte t) x y) v = ctl.painter x y w := by
  obtain ⟨below, above, hsplit, hop, habove⟩ := topmost_eq_some_iff.mp howner
  have hnodup := hc.layers_nodup
  rw [hsplit] at hnodup
  have hne : ∀ a ∈ above, a ≠ t := by
    rintro a ha rfl
    exact (List.nodup_cons.mp (List.nodup_append.mp hnodup).2.1).1 ha
  obtain ⟨hcov, hsh, hpaint⟩ := opaque_step (hsolid t (by simp [hsplit])) hop
  have hstep : ∀ v, paint ctl.sheets0 (sidByte t) x y v t = (ctl.sheets0 t).pixelAt x y := by
    intro v
    rw [paint, hcov, beq_self_eq_true, hsh]
    rfl
  rw [painter, hsplit, List.foldl_append, List.foldl_append, List.foldl_cons, List.foldl_cons,
    hstep, hpaint]
  refine List.foldl_ext _ _ _ fun v a ha => ?_
  exact clear_step (hne a ha) (habove a ha) v

theorem redrawAll_painter {ctl : Shtctl} {back : Sid} (hd : Desktop ctl back)
    (hsolid : SolidPlain ctl) {x y : Int} (hon : ctl.OnScreen x y) (v : Pixel) :
    ctl.redrawAll.vram (ctl.idx x y) = ctl.painter x y v := by
  obtain ⟨t, howner⟩ := Option.ne_none_iff_exists'.mp (hd.owner_ne_none hon)
  rw [(redrawAll_at hd.consistent hon howner).2]
  exact foldl_paint_eq_painter hd.consistent hsolid howner _ v

theorem redrawAll_off {ctl : Shtctl} {a : Int} (ha : ∀ x y, ctl.OnScreen x y → ctl.idx x y ≠ a) :
    ctl.redrawAll.vram a = ctl.vram a :=
  @sheetRefreshsub_off (ctl.sheetRefreshmap ctl.screen 0) _ ha ctl.screen 0 ctl.top

/-! ### `shtctl_refresh_all` -/

section RefreshAll

variable {ctl : Shtctl} {back : Sid} (hd : Desktop ctl back) (hsolid : SolidPlain ctl)
  (hook : Option TaskbarHook)
include hd hsolid

theorem repaintBack_solidPlain : SolidPlain (ctl.repaintBack hook) := by
  intro s hs hinv
  refine repaintBack_plain hd hook (hsolid s ?_ ?_)
  · rw [repaintBack_eq hd hook] at hs
    exact hs
  · rw [repaintBack_eq hd hook, draw, setSheet_sheets0] at hinv
    split at hinv
    · rename_i h
      rw [h]
      exact hinv
    · exact hinv

omit hsolid in
theorem repaintBack_twice :
    SameStack (ctl.repaintBack hook) ((ctl.shtctlRefreshAll hook).repaintBack hook) := by
  have hd' := repaintBack_desktop hd hook
  have hsame := sameStack_redrawAll (ctl.repaintBack hook)
  rw [shtctlRefreshAll_eq, repaintBack_eq (hsame.desktop hd') hook]
  refine hsame.trans ⟨rfl, rfl, rfl, rfl, funext fun s => ?_⟩
  rw [draw, setSheet_sheets0]
  split
  · rename_i hs
    subst hs
    have hsht : ((ctl.repaintBack hook).redrawAll.sheets0 s) = (ctl.sheets0 s).withBuf
        (paintBack hook (u32 (ctl.sheets0 s).bxsize) (u32 (ctl.sheets0 s).bysize)
          (ctl.sheets0 s).buf) := by
      rw [hsame.sheets0, repaintBack_eq hd hook, draw, setSheet_sheets0, if_pos rfl]
    rw [hsht]
    change (ctl.sheets0 s).withBuf (paintBack hook (u32 (ctl.sheets0 s).bxsize)
      (u32 (ctl.sheets0 s).bysize) (paintBack hook _ _ (ctl.sheets0 s).buf)) = _
    rw [(paintBack_overwrites hook _ _).idempotent]
  · rfl

theorem refreshAll_painter {x y : Int} (hon : ctl.OnScreen x y) (v : Pixel) :
    (ctl.shtctlRefreshAll hook).vram (ctl.idx x y) = (ctl.repaintBack hook).painter x y v := by
  have hd' := repaintBack_desktop hd hook
  exact redrawAll_painter hd' (repaintBack_solidPlain hd hsolid hook) hon v

omit hd hsolid in
theorem refreshAll_off {a : Int} (ha : ∀ x y, ctl.OnScreen x y → ctl.idx x y ≠ a) :
    (ctl.shtctlRefreshAll hook).vram a = ctl.vram a :=
  @redrawAll_off (ctl.repaintBack hook) _ ha

theorem refreshAll_twice :
    ((ctl.shtctlRefreshAll hook).shtctlRefreshAll hook).vram = (ctl.shtctlRefreshAll hook).vram := by
  have hsame := sameStack_redrawAll (ctl.repaintBack hook)
  have hd' := repaintBack_desktop hd hook
  have hsolid' := repaintBack_solidPlain hd hsolid hook
  have hd1 : Desktop (ctl.shtctlRefreshAll hook) back := hsame.desktop hd'
  have hs1 : SolidPlain (ctl.shtctlRefreshAll hook) := hsolid'
  have htwice := repaintBack_twice hd hook
  funext a
  by_cases ha : ∀ x y, ctl.OnScreen x y → ctl.idx x y ≠ a
  · exact @refreshAll_off (ctl.shtctlRefreshAll hook) hook _ ha
  · push Not at ha
    obtain ⟨x, y, hon, rfl⟩ := ha
    rw [refreshAll_painter hd hsolid hook hon 0]
    refine (refreshAll_painter hd1 hs1 hook hon 0).trans ?_
    unfold painter
    rw [htwice.layers, htwice.sheets0]

end RefreshAll

/-- `shtctl_refresh_all` leaves the painter's result, whatever the frame buffer and the map
held before, and doing it twice is doing it once. -/
theorem refreshAll_correct {ctl : Shtctl} {back : Sid} (hd : Desktop ctl back)
    (hsolid : SolidPlain ctl) (hook : Option TaskbarHook) :
    (∀ x y, ctl.OnScreen x y → ∀ v,
      (ctl.shtctlRefreshAll hook).vram (ctl.idx x y) = (ctl.repaintBack hook).painter x y v) ∧
    (∀ vram map x y, ctl.OnScreen x y →
      (({ ctl with vram := vram, map := map } : Shtctl).shtctlRefreshAll hook).vram (ctl.idx x y) =
        (ctl.shtctlRefreshAll hook).vram (ctl.idx x y)) ∧
    ((ctl.shtctlRefreshAll hook).shtctlRefreshAll hook).vram = (ctl.shtctlRefreshAll hook).vram := by
  refine ⟨fun x y hon v => refreshAll_painter hd hsolid hook hon v, fun vram map x y hon => ?_,
    refreshAll_twice hd hsolid hook⟩
  have hsame : SameStack ctl { ctl with vram := vram, map := map } := ⟨rfl, rfl, rfl, rfl, rfl⟩
  rw [refreshAll_painter hd hsolid hook hon 0]
  exact @refreshAll_painter { ctl with vram := vram, map := map } _ (hsame.desktop hd)
    hsolid hook _ _ hon 0

/-- The sheets 0 and 1 are in use, and 1 stands on 0. -/
theorem consistent_pair {ctl : Shtctl} (htop : ctl.top = 1)
    (hsheets : ctl.sheets = fun h => if h = 1 then 1 else 0)
    (hheight : ∀ s, ctl.height s = if s = 0 then 0 else if s = 1 then 1 else -1)
    (hflags : ∀ s, (ctl.sheets0 s).flags = if s ≤ 1 then 1 else 0) : Consistent ctl where
  top_ge := by omega
  used := by
    intro h _ _
    unfold inUse
    rw [hflags, hsheets]
    change (if (if h = 1 then (1 : Sid) else 0) ≤ 1 then 1 else 0) ≠ 0
    split <;> decide
  at_height := by
    intro h h0 h1
    rw [hheight, hsheets]
    obtain rfl | rfl : h = 0 ∨ h = 1 := by omega
    · rfl
    · rfl
  hidden_or := by
    intro s hs
    have hmem : ∀ s : Sid, (if s ≤ 1 then 1 else 0) ≠ 0 → s ∈ [(0 : Sid), 1] := by decide
    have hlayers : ctl.layers = [0, 1] := by
      unfold layers
      rw [htop, hsheets]
      rfl
    unfold inUse at hs
    rw [hflags] at hs
    rw [hlayers]
    exact .inr (hmem s hs)

attribute [local instance] Sid.neZero in
/-- A 1×1 screen with its background and a window whose only pixel is a shadow. -/
def markedDesk (colInv : Pixel) : Shtctl where
  vram := fun _ => 0
  map := fun _ => 0
  xsize := 1
  ysize := 1
  top := 1
  sheets := fun h => if h = 1 then 1 else 0
  sheets0 := fun s =>
    { buf := fun _ => if s = 0 then 0x00008080 else 0xFF000005
      bxsize := 1, bysize := 1, vx0 := 0, vy0 := 0
      colInv := if s = 0 then colInvNone else colInv
      height := if s = 0 then 0 else if s = 1 then 1 else -1
      flags := if s ≤ 1 then 1 else 0 }

theorem markedDesk_desktop (colInv : Pixel) : Desktop (markedDesk colInv) 0 where
  consistent := consistent_pair rfl rfl (fun _ => rfl) fun _ => rfl
  bottom := rfl
  solid := rfl
  left := rfl
  upper := rfl
  width := Int.le_refl 1
  depth := Int.le_refl 1

theorem markedDesk_solidPlain {colInv : Pixel} (h : colInv ≠ colInvNone) :
    SolidPlain (markedDesk colInv) := by
  intro s _ hinv _ _ _ _ _ _
  change (if s = 0 then colInvNone else colInv) = colInvNone at hinv
  change Pixel.isShadow (if s = 0 then 0x00008080 else 0xFF000005) = false
  by_cases hs : s = 0
  · rw [if_pos hs]
    decide
  · rw [if_neg hs] at hinv
    exact absurd hinv h

theorem refreshAll_correct_markedDesk :
    (∀ x y, (markedDesk 0x00FF00FF).OnScreen x y → ∀ v,
      ((markedDesk 0x00FF00FF).shtctlRefreshAll none).vram ((markedDesk 0x00FF00FF).idx x y) =
        ((markedDesk 0x00FF00FF).repaintBack none).painter x y v) ∧
    (∀ vram map x y, (markedDesk 0x00FF00FF).OnScreen x y →
      (({ markedDesk 0x00FF00FF with vram := vram, map := map } : Shtctl).shtctlRefreshAll none).vram
          ((markedDesk 0x00FF00FF).idx x y) =
        ((markedDesk 0x00FF00FF).shtctlRefreshAll none).vram ((markedDesk 0x00FF00FF).idx x y)) ∧
    (((markedDesk 0x00FF00FF).shtctlRefreshAll none).shtctlRefreshAll none).vram =
      ((markedDesk 0x00FF00FF).shtctlRefreshAll none).vram :=
  refreshAll_correct (markedDesk_desktop _) (markedDesk_solidPlain (by decide)) none

/-- A shadow pixel of a sheet without a transparent colour is entered in the map, so it is
subtracted from what the frame buffer held before. -/
theorem refreshAll_keeps_stale :
    Desktop (markedDesk colInvNone) 0 ∧ ((markedDesk colInvNone).sheets0 0).Plain ∧
    ((markedDesk colInvNone).shtctlRefreshAll none).vram 0 ≠
      (({ markedDesk colInvNone with vram := fun _ => 0x00FFFFFF } : Shtctl).shtctlRefreshAll
        none).vram 0 :=
  ⟨markedDesk_desktop _,
    fun _ _ _ _ _ _ => show Pixel.isShadow 0x00008080 = false by decide, by decide⟩

end Shtctl

end WinDOS
