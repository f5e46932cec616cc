import WinDOS.Window.Painter

/-!
# The row pitch of the frame buffer

The boot loader hands over the width, the height and the pitch of the frame buffer, the pitch in
pixels. The desktop is drawn with that pitch, the compositor takes the width for it, and the boot
loader's own dead screen a quarter of it. Sizes and indices have no width: screens and frame
buffers have at most 2^31 pixels, so that no index leaves `int`.
-/

set_option autoImplicit false

namespace WinDOS

open Loop Overwrite Shtctl

/-- The frame buffer as `BootInfo` describes it. -/
structure Geometry where
  hr : Nat
  vr : Nat
  stride : Nat
  le : hr ≤ stride

/-- `WinDOS UEFI Kernel`. -/
def bannerText : Text :=
  [0x57, 0x69, 0x6E, 0x44, 0x4F, 0x53, 0x20, 0x55, 0x45, 0x46, 0x49, 0x20, 0x4B, 0x65, 0x72, 0x6E,
    0x65, 0x6C]

/-- `Mouse: OK  Key: OK`. -/
def devicesText : Text :=
  [0x4D, 0x6F, 0x75, 0x73, 0x65, 0x3A, 0x20, 0x4F, 0x4B, 0x20, 0x20, 0x4B, 0x65, 0x79, 0x3A, 0x20,
    0x4F, 0x4B]

namespace Geometry

/-- The desktop that `_start` draws into the frame buffer: the background, a black bar of 40 rows
at the bottom and two lines of text. -/
def drawDesktop (font : Font) (g : Geometry) (fb : Buffer) : Buffer :=
  let fb := forUp 0 g.vr (fun y =>
    let c : Pixel := if y ≥ u32 (g.vr - 40) then 0 else 0x00008080
    forUp 0 g.hr fun x fb => Function.update fb (u32 (y * g.stride + x)) c) fb
  putStrC font g.stride g.hr g.vr 8 28 devicesText 0x00FFFFFF
    (putStrC font g.stride g.hr g.vr 8 8 bannerText 0x00FFFFFF fb)

/-- What `bsod` writes, in this order: the black rows and two white lines. -/
def bsod (g : Geometry) : List (Nat × Pixel) :=
  let s32 := g.stride / 4
  let my := g.vr / 2
  (List.range g.vr).flatMap (fun y => (List.range g.hr).map fun x => (y * s32 + x, 0x00000000)) ++
    (List.range g.hr).map (fun x => (my * s32 + x, 0x00FFFFFF)) ++
    (List.range g.hr).map fun x => ((my + 20) * s32 + x, 0x00FFFFFF)

/-- A stack on a screen of this geometry, after the desktop has been drawn. The sheet functions
may have run since: they write only the words that the compositor takes for pixels. -/
structure Booted (font : Font) (g : Geometry) (ctl : Shtctl) (back : Sid) : Prop where
  desktop : Desktop ctl back
  solidPlain : SolidPlain ctl
  xsize : ctl.xsize = g.hr
  ysize : ctl.ysize = g.vr
  drawn : ∃ fb, ∀ a, (∀ x y, ctl.OnScreen x y → ctl.idx x y ≠ a) →
    ctl.vram a = g.drawDesktop font fb a

/-- After `shtctl_refresh_all` every pixel shows its colour. -/
def PictureRight (font : Font) (g : Geometry) : Prop :=
  ∀ ctl back hook, Booted font g ctl back → ∀ x y, ctl.OnScreen x y → ∀ v,
    (ctl.shtctlRefreshAll hook).vram (y * g.stride + x) = (ctl.repaintBack hook).painter x y v

/-- The words that `bsod` makes black are those of the screen. -/
def BlackRight (g : Geometry) : Prop :=
  ∀ i, (i, (0 : Pixel)) ∈ g.bsod ↔ ∃ x y, x < g.hr ∧ y < g.vr ∧ i = y * g.stride + x

/-! ### The dead screen of the boot loader -/

theorem mem_bsod_black {g : Geometry} {i : Nat} : (i, (0 : Pixel)) ∈ g.bsod ↔
    ∃ x y, x < g.hr ∧ y < g.vr ∧ i = y * (g.stride / 4) + x := by
  have hwhite : (0x00FFFFFF : Pixel) ≠ 0 := by decide
  simp only [bsod, List.mem_append, List.mem_flatMap, List.mem_map, List.mem_range, Prod.mk.injEq,
    hwhite, and_false, exists_false, or_false]
  constructor
  · rintro ⟨y, hy, x, hx, rfl, -⟩
    exact ⟨x, y, hx, hy, rfl⟩
  · rintro ⟨x, y, hx, hy, rfl⟩
    exact ⟨y, hy, x, hx, rfl, trivial⟩

/-- The last word of the screen lies beyond all the words written. -/
theorem last_not_black {g : Geometry} (hv : 2 ≤ g.vr) (hh : 1 ≤ g.hr) :
    ((g.vr - 1) * g.stride + (g.hr - 1), (0 : Pixel)) ∉ g.bsod := by
  rw [mem_bsod_black]
  rintro ⟨x, y, hx, hy, heq⟩
  have hle := g.le
  have hrow : y * (g.stride / 4) ≤ (g.vr - 1) * (g.stride / 4) :=
    Nat.mul_le_mul_right _ (by omega)
  have hpitch : (g.vr - 1) * (g.stride / 4) < (g.vr - 1) * g.stride :=
    Nat.mul_lt_mul_of_pos_left (by omega) (by omega)
  omega

theorem blackRight_iff {g : Geometry} : BlackRight g ↔ g.vr ≤ 1 ∨ g.hr = 0 := by
  constructor
  · intro h
    by_contra hno
    exact last_not_black (by omega) (by omega)
      ((h _).mpr ⟨g.hr - 1, g.vr - 1, by omega, by omega, rfl⟩)
  · intro h i
    rw [mem_bsod_black]
    refine exists_congr fun x => exists_congr fun y => and_congr_right fun hx =>
      and_congr_right fun hy => ?_
    obtain rfl : y = 0 := by omega
    rw [Nat.zero_mul, Nat.zero_mul]

/-! ### The picture -/

/-- With the width for the pitch, or on a single row, the two indices are the same. -/
theorem pictureRight_of {font : Font} {g : Geometry}
    (h : g.stride = g.hr ∨ g.vr ≤ 1 ∨ g.hr = 0) : PictureRight font g := by
  intro ctl back hook hb x y hon v
  rw [← refreshAll_painter hb.desktop hb.solidPlain hook hon v]
  obtain ⟨hx0, hx1, hy0, hy1⟩ := hon
  rw [hb.xsize] at hx1
  rw [hb.ysize] at hy1
  congr 1
  rw [idx, hb.xsize]
  rcases h with h | h | h
  · rw [h]
  · obtain rfl : y = 0 := by omega
    rw [Int.zero_mul, Int.zero_mul]
  · omega

/-- The colour of the window of `onePixel`, which nothing else has. -/
def mark : Pixel := 0x00123456

attribute [local instance] Sid.neZero in
/-- The desktop on a cleared frame buffer with a window of one pixel, the first of the second row. -/
def onePixel (font : Font) (g : Geometry) : Shtctl where
  vram := g.drawDesktop font fun _ => 0
  map := fun _ => 0
  xsize := g.hr
  ysize := g.vr
  top := 1
  sheets := fun h => if h = 1 then 1 else 0
  sheets0 := fun s =>
    { buf := fun _ => if s = 0 then 0x00008080 else mark
      bxsize := if s = 0 then g.hr else 1, bysize := if s = 0 then g.vr else 1
      vx0 := 0, vy0 := if s = 0 then 0 else 1
      colInv := if s = 0 then colInvNone else 0x00FF00FF
      height := if s = 0 then 0 else if s = 1 then 1 else -1
      flags := if s ≤ 1 then 1 else 0 }

theorem onePixel_booted (font : Font) (g : Geometry) : Booted font g (onePixel font g) 0 where
  desktop :=
    { consistent := consistent_pair rfl rfl (fun _ => rfl) fun _ => rfl
      bottom := rfl, solid := rfl, left := rfl, upper := rfl
      width := Int.le_refl _, depth := Int.le_refl _ }
  solidPlain := by
    intro s _ hinv _ _ _ _ _ _
    change (if s = 0 then colInvNone else 0x00FF00FF) = colInvNone at hinv
    change Pixel.isShadow (if s = 0 then 0x00008080 else mark) = false
    split <;> decide
  xsize := rfl
  ysize := rfl
  drawn := ⟨fun _ => 0, fun _ _ => rfl⟩

theorem drawDesktop_ne_mark (font : Font) (g : Geometry) (a : Int) :
    g.drawDesktop font (fun _ => 0) a ≠ mark := by
  have hwhite : (0x00FFFFFF : Pixel) ≠ mark := by decide
  have hback : Overwrites (fun p => p ≠ mark) (fun fb : Buffer => forUp 0 g.vr (fun y =>
      let c : Pixel := if y ≥ u32 (g.vr - 40) then 0 else 0x00008080
      forUp 0 g.hr fun x fb => Function.update fb (u32 (y * g.stride + x)) c) fb) := by
    refine .forUp fun y _ _ => .forUp fun x _ _ => .update _ ?_
    split <;> decide
  have htext := fun y s => putStrC_overwrites (Q := fun p => p ≠ mark) hwhite font g.stride g.hr
    g.vr y s 8
  have hall := (htext 28 devicesText).comp ((htext 8 bannerText).comp hback)
  exact hall.of_forall (b := fun _ => 0) (i := a) (by decide)

theorem desktopFill_colour (bw bh : Int) :
    Overwrites (fun p => p = 0 ∨ p = 0x00008080) (desktopFill bw bh) := by
  unfold desktopFill
  refine .forUp fun y _ _ => .forUp fun x _ _ => .update _ ?_
  split
  · exact .inl rfl
  · exact .inr rfl

theorem onePixel_painter (font : Font) (g : Geometry) {x y : Int}
    (hon : (onePixel font g).OnScreen x y) :
    ((onePixel font g).repaintBack none).painter x y 0 = mark ↔ x = 0 ∧ y = 1 := by
  obtain ⟨hx0, hx1, hy0, hy1⟩ := hon
  have hx1 : x < g.hr := hx1
  have hy1 : y < g.vr := hy1
  have hb := onePixel_booted font g
  rw [repaintBack_eq hb.desktop none]
  generalize hbuf : paintBack none (u32 ((onePixel font g).sheets0 0).bxsize)
    (u32 ((onePixel font g).sheets0 0).bysize) ((onePixel font g).sheets0 0).buf = buf
  have hcolour : ∀ i, buf i = 0 ∨ buf i = 0x00008080 := fun i => by
    rw [← hbuf]
    exact (desktopFill_colour _ _).of_forall (.inr rfl)
  have hunmarked : ∀ i, (buf i).isShadow = false ∧ buf i ≠ colInvNone ∧ buf i ≠ mark := by
    intro i
    rcases hcolour i with h | h <;> rw [h] <;> decide
  have hback : ∀ v, (((onePixel font g).draw 0 buf).sheets0 0).painterStep x y v =
      buf ((y - 0) * g.hr + (x - 0)) := by
    intro v
    have hcov : (((onePixel font g).draw 0 buf).sheets0 0).covers x y = true :=
      Rect.contains_iff.mpr ⟨hx0, show x < 0 + (g.hr : Int) by omega, hy0,
        show y < 0 + (g.vr : Int) by omega⟩
    obtain ⟨hsh, hinv, -⟩ := hunmarked ((y - 0) * g.hr + (x - 0))
    rw [Sheet.painterStep, if_pos hcov]
    exact (if_neg (by rw [Bool.not_eq_true]; exact hsh)).trans (if_neg hinv)
  have hwin : ∀ v, (((onePixel font g).draw 0 buf).sheets0 1).painterStep x y v =
      if x = 0 ∧ y = 1 then mark else v := by
    intro v
    have hcov : (((onePixel font g).draw 0 buf).sheets0 1).covers x y = true ↔ x = 0 ∧ y = 1 := by
      refine Rect.contains_iff.trans ?_
      change (0 : Int) ≤ x ∧ x < 0 + 1 ∧ (1 : Int) ≤ y ∧ y < 1 + 1 ↔ _
      omega
    rw [Sheet.painterStep]
    by_cases hin : x = 0 ∧ y = 1
    · rw [if_pos (hcov.mpr hin), if_pos hin]
      exact (if_neg (show ¬ mark.isShadow = true by decide)).trans
        (if_neg (show mark ≠ 0x00FF00FF by decide))
    · rw [if_neg (fun h => hin (hcov.mp h)), if_neg hin]
  change (((onePixel font g).draw 0 buf).sheets0 1).painterStep x y
    ((((onePixel font g).draw 0 buf).sheets0 0).painterStep x y 0) = mark ↔ _
  rw [hwin, hback]
  by_cases hin : x = 0 ∧ y = 1
  · rw [if_pos hin]
    exact iff_of_true rfl hin
  · rw [if_neg hin]
    exact iff_of_false (hunmarked _).2.2 hin

/-- With a larger pitch the word of the window's pixel is another pixel's, or the desktop's. -/
theorem onePixel_wrong (font : Font) {g : Geometry} (hpitch : g.stride ≠ g.hr) (hv : 2 ≤ g.vr)
    (hh : 1 ≤ g.hr) : (onePixel font g).OnScreen 0 1 ∧
      ((onePixel font g).shtctlRefreshAll none).vram (1 * g.stride + 0) ≠
        ((onePixel font g).repaintBack none).painter 0 1 0 := by
  have hb := onePixel_booted font g
  have hon : (onePixel font g).OnScreen 0 1 := by
    refine ⟨Int.le_refl 0, ?_, by decide, ?_⟩
    · change (0 : Int) < g.hr
      omega
    · change (1 : Int) < g.vr
      omega
  refine ⟨hon, ?_⟩
  rw [(onePixel_painter font g hon).mpr ⟨rfl, rfl⟩]
  by_cases hoff : ∀ x y, (onePixel font g).OnScreen x y →
      (onePixel font g).idx x y ≠ 1 * g.stride + 0
  · rw [refreshAll_off none hoff]
    exact drawDesktop_ne_mark font g _
  · push Not at hoff
    obtain ⟨x, y, hon', hidx⟩ := hoff
    rw [← hidx, refreshAll_painter hb.desktop hb.solidPlain none hon' 0]
    intro hmark
    obtain ⟨rfl, rfl⟩ := (onePixel_painter font g hon').mp hmark
    change (1 : Int) * g.hr + 0 = 1 * g.stride + 0 at hidx
    omega

theorem pictureRight_iff {font : Font} {g : Geometry} :
    PictureRight font g ↔ g.stride = g.hr ∨ g.vr ≤ 1 ∨ g.hr = 0 := by
  refine ⟨fun h => ?_, pictureRight_of⟩
  by_contra hno
  obtain ⟨hon, hwrong⟩ := @onePixel_wrong font g (by omega) (by omega) (by omega)
  exact hwrong (h _ 0 none (onePixel_booted font g) 0 1 hon 0)

/-- When the picture is right, when the dead screen is, and when both are. -/
theorem pitches_right_iff (font : Font) (g : Geometry) :
    (PictureRight font g ∧ BlackRight g ↔ g.vr ≤ 1 ∨ g.hr = 0) ∧
    (PictureRight font g ↔ g.stride = g.hr ∨ g.vr ≤ 1 ∨ g.hr = 0) ∧
    (BlackRight g ↔ g.vr ≤ 1 ∨ g.hr = 0) := by
  refine ⟨?_, pictureRight_iff, blackRight_iff⟩
  rw [pictureRight_iff, blackRight_iff]
  tauto

/-- 800 by 600 with scan lines padded to 832 pixels. -/
def paddedMode : Geometry := ⟨800, 600, 832, by decide⟩

/-- On padded scan lines neither the picture nor the dead screen is right. -/
theorem padded_mode_wrong :
    ((onePixel (fun _ _ => 0) paddedMode).OnScreen 0 1 ∧
      ((onePixel (fun _ _ => 0) paddedMode).shtctlRefreshAll none).vram (1 * 832 + 0) ≠
        ((onePixel (fun _ _ => 0) paddedMode).repaintBack none).painter 0 1 0) ∧
    ¬ PictureRight (fun _ _ => 0) paddedMode ∧
    (599 * 832 + 799, (0 : Pixel)) ∉ paddedMode.bsod ∧ ¬ BlackRight paddedMode := by
  have hwrong := @onePixel_wrong (fun _ _ => 0) paddedMode (by decide) (by decide) (by decide)
  have hlast := @last_not_black paddedMode (by decide) (by decide)
  refine ⟨hwrong, fun h => ?_, hlast, fun h => ?_⟩
  · exact hwrong.2 (h _ 0 none (onePixel_booted _ paddedMode) 0 1 hwrong.1 0)
  · exact hlast ((h _).mpr ⟨799, 599, by decide, by decide, rfl⟩)

end Geometry

end WinDOS
