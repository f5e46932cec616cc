import WinDOS.Window.Sheet

/-!
# Refreshing seen from one pixel

`sheet_refreshmap` and `sheet_refreshsub` loop over rectangles; here each is restated
for a single screen pixel, as a fold over the layers from bottom to top. Words outside
the screen are never written.
-/

set_option autoImplicit false

namespace WinDOS

open Loop Layers

namespace Sheet

/-- The screen pixel falls on the sheet. -/
def covers (sht : Sheet) (x y : Int) : Bool := sht.rect.contains x y

def pixelAt (sht : Sheet) (x y : Int) : Pixel := sht.pixel (x - sht.vx0) (y - sht.vy0)

/-- The sheet is opaque at a screen pixel, in the sense of `sheet_refreshmap`. -/
def opaqueAt (sht : Sheet) (x y : Int) : Bool :=
  sht.covers x y && sht.registers (x - sht.vx0) (y - sht.vy0)

end Sheet

namespace Shtctl

def OnScreen (ctl : Shtctl) (x y : Int) : Prop :=
  0 ≤ x ∧ x < ctl.xsize ∧ 0 ≤ y ∧ y < ctl.ysize

instance (ctl : Shtctl) (x y : Int) : Decidable (ctl.OnScreen x y) :=
  inferInstanceAs (Decidable (_ ∧ _))

def idx (ctl : Shtctl) (x y : Int) : Int := y * ctl.xsize + x

def opaqueLayer (ctl : Shtctl) (x y : Int) (s : Sid) : Bool := (ctl.sheets0 s).opaqueAt x y

theorem idx_inj {ctl : Shtctl} {x y x' y' : Int} (h : ctl.OnScreen x y)
    (h' : ctl.OnScreen x' y') (heq : ctl.idx x y = ctl.idx x' y') : x = x' ∧ y = y' := by
  obtain ⟨hx0, hx1, _, _⟩ := h
  obtain ⟨hx0', hx1', _, _⟩ := h'
  unfold idx at heq
  have hrow : ∀ a b c d : Int, 0 ≤ c → d < ctl.xsize → a < b →
      a * ctl.xsize + d < b * ctl.xsize + c := by
    intro a b c d hc hd hab
    have hmul := Int.mul_le_mul_of_nonneg_right (show a + 1 ≤ b by omega)
      (show 0 ≤ ctl.xsize by omega)
    rw [Int.add_mul, Int.one_mul] at hmul
    omega
  rcases Int.lt_trichotomy y y' with hlt | rfl | hgt
  · have := hrow y y' x' x hx0' hx1 hlt
    omega
  · exact ⟨by omega, rfl⟩
  · have := hrow y' y x x' hx0 hx1' hgt
    omega

theorem update_ite_of_ne {β : Type} {c : Prop} [Decidable c] {f : Int → β} {a i : Int} {v : β}
    (h : a ≠ i) : (if c then Function.update f i v else f) a = f a := by
  split
  · exact Function.update_of_ne h _ _
  · rfl

section ForBox

variable {β : Type} (ctl : Shtctl) (sht : Sheet) (b : Rect)
  {body : Int → Int → Int → Int → (Int → β) → (Int → β)}
  (hother : ∀ bX bY vx vy arr a, ctl.idx vx vy ≠ a → body bX bY vx vy arr a = arr a)
include hother

theorem forBox_off {a : Int} (ha : ∀ x y, ctl.OnScreen x y → ctl.idx x y ≠ a)
    (arr : Int → β) : ctl.forBox sht b body arr a = arr a := by
  have hrow : ∀ bY (arr : Int → β), (if 0 ≤ sht.vy0 + bY ∧ sht.vy0 + bY < ctl.ysize then
      forUp b.vx0 b.vx1 (fun bX =>
        if 0 ≤ sht.vx0 + bX ∧ sht.vx0 + bX < ctl.xsize then
          body bX bY (sht.vx0 + bX) (sht.vy0 + bY) else id) else id) arr a = arr a := by
    intro bY arr
    split
    · rename_i hy
      rw [forUp_map (fun arr : Int → β => arr a) (g := fun _ v => v)]
      · exact forUp_skip (fun _ _ _ _ => rfl) _
      · intro bX arr _ _
        split
        · rename_i hx
          exact hother _ _ _ _ _ _ (ha _ _ ⟨hx.1, hx.2, hy.1, hy.2⟩)
        · rfl
    · rfl
  unfold forBox
  rw [forUp_map (fun arr : Int → β => arr a) (g := fun _ v => v) fun bY arr _ _ => hrow bY arr]
  exact forUp_skip (fun _ _ _ _ => rfl) _

theorem forBox_at {x y : Int} (hon : ctl.OnScreen x y) (step : β → β)
    (hat : ∀ arr, body (x - sht.vx0) (y - sht.vy0) x y arr (ctl.idx x y) =
      step (arr (ctl.idx x y)))
    (arr : Int → β) :
    ctl.forBox sht b body arr (ctl.idx x y) =
      if b.contains (x - sht.vx0) (y - sht.vy0) then step (arr (ctl.idx x y))
      else arr (ctl.idx x y) := by
  obtain ⟨hx0, hx1, hy0, hy1⟩ := hon
  let cell : Int → Int → β → β := fun bX bY v =>
    if bX = x - sht.vx0 ∧ bY = y - sht.vy0 then step v else v
  let row : Int → β → β := fun bY v =>
    if 0 ≤ sht.vy0 + bY ∧ sht.vy0 + bY < ctl.ysize then
      forUp b.vx0 b.vx1 (fun bX v =>
        if 0 ≤ sht.vx0 + bX ∧ sht.vx0 + bX < ctl.xsize then cell bX bY v else v) v
    else v
  have hcell : ∀ bX bY (arr : Int → β), 0 ≤ sht.vx0 + bX → sht.vx0 + bX < ctl.xsize →
      0 ≤ sht.vy0 + bY → sht.vy0 + bY < ctl.ysize →
      body bX bY (sht.vx0 + bX) (sht.vy0 + bY) arr (ctl.idx x y) =
        cell bX bY (arr (ctl.idx x y)) := by
    intro bX bY arr h1 h2 h3 h4
    by_cases hb : bX = x - sht.vx0 ∧ bY = y - sht.vy0
    · obtain ⟨rfl, rfl⟩ := hb
      have hx : sht.vx0 + (x - sht.vx0) = x := by omega
      have hy : sht.vy0 + (y - sht.vy0) = y := by omega
      rw [hx, hy, hat]
      simp [cell]
    · rw [hother _ _ _ _ _ _ ?_]
      · simp only [cell, if_neg hb]
      · intro heq
        have := idx_inj ⟨h1, h2, h3, h4⟩ ⟨hx0, hx1, hy0, hy1⟩ heq
        omega
  have hrow : ∀ bY (arr : Int → β), (if 0 ≤ sht.vy0 + bY ∧ sht.vy0 + bY < ctl.ysize then
      forUp b.vx0 b.vx1 (fun bX =>
        if 0 ≤ sht.vx0 + bX ∧ sht.vx0 + bX < ctl.xsize then
          body bX bY (sht.vx0 + bX) (sht.vy0 + bY) else id) else id) arr (ctl.idx x y) =
        row bY (arr (ctl.idx x y)) := by
    intro bY arr
    by_cases hy : 0 ≤ sht.vy0 + bY ∧ sht.vy0 + bY < ctl.ysize
    · simp only [row, if_pos hy]
      refine forUp_map (fun arr : Int → β => arr (ctl.idx x y)) ?_ arr
      intro bX arr _ _
      split
      · rename_i hx
        exact hcell bX bY arr hx.1 hx.2 hy.1 hy.2
      · rfl
    · simp only [row, if_neg hy, id]
  unfold forBox
  rw [forUp_map (fun arr : Int → β => arr (ctl.idx x y)) fun bY arr _ _ => hrow bY arr,
    forUp_single (y - sht.vy0)]
  · have hy : 0 ≤ sht.vy0 + (y - sht.vy0) ∧ sht.vy0 + (y - sht.vy0) < ctl.ysize := by omega
    have hx : 0 ≤ sht.vx0 + (x - sht.vx0) ∧ sht.vx0 + (x - sht.vx0) < ctl.xsize := by omega
    simp only [row, if_pos hy]
    rw [forUp_single (x - sht.vx0)]
    · simp only [if_pos hx, cell, Rect.contains_iff, and_self, if_true]
      split_ifs <;> first | rfl | omega
    · intro bX v _ _ hne
      simp [cell, hne]
  · intro bY v _ _ hne
    simp only [row, cell]
    split
    · exact forUp_skip (fun bX v _ _ => by simp [hne]) v
    · rfl

end ForBox

theorem clip_low {t v a : Int} (ht : 0 ≤ t) :
    (if (if a < 0 then 0 else a) - v < 0 then 0 else (if a < 0 then 0 else a) - v) ≤ t - v ↔
      a ≤ t ∧ v ≤ t := by
  split_ifs <;> omega

theorem clip_high {t v b n size : Int} (ht : t < size) :
    t - v < (if (if b > size then size else b) - v > n then n
      else (if b > size then size else b) - v) ↔ t < b ∧ t < v + n := by
  split_ifs <;> omega

/-- Clipping a screen rectangle to the screen and then to the sheet. -/
theorem clip_contains {ctl : Shtctl} {x y : Int} (hon : ctl.OnScreen x y) (sht : Sheet)
    (r : Rect) : (sht.clip (ctl.clip r)).contains (x - sht.vx0) (y - sht.vy0) =
      (r.contains x y && sht.covers x y) := by
  obtain ⟨hx0, hx1, hy0, hy1⟩ := hon
  have hleft : (sht.clip (ctl.clip r)).vx0 ≤ x - sht.vx0 ↔ r.vx0 ≤ x ∧ sht.vx0 ≤ x := clip_low hx0
  have hlow : (sht.clip (ctl.clip r)).vy0 ≤ y - sht.vy0 ↔ r.vy0 ≤ y ∧ sht.vy0 ≤ y := clip_low hy0
  have hright : x - sht.vx0 < (sht.clip (ctl.clip r)).vx1 ↔ x < r.vx1 ∧ x < sht.rect.vx1 :=
    clip_high hx1
  have hhigh : y - sht.vy0 < (sht.clip (ctl.clip r)).vy1 ↔ y < r.vy1 ∧ y < sht.rect.vy1 :=
    clip_high hy1
  rw [Bool.eq_iff_iff, Bool.and_eq_true, Sheet.covers, Rect.contains_iff, Rect.contains_iff,
    Rect.contains_iff, hleft, hlow, hright, hhigh]
  change _ ↔ _ ∧ sht.vx0 ≤ x ∧ _ ∧ sht.vy0 ≤ y ∧ _
  omega

/-! ### The map -/

theorem mapLayer_at {ctl : Shtctl} {x y : Int} (hon : ctl.OnScreen x y) (r : Rect) (s : Sid)
    (map : Int → BitVec 8) :
    ctl.mapLayer (ctl.clip r) s map (ctl.idx x y) =
      if r.contains x y && (ctl.sheets0 s).opaqueAt x y then sidByte s
      else map (ctl.idx x y) := by
  unfold mapLayer forPixels
  rw [forBox_at ctl _ _ ?_ hon (fun v =>
    if (ctl.sheets0 s).registers (x - (ctl.sheets0 s).vx0) (y - (ctl.sheets0 s).vy0)
    then sidByte s else v), clip_contains hon]
  · unfold Sheet.opaqueAt
    generalize (ctl.sheets0 s).covers x y = c
    cases r.contains x y <;> cases c <;> rfl
  · intro arr
    split <;> simp [idx]
  · intro bX bY vx vy arr a ha
    exact update_ite_of_ne ha.symm

/-- Inside the rectangle the map names the topmost opaque sheet among heights `h0..top`,
if there is one; everything else stays as it was. -/
theorem sheetRefreshmap_at {ctl : Shtctl} {x y : Int} (hon : ctl.OnScreen x y) (r : Rect)
    (h0 : Int) : (ctl.sheetRefreshmap r h0).map (ctl.idx x y) =
      if r.contains x y then
        ((topmost (ctl.opaqueLayer x y) (seg ctl.sheets h0 (ctl.top + 1))).map sidByte).getD
          (ctl.map (ctl.idx x y))
      else ctl.map (ctl.idx x y) := by
  rw [sheetRefreshmap_map, forUp_map (fun map : Int → BitVec 8 => map (ctl.idx x y))
    (g := fun h v => if r.contains x y && ctl.opaqueLayer x y (ctl.sheets h)
      then sidByte (ctl.sheets h) else v)
    fun h map _ _ => mapLayer_at hon r (ctl.sheets h) map]
  by_cases hr : r.contains x y = true
  · simp only [hr, Bool.true_and, if_true]
    rw [forUp_eq_foldl_seg ctl.sheets (fun s v =>
      if ctl.opaqueLayer x y s then sidByte s else v), foldl_topmost]
  · rw [if_neg hr]
    exact forUp_skip (fun _ _ _ _ => by simp [hr]) _

/-! ### The frame buffer -/

/-- What one layer does to the colour `v` of a screen pixel whose map entry is `owner`. -/
def paint (sheets0 : Sid → Sheet) (owner : BitVec 8) (x y : Int) (v : Pixel) (s : Sid) : Pixel :=
  if (sheets0 s).covers x y && (owner == sidByte s || ((sheets0 s).pixelAt x y).isShadow) then
    if ((sheets0 s).pixelAt x y).isShadow then shade v ((sheets0 s).pixelAt x y)
    else (sheets0 s).pixelAt x y
  else v

/-- What `sheet_refreshsub` does with one pixel of a sheet. -/
def subPixel (ctl : Shtctl) (h : Int) (s : Sid) (bX bY vx vy : Int) (vram : Int → Pixel) :
    Int → Pixel :=
  let pix := (ctl.sheets0 s).pixel bX bY
  if ctl.map (vy * ctl.xsize + vx) == sidByte s || (h == (ctl.sheets0 s).height && pix.isShadow) then
    Function.update vram (vy * ctl.xsize + vx)
      (if pix.isShadow then shade (vram (vy * ctl.xsize + vx)) pix else pix)
  else vram

theorem subLayer_eq (ctl : Shtctl) (r : Rect) (h : Int) (s : Sid) : ctl.subLayer r h s =
    ctl.forBox (ctl.sheets0 s) ((ctl.sheets0 s).clip r) (ctl.subPixel h s) := rfl

theorem subPixel_other {ctl : Shtctl} {h : Int} {s : Sid} (bX bY vx vy : Int) (vram : Int → Pixel)
    (a : Int) (ha : ctl.idx vx vy ≠ a) : ctl.subPixel h s bX bY vx vy vram a = vram a :=
  update_ite_of_ne ha.symm

theorem forBox_subPixel {ctl : Shtctl} {x y : Int} (hon : ctl.OnScreen x y) {h : Int} {s : Sid}
    (hs : ctl.height s = h) {b : Rect} {inside : Bool}
    (hb : b.contains (x - (ctl.sheets0 s).vx0) (y - (ctl.sheets0 s).vy0) =
      (inside && (ctl.sheets0 s).covers x y)) (vram : Int → Pixel) :
    ctl.forBox (ctl.sheets0 s) b (ctl.subPixel h s) vram (ctl.idx x y) =
      if inside then paint ctl.sheets0 (ctl.map (ctl.idx x y)) x y (vram (ctl.idx x y)) s
      else vram (ctl.idx x y) := by
  have hh : (h == (ctl.sheets0 s).height) = true := by
    rw [beq_iff_eq]
    exact hs.symm
  let p := (ctl.sheets0 s).pixelAt x y
  rw [forBox_at ctl _ _ subPixel_other hon (fun v =>
    if ctl.map (ctl.idx x y) == sidByte s || p.isShadow then
      if p.isShadow then shade v p else p else v), hb]
  · unfold paint
    generalize (ctl.sheets0 s).covers x y = c
    cases inside <;> cases c <;> rfl
  · intro arr
    simp only [subPixel, hh, Bool.true_and, p, Sheet.pixelAt, idx]
    split <;> simp

theorem subLayer_at {ctl : Shtctl} {x y : Int} (hon : ctl.OnScreen x y) (r : Rect) {h : Int}
    {s : Sid} (hs : ctl.height s = h) (vram : Int → Pixel) :
    ctl.subLayer (ctl.clip r) h s vram (ctl.idx x y) =
      if r.contains x y then
        paint ctl.sheets0 (ctl.map (ctl.idx x y)) x y (vram (ctl.idx x y)) s
      else vram (ctl.idx x y) := by
  rw [subLayer_eq]
  exact forBox_subPixel hon hs (clip_contains hon _ r) vram

theorem subLayer_off {ctl : Shtctl} {a : Int} (ha : ∀ x y, ctl.OnScreen x y → ctl.idx x y ≠ a)
    (r : Rect) (h : Int) (s : Sid) (vram : Int → Pixel) : ctl.subLayer r h s vram a = vram a := by
  rw [subLayer_eq]
  exact forBox_off ctl _ _ subPixel_other ha vram

/-- Inside the rectangle the layers `h0..h1` paint the pixel one after the other. -/
theorem sheetRefreshsub_at {ctl : Shtctl} {x y : Int} (hon : ctl.OnScreen x y) (r : Rect)
    (h0 h1 : Int) (hh : ∀ h, h0 ≤ h → h ≤ h1 → ctl.height (ctl.sheets h) = h) :
    (ctl.sheetRefreshsub r h0 h1).vram (ctl.idx x y) =
      if r.contains x y then
        (seg ctl.sheets h0 (h1 + 1)).foldl
          (paint ctl.sheets0 (ctl.map (ctl.idx x y)) x y) (ctl.vram (ctl.idx x y))
      else ctl.vram (ctl.idx x y) := by
  rw [sheetRefreshsub_vram, forUp_map (fun vram : Int → Pixel => vram (ctl.idx x y))
    (g := fun h v => if r.contains x y then
      paint ctl.sheets0 (ctl.map (ctl.idx x y)) x y v (ctl.sheets h) else v)
    fun h vram h1' h2' => subLayer_at hon r (hh h h1' (by omega)) vram]
  by_cases hr : r.contains x y = true
  · simp only [hr, if_true]
    exact forUp_eq_foldl_seg ctl.sheets
      (fun s v => paint ctl.sheets0 (ctl.map (ctl.idx x y)) x y v s) h0 (h1 + 1) _
  · rw [if_neg hr]
    exact forUp_skip (fun _ _ _ _ => by simp [hr]) _

theorem sheetRefreshsub_off {ctl : Shtctl} {a : Int}
    (ha : ∀ x y, ctl.OnScreen x y → ctl.idx x y ≠ a) (r : Rect) (h0 h1 : Int) :
    (ctl.sheetRefreshsub r h0 h1).vram a = ctl.vram a := by
  rw [sheetRefreshsub_vram, forUp_map (fun vram : Int → Pixel => vram a) (g := fun _ v => v) fun h vram _ _ =>
    subLayer_off ha _ _ _ vram]
  exact forUp_skip (fun _ _ _ _ => rfl) _

end Shtctl

end WinDOS
