import WinDOS.Window.Checked
import WinDOS.Window.Compose

/-!
# What the sheet functions access

Whatever the guard is, a call on a consistent controller does what the plain model says as long as
its coordinates fit and the guard permits what the bounds of the arrays permit. Which entries of
the table it reads does not depend on coordinates at all.
-/

set_option autoImplicit false

namespace WinDOS

open Loop Guarded

namespace Checked

variable (ok : Access → Bool)

/-! ### Guards that permit what the arrays hold -/

/-- A guard that lets entries of the table up to `top` with a visible sheet pass. -/
structure PermitsEntries : Prop where
  entry : ∀ h top, 0 ≤ h → h ≤ top → h ≤ 15 → ok (.entry h top true) = true
  store : ∀ h, 0 ≤ h → h ≤ 15 → ok (.store h) = true
  reload : ∀ h, 0 ≤ h → h ≤ 15 → ok (.reload h true) = true

/-- A guard that lets indices into the arrays pass. -/
structure PermitsArrays : Prop where
  map : ∀ i size, 0 ≤ i → i < size → ok (.map i size) = true
  vram : ∀ i size, 0 ≤ i → i < size → ok (.vram i size) = true
  buf : ∀ i size, 0 ≤ i → i < size → ok (.buf i size) = true

/-- A guard that lets both pass, and coordinates in `range`, which do not wrap. -/
structure Permits (range : Int → Prop) : Prop extends PermitsEntries ok, PermitsArrays ok where
  int : ∀ x, range x → i32 x = x
  coord : ∀ x, range x → ok (.coord x) = true

/-- A guard that stops at no pixel. -/
structure PermitsPixels : Prop where
  coord : ∀ x, ok (.coord x) = true
  map : ∀ i size, ok (.map i size) = true
  vram : ∀ i size, ok (.vram i size) = true
  buf : ∀ i size, ok (.buf i size) = true

/-- A sum that lands on an axis of `n` pixels has not wrapped, and one that has wrapped does not
land there. -/
def Lands (n v : Int) : Prop := 0 ≤ v ∧ v < n ∨ 0 ≤ i32 v ∧ i32 v < n → i32 v = v

/-- The screen coordinates of the pixels of a sheet, and the size of its buffer. -/
structure FitsBox (ctl : Shtctl) (sht : Sheet) : Prop where
  column : ∀ bX, 0 ≤ bX → bX < sht.bxsize →
    ok (.coord (sht.vx0 + bX)) = true ∧ Lands ctl.xsize (sht.vx0 + bX)
  row : ∀ bY, 0 ≤ bY → bY < sht.bysize →
    ok (.coord (sht.vy0 + bY)) = true ∧ Lands ctl.ysize (sht.vy0 + bY)
  area : sht.bxsize * sht.bysize ≤ 2147483648

/-- The coordinates computed for a sheet and a rectangle that has been cut to the screen. -/
structure FitsSheet (range : Int → Prop) (sht : Sheet) (r : Rect) : Prop where
  column : ∀ bX, 0 ≤ bX → bX < sht.bxsize → range (sht.vx0 + bX)
  row : ∀ bY, 0 ≤ bY → bY < sht.bysize → range (sht.vy0 + bY)
  area : sht.bxsize * sht.bysize ≤ 2147483648
  offsets : ∀ a ∈ offsets sht r, ∀ x, a = .coord x → range x

structure Fits (range : Int → Prop) (ctl : Shtctl) (r : Rect) : Prop where
  screen : ctl.xsize * ctl.ysize ≤ 2147483648
  sheet : ∀ s, ctl.inUse s → FitsSheet range (ctl.sheets0 s) (ctl.clip r)

theorem index_bounds {x y w h : Int} (hx : 0 ≤ x) (hx' : x < w) (hy : 0 ≤ y) (hy' : y < h) :
    0 ≤ y * w + x ∧ y * w + x < w * h := by
  have hlow : 0 ≤ y * w := Int.mul_nonneg hy (by omega)
  have hhigh : (y + 1) * w ≤ h * w := Int.mul_le_mul_of_nonneg_right (by omega) (by omega)
  rw [Int.add_mul, Int.one_mul] at hhigh
  rw [Int.mul_comm w h]
  omega

/-- An index into an array of at most 2^31 entries is an `int`. -/
theorem i32_index {x y w h : Int} (hx : 0 ≤ x) (hx' : x < w) (hy : 0 ≤ y) (hy' : y < h)
    (harea : w * h ≤ 2147483648) : i32 (y * w + x) = y * w + x := by
  obtain ⟨h0, h1⟩ := index_bounds hx hx' hy hy'
  exact i32_small (by omega) (by omega)

theorem clip_low_nonneg (sht : Sheet) (r : Rect) : 0 ≤ (clip sht r).vx0 ∧ 0 ≤ (clip sht r).vy0 := by
  unfold clip
  dsimp only
  constructor <;> split <;> omega

theorem clip_high_le (sht : Sheet) (r : Rect) :
    (clip sht r).vx1 ≤ sht.bxsize ∧ (clip sht r).vy1 ≤ sht.bysize := by
  unfold clip
  dsimp only
  constructor <;> split <;> omega

section Entries

variable {ok : Access → Bool} (hok : PermitsEntries ok)
include hok

theorem entry_ok {ctl : Shtctl} (hc : ctl.Consistent) {h : Int} (h0 : 0 ≤ h) (h1 : h ≤ ctl.top) :
    ok (.entry h ctl.top (visible ctl (ctl.sheets h))) = true := by
  have hvis : visible ctl (ctl.sheets h) = true := by
    rw [visible, hc.at_height h h0 h1]
    simp [hc.used h h0 h1, h0]
  rw [hvis]
  exact hok.entry h ctl.top h0 h1 (h1.trans hc.top_le)

end Entries

section Arrays

variable {ok : Access → Bool}

/-- The pixel loops stay inside the sheet and on the screen. -/
theorem forPixels_eq {σ : Type} {ctl : Shtctl} {sht : Sheet} {r : Rect}
    (hfit : FitsBox ok ctl sht) (hoff : ∀ s : σ, after ok (offsets sht r) s = some s)
    {body : Int → Int → Int → Int → σ → Option σ} {plain : Int → Int → Int → Int → σ → σ}
    (h : ∀ bX bY vx vy s, 0 ≤ bX → bX < sht.bxsize → 0 ≤ bY → bY < sht.bysize →
      0 ≤ vx → vx < ctl.xsize → 0 ≤ vy → vy < ctl.ysize →
      body bX bY vx vy s = some (plain bX bY vx vy s)) (s : σ) :
    forPixels ok ctl sht r body s = some (ctl.forBox sht (clip sht r) plain s) := by
  obtain ⟨hx0, hy0⟩ := clip_low_nonneg sht r
  obtain ⟨hx1, hy1⟩ := clip_high_le sht r
  unfold forPixels Shtctl.forBox
  dsimp only
  rw [hoff, Option.bind_some]
  refine Guarded.forUp_eq fun bY h1 h2 => ?_
  obtain ⟨hrow, hlands⟩ := hfit.row bY (by omega) (by omega)
  rw [after_one hrow, Option.bind_some]
  by_cases hvy : 0 ≤ sht.vy0 + bY ∧ sht.vy0 + bY < ctl.ysize
  · rw [hlands (.inl hvy), if_pos hvy, if_pos hvy]
    refine Guarded.forUp_eq fun bX h3 h4 => ?_
    obtain ⟨hcolumn, hlands⟩ := hfit.column bX (by omega) (by omega)
    rw [after_one hcolumn, Option.bind_some]
    by_cases hvx : 0 ≤ sht.vx0 + bX ∧ sht.vx0 + bX < ctl.xsize
    · rw [hlands (.inl hvx), if_pos hvx, if_pos hvx]
      exact h bX bY _ _ _ (by omega) (by omega) (by omega) (by omega) hvx.1 hvx.2 hvy.1 hvy.2
    · rw [if_neg hvx, if_neg fun h => hvx (hlands (.inr h) ▸ h)]
      rfl
  · rw [if_neg hvy, if_neg fun h => hvy (hlands (.inr h) ▸ h)]
    rfl

variable (harr : PermitsArrays ok)

section Indices

variable {ctl : Shtctl} (hscreen : ctl.xsize * ctl.ysize ≤ 2147483648) {vx vy : Int}
  (hx : 0 ≤ vx) (hx' : vx < ctl.xsize) (hy : 0 ≤ vy) (hy' : vy < ctl.ysize)
include harr hscreen hx hx' hy hy'

theorem ok_mapAt : ok (mapAt ctl vx vy) = true := by
  obtain ⟨h0, h1⟩ := index_bounds hx hx' hy hy'
  have hidx : idx ctl vx vy = vy * ctl.xsize + vx := i32_index hx hx' hy hy' hscreen
  exact harr.map _ _ (hidx ▸ h0) (hidx ▸ h1)

theorem ok_vramAt : ok (vramAt ctl vx vy) = true := by
  obtain ⟨h0, h1⟩ := index_bounds hx hx' hy hy'
  have hidx : idx ctl vx vy = vy * ctl.xsize + vx := i32_index hx hx' hy hy' hscreen
  exact harr.vram _ _ (hidx ▸ h0) (hidx ▸ h1)

end Indices

include harr in
theorem ok_bufAt {sht : Sheet} (harea : sht.bxsize * sht.bysize ≤ 2147483648) {bX bY : Int}
    (hx : 0 ≤ bX) (hx' : bX < sht.bxsize) (hy : 0 ≤ bY) (hy' : bY < sht.bysize) :
    ok (bufAt sht bX bY) = true := by
  obtain ⟨h0, h1⟩ := index_bounds hx hx' hy hy'
  have hidx : bufIdx sht bX bY = bY * sht.bxsize + bX := i32_index hx hx' hy hy' harea
  exact harr.buf _ _ (hidx ▸ h0) (hidx ▸ h1)

/-- What is written for one pixel of a sheet into the map. -/
def mapPixel (ctl : Shtctl) (s : Sid) (bX bY vx vy : Int) (map : Int → BitVec 8) :
    Int → BitVec 8 :=
  if (ctl.sheets0 s).registers bX bY then Function.update map (vy * ctl.xsize + vx) (sidByte s)
  else map

section Layers

variable {ctl : Shtctl} (hscreen : ctl.xsize * ctl.ysize ≤ 2147483648) {r : Rect} {s : Sid}
  (hfit : FitsBox ok ctl (ctl.sheets0 s))
include harr hscreen hfit

theorem mapLayer_box (hoff : ∀ map : Int → BitVec 8,
      after ok (offsets (ctl.sheets0 s) r) map = some map) (map : Int → BitVec 8) :
    mapLayer ok ctl r s map =
      some (ctl.forBox (ctl.sheets0 s) (clip (ctl.sheets0 s) r) (mapPixel ctl s) map) := by
  unfold mapLayer
  dsimp only
  refine forPixels_eq hfit hoff (fun bX bY vx vy map h1 h2 h3 h4 h5 h6 h7 h8 => ?_) map
  have hbuf : bufIdx (ctl.sheets0 s) bX bY = bY * (ctl.sheets0 s).bxsize + bX :=
    i32_index h1 h2 h3 h4 hfit.area
  have hreg : registers ok (ctl.sheets0 s) bX bY = some ((ctl.sheets0 s).registers bX bY) := by
    unfold registers Sheet.registers
    split
    · rename_i hsolid
      rw [hsolid, Bool.true_or]
    · rename_i hsolid
      dsimp only
      rw [after_one (ok_bufAt harr hfit.area h1 h2 h3 h4), hbuf, Bool.eq_false_iff.mpr hsolid,
        Bool.false_or]
      rfl
  have hidx : idx ctl vx vy = vy * ctl.xsize + vx := i32_index h5 h6 h7 h8 hscreen
  rw [hreg, Option.bind_some, hidx]
  unfold mapPixel
  split
  · exact after_one (ok_mapAt harr hscreen h5 h6 h7 h8) _
  · rfl

theorem subLayer_box {h : Int} (hoff : ∀ vram : Int → Pixel,
      after ok (offsets (ctl.sheets0 s) r) vram = some vram) (vram : Int → Pixel) :
    subLayer ok ctl r h s vram =
      some (ctl.forBox (ctl.sheets0 s) (clip (ctl.sheets0 s) r) (ctl.subPixel h s) vram) := by
  unfold subLayer
  dsimp only
  refine forPixels_eq hfit hoff (fun bX bY vx vy vram h1 h2 h3 h4 h5 h6 h7 h8 => ?_) vram
  have hidx : idx ctl vx vy = vy * ctl.xsize + vx := i32_index h5 h6 h7 h8 hscreen
  have hpix : (ctl.sheets0 s).buf (bufIdx (ctl.sheets0 s) bX bY) =
      (ctl.sheets0 s).pixel bX bY := by
    unfold Sheet.pixel bufIdx
    rw [i32_index h1 h2 h3 h4 hfit.area]
  have hbuf := ok_bufAt harr hfit.area h1 h2 h3 h4
  rw [after_one (ok_mapAt harr hscreen h5 h6 h7 h8), Option.bind_some, after_one hbuf]
  have hdrawn : ∀ v : Int → Pixel,
      after ok [bufAt (ctl.sheets0 s) bX bY, vramAt ctl vx vy] v = some v := by
    refine after_eq fun a ha => ?_
    rcases List.mem_cons.mp ha with rfl | ha
    · exact hbuf
    · exact List.mem_singleton.mp ha ▸ ok_vramAt harr hscreen h5 h6 h7 h8
  simp only [hdrawn, hidx, hpix, Shtctl.subPixel]
  cases ctl.map (vy * ctl.xsize + vx) == sidByte s <;> cases h == (ctl.sheets0 s).height <;>
    cases ((ctl.sheets0 s).pixel bX bY).isShadow <;> rfl

end Layers

end Arrays

section Permitted

variable {ok : Access → Bool} {range : Int → Prop} (hok : Permits ok range)
include hok

theorem after_coords {σ : Type} {l : List Access}
    (h : ∀ a ∈ l, ∃ x, a = .coord x ∧ range x) (s : σ) : after ok l s = some s := by
  refine after_eq (fun a ha => ?_) s
  obtain ⟨x, rfl, hx⟩ := h a ha
  exact hok.coord x hx

/-- The rectangle of a sheet whose corner fits. -/
theorem rect_eq {sht : Sheet} (h : ∀ a ∈ corner sht, ∃ x, a = .coord x ∧ range x) :
    rect sht = sht.rect := by
  have hcorner : ∀ x, .coord x ∈ corner sht → i32 x = x := fun x hx => by
    obtain ⟨y, heq, hy⟩ := h _ hx
    rw [Access.coord.inj heq]
    exact hok.int y hy
  unfold rect Sheet.rect
  rw [hcorner _ List.mem_cons_self, hcorner _ (List.mem_cons_of_mem _ List.mem_cons_self)]

/-- A rectangle of a sheet whose corners fit. -/
theorem toScreen_eq {sht : Sheet} {b : Rect} (h : ∀ a ∈ sums sht b, ∃ x, a = .coord x ∧ range x) :
    toScreen sht b = sht.toScreen b := by
  have hsum : ∀ x, .coord x ∈ sums sht b → i32 x = x := fun x hx => by
    obtain ⟨y, heq, hy⟩ := h _ hx
    rw [Access.coord.inj heq]
    exact hok.int y hy
  unfold toScreen Sheet.toScreen
  rw [hsum (sht.vx0 + b.vx0) (by simp [sums]), hsum (sht.vy0 + b.vy0) (by simp [sums]),
    hsum (sht.vx0 + b.vx1) (by simp [sums]), hsum (sht.vy0 + b.vy1) (by simp [sums])]

theorem FitsSheet.box {ctl : Shtctl} {sht : Sheet} {r : Rect} (h : FitsSheet range sht r) :
    FitsBox ok ctl sht where
  column bX h0 h1 := ⟨hok.coord _ (h.column bX h0 h1), fun _ => hok.int _ (h.column bX h0 h1)⟩
  row bY h0 h1 := ⟨hok.coord _ (h.row bY h0 h1), fun _ => hok.int _ (h.row bY h0 h1)⟩
  area := h.area

theorem FitsSheet.clip_eq {sht : Sheet} {r : Rect} (h : FitsSheet range sht r) :
    clip sht r = sht.clip r := by
  have hoff : ∀ x, Access.coord x ∈ Checked.offsets sht r → i32 x = x := fun x hx =>
    hok.int x (h.offsets _ hx x rfl)
  unfold clip Sheet.clip
  rw [hoff (r.vx0 - sht.vx0) (by simp [Checked.offsets]),
    hoff (r.vy0 - sht.vy0) (by simp [Checked.offsets]),
    hoff (r.vx1 - sht.vx0) (by simp [Checked.offsets]),
    hoff (r.vy1 - sht.vy0) (by simp [Checked.offsets])]

theorem FitsSheet.after_offsets {σ : Type} {sht : Sheet} {r : Rect} (h : FitsSheet range sht r)
    (s : σ) : after ok (Checked.offsets sht r) s = some s := by
  refine after_coords hok (fun a ha => ?_) s
  have hr := h.offsets a ha
  simp only [Checked.offsets, List.mem_cons, List.not_mem_nil, or_false] at ha
  rcases ha with rfl | rfl | rfl | rfl <;> exact ⟨_, rfl, hr _ rfl⟩

theorem mapLayer_eq {ctl : Shtctl} {r : Rect} {s : Sid}
    (hscreen : ctl.xsize * ctl.ysize ≤ 2147483648) (hfit : FitsSheet range (ctl.sheets0 s) r)
    (map : Int → BitVec 8) : mapLayer ok ctl r s map = some (ctl.mapLayer r s map) := by
  rw [mapLayer_box hok.toPermitsArrays hscreen (hfit.box hok) (hfit.after_offsets hok),
    hfit.clip_eq hok]
  rfl

theorem subLayer_eq {ctl : Shtctl} {r : Rect} {h : Int} {s : Sid}
    (hscreen : ctl.xsize * ctl.ysize ≤ 2147483648) (hfit : FitsSheet range (ctl.sheets0 s) r)
    (vram : Int → Pixel) : subLayer ok ctl r h s vram = some (ctl.subLayer r h s vram) := by
  rw [subLayer_box hok.toPermitsArrays hscreen (hfit.box hok) (hfit.after_offsets hok),
    hfit.clip_eq hok]
  rfl

theorem sheetRefreshmap_eq {ctl : Shtctl} (hc : ctl.Consistent) {r : Rect}
    (hfit : Fits range ctl r) {h0 : Int} (hh0 : 0 ≤ h0) :
    sheetRefreshmap ok ctl r h0 = some (ctl.sheetRefreshmap r h0) := by
  unfold sheetRefreshmap Shtctl.sheetRefreshmap
  dsimp only
  rw [@Guarded.forUp_eq _ h0 (ctl.top + 1) _ (fun h => ctl.mapLayer (ctl.clip r) (ctl.sheets h)),
    Option.map_some]
  intro h h1 h2
  rw [after_one (entry_ok hok.toPermitsEntries hc (by omega) (by omega)), Option.bind_some]
  exact mapLayer_eq hok hfit.screen (hfit.sheet _ (hc.used h (by omega) (by omega))) _

theorem sheetRefreshsub_eq {ctl : Shtctl} (hc : ctl.Consistent) {r : Rect}
    (hfit : Fits range ctl r) {h0 h1 : Int} (hh0 : 0 ≤ h0) (hh1 : h1 ≤ ctl.top) :
    sheetRefreshsub ok ctl r h0 h1 = some (ctl.sheetRefreshsub r h0 h1) := by
  unfold sheetRefreshsub Shtctl.sheetRefreshsub
  dsimp only
  rw [@Guarded.forUp_eq _ h0 (h1 + 1) _ (fun h => ctl.subLayer (ctl.clip r) h (ctl.sheets h)),
    Option.map_some]
  intro h h1 h2
  rw [after_one (entry_ok hok.toPermitsEntries hc (by omega) (by omega)), Option.bind_some]
  exact subLayer_eq hok hfit.screen (hfit.sheet _ (hc.used h (by omega) (by omega))) _

end Permitted

/-! ### The shifting loops and `sheet_updown` -/

open Shtctl

theorem Fits.frame {range : Int → Prop} {a b : Shtctl} (h : Frame a b) {r : Rect}
    (hfit : Fits range a r) : Fits range b r := by
  refine ⟨by rw [h.xsize, h.ysize]; exact hfit.screen, fun s hs => ?_⟩
  have hclip : b.clip r = a.clip r := by rw [Shtctl.clip, Shtctl.clip, h.xsize, h.ysize]
  rw [inUse, h.sheet] at hs
  rw [hclip, h.sheet]
  have hsht := hfit.sheet s hs
  exact ⟨hsht.column, hsht.row, hsht.area, hsht.offsets⟩

/-- An entry that a shifting loop has not reached yet still holds its visible sheet. -/
theorem visible_of_shift {ctl t : Shtctl} (hc : Consistent ctl) {s : Sid} {p d a b j : Int}
    (hsh : Shift d a b (ctl.setHeight s p) t) (ha : 0 ≤ a) (hb : b ≤ ctl.top + 1) (h0 : 0 ≤ j)
    (h1 : j ≤ ctl.top) (hs : ctl.sheets j ≠ s) (hfrom : ¬ (a ≤ j ∧ j < b))
    (hto : ¬ (a + d ≤ j ∧ j < b + d)) : visible t (t.sheets j) = true := by
  have hsheet : t.sheets j = ctl.sheets j := by
    rw [hsh.sheets, if_neg hto]
    rfl
  have huse : t.inUse (ctl.sheets j) := by
    rw [inUse, ((frame_setHeight ctl s p).trans hsh.frame).sheet]
    exact hc.used j h0 h1
  have hheight : t.height (ctl.sheets j) = j := by
    rw [hsh.kept, setHeight_height, if_neg hs, hc.at_height j h0 h1]
    intro k h2 h3 heq
    have := hc.sheets_inj (by omega) (by omega) h0 h1 heq
    omega
  rw [visible, hsheet, hheight]
  simp [huse, h0]

section Moves

variable {ok : Access → Bool} (hok : PermitsEntries ok) {ctl : Shtctl} (hc : Consistent ctl)
  {s : Sid} {p : Int}
include hok

theorem moveEntry_eq {t : Shtctl} {dst src : Int} (hvis : visible t (t.sheets src) = true)
    (h0 : 0 ≤ src) (h1 : src ≤ t.top) (h2 : src ≤ 15) (h3 : 0 ≤ dst) (h4 : dst ≤ 15) :
    moveEntry ok t dst src = some (t.moveEntry dst src) := by
  unfold moveEntry
  dsimp only
  rw [hvis]
  refine after_eq (fun a ha => ?_) _
  simp only [List.mem_cons, List.not_mem_nil, or_false] at ha
  rcases ha with rfl | rfl | rfl
  · exact hok.entry src t.top h0 h1 h2
  · exact hok.store dst h3 h4
  · exact hok.reload dst h3 h4

theorem place_eq (t : Shtctl) {h : Int} (h0 : 0 ≤ h) (h1 : h ≤ 15) :
    place ok t h s = some (t.place h s) := after_one (hok.store h h0 h1) _

include hc

theorem moveEntry_of_shift {t : Shtctl} {d a b dst src : Int}
    (hsh : Shift d a b (ctl.setHeight s p) t) (ha : 0 ≤ a) (hb : b ≤ ctl.top + 1) (h0 : 0 ≤ src)
    (h1 : src ≤ ctl.top) (hs : ctl.sheets src ≠ s) (hfrom : ¬ (a ≤ src ∧ src < b))
    (hto : ¬ (a + d ≤ src ∧ src < b + d)) (h2 : 0 ≤ dst) (h3 : dst ≤ 15) :
    moveEntry ok t dst src = some (t.moveEntry dst src) := by
  have hlen := hc.top_le
  have htop : t.top = ctl.top := hsh.top
  exact moveEntry_eq hok (visible_of_shift hc hsh ha hb h0 h1 hs hfrom hto) h0 (by omega) (by omega)
    h2 h3

/-- The loop that moves the entries below `old` up. -/
theorem lower_loop_eq (hmem : s ∈ ctl.layers) (hp : 0 ≤ p) :
    Guarded.forDown (ctl.height s) p (fun h c => moveEntry ok c h (h - 1)) (ctl.setHeight s p) =
      some (Loop.forDown (ctl.height s) p (fun h c => c.moveEntry h (h - 1))
        (ctl.setHeight s p)) := by
  obtain ⟨hold0, hold1, -⟩ := hc.height_of_mem hmem
  have htop := hc.top_le
  refine Guarded.forDown_eq fun i h1 h2 => ?_
  have hsh := shift_up_loop (c := ctl.setHeight s p) (a := i) (b := ctl.height s) h2
    fun j k _ _ _ _ h => hc.sheets_inj (by omega) (by omega) (by omega) (by omega) h
  have hne : ctl.sheets (i - 1) ≠ s := hc.sheets_ne hmem (by omega) (by omega) (by omega)
  exact moveEntry_of_shift hok hc hsh (by omega) (by omega) (by omega) (by omega) hne (by omega)
    (by omega) (by omega) (by omega)

/-- The loop that moves the entries from `old + 1` to `e` down. -/
theorem raise_loop_eq (hmem : s ∈ ctl.layers) {e : Int} (he : e ≤ ctl.top) :
    Guarded.forUp (ctl.height s) e (fun h c => moveEntry ok c h (h + 1)) (ctl.setHeight s p) =
      some (Loop.forUp (ctl.height s) e (fun h c => c.moveEntry h (h + 1))
        (ctl.setHeight s p)) := by
  obtain ⟨hold0, hold1, -⟩ := hc.height_of_mem hmem
  have htop := hc.top_le
  refine Guarded.forUp_eq fun i h1 h2 => ?_
  have hsh := shift_down_loop (c := ctl.setHeight s p) (a := ctl.height s) (b := i) h1
    fun j k _ _ _ _ h => hc.sheets_inj (by omega) (by omega) (by omega) (by omega) h
  have hne : ctl.sheets (i + 1) ≠ s := hc.sheets_ne hmem (by omega) (by omega) (by omega)
  exact moveEntry_of_shift hok hc hsh (by omega) (by omega) (by omega) (by omega) hne (by omega)
    (by omega) (by omega) (by omega)

/-- The loop that makes room for a hidden sheet. -/
theorem appear_loop_eq (hnot : s ∉ ctl.layers) (hp : 0 ≤ p) (hroom : ctl.top + 1 ≤ 15) :
    Guarded.forDown ctl.top (p - 1) (fun h c => moveEntry ok c (h + 1) h) (ctl.setHeight s p) =
      some (Loop.forDown ctl.top (p - 1) (fun h c => c.moveEntry (h + 1) h)
        (ctl.setHeight s p)) := by
  refine Guarded.forDown_eq fun i h1 h2 => ?_
  have hsh := shift_up_loop' (c := ctl.setHeight s p) (a := i + 1) (b := ctl.top + 1) (by omega)
    fun j k _ _ _ _ h => hc.sheets_inj (by omega) (by omega) (by omega) (by omega) h
  rw [show ctl.top + 1 - 1 = ctl.top by omega, show i + 1 - 1 = i by omega] at hsh
  have hne : ctl.sheets i ≠ s := fun heq => hnot (mem_layers.mpr ⟨i, by omega, by omega, heq⟩)
  exact moveEntry_of_shift hok hc hsh (by omega) (by omega) (by omega) (by omega) hne (by omega)
    (by omega) (by omega) (by omega)

end Moves

/-- What is left of a call of `sheet_updown` once the table and the heights are right. -/
structure Redrawing (ok : Access → Bool) (ctl : Shtctl) (s : Sid) (height : Int) (c : Shtctl)
    (m0 h0 h1 : Int) : Prop where
  checked : sheetUpdown ok ctl s height = refreshBoth ok (ctl.sheets0 s) m0 h0 h1 c
  plain : ctl.sheetUpdown s height =
    (c.sheetRefreshmap (ctl.sheets0 s).rect m0).sheetRefreshsub (ctl.sheets0 s).rect h0 h1
  frame : Frame ctl c
  nonneg : 0 ≤ m0
  low : 0 ≤ h0
  high : h1 ≤ c.top

section Updown

variable {ok : Access → Bool} {ctl : Shtctl} {s : Sid} {height p : Int}
  (hp : ctl.clampHeight height = p)

theorem same_eq (heq : ctl.clampHeight height = ctl.height s) :
    sheetUpdown ok ctl s height = some (ctl.sheetUpdown s height) := by
  rw [sheetUpdown_same heq]
  unfold sheetUpdown
  dsimp only
  rw [heq, if_neg (Int.lt_irrefl _), if_neg (Int.lt_irrefl _)]
  congr 1
  unfold setHeight setSheet Shtctl.height
  simp

variable (hok : PermitsEntries ok) (hc : Consistent ctl)
include hok hc hp

theorem lower_redraws (hmem : s ∈ ctl.layers) (hlt : ctl.height s > p) (hpos : p ≥ 0) :
    ∃ c, Redrawing ok ctl s height c (p + 1) (p + 1) (ctl.height s) := by
  obtain ⟨hold0, hold1, -⟩ := hc.height_of_mem hmem
  have htop := hc.top_le
  have hsh := shift_up_loop (c := ctl.setHeight s p) (a := p) (b := ctl.height s) (by omega)
    fun j k _ _ _ _ h => hc.sheets_inj (by omega) (by omega) (by omega) (by omega) h
  have hframe := ((frame_setHeight ctl s p).trans hsh.frame).trans (frame_place _ p s)
  refine ⟨_, ?_, ?_, hframe, by omega, by omega, hsh.top.symm ▸ hold1⟩
  · unfold sheetUpdown
    dsimp only
    rw [hp, if_pos hlt, if_pos hpos, lower_loop_eq hok hc hmem hpos, Option.bind_some,
      place_eq hok _ hpos (by omega), Option.bind_some]
  · unfold Shtctl.sheetUpdown
    dsimp only
    rw [hp, if_pos hlt, if_pos hpos]

theorem hide_redraws (hmem : s ∈ ctl.layers) (hneg : ¬ p ≥ 0) :
    ∃ c, Redrawing ok ctl s height c 0 0 (ctl.height s - 1) := by
  obtain ⟨hold0, hold1, -⟩ := hc.height_of_mem hmem
  have hlt : ctl.height s > p := by omega
  have hsh := shift_down_loop (c := ctl.setHeight s p) (a := ctl.height s) (b := ctl.top) hold1
    fun j k _ _ _ _ h => hc.sheets_inj (by omega) (by omega) (by omega) (by omega) h
  -- with the sheet on top neither the branch nor an empty loop does anything
  have hskip : (if (ctl.setHeight s p).top > ctl.height s then
      Loop.forUp (ctl.height s) (ctl.setHeight s p).top (fun h c => c.moveEntry h (h + 1))
        (ctl.setHeight s p) else ctl.setHeight s p) =
      Loop.forUp (ctl.height s) ctl.top (fun h c => c.moveEntry h (h + 1))
        (ctl.setHeight s p) := by
    split_ifs with h
    · rfl
    · rw [forUp_of_le]
      exact Int.not_lt.mp h
  have hskip' : (if (ctl.setHeight s p).top > ctl.height s then
      Guarded.forUp (ctl.height s) (ctl.setHeight s p).top
        (fun h c => moveEntry ok c h (h + 1)) (ctl.setHeight s p)
      else some (ctl.setHeight s p)) =
      some (Loop.forUp (ctl.height s) ctl.top (fun h c => c.moveEntry h (h + 1))
        (ctl.setHeight s p)) := by
    rw [← hskip]
    split_ifs
    · exact raise_loop_eq hok hc hmem (Int.le_refl _)
    · rfl
  obtain ⟨c, hloop⟩ : ∃ c, Loop.forUp (ctl.height s) ctl.top (fun h c => c.moveEntry h (h + 1))
    (ctl.setHeight s p) = c := ⟨_, rfl⟩
  rw [hloop] at hsh hskip hskip'
  have hframe : Frame ctl { c with top := c.top - 1 } :=
    ((frame_setHeight ctl s p).trans hsh.frame).trans ⟨rfl, rfl, rfl, rfl, fun _ => rfl⟩
  have htop : c.top = ctl.top := hsh.top
  refine ⟨{ c with top := c.top - 1 }, ?_, ?_, hframe, by omega, by omega, ?_⟩
  · unfold sheetUpdown
    dsimp only
    rw [hp, if_pos hlt, if_neg hneg, hskip', Option.bind_some]
  · unfold Shtctl.sheetUpdown
    dsimp only
    rw [hp, if_pos hlt, if_neg hneg, hskip]
  · change ctl.height s - 1 ≤ c.top - 1
    omega

theorem raise_redraws (hmem : s ∈ ctl.layers) (hgt : ctl.height s < p) (hpt : p ≤ ctl.top) :
    ∃ c, Redrawing ok ctl s height c p p p := by
  obtain ⟨hold0, hold1, -⟩ := hc.height_of_mem hmem
  have htop := hc.top_le
  have hsh := shift_down_loop (c := ctl.setHeight s p) (a := ctl.height s) (b := p) (by omega)
    fun j k _ _ _ _ h => hc.sheets_inj (by omega) (by omega) (by omega) (by omega) h
  have hframe := ((frame_setHeight ctl s p).trans hsh.frame).trans (frame_place _ p s)
  have hlt : ¬ ctl.height s > p := by omega
  refine ⟨_, ?_, ?_, hframe, by omega, by omega, hsh.top.symm ▸ hpt⟩
  · unfold sheetUpdown
    dsimp only
    rw [hp, if_neg hlt, if_pos hgt, if_pos hold0, raise_loop_eq hok hc hmem hpt, Option.bind_some,
      place_eq hok _ (by omega) (by omega), Option.bind_some]
  · unfold Shtctl.sheetUpdown
    dsimp only
    rw [hp, if_neg hlt, if_pos hgt, if_pos hold0]

theorem appear_redraws (hnot : s ∉ ctl.layers) (hhid : ctl.height s = -1) (hpos : 0 ≤ p)
    (hpt : p ≤ ctl.top + 1) (hroom : ctl.top + 1 ≤ 15) :
    ∃ c, Redrawing ok ctl s height c p p p := by
  have hsh := shift_up_loop' (c := ctl.setHeight s p) (a := p) (b := ctl.top + 1) (by omega)
    fun j k _ _ _ _ h => hc.sheets_inj (by omega) (by omega) (by omega) (by omega) h
  rw [show ctl.top + 1 - 1 = ctl.top by omega] at hsh
  obtain ⟨c, hloop⟩ : ∃ c, Loop.forDown ctl.top (p - 1) (fun h c => c.moveEntry (h + 1) h)
    (ctl.setHeight s p) = c := ⟨_, rfl⟩
  rw [hloop] at hsh
  have htop : c.top = ctl.top := hsh.top
  have hframe : Frame ctl { c.place p s with top := c.top + 1 } :=
    ((frame_setHeight ctl s p).trans hsh.frame).trans
      ((frame_place c p s).trans ⟨rfl, rfl, rfl, rfl, fun _ => rfl⟩)
  have hlt : ¬ ctl.height s > p := by omega
  have hgt : ctl.height s < p := by omega
  have hvis : ¬ ctl.height s ≥ 0 := by omega
  refine ⟨{ c.place p s with top := c.top + 1 }, ?_, ?_, hframe, hpos, hpos, htop.symm ▸ hpt⟩
  · unfold sheetUpdown
    dsimp only
    rw [hp, if_neg hlt, if_pos hgt, if_neg hvis]
    change ((Guarded.forDown ctl.top (p - 1) _ _).bind _).bind _ = _
    rw [appear_loop_eq hok hc hnot hpos hroom, hloop, Option.bind_some,
      place_eq hok c hpos (by omega), Option.map_some, Option.bind_some]
    rfl
  · unfold Shtctl.sheetUpdown
    dsimp only
    rw [hp, if_neg hlt, if_pos hgt, if_neg hvis, ← hloop]
    rfl

omit hp in
/-- The shifting loops make permitted accesses only, if a visible sheet is not sent above the
top: the call changes nothing, or the two refresh functions are left to run. -/
theorem sheetUpdown_redraws (hs : ctl.inUse s) (htarget : 0 ≤ ctl.height s → height ≤ ctl.top) :
    sheetUpdown ok ctl s height = some (ctl.sheetUpdown s height) ∨
      ∃ c m0 h0 h1, Redrawing ok ctl s height c m0 h0 h1 := by
  obtain ⟨st, hre, hup⟩ := sheetUpdown_cases hc hs height htarget
  have hres : Consistent (ctl.sheetUpdown s height) := hup.sameStack.consistent hre.consistent
  obtain ⟨hge, hle, hle'⟩ := clampHeight_bounds ctl hc.top_ge height
  by_cases hmem : s ∈ ctl.layers
  · obtain ⟨hold0, hold1, -⟩ := hc.height_of_mem hmem
    by_cases hpos : ctl.clampHeight height ≥ 0
    · rcases Int.lt_trichotomy (ctl.clampHeight height) (ctl.height s) with hlt | heq | hgt
      · obtain ⟨c, h⟩ := lower_redraws rfl hok hc hmem hlt hpos
        exact .inr ⟨c, _, _, _, h⟩
      · exact .inl (same_eq heq)
      · obtain ⟨c, h⟩ := raise_redraws rfl hok hc hmem hgt (hle' (htarget hold0))
        exact .inr ⟨c, _, _, _, h⟩
    · obtain ⟨c, h⟩ := hide_redraws rfl hok hc hmem hpos
      exact .inr ⟨c, _, _, _, h⟩
  · have hhid := (hc.hidden_or s hs).resolve_right hmem
    by_cases hpos : 0 ≤ ctl.clampHeight height
    · obtain ⟨c, h⟩ := appear_redraws rfl hok hc hmem hhid hpos hle (hc.room hmem)
      exact .inr ⟨c, _, _, _, h⟩
    · exact .inl (same_eq (by omega))

end Updown

section Redraw

variable {ok : Access → Bool} {ctl c : Shtctl} {s : Sid} {height m0 h0 h1 : Int}
  (h : Redrawing ok ctl s height c m0 h0 h1)
include h

theorem Redrawing.sameStack : SameStack c (ctl.sheetUpdown s height) := by
  rw [h.plain]
  exact ⟨rfl, rfl, rfl, rfl, rfl⟩

theorem Redrawing.eq {range : Int → Prop} (hok : Permits ok range)
    (hres : Consistent (ctl.sheetUpdown s height)) (hfit : Fits range ctl (ctl.sheets0 s).rect)
    (hcorner : ∀ a ∈ corner (ctl.sheets0 s), ∃ x, a = .coord x ∧ range x) :
    sheetUpdown ok ctl s height = some (ctl.sheetUpdown s height) := by
  have hcc : Consistent c := h.sameStack.symm.consistent hres
  have hmap := sameStack_refreshmap c (ctl.sheets0 s).rect m0
  have hfit' := hfit.frame h.frame
  rw [h.checked, h.plain]
  unfold refreshBoth
  rw [after_coords hok hcorner, Option.bind_some, rect_eq hok hcorner,
    sheetRefreshmap_eq hok hcc hfit' h.nonneg, Option.bind_some]
  exact sheetRefreshsub_eq hok (hmap.consistent hcc) ⟨hfit'.screen, hfit'.sheet⟩ h.low h.high

end Redraw

/-! ### Any position on the screen

Which entries of the table are read does not depend on where the sheets lie, nor on what wraps. -/

section Pixels

variable {ok : Access → Bool} (hok : PermitsPixels ok)
include hok

theorem forPixels_some {σ : Type} {ctl : Shtctl} {sht : Sheet} {r : Rect}
    {body : Int → Int → Int → Int → σ → Option σ}
    (h : ∀ bX bY vx vy s, ∃ t, body bX bY vx vy s = some t) (s : σ) :
    ∃ t, forPixels ok ctl sht r body s = some t := by
  have hoff : after ok (offsets sht r) s = some s := by
    refine after_eq (fun a ha => ?_) s
    simp only [offsets, List.mem_cons, List.not_mem_nil, or_false] at ha
    rcases ha with rfl | rfl | rfl | rfl <;> exact hok.coord _
  unfold forPixels
  dsimp only
  rw [hoff, Option.bind_some]
  refine Guarded.forUp_some (fun bY s _ _ => ?_) s
  rw [after_one (hok.coord _), Option.bind_some]
  split_ifs
  · refine Guarded.forUp_some (fun bX s _ _ => ?_) s
    rw [after_one (hok.coord _), Option.bind_some]
    split_ifs
    · exact h _ _ _ _ _
    · exact ⟨s, rfl⟩
  · exact ⟨s, rfl⟩

theorem mapLayer_some (ctl : Shtctl) (r : Rect) (s : Sid) (map : Int → BitVec 8) :
    ∃ m, mapLayer ok ctl r s map = some m := by
  unfold mapLayer
  dsimp only
  refine forPixels_some hok (fun bX bY vx vy map => ?_) map
  obtain ⟨b, hb⟩ : ∃ b, registers ok (ctl.sheets0 s) bX bY = some b := by
    unfold registers
    split
    · exact ⟨true, rfl⟩
    · exact ⟨_, after_one (hok.buf _ _) _⟩
  rw [hb, Option.bind_some]
  split
  · exact ⟨_, after_one (hok.map _ _) _⟩
  · exact ⟨map, rfl⟩

theorem subLayer_some (ctl : Shtctl) (r : Rect) (h : Int) (s : Sid) (vram : Int → Pixel) :
    ∃ v, subLayer ok ctl r h s vram = some v := by
  unfold subLayer
  dsimp only
  refine forPixels_some hok (fun bX bY vx vy vram => ?_) vram
  have hmap : ok (mapAt ctl vx vy) = true := hok.map _ _
  have hbuf : ok (bufAt (ctl.sheets0 s) bX bY) = true := hok.buf _ _
  have hdrawn : ∀ v : Int → Pixel,
      after ok [bufAt (ctl.sheets0 s) bX bY, vramAt ctl vx vy] v = some v := by
    refine after_eq fun a ha => ?_
    rcases List.mem_cons.mp ha with rfl | ha
    · exact hbuf
    · exact List.mem_singleton.mp ha ▸ hok.vram _ _
  rw [after_one hmap, Option.bind_some, after_one hbuf]
  simp only [hdrawn]
  split_ifs <;> simp only [Option.bind_some] <;> split_ifs <;> exact ⟨_, rfl⟩

theorem sheetRefreshmap_some {ctl : Shtctl} {h0 : Int} (hentry : ∀ h, h0 ≤ h → h ≤ ctl.top →
    ok (.entry h ctl.top (visible ctl (ctl.sheets h))) = true) (r : Rect) :
    ∃ map, sheetRefreshmap ok ctl r h0 = some { ctl with map := map } := by
  obtain ⟨map, hmap⟩ := @Guarded.forUp_some _ h0 (ctl.top + 1) (fun h map =>
    (after ok [.entry h ctl.top (visible ctl (ctl.sheets h))] map).bind
      (mapLayer ok ctl (ctl.clip r) (ctl.sheets h))) (fun h map h1 h2 => by
    rw [after_one (hentry h h1 (by omega)), Option.bind_some]
    exact mapLayer_some hok ctl _ _ map) ctl.map
  refine ⟨map, ?_⟩
  unfold sheetRefreshmap
  rw [hmap, Option.map_some]

theorem sheetRefreshsub_some {ctl : Shtctl} {h0 h1 : Int} (hentry : ∀ h, h0 ≤ h → h ≤ h1 →
    ok (.entry h ctl.top (visible ctl (ctl.sheets h))) = true) (r : Rect) :
    ∃ vram, sheetRefreshsub ok ctl r h0 h1 = some { ctl with vram := vram } := by
  obtain ⟨vram, hvram⟩ := @Guarded.forUp_some _ h0 (h1 + 1) (fun h vram =>
    (after ok [.entry h ctl.top (visible ctl (ctl.sheets h))] vram).bind
      (subLayer ok ctl (ctl.clip r) h (ctl.sheets h))) (fun h vram h1 h2 => by
    rw [after_one (hentry h h1 (by omega)), Option.bind_some]
    exact subLayer_some hok ctl _ _ _ vram) ctl.vram
  refine ⟨vram, ?_⟩
  unfold sheetRefreshsub
  rw [hvram, Option.map_some]

theorem after_corner {σ : Type} (sht : Sheet) (s : σ) : after ok (corner sht) s = some s := by
  refine after_eq (fun a ha => ?_) s
  simp only [corner, List.mem_cons, List.not_mem_nil, or_false] at ha
  rcases ha with rfl | rfl <;> exact hok.coord _

theorem Redrawing.total (hent : PermitsEntries ok) {ctl c : Shtctl} {s : Sid}
    {height m0 h0 h1 : Int} (h : Redrawing ok ctl s height c m0 h0 h1)
    (hres : Consistent (ctl.sheetUpdown s height)) :
    ∃ res, sheetUpdown ok ctl s height = some res ∧ SameStack (ctl.sheetUpdown s height) res := by
  have hcc : Consistent c := h.sameStack.symm.consistent hres
  have hentry : ∀ k, 0 ≤ k → k ≤ c.top →
      ok (.entry k c.top (visible c (c.sheets k))) = true := fun k hk0 hk1 =>
    entry_ok hent hcc hk0 hk1
  have hnonneg := h.nonneg
  have hlow := h.low
  have hhigh := h.high
  obtain ⟨map, hmap⟩ := @sheetRefreshmap_some ok hok c m0
    (fun k h1 h2 => hentry k (by omega) h2) (rect (ctl.sheets0 s))
  obtain ⟨vram, hsub⟩ := @sheetRefreshsub_some ok hok { c with map := map } h0 h1
    (fun k h1 h2 => hentry k (by omega) (by omega)) (rect (ctl.sheets0 s))
  refine ⟨{ c with map := map, vram := vram }, ?_, h.sameStack.symm.trans ⟨rfl, rfl, rfl, rfl, rfl⟩⟩
  rw [h.checked]
  unfold refreshBoth
  rw [after_corner hok, Option.bind_some, hmap, Option.bind_some, hsub]

end Pixels

/-- `sheet_updown` makes permitted accesses only, if a visible sheet is not sent above the top. -/
theorem sheetUpdown_eq {ok : Access → Bool} {range : Int → Prop} (hok : Permits ok range)
    {ctl : Shtctl} (hc : Consistent ctl) {s : Sid} (hs : ctl.inUse s) {height : Int}
    (hfit : Fits range ctl (ctl.sheets0 s).rect)
    (hcorner : ∀ a ∈ corner (ctl.sheets0 s), ∃ x, a = .coord x ∧ range x)
    (htarget : 0 ≤ ctl.height s → height ≤ ctl.top) :
    sheetUpdown ok ctl s height = some (ctl.sheetUpdown s height) := by
  obtain ⟨st, hre, hup⟩ := sheetUpdown_cases hc hs height htarget
  have hres : Consistent (ctl.sheetUpdown s height) := hup.sameStack.consistent hre.consistent
  rcases sheetUpdown_redraws hok.toPermitsEntries hc hs htarget with h | ⟨c, m0, h0, h1, h⟩
  · exact h
  · exact h.eq hok hres hfit hcorner

end Checked

end WinDOS
