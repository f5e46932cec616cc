import WinDOS.Draw.Filled

/-!
# What `blit_c` copies

Its clipping is done in `int`, and an `int` sum wraps. Where `x + w` and `y + h` fit, the
copied part is the one `clip_rect` would find; where one of them does not, columns or rows
outside the destination are written, unless the other axis has nothing to copy.
-/

set_option autoImplicit false

namespace WinDOS

open Loop Drawing

/-- The `int` a sum leaves, in two's complement. -/
def i32 (n : Int) : Int := (n + 2 ^ 31) % 2 ^ 32 - 2 ^ 31

def IsI32 (n : Int) : Prop := -2147483648 ≤ n ∧ n < 2147483648

instance (n : Int) : Decidable (IsI32 n) := inferInstanceAs (Decidable (_ ∧ _))

theorem i32_small {i : Int} (h0 : -2 ^ 31 ≤ i) (h1 : i < 2 ^ 31) : i32 i = i := by
  unfold i32
  omega

/-- One axis of the clipping: offset in the source, position and size in the destination. -/
def blitAxis (x w dw : Int) : Int × Int × Int :=
  let (sx, x, w) := if x < 0 then (i32 (-x), 0, i32 (w + x)) else (0, x, w)
  let w := if i32 (x + w) > dw then i32 (dw - x) else w
  (sx, x, w)

/-- Copies a block; `src` is another array than `dst`. -/
def blitC (dstride dw dh : Int) (src : Buffer) (sstride x y w h : Int) (key : Pixel)
    (dst : Buffer) : Buffer :=
  let (sx, x, w) := blitAxis x w dw
  let (sy, y, h) := blitAxis y h dh
  if w ≤ 0 ∨ h ≤ 0 then dst
  else
    forUp 0 h (fun i =>
      let s := u32 ((sy + i) * sstride) + u32 sx
      let d := u32 ((y + i) * dstride) + u32 x
      forUp 0 w fun j dst =>
        if key = -1 ∨ src (s + j) ≠ key then Function.update dst (d + j) (src (s + j)) else dst)
      dst

/-- The words of the source that `blit_c` reads. -/
def blitReads (dw dh sstride x y w h : Int) : List Int :=
  let (sx, _, w) := blitAxis x w dw
  let (sy, _, h) := blitAxis y h dh
  if w ≤ 0 ∨ h ≤ 0 then []
  else
    (List.range h.toNat).flatMap fun i : Nat => (List.range w.toNat).map fun j : Nat =>
      u32 ((sy + i) * sstride) + u32 sx + j

/-! ### One axis -/

/-- The sum does not fit, or there is nothing of the axis in the destination. -/
def AxisEmpty (x w dw : Int) : Prop :=
  IsI32 (x + w) ∧ min dw (x + w) ≤ max 0 x ∨ x < 0 ∧ dw = 0 ∨ x = -2147483648 ∧ w = -2147483648

section Axis

variable {x w dw : Int} (hx : IsI32 x) (hw : IsI32 w) (hdw : 0 ≤ dw ∧ dw < 2147483648)
include hx hw hdw

theorem blitAxis_fits (hsum : IsI32 (x + w)) :
    (blitAxis x w dw).2 = (max 0 x, min dw (x + w) - max 0 x) ∧
      (0 < (blitAxis x w dw).2.2 → (blitAxis x w dw).1 = max 0 x - x) := by
  unfold IsI32 at *
  unfold blitAxis i32
  by_cases hneg : x < 0
  · rw [if_pos hneg]
    dsimp only
    refine ⟨Prod.ext (by dsimp only; omega) ?_, ?_⟩
    · dsimp only
      split <;> omega
    · split <;> omega
  · rw [if_neg hneg]
    dsimp only
    refine ⟨Prod.ext (by dsimp only; omega) ?_, ?_⟩
    · dsimp only
      split <;> omega
    · split <;> omega

theorem blitAxis_left (hsum : ¬ IsI32 (x + w)) (hneg : x < 0) :
    (blitAxis x w dw).2 = (0, min dw (x + w + 2 ^ 32)) := by
  unfold IsI32 at *
  unfold blitAxis i32
  rw [if_pos hneg]
  refine Prod.ext rfl ?_
  dsimp only
  split <;> omega

theorem blitAxis_right (hsum : ¬ IsI32 (x + w)) (hneg : ¬ x < 0) :
    blitAxis x w dw = (0, x, w) := by
  unfold IsI32 at *
  unfold blitAxis i32
  rw [if_neg hneg]
  dsimp only
  rw [if_neg (by omega)]

/-- With a pixel of the block in the destination, only the right end can be missed. -/
theorem blitAxis_of_in {px : Int} (hin : (0 ≤ px ∧ px < dw) ∧ x ≤ px ∧ px < x + w) :
    (blitAxis x w dw).2.1 = max 0 x ∧
      (¬ IsI32 (x + w) → (blitAxis x w dw).2.2 = w ∧ 0 < x ∧ 2147483648 ≤ x + w) := by
  by_cases hsum : IsI32 (x + w)
  · rw [(blitAxis_fits hx hw hdw hsum).1]
    exact ⟨rfl, fun h => absurd hsum h⟩
  · by_cases hneg : x < 0
    · unfold IsI32 at *
      omega
    · rw [blitAxis_right hx hw hdw hsum hneg]
      unfold IsI32 at *
      dsimp only
      exact ⟨by omega, fun _ => ⟨rfl, by omega, by omega⟩⟩

theorem axisEmpty_iff : (blitAxis x w dw).2.2 ≤ 0 ↔ AxisEmpty x w dw := by
  unfold AxisEmpty
  by_cases hsum : IsI32 (x + w)
  · rw [(blitAxis_fits hx hw hdw hsum).1]
    unfold IsI32 at *
    dsimp only
    omega
  · by_cases hneg : x < 0
    · rw [blitAxis_left hx hw hdw hsum hneg]
      unfold IsI32 at *
      dsimp only
      omega
    · rw [blitAxis_right hx hw hdw hsum hneg]
      unfold IsI32 at *
      dsimp only
      omega

/-- What the clipping leaves of an axis that fits: a piece of the block from `x'` on, which lies
`sx` behind the block's beginning. -/
structure ClippedAxis (x w dw sx x' w' : Int) : Prop where
  offset : sx = x' - x
  source : 0 ≤ sx ∧ sx < 4294967296
  start : 0 ≤ x' ∧ x' < 4294967296
  covers : ∀ c, (x' ≤ c ∧ c < x' + w') ↔ ((0 ≤ c ∧ c < dw) ∧ x ≤ c ∧ c < x + w)

theorem blitAxis_clipped (hsum : IsI32 (x + w)) (hpos : 0 < (blitAxis x w dw).2.2) :
    ClippedAxis x w dw (blitAxis x w dw).1 (blitAxis x w dw).2.1 (blitAxis x w dw).2.2 := by
  obtain ⟨hplace, hoffset⟩ := blitAxis_fits hx hw hdw hsum
  rw [hoffset hpos, hplace]
  unfold IsI32 at hx
  exact ⟨rfl, by omega, by omega, fun c => by omega⟩

end Axis

/-! ### The block -/

/-- A pixel of the source that is copied. -/
def Opaque (key v : Pixel) : Prop := key = -1 ∨ v ≠ key

instance (key v : Pixel) : Decidable (Opaque key v) := inferInstanceAs (Decidable (_ ∨ _))

/-- The pixels in block and destination get those of the source at the same place of the block,
but for the transparent ones; nothing else is written, and nothing else is read. -/
structure BlitsRight (dstride dw dh sstride x y w h : Int) (key : Pixel) : Prop where
  copied : ∀ src dst px py, Covers dw dh x y w h px py →
    Opaque key (src (pixelIndex sstride (px - x) (py - y))) →
    blitC dstride dw dh src sstride x y w h key dst (py * dstride + px) =
      src (pixelIndex sstride (px - x) (py - y))
  kept : ∀ src dst a, (∀ px py, Covers dw dh x y w h px py →
    Opaque key (src (pixelIndex sstride (px - x) (py - y))) → a ≠ py * dstride + px) →
    blitC dstride dw dh src sstride x y w h key dst a = dst a
  reads : ∀ a ∈ blitReads dw dh sstride x y w h, ∃ c r, (0 ≤ c ∧ c < w) ∧ (0 ≤ r ∧ r < h) ∧
    a = pixelIndex sstride c r

section Block

variable {dstride dw dh sstride x y w h sx x' w' sy y' h' : Int} {key : Pixel} {src : Buffer}

theorem blitC_draws (hax : blitAxis x w dw = (sx, x', w')) (hay : blitAxis y h dh = (sy, y', h'))
    (hw : 0 < w') (hh : 0 < h')
    (agree : ∀ i j k l, (0 ≤ i ∧ i < h') → (0 ≤ j ∧ j < w') → (0 ≤ k ∧ k < h') → (0 ≤ l ∧ l < w') →
      u32 ((y' + i) * dstride) + u32 x' + j = u32 ((y' + k) * dstride) + u32 x' + l →
      src (u32 ((sy + i) * sstride) + u32 sx + j) = src (u32 ((sy + k) * sstride) + u32 sx + l)) :
    Draws (fun a v => ∃ i, 0 ≤ i ∧ i < h' ∧ ∃ j, 0 ≤ j ∧ j < w' ∧
        Opaque key (src (u32 ((sy + i) * sstride) + u32 sx + j)) ∧
        a = u32 ((y' + i) * dstride) + u32 x' + j ∧
        v = src (u32 ((sy + i) * sstride) + u32 sx + j))
      (blitC dstride dw dh src sstride x y w h key) := by
  unfold blitC
  rw [hax, hay]
  simp only [if_neg (by omega : ¬ (w' ≤ 0 ∨ h' ≤ 0))]
  refine Draws.forUp (fun i h0 h1 => Draws.forUp (fun j _ _ =>
    Draws.ite _ fun _ => Draws.update _ _) ?_) ?_
  · rintro j l a v u h2 h3 h4 h5 ⟨-, rfl, rfl⟩ ⟨-, heq, rfl⟩
    exact agree i j i l ⟨h0, h1⟩ ⟨h2, h3⟩ ⟨h0, h1⟩ ⟨h4, h5⟩ heq
  · rintro i k a v u h0 h1 h2 h3 ⟨j, h4, h5, -, rfl, rfl⟩ ⟨l, h6, h7, -, heq, rfl⟩
    exact agree i j k l ⟨h0, h1⟩ ⟨h4, h5⟩ ⟨h2, h3⟩ ⟨h6, h7⟩ heq

theorem AxisEmpty.not_in {x w dw px : Int} (h : AxisEmpty x w dw) :
    ¬ ((0 ≤ px ∧ px < dw) ∧ x ≤ px ∧ px < x + w) := by
  unfold AxisEmpty IsI32 at h
  omega

/-- Where an axis is empty nothing is written or read, and nothing should be. -/
theorem blitsRight_of_empty (hempty : (blitAxis x w dw).2.2 ≤ 0 ∨ (blitAxis y h dh).2.2 ≤ 0)
    (hnone : ∀ px py, ¬ Covers dw dh x y w h px py) :
    BlitsRight dstride dw dh sstride x y w h key := by
  have hid : ∀ src dst, blitC dstride dw dh src sstride x y w h key dst = dst := by
    intro src dst
    unfold blitC
    dsimp only
    rw [if_pos hempty]
  have hreads : blitReads dw dh sstride x y w h = [] := by
    unfold blitReads
    dsimp only
    rw [if_pos hempty]
  refine ⟨fun src dst px py hc => absurd hc (hnone px py), fun src dst a _ => by rw [hid], ?_⟩
  rw [hreads]
  exact fun a ha => absurd ha List.not_mem_nil

theorem u32_of_lt {n : Int} (h0 : 0 ≤ n) (h1 : n < 4294967296) : u32 n = n := by
  unfold u32
  omega

theorem covers_iff {px py : Int} : Covers dw dh x y w h px py ↔
    ((0 ≤ px ∧ px < dw) ∧ x ≤ px ∧ px < x + w) ∧ (0 ≤ py ∧ py < dh) ∧ y ≤ py ∧ py < y + h :=
  ⟨fun hc => ⟨⟨⟨hc.px_nonneg, hc.px_lt⟩, hc.left, hc.right⟩, ⟨hc.py_nonneg, hc.py_lt⟩, hc.above,
    hc.below⟩, fun ⟨⟨⟨h1, h2⟩, h5, h6⟩, ⟨h3, h4⟩, h7, h8⟩ => ⟨h1, h2, h3, h4, h5, h6, h7, h8⟩⟩

section Clipped

variable (t : Target dstride dw dh) (cx : ClippedAxis x w dw sx x' w')
  (cy : ClippedAxis y h dh sy y' h')
include cx cy

theorem ClippedAxis.covered {i j : Int} (hi : 0 ≤ i ∧ i < h') (hj : 0 ≤ j ∧ j < w') :
    Covers dw dh x y w h (x' + j) (y' + i) :=
  covers_iff.mpr ⟨(cx.covers _).mp ⟨by omega, by omega⟩, (cy.covers _).mp ⟨by omega, by omega⟩⟩

theorem ClippedAxis.read (i j : Int) : u32 ((sy + i) * sstride) + u32 sx + j =
    pixelIndex sstride (x' + j - x) (y' + i - y) := by
  rw [pixelIndex, u32_of_lt cx.source.1 cx.source.2, cx.offset, cy.offset,
    show y' - y + i = y' + i - y by omega]
  omega

include t in
theorem ClippedAxis.write {i j : Int} (hi : 0 ≤ i ∧ i < h') (hj : 0 ≤ j ∧ j < w') :
    u32 ((y' + i) * dstride) + u32 x' + j = (y' + i) * dstride + (x' + j) := by
  have hc := cx.covered cy hi hj
  rw [u32_of_lt cx.start.1 cx.start.2, t.row hc.py_nonneg hc.py_lt, add_assoc]

include t in
/-- The loops over the piece draw the pixels that are to be copied. -/
theorem ClippedAxis.draws (hax : blitAxis x w dw = (sx, x', w'))
    (hay : blitAxis y h dh = (sy, y', h')) (hw : 0 < w') (hh : 0 < h') (src : Buffer) :
    Draws (fun a v => ∃ px py, Covers dw dh x y w h px py ∧
      Opaque key (src (pixelIndex sstride (px - x) (py - y))) ∧ a = py * dstride + px ∧
      v = src (pixelIndex sstride (px - x) (py - y)))
      (blitC dstride dw dh src sstride x y w h key) := by
  refine (blitC_draws hax hay hw hh fun i j k l hi hj hk hl heq => ?_).congr fun a v => ⟨?_, ?_⟩
  · have hij := cx.covered cy hi hj
    have hkl := cx.covered cy hk hl
    rw [cx.write t cy hi hj, cx.write t cy hk hl] at heq
    obtain ⟨hcol, hline⟩ := index_inj t.fw_le ⟨hij.px_nonneg, hij.px_lt⟩
      ⟨hkl.px_nonneg, hkl.px_lt⟩ heq
    rw [Int.add_left_cancel hline, Int.add_left_cancel hcol]
  · rintro ⟨i, hi0, hi1, j, hj0, hj1, hop, rfl, rfl⟩
    rw [cx.read cy] at hop ⊢
    exact ⟨x' + j, y' + i, cx.covered cy ⟨hi0, hi1⟩ ⟨hj0, hj1⟩, hop,
      cx.write t cy ⟨hi0, hi1⟩ ⟨hj0, hj1⟩, rfl⟩
  · rintro ⟨px, py, hc, hop, rfl, rfl⟩
    obtain ⟨hpx, hpy⟩ := covers_iff.mp hc
    obtain ⟨hx0, hx1⟩ := (cx.covers px).mpr hpx
    obtain ⟨hy0, hy1⟩ := (cy.covers py).mpr hpy
    obtain ⟨j, rfl⟩ : ∃ j, px = x' + j := ⟨px - x', by omega⟩
    obtain ⟨i, rfl⟩ : ∃ i, py = y' + i := ⟨py - y', by omega⟩
    have hi : 0 ≤ i ∧ i < h' := ⟨by omega, by omega⟩
    have hj : 0 ≤ j ∧ j < w' := ⟨by omega, by omega⟩
    rw [← cx.read cy] at hop ⊢
    exact ⟨i, hi.1, hi.2, j, hj.1, hj.2, hop, (cx.write t cy hi hj).symm, rfl⟩

end Clipped

/-- Both sums fit and there is something to copy. -/
theorem blitsRight_of_fits (t : Target dstride dw dh) (hx : IsI32 x) (hy : IsI32 y)
    (hwr : IsI32 w) (hhr : IsI32 h) (hdw : IsI32 dw) (hdh : IsI32 dh) (hxw : IsI32 (x + w))
    (hyh : IsI32 (y + h)) (hw : 0 < (blitAxis x w dw).2.2) (hh : 0 < (blitAxis y h dh).2.2) :
    BlitsRight dstride dw dh sstride x y w h key := by
  have cx := blitAxis_clipped hx hwr ⟨t.fw_nonneg, hdw.2⟩ hxw hw
  have cy := blitAxis_clipped hy hhr ⟨t.fh_nonneg, hdh.2⟩ hyh hh
  have hdraws := fun src => @ClippedAxis.draws dstride dw dh sstride x y w h _ _ _ _ _ _ key t cx
    cy rfl rfl hw hh src
  refine ⟨fun src dst px py hc hop => ?_, fun src dst a ha => ?_, fun a ha => ?_⟩
  · exact (hdraws src).written dst _ _ ⟨px, py, hc, hop, rfl, rfl⟩
  · refine (hdraws src).kept dst a fun v hv => ?_
    obtain ⟨px, py, hc, hop, heq, -⟩ := hv
    exact ha px py hc hop heq
  · unfold blitReads at ha
    dsimp only at ha
    rw [if_neg (not_or.mpr ⟨not_le.mpr hw, not_le.mpr hh⟩)] at ha
    obtain ⟨i, hi, ha⟩ := List.mem_flatMap.mp ha
    obtain ⟨j, hj, rfl⟩ := List.mem_map.mp ha
    rw [List.mem_range] at hi hj
    have hc := covers_iff.mp (cx.covered cy ⟨Int.natCast_nonneg i, Int.lt_toNat.mp hi⟩
      ⟨Int.natCast_nonneg j, Int.lt_toNat.mp hj⟩)
    rw [cx.read cy]
    exact ⟨_, _, ⟨by omega, by omega⟩, ⟨by omega, by omega⟩, rfl⟩

/-- If the block is copied right and both loops run, the words written are all meant. -/
theorem BlitsRight.written (hb : BlitsRight dstride dw dh sstride x y w h key) {i j : Int}
    (hi : 0 ≤ i ∧ i < (blitAxis y h dh).2.2) (hj : 0 ≤ j ∧ j < (blitAxis x w dw).2.2) :
    ∃ px py, Covers dw dh x y w h px py ∧
      u32 (((blitAxis y h dh).2.1 + i) * dstride) + u32 (blitAxis x w dw).2.1 + j =
        py * dstride + px := by
  by_contra hno
  push Not at hno
  have hkey : key + 1 ≠ key := by simp
  have hop : Opaque key (key + 1) := .inr hkey
  have hdraws := @blitC_draws dstride dw dh sstride x y w h (blitAxis x w dw).1
    (blitAxis x w dw).2.1 (blitAxis x w dw).2.2 (blitAxis y h dh).1 (blitAxis y h dh).2.1
    (blitAxis y h dh).2.2 key (fun _ => key + 1) rfl rfl (by omega) (by omega) fun _ _ _ _ _ _ _ _ _ => rfl
  have hset := hdraws.written (fun _ => key) _ (key + 1)
    ⟨i, hi.1, hi.2, j, hj.1, hj.2, hop, rfl, rfl⟩
  rw [hb.kept _ _ _ fun px py hc _ => hno px py hc] at hset
  exact hkey hset.symm

/-- A column past the last is in no row of the block. -/
theorem past_column {q p px : Int} (hle : dw ≤ dstride) (h0 : 0 < px) (h1 : px < dw) :
    q * dstride + dw ≠ p * dstride + px := by
  intro heq
  have hmul : (p - q) * dstride = dw - px := by
    rw [Int.sub_mul]
    omega
  rcases Int.lt_or_le (p - q) 1 with hlt | hge
  · have := Int.mul_le_mul_of_nonneg_right (show p - q ≤ 0 by omega) (show 0 ≤ dstride by omega)
    omega
  · have := Int.mul_le_mul_of_nonneg_right hge (show 0 ≤ dstride by omega)
    omega

/-- A row past the last is behind the whole block. -/
theorem past_row {p px c : Int} (t : Target dstride dw dh) (hp : p < dh) (hpx : px < dw)
    (hc : 0 ≤ c) : dh * dstride + c ≠ p * dstride + px := by
  intro heq
  have hle := t.fw_le
  have hfw := t.fw_nonneg
  have := Int.mul_le_mul_of_nonneg_right (show p + 1 ≤ dh by omega) (show 0 ≤ dstride by omega)
  rw [Int.add_mul] at this
  omega

/-- A block is copied right where both sums fit an `int`, or one axis is empty anyway. -/
theorem blitC_right_iff (t : Target dstride dw dh) (hdw : IsI32 dw) (hdh : IsI32 dh)
    (hx : IsI32 x) (hy : IsI32 y) (hw : IsI32 w) (hh : IsI32 h) :
    BlitsRight dstride dw dh sstride x y w h key ↔
      IsI32 (x + w) ∧ IsI32 (y + h) ∨ AxisEmpty x w dw ∨ AxisEmpty y h dh := by
  have hex := axisEmpty_iff hx hw ⟨t.fw_nonneg, hdw.2⟩
  have hey := axisEmpty_iff hy hh ⟨t.fh_nonneg, hdh.2⟩
  by_cases hempty : AxisEmpty x w dw ∨ AxisEmpty y h dh
  · refine iff_of_true ?_ (.inr hempty)
    refine blitsRight_of_empty (hempty.imp hex.mpr hey.mpr) fun px py hc => ?_
    rcases hempty with he | he
    · exact he.not_in ⟨⟨hc.px_nonneg, hc.px_lt⟩, hc.left, hc.right⟩
    · exact he.not_in ⟨⟨hc.py_nonneg, hc.py_lt⟩, hc.above, hc.below⟩
  · rw [or_iff_left hempty]
    rw [not_or, ← hex, ← hey, not_le, not_le] at hempty
    obtain ⟨hw', hh'⟩ := hempty
    refine ⟨fun hb => ?_, fun hsum =>
      blitsRight_of_fits t hx hy hw hh hdw hdh hsum.1 hsum.2 hw' hh'⟩
    obtain ⟨px, py, hc, -⟩ := hb.written ⟨le_refl 0, hh'⟩ ⟨le_refl 0, hw'⟩
    obtain ⟨hx', hxover⟩ := blitAxis_of_in hx hw ⟨t.fw_nonneg, hdw.2⟩
      ⟨⟨hc.px_nonneg, hc.px_lt⟩, hc.left, hc.right⟩
    obtain ⟨hy', hyover⟩ := blitAxis_of_in hy hh ⟨t.fh_nonneg, hdh.2⟩
      ⟨⟨hc.py_nonneg, hc.py_lt⟩, hc.above, hc.below⟩
    obtain ⟨h1, h2, h3, h4, h5, h6, h7, h8⟩ := hc
    have hwide := hdw.2
    have htall := hdh.2
    have hx0 : u32 (max 0 x) = max 0 x := u32_of_lt (by omega) (by omega)
    refine ⟨?_, ?_⟩
    · -- The first row is drawn to the column after the last.
      by_contra hsum
      obtain ⟨hwx, hxpos, hover⟩ := hxover hsum
      obtain ⟨qx, qy, hq, heq⟩ := hb.written ⟨le_refl 0, hh'⟩
        (show 0 ≤ dw - x ∧ dw - x < (blitAxis x w dw).2.2 by omega)
      rw [hx', hy', hx0, add_zero, t.row (by omega) (by omega)] at heq
      refine past_column t.fw_le (q := max 0 y) (p := qy) (by have := hq.left; omega) hq.px_lt ?_
      omega
    · -- The row after the last is drawn.
      by_contra hsum
      obtain ⟨hhy, hypos, hover⟩ := hyover hsum
      obtain ⟨qx, qy, hq, heq⟩ := hb.written
        (show 0 ≤ dh - y ∧ dh - y < (blitAxis y h dh).2.2 by omega) ⟨le_refl 0, hw'⟩
      have hrow : u32 (dh * dstride) = dh * dstride := by
        have hwords := t.words
        rw [mul_comm] at hwords
        exact u32_of_lt (Int.mul_nonneg t.fh_nonneg (t.fw_nonneg.trans t.fw_le)) hwords
      rw [hx', hy', hx0, add_zero, show max 0 y + (dh - y) = dh by omega, hrow] at heq
      exact past_row t hq.py_lt hq.px_lt (by omega) heq

end Block

/-- A block that hangs over the left and the lower border. -/
theorem blitC_right_corner : BlitsRight 64 64 64 64 (-20) 54 100 100 (-1) ↔
    IsI32 (-20 + 100) ∧ IsI32 (54 + 100) ∨ AxisEmpty (-20) 100 64 ∨ AxisEmpty 54 100 64 :=
  blitC_right_iff target_64 (by unfold IsI32; decide) (by unfold IsI32; decide)
    (by unfold IsI32; decide) (by unfold IsI32; decide) (by unfold IsI32; decide)
    (by unfold IsI32; decide)

/-- At column 60 the width is not cut off: the row goes on behind the buffer's last column. -/
theorem blitC_misses_right_end : ¬ BlitsRight 64 64 64 64 60 0 2147483647 1 (-1) := by
  intro hb
  have hax : blitAxis 60 2147483647 64 = (0, 60, 2147483647) := by decide
  have hay : blitAxis 0 1 64 = (0, 0, 1) := by decide
  obtain ⟨px, py, hc, heq⟩ := hb.written (i := 0) (j := 4) (by rw [hay]; decide) (by rw [hax]; decide)
  rw [hax, hay] at heq
  replace heq : (64 : Int) = py * 64 + px := heq
  obtain ⟨h1, h2, h3, h4, h5, h6, h7, h8⟩ := hc
  omega

end WinDOS
