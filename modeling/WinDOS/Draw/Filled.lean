import WinDOS.Draw.Clipped
import WinDOS.Lib.Drawing

/-!
# What `fill_rect_c` draws

`clip_rect` computes in `long`, so the sums are those of the integers; its results lie in the
buffer and fit an `int` again. A buffer has fewer than 2^32 words: no row address wraps.
-/

set_option autoImplicit false

namespace WinDOS

open Drawing

/-- Where the code looks for a pixel: the row address is a `u32`, the column is added to it. -/
def pixelIndex (stride px py : Int) : Int := u32 (py * stride) + px

/-- A buffer of `fh` rows, its first `fw` columns the logical width. -/
structure Target (stride fw fh : Int) : Prop where
  fw_nonneg : 0 ≤ fw
  fw_le : fw ≤ stride
  fh_nonneg : 0 ≤ fh
  words : stride * fh < 2 ^ 32

/-- The row address of the source is the one meant. -/
theorem Target.row {stride fw fh py : Int} (t : Target stride fw fh) (h0 : 0 ≤ py) (h1 : py < fh) :
    u32 (py * stride) = py * stride := by
  have hstride : 0 ≤ stride := t.fw_nonneg.trans t.fw_le
  have hle : py * stride ≤ fh * stride :=
    Int.mul_le_mul_of_nonneg_right (le_of_lt h1) hstride
  have hwords := t.words
  rw [mul_comm] at hwords
  exact Int.emod_eq_of_lt (Int.mul_nonneg h0 hstride) (lt_of_le_of_lt hle hwords)

theorem index_inj {stride fw px py qx qy : Int} (hle : fw ≤ stride)
    (hp : 0 ≤ px ∧ px < fw) (hq : 0 ≤ qx ∧ qx < fw)
    (heq : py * stride + px = qy * stride + qx) : px = qx ∧ py = qy := by
  have hrow : ∀ {p q : Int}, 0 ≤ p ∧ p < fw → (q * stride + p) / stride = q := by
    intro p q hp
    rw [add_comm, Int.add_mul_ediv_right _ _ (by omega), Int.ediv_eq_zero_of_lt hp.1 (by omega),
      zero_add]
  have hy : py = qy := by rw [← hrow (q := py) hp, heq, hrow hq]
  subst hy
  exact ⟨by omega, rfl⟩

/-- The pixel is in the rectangle and in the buffer. -/
structure Covers (fw fh x y w h px py : Int) : Prop where
  px_nonneg : 0 ≤ px
  px_lt : px < fw
  py_nonneg : 0 ≤ py
  py_lt : py < fh
  left : x ≤ px
  right : px < x + w
  above : y ≤ py
  below : py < y + h

/-- `clip_rect` finds the visible part, or nothing is visible. -/
theorem clipRect_cases (x y w h fw fh : Int) :
    clipRect x y w h fw fh = none ∧ (∀ px py, ¬ Covers fw fh x y w h px py) ∨
    ∃ x0 y0 w0 h0, clipRect x y w h fw fh = some (x0, y0, w0, h0) ∧ 0 < w0 ∧ 0 < h0 ∧
      0 ≤ x0 ∧ x0 + w0 ≤ fw ∧ 0 ≤ y0 ∧ y0 + h0 ≤ fh ∧
      ∀ px py, Covers fw fh x y w h px py ↔
        (x0 ≤ px ∧ px < x0 + w0) ∧ (y0 ≤ py ∧ py < y0 + h0) := by
  have hx0 : (if x < 0 then 0 else x) = max 0 x := by omega
  have hy0 : (if y < 0 then 0 else y) = max 0 y := by omega
  have hx1 : (if x + w > fw then fw else x + w) = min fw (x + w) := by omega
  have hy1 : (if y + h > fh then fh else y + h) = min fh (y + h) := by omega
  unfold clipRect
  dsimp only
  rw [hx0, hy0, hx1, hy1]
  split
  · refine .inl ⟨rfl, fun px py hc => ?_⟩
    obtain ⟨h1, h2, h3, h4, h5, h6, h7, h8⟩ := hc
    omega
  · refine .inr ⟨_, _, _, _, rfl, by omega, by omega, by omega, by omega, by omega, by omega,
      fun px py => ⟨?_, fun hin => ?_⟩⟩
    · rintro ⟨h1, h2, h3, h4, h5, h6, h7, h8⟩
      omega
    · constructor <;> omega

theorem fillRectC_draws {stride fw fh : Int} (t : Target stride fw fh) (x y w h : Int)
    (color : Pixel) :
    Draws (fun i v => v = color ∧ ∃ px py, Covers fw fh x y w h px py ∧ i = py * stride + px)
      (fillRectC stride fw fh x y w h color) := by
  unfold fillRectC
  rcases clipRect_cases x y w h fw fh with
    ⟨hclip, hnone⟩ | ⟨x0, y0, w0, h0, hclip, -, -, hx0, hx1, hy0, hy1, hcovers⟩
  · rw [hclip]
    refine Draws.nothing.congr fun i v => ⟨False.elim, ?_⟩
    rintro ⟨-, px, py, hc, -⟩
    exact hnone px py hc
  · rw [hclip]
    refine (Draws.forUp (fun dy _ _ => Draws.forUp (fun dx _ _ => Draws.update _ color) ?_)
      ?_).congr fun i v => ?_
    · rintro k l i v w - - - - ⟨-, rfl⟩ ⟨-, rfl⟩
      rfl
    · rintro k l i v w - - - - ⟨-, -, -, -, rfl⟩ ⟨-, -, -, -, rfl⟩
      rfl
    · constructor
      · rintro ⟨dy, hdy0, hdy1, dx, hdx0, hdx1, rfl, rfl⟩
        refine ⟨rfl, x0 + dx, y0 + dy, (hcovers _ _).mpr ⟨by omega, by omega⟩, ?_⟩
        rw [t.row (by omega) (by omega)]
        omega
      · rintro ⟨rfl, px, py, hc, rfl⟩
        obtain ⟨hpx, hpy⟩ := (hcovers px py).mp hc
        refine ⟨py - y0, by omega, by omega, px - x0, by omega, by omega, ?_, rfl⟩
        rw [show y0 + (py - y0) = py by omega, t.row hc.py_nonneg hc.py_lt]
        omega

/-- For every rectangle: the pixels in it and in the buffer, and no other word. -/
theorem fillRectC_exact {stride fw fh : Int} (t : Target stride fw fh) (x y w h : Int)
    (color : Pixel) (fb : Buffer) :
    (∀ px py, Covers fw fh x y w h px py →
      fillRectC stride fw fh x y w h color fb (py * stride + px) = color) ∧
    (∀ i, (∀ px py, Covers fw fh x y w h px py → i ≠ py * stride + px) →
      fillRectC stride fw fh x y w h color fb i = fb i) ∧
    (clipRect x y w h fw fh = none ↔ ∀ px py, ¬ Covers fw fh x y w h px py) := by
  have hdraws := fillRectC_draws t x y w h color
  refine ⟨fun px py hc => hdraws.written fb _ _ ⟨rfl, px, py, hc, rfl⟩, fun i hi => ?_, ?_⟩
  · refine hdraws.kept fb i fun v hv => ?_
    obtain ⟨-, px, py, hc, heq⟩ := hv
    exact hi px py hc heq
  · rcases clipRect_cases x y w h fw fh with
      ⟨hclip, hnone⟩ | ⟨x0, y0, w0, h0, hclip, hw, hh, -, -, -, -, hcovers⟩
    · exact iff_of_true hclip hnone
    · refine iff_of_false (by rw [hclip]; exact Option.some_ne_none _) fun hnone => ?_
      exact hnone x0 y0 ((hcovers x0 y0).mpr ⟨by omega, by omega⟩)

theorem target_64 : Target 64 64 64 := ⟨by decide, by decide, by decide, by decide⟩

/-- Both sums are beyond 32 bits: the whole quadrant from the pixel on is filled. -/
theorem fillRectC_exact_maxInt :
    fillRectC 64 64 64 60 60 2147483647 2147483647 0x0000FF00 (fun _ => 0) (63 * 64 + 63) =
      0x0000FF00 ∧
    fillRectC 64 64 64 60 60 2147483647 2147483647 0x0000FF00 (fun _ => 0) 4096 = 0 ∧
    (clipRect 60 60 2147483647 2147483647 64 64 = none ↔
      ∀ px py, ¬ Covers 64 64 60 60 2147483647 2147483647 px py) := by
  obtain ⟨hset, hkept, hclip⟩ :=
    fillRectC_exact target_64 60 60 2147483647 2147483647 0x0000FF00 fun _ => 0
  refine ⟨hset 63 63 (by constructor <;> decide), hkept 4096 ?_, hclip⟩
  rintro px py ⟨h1, h2, h3, h4, -, -, -, -⟩
  omega

end WinDOS
