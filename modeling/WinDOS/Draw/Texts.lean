import WinDOS.Draw.Filled

/-!
# Text of any size (`put_char_cs`, `put_str_cs`)

The scaled characters draw a square for each bit of a glyph, the plain ones a pixel. Both are
the picture in which a pixel shows the bit of the cell it lies in.
-/

set_option autoImplicit false

namespace WinDOS

open Loop Drawing

def putCharCs (font : Font) (stride fw fh x y : Int) (c : BitVec 8) (color : Pixel) (s : Int)
    (fb : Buffer) : Buffer :=
  if s ≤ 1 then putCharC font stride fw fh x y c color fb
  else
    forUp 0 16 (fun dy =>
      let bits := font c dy
      let py := y + dy * s
      forUp 0 8 fun dx fb =>
        if bits &&& (0x80#8 >>> dx.toNat) ≠ 0 then
          let px := x + dx * s
          forUp 0 s (fun sy fb =>
            let ry := py + sy
            if 0 ≤ ry ∧ ry < fh then
              forUp 0 s (fun sx fb =>
                let rx := px + sx
                if 0 ≤ rx ∧ rx < fw then Function.update fb (u32 (ry * stride) + rx) color
                else fb) fb
            else fb) fb
        else fb) fb

def putStrCs (font : Font) (stride fw fh : Int) : Int → Int → Text → Pixel → Int → Buffer → Buffer
  | _, _, [], _, _, fb => fb
  | x, y, c :: t, color, s, fb =>
    putStrCs font stride fw fh (x + 8 * s) y t color s
      (putCharCs font stride fw fh x y c color s fb)

/-- The bit of a glyph, counted from the left. -/
def GlyphBit (font : Font) (c : BitVec 8) (row col : Int) : Prop :=
  font c row &&& (0x80#8 >>> col.toNat) ≠ 0

/-- The pixel lies in a cell of the character whose bit is set. -/
structure CharPixel (font : Font) (x y s : Int) (c : BitVec 8) (px py : Int) : Prop where
  column : 0 ≤ (px - x) / s ∧ (px - x) / s < 8
  row : 0 ≤ (py - y) / s ∧ (py - y) / s < 16
  bit : GlyphBit font c ((py - y) / s) ((px - x) / s)

/-- The character is the one the pixel lies in, its cell as for one character. -/
structure TextPixel (font : Font) (x y s : Int) (t : Text) (px py : Int) : Prop where
  char : 0 ≤ (px - x) / (8 * s) ∧ (px - x) / (8 * s) < t.length
  row : 0 ≤ (py - y) / s ∧ (py - y) / s < 16
  bit : GlyphBit font (t.getD ((px - x) / (8 * s)).toNat 0) ((py - y) / s)
    ((px - x) % (8 * s) / s)

/-- The pixel is in the logical size of the buffer. -/
def Visible (fw fh px py : Int) : Prop := (0 ≤ px ∧ px < fw) ∧ 0 ≤ py ∧ py < fh

/-- `color` at the visible pixels of a picture, wherever the code looks for them. -/
def Picture (stride fw fh : Int) (color : Pixel) (P : Int → Int → Prop) (a : Int) (v : Pixel) :
    Prop :=
  v = color ∧ ∃ px py, Visible fw fh px py ∧ P px py ∧ a = pixelIndex stride px py

theorem Picture.agree {stride fw fh : Int} {color : Pixel} {P Q : Int → Int → Prop} {a : Int}
    {v w : Pixel} (hv : Picture stride fw fh color P a v) (hw : Picture stride fw fh color Q a w) :
    v = w := hv.1.trans hw.1.symm

section Texts

variable {font : Font} {stride fw fh x y : Int} {color : Pixel}

theorem cell_eq {s n k r : Int} (h0 : 0 ≤ r) (h1 : r < s) (h : n = k * s + r) : n / s = k := by
  rw [h, add_comm, Int.add_mul_ediv_right _ _ (by omega), Int.ediv_eq_zero_of_lt h0 h1, zero_add]

theorem cells_of_char {s : Int} (hs : 1 ≤ s) (n : Int) :
    n / (8 * s) = n / s / 8 ∧ n % (8 * s) / s = n / s % 8 := by
  have hdiv : n / (8 * s) = n / s / 8 := by
    rw [Int.mul_comm, Int.ediv_ediv_of_nonneg (by omega)]
  refine ⟨hdiv, ?_⟩
  have hmod : n % (8 * s) = n + -(8 * (n / s / 8)) * s := by
    rw [Int.emod_def, hdiv, Int.sub_eq_add_neg, Int.neg_mul, Int.mul_right_comm]
  rw [hmod, Int.add_mul_ediv_right _ _ (by omega)]
  omega

theorem putCharC_draws (c : BitVec 8) :
    Draws (Picture stride fw fh color (CharPixel font x y 1 c))
      (putCharC font stride fw fh x y c color) := by
  unfold putCharC
  refine (Draws.forUp (fun dy _ _ => Draws.ite _ fun _ => Draws.forUp (fun dx _ _ =>
    Draws.ite _ fun _ => Draws.update _ color) ?_) ?_).congr fun a v => ?_
  · rintro k l a v w - - - - ⟨-, -, rfl⟩ ⟨-, -, rfl⟩
    rfl
  · rintro k l a v w - - - - ⟨-, -, -, -, -, -, rfl⟩ ⟨-, -, -, -, -, -, rfl⟩
    rfl
  · constructor
    · rintro ⟨dy, hy0, hy1, ⟨h0, h1, -⟩, dx, hx0, hx1, ⟨h2, h3, hbit⟩, rfl, rfl⟩
      refine ⟨rfl, x + dx, y + dy, ⟨⟨h2, h3⟩, h0, h1⟩, ?_, rfl⟩
      have hcol : (x + dx - x) / 1 = dx := by omega
      have hrow : (y + dy - y) / 1 = dy := by omega
      exact ⟨by omega, by omega, by rw [hcol, hrow]; exact hbit⟩
    · rintro ⟨rfl, px, py, ⟨⟨h2, h3⟩, h0, h1⟩, ⟨hcol, hrow, hbit⟩, rfl⟩
      rw [Int.ediv_one] at hcol hrow
      rw [Int.ediv_one, Int.ediv_one] at hbit
      have hpx : x + (px - x) = px := by omega
      have hpy : y + (py - y) = py := by omega
      refine ⟨py - y, hrow.1, hrow.2, ⟨?_, ?_, fun hzero => hbit ?_⟩, px - x, hcol.1, hcol.2,
        ⟨?_, ?_, hbit⟩, ?_, rfl⟩
      · omega
      · omega
      · rw [hzero]
        exact BitVec.zero_and
      · omega
      · omega
      · rw [hpx, hpy]
        rfl

theorem putCharCs_draws {s : Int} (hs : 1 ≤ s) (c : BitVec 8) :
    Draws (Picture stride fw fh color (CharPixel font x y s c))
      (putCharCs font stride fw fh x y c color s) := by
  unfold putCharCs
  by_cases h1 : s ≤ 1
  · obtain rfl : s = 1 := by omega
    simp only [if_pos h1]
    exact putCharC_draws c
  simp only [if_neg h1]
  refine (Draws.forUp (fun dy _ _ => Draws.forUp (fun dx _ _ => Draws.ite _ fun _ =>
    Draws.forUp (fun sy _ _ => Draws.ite _ fun _ => Draws.forUp (fun sx _ _ =>
      Draws.ite _ fun _ => Draws.update _ color) ?_) ?_) ?_) ?_).congr fun a v => ?_
  · rintro k l a v w - - - - ⟨-, -, rfl⟩ ⟨-, -, rfl⟩
    rfl
  · rintro k l a v w - - - - ⟨-, -, -, -, -, -, rfl⟩ ⟨-, -, -, -, -, -, rfl⟩
    rfl
  · rintro k l a v w - - - - ⟨-, -, -, -, -, -, -, -, -, -, rfl⟩ ⟨-, -, -, -, -, -, -, -, -, -, rfl⟩
    rfl
  · rintro k l a v w - - - - ⟨-, -, -, -, -, -, -, -, -, -, -, -, -, rfl⟩
      ⟨-, -, -, -, -, -, -, -, -, -, -, -, -, rfl⟩
    rfl
  · constructor
    · rintro ⟨dy, hy0, hy1, dx, hx0, hx1, hbit, sy, hsy0, hsy1, hry, sx, hsx0, hsx1, hrx, rfl, rfl⟩
      have hcol : (x + dx * s + sx - x) / s = dx := cell_eq hsx0 hsx1 (by omega)
      have hrow : (y + dy * s + sy - y) / s = dy := cell_eq hsy0 hsy1 (by omega)
      refine ⟨rfl, x + dx * s + sx, y + dy * s + sy, ⟨hrx, hry⟩, ?_, rfl⟩
      exact ⟨by rw [hcol]; exact ⟨hx0, hx1⟩, by rw [hrow]; exact ⟨hy0, hy1⟩,
        by rw [hcol, hrow]; exact hbit⟩
    · rintro ⟨rfl, px, py, ⟨hrx, hry⟩, ⟨hcol, hrow, hbit⟩, rfl⟩
      have hpx : x + (px - x) / s * s + (px - x) % s = px := by
        have := Int.ediv_mul_add_emod (px - x) s
        omega
      have hpy : y + (py - y) / s * s + (py - y) % s = py := by
        have := Int.ediv_mul_add_emod (py - y) s
        omega
      have hpos : 0 < s := by omega
      refine ⟨(py - y) / s, hrow.1, hrow.2, (px - x) / s, hcol.1, hcol.2, hbit, (py - y) % s,
        Int.emod_nonneg _ (by omega), Int.emod_lt_of_pos _ hpos, ?_, (px - x) % s,
        Int.emod_nonneg _ (by omega), Int.emod_lt_of_pos _ hpos, ?_, ?_, rfl⟩
      · rwa [hpy]
      · rwa [hpx]
      · rw [hpx, hpy]
        rfl

/-- The first character, or the rest of the text from the next position on. -/
theorem textPixel_cons {s : Int} (hs : 1 ≤ s) (c : BitVec 8) (t : Text) (px py : Int) :
    TextPixel font x y s (c :: t) px py ↔
      CharPixel font x y s c px py ∨ TextPixel font (x + 8 * s) y s t px py := by
  obtain ⟨hdiv, hmod⟩ := cells_of_char hs (px - x)
  obtain ⟨hdiv', hmod'⟩ := cells_of_char hs (px - (x + 8 * s))
  have hnext : (px - (x + 8 * s)) / s = (px - x) / s - 8 := by
    rw [show px - (x + 8 * s) = px - x + -8 * s by omega, Int.add_mul_ediv_right _ _ (by omega)]
    omega
  rw [hnext] at hdiv' hmod'
  have hcol : ((px - x) / s - 8) % 8 = (px - x) / s % 8 := by omega
  constructor
  · rintro ⟨hchar, hrow, hbit⟩
    rw [hdiv] at hchar hbit
    rw [hmod] at hbit
    rw [List.length_cons] at hchar
    by_cases hfirst : (px - x) / s / 8 = 0
    · refine .inl ⟨by omega, hrow, ?_⟩
      rw [hfirst, show (px - x) / s % 8 = (px - x) / s by omega] at hbit
      exact hbit
    · refine .inr ⟨by rw [hdiv']; omega, hrow, ?_⟩
      rw [hdiv', hmod', hcol]
      rw [show ((px - x) / s / 8).toNat = (((px - x) / s - 8) / 8).toNat + 1 by omega] at hbit
      exact hbit
  · rintro (⟨hc, hrow, hbit⟩ | ⟨hchar, hrow, hbit⟩)
    · refine ⟨by rw [hdiv, List.length_cons]; omega, hrow, ?_⟩
      rw [hdiv, hmod, show (px - x) / s / 8 = 0 by omega,
        show (px - x) / s % 8 = (px - x) / s by omega]
      exact hbit
    · rw [hdiv'] at hchar hbit
      rw [hmod', hcol] at hbit
      refine ⟨by rw [hdiv, List.length_cons]; omega, hrow, ?_⟩
      rw [hdiv, hmod, show ((px - x) / s / 8).toNat = (((px - x) / s - 8) / 8).toNat + 1 by omega]
      exact hbit

theorem putStrCs_draws {s : Int} (hs : 1 ≤ s) (t : Text) (x : Int) :
    Draws (Picture stride fw fh color (TextPixel font x y s t))
      (putStrCs font stride fw fh x y t color s) := by
  induction t generalizing x with
  | nil =>
    refine Draws.nothing.congr fun a v => ⟨False.elim, ?_⟩
    rintro ⟨-, px, py, -, ⟨⟨h0, h1⟩, -, -⟩, -⟩
    simp only [List.length_nil] at h1
    omega
  | cons c t ih =>
    refine ((ih (x + 8 * s)).union (putCharCs_draws hs c) fun a v w hv hw =>
      hv.agree hw).congr fun a v => ?_
    constructor
    · rintro (⟨rfl, px, py, hvis, hp, rfl⟩ | ⟨rfl, px, py, hvis, hp, rfl⟩)
      · exact ⟨rfl, px, py, hvis, (textPixel_cons hs c t px py).mpr (.inr hp), rfl⟩
      · exact ⟨rfl, px, py, hvis, (textPixel_cons hs c t px py).mpr (.inl hp), rfl⟩
    · rintro ⟨rfl, px, py, hvis, hp, rfl⟩
      rcases (textPixel_cons hs c t px py).mp hp with hp | hp
      · exact .inr ⟨rfl, px, py, hvis, hp, rfl⟩
      · exact .inl ⟨rfl, px, py, hvis, hp, rfl⟩

/-- With size 1 the characters are the plain ones. -/
theorem putStrCs_one (t : Text) (x : Int) (fb : Buffer) :
    putStrCs font stride fw fh x y t color 1 fb = putStrC font stride fw fh x y t color fb := by
  induction t generalizing x fb with
  | nil => rfl
  | cons c t ih =>
    unfold putStrCs putStrC
    rw [ih]
    rfl

end Texts

/-- Every text, at every size and place, is its nearest-neighbour picture; `put_str_c` draws the
one of size 1. In a buffer of fewer than 2^32 words the words are those of the pixels. -/
theorem putStrCs_exact (font : Font) (stride fw fh x y : Int) (t : Text) (color : Pixel) {s : Int}
    (hs : 1 ≤ s) (fb : Buffer) :
    (∀ px py, Visible fw fh px py → TextPixel font x y s t px py →
      putStrCs font stride fw fh x y t color s fb (pixelIndex stride px py) = color) ∧
    (∀ a, (∀ px py, Visible fw fh px py → TextPixel font x y s t px py →
        a ≠ pixelIndex stride px py) →
      putStrCs font stride fw fh x y t color s fb a = fb a) ∧
    putStrCs font stride fw fh x y t color 1 fb = putStrC font stride fw fh x y t color fb ∧
    (Target stride fw fh → ∀ px py, Visible fw fh px py →
      pixelIndex stride px py = py * stride + px) := by
  have hdraws := @putStrCs_draws font stride fw fh y color s hs t x
  refine ⟨fun px py hvis hp => ?_, fun a ha => ?_, putStrCs_one t x fb, fun htarget px py hvis => ?_⟩
  · exact hdraws.written fb _ _ ⟨rfl, px, py, hvis, hp, rfl⟩
  · refine hdraws.kept fb a fun v hv => ?_
    obtain ⟨-, px, py, hvis, hp, heq⟩ := hv
    exact ha px py hvis hp heq
  · unfold pixelIndex
    rw [htarget.row hvis.2.1 hvis.2.2]

/-- A block letter twice as large, half of it left of the buffer. -/
theorem putStrCs_exact_block :
    putStrCs (fun _ _ => 0xFF) 64 64 64 (-8) 0 [0x41] 0x00FFFFFF 2 (fun _ => 0)
      (pixelIndex 64 7 31) = 0x00FFFFFF := by
  refine (putStrCs_exact (fun _ _ => 0xFF) 64 64 64 (-8) 0 [0x41] 0x00FFFFFF (by decide)
    fun _ => 0).1 7 31 ?_ ?_
  · unfold Visible
    decide
  · refine ⟨by decide, by decide, ?_⟩
    unfold GlyphBit
    decide

end WinDOS
