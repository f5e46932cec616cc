import WinDOS.Draw.Blit
import WinDOS.Draw.Texts
import WinDOS.Gui.Handlers

/-!
# Windows with a shadow (`draw_win_shadow`)

The buffer of a window has a band of `SHADOW` pixels around its content. The shadow is drawn
last and only there; the title bar is drawn from the content's width, and `isr2c_handler`
tests its buttons from the buffer's. Pixels are addressed by an `int`.
-/

set_option autoImplicit false

namespace WinDOS

open Loop Drawing Gui

def closebtn : List String :=
  ["OOOOOOOOOOOOOOOO",
   "OQQQQQQQQQQQQQ$O",
   "OQQQQQQQQQQQQQ$O",
   "OQQQ@QQQQQ@QQQ$O",
   "OQQQQ@QQQ@QQQQ$O",
   "OQQQQQ@Q@QQQQQ$O",
   "OQQQQQQ@QQQQQQ$O",
   "OQQQQQ@Q@QQQQQ$O",
   "OQQQQ@QQQ@QQQQ$O",
   "OQQQ@QQQQQ@QQQ$O",
   "OQQQQQQQQQQQQQ$O",
   "OQQQQQQQQQQQQQ$O",
   "O$$$$$$$$$$$$$$O",
   "OOOOOOOOOOOOOOOO"]

def closeColor (s x y : Int) : Pixel :=
  if (closebtn.getD (y / s).toNat "").toList.getD (x / s).toNat ' ' = '@' then 0x00000000
  else 0x00FFFFFF

def minColor (s x y : Int) : Pixel :=
  if (7 * s ≤ y ∧ y < 8 * s) ∧ 4 * s ≤ x ∧ x < 12 * s then 0x00000000 else 0x00FFFFFF

/-- A button of the title bar, `left * s` pixels before the right end of the content. -/
def winButton (w h s left : Int) (color : Int → Int → Pixel) (buf : Buffer) : Buffer :=
  let W := w + 2 * SHADOW
  let H := h + 2 * SHADOW
  forUp 0 (14 * s) (fun y => forUp 0 (16 * s) fun x buf =>
    let px := w - left * s + x + SHADOW
    let py := 5 * s + y + SHADOW
    if 0 ≤ px ∧ px < W ∧ 0 ≤ py ∧ py < H then
      Function.update buf (i32 (py * W + px)) (color x y)
    else buf) buf

def closeButton (w h s : Int) : Buffer → Buffer := winButton w h s 21 (closeColor s)

def minButton (w h s : Int) : Buffer → Buffer := winButton w h s 37 (minColor s)

/-- How far a coordinate is outside the content, 0 inside. -/
def outside (size x : Int) : Int :=
  if x < SHADOW then SHADOW - x else if x ≥ SHADOW + size then x - (SHADOW + size - 1) else 0

/-- The marker, and the depth of the shadow `dx` and `dy` away from the content. -/
def shadowPixel (dx dy : Int) : Pixel :=
  let d := if dx > dy then dx else dy
  let d := if d > SHADOW then SHADOW else d
  0xFF000000 ||| BitVec.ofInt 32 (SHADOW - d + 3)

def shadowBand (w h : Int) (buf : Buffer) : Buffer :=
  let W := w + 2 * SHADOW
  let H := h + 2 * SHADOW
  forUp 0 H (fun y => forUp 0 W fun x buf =>
    let dx := outside w x
    let dy := outside h y
    if dx ≠ 0 ∨ dy ≠ 0 then Function.update buf (i32 (y * W + x)) (shadowPixel dx dy)
    else buf) buf

def drawWinShadow (font : Font) (w h : Int) (title : Text) (s : Int) (buf : Buffer) : Buffer :=
  let W := w + 2 * SHADOW
  let H := h + 2 * SHADOW
  let buf := fillRectC W W H SHADOW SHADOW w h 0x00C0C0C0 buf
  let buf := fillRectC W W H SHADOW SHADOW w (24 * s) 0x00FFFFFF buf
  let buf := fillRectC W W H SHADOW SHADOW w (2 * s) 0x00404040 buf
  let buf := fillRectC W W H SHADOW SHADOW (2 * s) (24 * s) 0x00404040 buf
  let buf := fillRectC W W H (SHADOW + w - 2 * s) SHADOW (2 * s) (24 * s) 0x00404040 buf
  let buf := putStrCs font W W H (5 * s + SHADOW) (4 * s + SHADOW) title 0x00000000 s buf
  let buf := closeButton w h s buf
  let buf := minButton w h s buf
  shadowBand w h buf

/-! ### The parts -/

/-- The pixel is in the content of the window. -/
def InContent (w h px py : Int) : Prop :=
  (SHADOW ≤ px ∧ px < SHADOW + w) ∧ SHADOW ≤ py ∧ py < SHADOW + h

/-- The pixel is on the button `left * s` pixels before the right end. -/
def OnWinButton (w s left px py : Int) : Prop :=
  (w - left * s + SHADOW ≤ px ∧ px < w - left * s + SHADOW + 16 * s) ∧
    5 * s + SHADOW ≤ py ∧ py < 19 * s + SHADOW

theorem inContent_iff {w h px py : Int} :
    InContent w h px py ↔ ¬ (outside w px ≠ 0 ∨ outside h py ≠ 0) := by
  unfold InContent outside SHADOW
  split_ifs <;> omega

section Index

variable {W H px py qx qy : Int}

theorem index_in (hx : 0 ≤ px ∧ px < W) (hy : 0 ≤ py ∧ py < H) :
    0 ≤ py * W + px ∧ py * W + px < W * H := by
  have h0 := Int.mul_nonneg hy.1 (show 0 ≤ W by omega)
  have h1 := Int.mul_le_mul_of_nonneg_right (show py + 1 ≤ H by omega) (show 0 ≤ W by omega)
  rw [Int.add_mul, Int.mul_comm H W] at h1
  omega

theorem i32_of_lt {n : Int} (h0 : 0 ≤ n) (h1 : n < 2147483648) : i32 n = n := by
  unfold i32
  omega

/-- Up to 2^32 words no two pixels have the same address. -/
theorem i32_index_inj (hsize : W * H ≤ 4294967296) (hx : 0 ≤ px ∧ px < W) (hy : 0 ≤ py ∧ py < H)
    (hx' : 0 ≤ qx ∧ qx < W) (hy' : 0 ≤ qy ∧ qy < H)
    (heq : i32 (py * W + px) = i32 (qy * W + qx)) : px = qx ∧ py = qy := by
  obtain ⟨hp0, hp1⟩ := index_in hx hy
  obtain ⟨hq0, hq1⟩ := index_in hx' hy'
  have hsame : py * W + px = qy * W + qx := by
    unfold i32 at heq
    omega
  exact index_inj (le_refl W) hx hx' hsame

end Index

section Layers

variable {w h s left : Int} {color : Int → Int → Pixel}

theorem winButton_draws (hsize : (w + 2 * SHADOW) * (h + 2 * SHADOW) ≤ 4294967296) :
    Draws (fun a v => ∃ px py, OnWinButton w s left px py ∧
        Visible (w + 2 * SHADOW) (h + 2 * SHADOW) px py ∧ a = i32 (py * (w + 2 * SHADOW) + px) ∧
        v = color (px - (w - left * s + SHADOW)) (py - (5 * s + SHADOW)))
      (winButton w h s left color) := by
  unfold winButton
  refine (Draws.forUp (fun y _ _ => Draws.forUp (fun x _ _ => Draws.ite _ fun _ =>
    Draws.update _ _) ?_) ?_).congr fun a v => ?_
  · rintro x x' a v u - - - - ⟨⟨h0, h1, h2, h3⟩, rfl, rfl⟩ ⟨⟨h4, h5, h6, h7⟩, heq, rfl⟩
    obtain ⟨hx, -⟩ := i32_index_inj hsize ⟨h0, h1⟩ ⟨h2, h3⟩ ⟨h4, h5⟩ ⟨h6, h7⟩ heq
    rw [show x = x' by omega]
  · rintro y y' a v u - - - - ⟨x, -, -, ⟨h0, h1, h2, h3⟩, rfl, rfl⟩
      ⟨x', -, -, ⟨h4, h5, h6, h7⟩, heq, rfl⟩
    obtain ⟨hx, hy⟩ := i32_index_inj hsize ⟨h0, h1⟩ ⟨h2, h3⟩ ⟨h4, h5⟩ ⟨h6, h7⟩ heq
    rw [show x = x' by omega, show y = y' by omega]
  · unfold OnWinButton Visible
    constructor
    · rintro ⟨y, hy0, hy1, x, hx0, hx1, ⟨h0, h1, h2, h3⟩, rfl, rfl⟩
      refine ⟨_, _, ⟨⟨by omega, by omega⟩, by omega, by omega⟩, ⟨⟨h0, h1⟩, h2, h3⟩, rfl, ?_⟩
      congr 1 <;> omega
    · rintro ⟨px, py, ⟨⟨h4, h5⟩, h6, h7⟩, ⟨⟨h0, h1⟩, h2, h3⟩, rfl, rfl⟩
      have hpx : w - left * s + (px - (w - left * s + SHADOW)) + SHADOW = px := by omega
      have hpy : 5 * s + (py - (5 * s + SHADOW)) + SHADOW = py := by omega
      refine ⟨py - (5 * s + SHADOW), by omega, by omega, px - (w - left * s + SHADOW), by omega,
        by omega, ?_⟩
      rw [hpx, hpy]
      exact ⟨⟨h0, h1, h2, h3⟩, rfl, rfl⟩

theorem shadowBand_draws (hsize : (w + 2 * SHADOW) * (h + 2 * SHADOW) ≤ 4294967296) :
    Draws (fun a v => ∃ px py, ¬ InContent w h px py ∧
        Visible (w + 2 * SHADOW) (h + 2 * SHADOW) px py ∧ a = i32 (py * (w + 2 * SHADOW) + px) ∧
        v = shadowPixel (outside w px) (outside h py))
      (shadowBand w h) := by
  unfold shadowBand
  refine (Draws.forUp (fun y hy0 hy1 => Draws.forUp (fun x hx0 hx1 => Draws.ite _ fun _ =>
    Draws.update _ _) ?_) ?_).congr fun a v => ?_
  · rintro x x' a v u h0 h1 h2 h3 ⟨-, rfl, rfl⟩ ⟨-, heq, rfl⟩
    obtain ⟨hx, -⟩ := i32_index_inj hsize ⟨h0, h1⟩ ⟨hy0, hy1⟩ ⟨h2, h3⟩ ⟨hy0, hy1⟩ heq
    rw [hx]
  · rintro y y' a v u h0 h1 h2 h3 ⟨x, h4, h5, -, rfl, rfl⟩ ⟨x', h6, h7, -, heq, rfl⟩
    obtain ⟨hx, hy⟩ := i32_index_inj hsize ⟨h4, h5⟩ ⟨h0, h1⟩ ⟨h6, h7⟩ ⟨h2, h3⟩ heq
    rw [hx, hy]
  · constructor
    · rintro ⟨y, hy0, hy1, x, hx0, hx1, hout, rfl, rfl⟩
      exact ⟨x, y, fun hin => inContent_iff.mp hin hout, ⟨⟨hx0, hx1⟩, hy0, hy1⟩, rfl, rfl⟩
    · rintro ⟨px, py, hnot, ⟨⟨h0, h1⟩, h2, h3⟩, rfl, rfl⟩
      exact ⟨py, h2, h3, px, h0, h1, not_not.mp fun hno => hnot (inContent_iff.mpr hno), rfl, rfl⟩

end Layers

/-! ### The window -/

/-- A step of the drawing that stays in the buffer and draws no shadow. -/
structure Plain (W H : Int) (f : Buffer → Buffer) : Prop where
  inside : ∀ b a, ¬ (0 ≤ a ∧ a < W * H) → f b a = b a
  plain : ∀ b a, (b a).isShadow = false → (f b a).isShadow = false

namespace Plain

variable {W H : Int} {f g : Buffer → Buffer}

theorem of_draws {R : Int → Pixel → Prop} (h : Draws R f)
    (hR : ∀ a v, R a v → (0 ≤ a ∧ a < W * H) ∧ v.isShadow = false) : Plain W H f where
  inside b a ha := h.kept b a fun v hv => ha (hR a v hv).1
  plain _ _ hb := h.of_forall (fun i v hv => (hR i v hv).2) hb

theorem comp (hf : Plain W H f) (hg : Plain W H g) : Plain W H (fun b => f (g b)) where
  inside b a ha := (hf.inside _ a ha).trans (hg.inside b a ha)
  plain b a hb := hf.plain _ a (hg.plain b a hb)

end Plain

/-- The title bar without its buttons. -/
def titleBar (font : Font) (w h : Int) (title : Text) (s : Int) (buf : Buffer) : Buffer :=
  let W := w + 2 * SHADOW
  let H := h + 2 * SHADOW
  let buf := fillRectC W W H SHADOW SHADOW w (24 * s) 0x00FFFFFF buf
  let buf := fillRectC W W H SHADOW SHADOW w (2 * s) 0x00404040 buf
  let buf := fillRectC W W H SHADOW SHADOW (2 * s) (24 * s) 0x00404040 buf
  let buf := fillRectC W W H (SHADOW + w - 2 * s) SHADOW (2 * s) (24 * s) 0x00404040 buf
  putStrCs font W W H (5 * s + SHADOW) (4 * s + SHADOW) title 0x00000000 s buf

section Window

variable {w h s : Int} (font : Font) (title : Text)

theorem drawWinShadow_eq (buf : Buffer) : drawWinShadow font w h title s buf =
    shadowBand w h (minButton w h s (closeButton w h s (titleBar font w h title s
      (fillRectC (w + 2 * SHADOW) (w + 2 * SHADOW) (h + 2 * SHADOW) SHADOW SHADOW w h 0x00C0C0C0
        buf)))) := rfl

theorem plain_fillRectC {W H : Int} (t : Target W W H) (x y w h : Int) {color : Pixel}
    (hcolor : color.isShadow = false) : Plain W H (fillRectC W W H x y w h color) := by
  refine .of_draws (fillRectC_draws t x y w h color) ?_
  rintro a v ⟨rfl, px, py, hc, rfl⟩
  exact ⟨index_in ⟨hc.px_nonneg, hc.px_lt⟩ ⟨hc.py_nonneg, hc.py_lt⟩, hcolor⟩

theorem plain_putStrCs {W H : Int} (t : Target W W H) (x y : Int) (text : Text) {color : Pixel}
    (hcolor : color.isShadow = false) (hs : 1 ≤ s) :
    Plain W H (putStrCs font W W H x y text color s) := by
  refine .of_draws (putStrCs_draws hs text x) ?_
  rintro a v ⟨rfl, px, py, ⟨hx, hy⟩, -, rfl⟩
  rw [pixelIndex, t.row hy.1 hy.2]
  exact ⟨index_in hx hy, hcolor⟩

section Sized

variable (hs : 1 ≤ s) (hw : 37 * s ≤ w) (hh : 24 * s ≤ h)
  (hsize : (w + 2 * SHADOW) * (h + 2 * SHADOW) ≤ 2147483648)

include hs hw hh hsize in
theorem winTarget : Target (w + 2 * SHADOW) (w + 2 * SHADOW) (h + 2 * SHADOW) := by
  have hshadow : 0 ≤ SHADOW := by decide
  exact ⟨by omega, le_refl _, by omega, by omega⟩

include hsize in
theorem plain_winButton {left : Int} {color : Int → Int → Pixel}
    (hcolor : ∀ x y, (color x y).isShadow = false) :
    Plain (w + 2 * SHADOW) (h + 2 * SHADOW) (winButton w h s left color) := by
  refine .of_draws (winButton_draws (by omega)) ?_
  rintro a v ⟨px, py, -, ⟨hx, hy⟩, rfl, rfl⟩
  have hin := index_in hx hy
  rw [i32_of_lt hin.1 (by omega)]
  exact ⟨hin, hcolor _ _⟩

theorem closeColor_plain (x y : Int) : (closeColor s x y).isShadow = false := by
  unfold closeColor
  split <;> decide

theorem minColor_plain (x y : Int) : (minColor s x y).isShadow = false := by
  unfold minColor
  split <;> decide

include hs hw hh hsize in
theorem plain_titleBar : Plain (w + 2 * SHADOW) (h + 2 * SHADOW) (titleBar font w h title s) := by
  have t := winTarget hs hw hh hsize
  have hfill := fun x y a b => @plain_fillRectC _ _ t x y a b 0x00404040 (by decide)
  exact (plain_putStrCs font t _ _ title (by decide) hs).comp ((hfill _ _ _ _).comp
    ((hfill _ _ _ _).comp ((hfill _ _ _ _).comp (plain_fillRectC t _ _ _ _ (by decide)))))

/-- `pix & 0xFF`: how much a shadow pixel darkens what is below it. -/
def Pixel.depth (p : Pixel) : Nat := p.blue.toNat

/-- How many steps a pixel is away from the content, diagonal steps included. -/
def contentDistance (w h px py : Int) : Int := max (outside w px) (outside h py)

theorem contentDistance_le_iff {n px py : Int} (hn : 0 ≤ n) (hw : 0 < w) (hh : 0 < h) :
    contentDistance w h px py ≤ n ↔ ∃ qx qy, InContent w h qx qy ∧
      (px - qx ≤ n ∧ qx - px ≤ n) ∧ py - qy ≤ n ∧ qy - py ≤ n := by
  have haxis : ∀ {size p : Int}, 0 < size → (outside size p ≤ n ↔
      ∃ q, (SHADOW ≤ q ∧ q < SHADOW + size) ∧ p - q ≤ n ∧ q - p ≤ n) := by
    intro size p hsize
    unfold outside
    constructor
    · intro hle
      refine ⟨max SHADOW (min p (SHADOW + size - 1)), ?_⟩
      split_ifs at hle <;> omega
    · rintro ⟨q, hq⟩
      split_ifs <;> omega
  unfold contentDistance InContent
  rw [max_le_iff, haxis hw, haxis hh]
  constructor
  · rintro ⟨⟨qx, h1, h2⟩, qy, h3, h4⟩
    exact ⟨qx, qy, ⟨h1, h3⟩, h2, h4⟩
  · rintro ⟨qx, qy, ⟨h1, h3⟩, h2, h4⟩
    exact ⟨⟨qx, h1, h2⟩, qy, h3, h4⟩

/-- In the band of a window the marker is set, and the depth falls by one with each step. -/
theorem shadowPixel_right {px py : Int}
    (hvis : Visible (w + 2 * SHADOW) (h + 2 * SHADOW) px py) :
    (shadowPixel (outside w px) (outside h py)).isShadow = true ∧
      ((shadowPixel (outside w px) (outside h py)).depth : Int) =
        SHADOW + 3 - contentDistance w h px py := by
  have hbytes : ∀ n < 20, (0xFF000000 ||| BitVec.ofInt 32 (n : Nat) : Pixel).isShadow = true ∧
      (0xFF000000 ||| BitVec.ofInt 32 (n : Nat) : Pixel).depth = n := by decide
  have hshadow : SHADOW = 16 := rfl
  unfold Visible at hvis
  have hx : 0 ≤ outside w px ∧ outside w px ≤ SHADOW := by
    unfold outside
    split_ifs <;> omega
  have hy : 0 ≤ outside h py ∧ outside h py ≤ SHADOW := by
    unfold outside
    split_ifs <;> omega
  have hval : shadowPixel (outside w px) (outside h py) = 0xFF000000 |||
      BitVec.ofInt 32 ((SHADOW + 3 - contentDistance w h px py).toNat : Nat) := by
    unfold shadowPixel contentDistance
    dsimp only
    congr 2
    split_ifs <;> omega
  have hlt : (SHADOW + 3 - contentDistance w h px py).toNat < 20 := by
    unfold contentDistance
    omega
  obtain ⟨hmark, hdepth⟩ := hbytes _ hlt
  rw [hval, hdepth]
  refine ⟨hmark, ?_⟩
  unfold contentDistance
  omega

/-- The tests of `isr2c_handler` for the buttons, in terms of the window. -/
theorem inButton_iff {sht : Sheet} (hsht : sht.bxsize = w + 2 * SHADOW) (px py : Int) :
    (inClose sht px py = true ↔ OnWinButton w UI_SCALE 21 px py) ∧
      (inMin sht px py = true ↔ OnWinButton w UI_SCALE 37 px py) := by
  have hshadow : SHADOW = 16 := rfl
  have hscale : UI_SCALE = 2 := rfl
  unfold inClose inMin onButton OnWinButton
  simp only [Bool.and_eq_true, decide_eq_true_eq]
  omega

include hw hh in
theorem inContent_of_button {left px py : Int} (hleft : left = 21 ∨ left = 37)
    (hon : OnWinButton w s left px py) : InContent w h px py := by
  unfold OnWinButton at hon
  unfold InContent
  rcases hleft with rfl | rfl <;> omega

theorem visible_of_inContent {px py : Int} (hin : InContent w h px py) :
    Visible (w + 2 * SHADOW) (h + 2 * SHADOW) px py := by
  have hshadow : SHADOW = 16 := rfl
  unfold InContent at hin
  unfold Visible
  omega

include hsize in
theorem i32_index {px py : Int} (hvis : Visible (w + 2 * SHADOW) (h + 2 * SHADOW) px py) :
    i32 (py * (w + 2 * SHADOW) + px) = py * (w + 2 * SHADOW) + px := by
  have hin := index_in hvis.1 hvis.2
  exact i32_of_lt hin.1 (by omega)

include hsize in
theorem drawWinShadow_band (buf : Buffer) {px py : Int}
    (hvis : Visible (w + 2 * SHADOW) (h + 2 * SHADOW) px py) (hnot : ¬ InContent w h px py) :
    drawWinShadow font w h title s buf (py * (w + 2 * SHADOW) + px) =
      shadowPixel (outside w px) (outside h py) := by
  rw [drawWinShadow_eq]
  exact (shadowBand_draws (by omega)).written _ _ _
    ⟨px, py, hnot, hvis, (i32_index hsize hvis).symm, rfl⟩

include hsize in
theorem drawWinShadow_content (buf : Buffer) {px py : Int} (hin : InContent w h px py) :
    drawWinShadow font w h title s buf (py * (w + 2 * SHADOW) + px) =
      minButton w h s (closeButton w h s (titleBar font w h title s
        (fillRectC (w + 2 * SHADOW) (w + 2 * SHADOW) (h + 2 * SHADOW) SHADOW SHADOW w h 0x00C0C0C0
          buf))) (py * (w + 2 * SHADOW) + px) := by
  rw [drawWinShadow_eq]
  refine (shadowBand_draws (by omega)).kept _ _ fun v hv => ?_
  obtain ⟨qx, qy, hnot, hvis, heq, -⟩ := hv
  rw [i32_index hsize hvis] at heq
  obtain ⟨rfl, rfl⟩ := index_inj (le_refl _) (visible_of_inContent hin).1 hvis.1 heq
  exact hnot hin

include hs hw hh hsize in
/-- Nothing before the shadow leaves the buffer or draws a shadow pixel. -/
theorem plain_window : Plain (w + 2 * SHADOW) (h + 2 * SHADOW)
    (fun buf => minButton w h s (closeButton w h s (titleBar font w h title s buf))) :=
  Plain.comp (f := minButton w h s) (plain_winButton hsize minColor_plain)
    (Plain.comp (f := closeButton w h s) (plain_winButton hsize closeColor_plain)
      (plain_titleBar font title hs hw hh hsize))

include hs hw hh hsize in
theorem drawWinShadow_outside (buf : Buffer) {a : Int}
    (ha : ¬ (0 ≤ a ∧ a < (w + 2 * SHADOW) * (h + 2 * SHADOW))) :
    drawWinShadow font w h title s buf a = buf a := by
  have t := winTarget hs hw hh hsize
  rw [drawWinShadow_eq, (shadowBand_draws (by omega)).kept _ _ fun v hv => ?_]
  · rw [(plain_window font title hs hw hh hsize).inside _ a ha]
    exact (plain_fillRectC t _ _ _ _ (by decide)).inside buf a ha
  · obtain ⟨px, py, -, hvis, rfl, -⟩ := hv
    rw [i32_index hsize hvis] at ha
    exact ha (index_in hvis.1 hvis.2)

include hs hw hh hsize in
theorem drawWinShadow_marker (buf : Buffer) {px py : Int}
    (hvis : Visible (w + 2 * SHADOW) (h + 2 * SHADOW) px py) :
    (drawWinShadow font w h title s buf (py * (w + 2 * SHADOW) + px)).isShadow = true ↔
      ¬ InContent w h px py := by
  by_cases hin : InContent w h px py
  · refine iff_of_false ?_ (not_not.mpr hin)
    have hfill := (fillRectC_draws (winTarget hs hw hh hsize) SHADOW SHADOW w h 0x00C0C0C0).written
      buf _ _ ⟨rfl, px, py, ⟨hvis.1.1, hvis.1.2, hvis.2.1, hvis.2.2, hin.1.1, hin.1.2, hin.2.1,
        hin.2.2⟩, rfl⟩
    rw [drawWinShadow_content font title hsize buf hin, Bool.not_eq_true]
    refine (plain_window font title hs hw hh hsize).plain _ _ ?_
    rw [hfill]
    rfl
  · refine iff_of_true ?_ hin
    rw [drawWinShadow_band font title hsize buf hvis hin]
    exact (shadowPixel_right hvis).1

include hw hh hsize in
/-- The two buttons do not meet, and nothing is drawn over them. -/
theorem drawWinShadow_buttons (buf : Buffer) {px py : Int} :
    (OnWinButton w s 21 px py → drawWinShadow font w h title s buf (py * (w + 2 * SHADOW) + px) =
      closeColor s (px - (w - 21 * s + SHADOW)) (py - (5 * s + SHADOW))) ∧
    (OnWinButton w s 37 px py → drawWinShadow font w h title s buf (py * (w + 2 * SHADOW) + px) =
      minColor s (px - (w - 37 * s + SHADOW)) (py - (5 * s + SHADOW))) := by
  refine ⟨fun hon => ?_, fun hon => ?_⟩
  · have hin := inContent_of_button hw hh (.inl rfl) hon
    have hvis := visible_of_inContent hin
    rw [drawWinShadow_content font title hsize buf hin]
    refine ((winButton_draws (by omega)).kept _ _ fun v hv => ?_).trans ?_
    · obtain ⟨qx, qy, hmin, hq, heq, -⟩ := hv
      rw [i32_index hsize hq] at heq
      obtain ⟨rfl, rfl⟩ := index_inj (le_refl _) hvis.1 hq.1 heq
      have h1 := hon.1.1
      have h2 := hmin.1.2
      omega
    · exact (winButton_draws (by omega)).written _ _ _
        ⟨px, py, hon, hvis, (i32_index hsize hvis).symm, rfl⟩
  · have hin := inContent_of_button hw hh (.inr rfl) hon
    have hvis := visible_of_inContent hin
    rw [drawWinShadow_content font title hsize buf hin]
    exact (winButton_draws (by omega)).written _ _ _
      ⟨px, py, hon, hvis, (i32_index hsize hvis).symm, rfl⟩

include hw hh hsize in
/-- A button is drawn on its rectangle and nowhere else. -/
theorem winButton_exact {left : Int} (hleft : left = 21 ∨ left = 37)
    (color : Int → Int → Pixel) {P : Int → Int → Prop}
    (hP : ∀ px py, P px py ↔ OnWinButton w s left px py) :
    Draws (fun a v => ∃ px py, P px py ∧ a = py * (w + 2 * SHADOW) + px ∧
        v = color (px - (w - left * s + SHADOW)) (py - (5 * s + SHADOW)))
      (winButton w h s left color) := by
  refine (winButton_draws (by omega)).congr fun a v => ⟨?_, ?_⟩
  · rintro ⟨px, py, hon, hvis, rfl, rfl⟩
    exact ⟨px, py, (hP px py).mpr hon, i32_index hsize hvis, rfl⟩
  · rintro ⟨px, py, hon, rfl, rfl⟩
    replace hon := (hP px py).mp hon
    have hvis := visible_of_inContent (inContent_of_button hw hh hleft hon)
    exact ⟨px, py, hon, hvis, (i32_index hsize hvis).symm, rfl⟩

include hs hw hh hsize in
/-- The window is drawn into its buffer, the shadow exactly around the content, and the buttons
where the handler looks for them. -/
theorem drawWinShadow_right (buf : Buffer) :
    (∀ a, ¬ (0 ≤ a ∧ a < (w + 2 * SHADOW) * (h + 2 * SHADOW)) →
      drawWinShadow font w h title s buf a = buf a) ∧
    (∀ px py, Visible (w + 2 * SHADOW) (h + 2 * SHADOW) px py →
      ((drawWinShadow font w h title s buf (py * (w + 2 * SHADOW) + px)).isShadow = true ↔
        ¬ InContent w h px py)) ∧
    (∀ px py qx qy, Visible (w + 2 * SHADOW) (h + 2 * SHADOW) px py →
      Visible (w + 2 * SHADOW) (h + 2 * SHADOW) qx qy → ¬ InContent w h px py →
      ¬ InContent w h qx qy → contentDistance w h px py ≤ contentDistance w h qx qy →
      (drawWinShadow font w h title s buf (qy * (w + 2 * SHADOW) + qx)).depth ≤
        (drawWinShadow font w h title s buf (py * (w + 2 * SHADOW) + px)).depth) ∧
    (s = UI_SCALE → ∀ sht : Sheet, sht.bxsize = w + 2 * SHADOW →
      Draws (fun a v => ∃ px py, inClose sht px py = true ∧ a = py * (w + 2 * SHADOW) + px ∧
          v = closeColor s (px - (w - 21 * s + SHADOW)) (py - (5 * s + SHADOW)))
        (closeButton w h s) ∧
      Draws (fun a v => ∃ px py, inMin sht px py = true ∧ a = py * (w + 2 * SHADOW) + px ∧
          v = minColor s (px - (w - 37 * s + SHADOW)) (py - (5 * s + SHADOW)))
        (minButton w h s) ∧
      (∀ px py, inClose sht px py = true →
        drawWinShadow font w h title s buf (py * (w + 2 * SHADOW) + px) =
          closeColor s (px - (w - 21 * s + SHADOW)) (py - (5 * s + SHADOW))) ∧
      (∀ px py, inMin sht px py = true →
        drawWinShadow font w h title s buf (py * (w + 2 * SHADOW) + px) =
          minColor s (px - (w - 37 * s + SHADOW)) (py - (5 * s + SHADOW))) ∧
      ∀ px py, ¬ (inClose sht px py = true ∧ inMin sht px py = true)) := by
  refine ⟨fun a => drawWinShadow_outside font title hs hw hh hsize buf,
    fun px py => drawWinShadow_marker font title hs hw hh hsize buf,
    fun px py qx qy hp hq hpn hqn hle => ?_, ?_⟩
  · rw [drawWinShadow_band font title hsize buf hp hpn,
      drawWinShadow_band font title hsize buf hq hqn]
    have h1 := (shadowPixel_right hp).2
    have h2 := (shadowPixel_right hq).2
    omega
  · rintro rfl sht hsht
    have hbutton := inButton_iff hsht
    refine ⟨winButton_exact hw hh hsize (.inl rfl) _ fun px py => (hbutton px py).1,
      winButton_exact hw hh hsize (.inr rfl) _ fun px py => (hbutton px py).2,
      fun px py hon => ?_, fun px py hon => ?_, fun px py hboth => ?_⟩
    · exact (drawWinShadow_buttons font title hw hh hsize buf).1 ((hbutton px py).1.mp hon)
    · exact (drawWinShadow_buttons font title hw hh hsize buf).2 ((hbutton px py).2.mp hon)
    · have h1 := ((hbutton px py).1.mp hboth.1).1.1
      have h2 := ((hbutton px py).2.mp hboth.2).1.2
      omega

end Sized

end Window

/-- The window of the start-up: the middle of its close button is white. -/
theorem drawWinShadow_right_start :
    (drawWinShadow (fun _ _ => 0) 400 240 titleWin 2 (fun _ => 0) (40 * 432 + 390)).isShadow = false ∧
      drawWinShadow (fun _ _ => 0) 400 240 titleWin 2 (fun _ => 0) (40 * 432 + 390) =
        closeColor 2 16 14 := by
  obtain ⟨-, hmark, -, hbuttons⟩ := drawWinShadow_right (fun _ _ => 0) titleWin
    (by decide : (1 : Int) ≤ 2) (by decide : 37 * 2 ≤ (400 : Int)) (by decide : 24 * 2 ≤ (240 : Int))
    (by decide) fun _ => 0
  have hin : InContent 400 240 390 40 := by
    unfold InContent
    decide
  refine ⟨?_, ?_⟩
  · have hiff := hmark 390 40 (visible_of_inContent hin)
    exact Bool.eq_false_iff.mpr fun hshadow => hiff.mp hshadow hin
  · exact (hbuttons rfl ⟨fun _ => 0, 432, 272, 0, 0, 0, 0, 0⟩ rfl).2.2.1 390 40 (by decide)

/-- A buffer of 50032×50032 pixels: the `int` index of the last pixel is negative. -/
theorem drawWinShadow_leaves_buffer : ∃ a,
    ¬ (0 ≤ a ∧ a < (50000 + 2 * SHADOW) * (50000 + 2 * SHADOW)) ∧
    drawWinShadow (fun _ _ => 0) 50000 50000 [] 1 (fun _ => 0) a ≠ 0 := by
  have hnot : ¬ InContent 50000 50000 50031 50031 := by
    unfold InContent
    decide
  have hvis : Visible (50000 + 2 * SHADOW) (50000 + 2 * SHADOW) 50031 50031 := by
    unfold Visible
    decide
  refine ⟨i32 (50031 * (50000 + 2 * SHADOW) + 50031), by decide, ?_⟩
  rw [drawWinShadow_eq, (shadowBand_draws (by decide)).written _ _ _
    ⟨50031, 50031, hnot, hvis, rfl, rfl⟩]
  decide

end WinDOS
