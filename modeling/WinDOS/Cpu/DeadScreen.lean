import WinDOS.Cpu.Exceptions
import WinDOS.Draw.Blit

/-!
# The dead screen (`security/dead_screen.h`)

`ds` draws only with a framebuffer and a geometry that it finds plausible, since a crash may have
destroyed them. The background is filled with clipping, the two texts are drawn without it.
-/

set_option autoImplicit false

namespace WinDOS

open Loop Drawing

/-- `put_char`, which does not clip. -/
def putChar (font : Font) (stride x y : Int) (c : BitVec 8) (color : Pixel) (fb : Buffer) :
    Buffer :=
  forUp 0 16 (fun dy fb =>
    let bits := font c dy
    forUp 0 8 (fun dx fb =>
      if bits &&& (0x80#8 >>> dx.toNat) ≠ 0 then
        Function.update fb (u32 ((y + dy) * stride + x + dx)) color
      else fb) fb) fb

def putStr (font : Font) (stride : Int) : Int → Int → Text → Pixel → Buffer → Buffer
  | _, _, [], _, fb => fb
  | x, y, c :: s, color, fb =>
    putStr font stride (x + 8) y s color (putChar font stride x y c color fb)

/-- `g_fb`, `g_stride`, `disp_w()` and `disp_h()`, whatever they hold. -/
structure Display where
  fb : BitVec 64
  st : BitVec 32
  w : BitVec 32
  h : BitVec 32

namespace Display

def stride (d : Display) : Int := d.st.toNat
def width (d : Display) : Int := d.w.toNat
def height (d : Display) : Int := d.h.toNat

/-- `fb_ok`. -/
def ok (d : Display) : Bool :=
  (d.fb >>> 47 = 0 ∨ d.fb >>> 47 = 0x1FFFF) ∧ d.fb &&& 3 = 0 ∧ 0 < d.w ∧ d.w ≤ 8192 ∧
    0 < d.h ∧ d.h ≤ 8192 ∧ d.w ≤ d.st ∧ d.st ≤ 8192

end Display

def dsTitle : Text := ascii "Your device ran into a problem and needs to restart."

/-- `sprintf(buf, "Stop code: %s", Error)`. -/
def dsStop (error : Text) : Text := ksprintf (ascii "Stop code: %s") [.str error]

def dsDraw (font : Font) (d : Display) (error : Text) (fb : Buffer) : Buffer :=
  let fb := fillRectC d.stride d.width d.height 0 0 d.width d.height 0x00000000 fb
  let fb := putStr font d.stride (i32 (d.width / 2 - 40 - 170)) (i32 (d.height / 2)) dsTitle
    0x00FFFFFF fb
  putStr font d.stride (i32 (d.width / 2 - 130)) (i32 (d.height - 20)) (dsStop error) 0x00FFFFFF fb

/-- `entered` and the memory from `g_fb` on, and what goes to `out_file_str`. Behind its loop of
`hlt` no call of `ds` goes on; the next one comes from an exception. -/
def ds (font : Font) (d : Display) (error : Text) (entered : Bool) (fb : Buffer) :
    Bool × Buffer × List Text :=
  let detected := ascii "[KERNEL/CRITICAL/INFO]BSOD DETECTED"
  if entered then (true, fb, [detected])
  else if d.ok then
    (true, dsDraw font d error fb, [detected, ascii "[KERNEL/CRITICAL/INFO]BSOD DREW"])
  else (true, fb, [detected,
    ascii "[KERNEL/CRITICAL/INFO]BSOD SKIPPED (display state unusable)"])

/-! ### What the texts write -/

/-- The words of a text at `x` and `y`. -/
def TextWord (font : Font) (stride x y : Int) (s : Text) (a : Int) : Prop :=
  ∃ (k : Nat) (c : BitVec 8) (dy dx : Int), s[k]? = some c ∧ (0 ≤ dy ∧ dy < 16) ∧
    (0 ≤ dx ∧ dx < 8) ∧ font c dy &&& (0x80#8 >>> dx.toNat) ≠ 0 ∧
      a = u32 ((y + dy) * stride + (x + 8 * k) + dx)

theorem putChar_draws (font : Font) (stride x y : Int) (c : BitVec 8) (color : Pixel) :
    Draws (fun a v => v = color ∧ TextWord font stride x y [c] a)
      (putChar font stride x y c color) := by
  unfold putChar
  refine (Draws.forUp (fun dy _ _ => Draws.forUp (fun dx _ _ => Draws.ite _ fun _ =>
    Draws.update _ color) ?_) ?_).congr fun a v => ?_
  · rintro k l a v w - - - - ⟨-, -, rfl⟩ ⟨-, -, rfl⟩
    rfl
  · rintro k l a v w - - - - ⟨-, -, -, -, -, rfl⟩ ⟨-, -, -, -, -, rfl⟩
    rfl
  · constructor
    · rintro ⟨dy, hy0, hy1, dx, hx0, hx1, hbit, rfl, rfl⟩
      refine ⟨rfl, 0, c, dy, dx, rfl, ⟨hy0, hy1⟩, ⟨hx0, hx1⟩, hbit, ?_⟩
      rw [Int.natCast_zero, Int.mul_zero, Int.add_zero]
    · rintro ⟨rfl, k, c', dy, dx, hc, ⟨hy0, hy1⟩, ⟨hx0, hx1⟩, hbit, rfl⟩
      obtain ⟨hk, hc'⟩ := List.getElem?_eq_some_iff.mp hc
      obtain rfl : k = 0 := by simpa using hk
      obtain rfl : c = c' := hc'
      refine ⟨dy, hy0, hy1, dx, hx0, hx1, hbit, ?_, rfl⟩
      rw [Int.natCast_zero, Int.mul_zero, Int.add_zero]

theorem textWord_cons (font : Font) (stride x y : Int) (c : BitVec 8) (s : Text) (a : Int) :
    TextWord font stride x y (c :: s) a ↔
      TextWord font stride (x + 8) y s a ∨ TextWord font stride x y [c] a := by
  have hnext : ∀ k : Nat, x + 8 + 8 * (k : Int) = x + 8 * ((k + 1 : Nat) : Int) := by
    intro k
    omega
  constructor
  · rintro ⟨k, c', dy, dx, hc, hdy, hdx, hbit, rfl⟩
    cases k with
    | zero => exact .inr ⟨0, c', dy, dx, hc, hdy, hdx, hbit, rfl⟩
    | succ k => exact .inl ⟨k, c', dy, dx, hc, hdy, hdx, hbit, by rw [hnext]⟩
  · rintro (⟨k, c', dy, dx, hc, hdy, hdx, hbit, rfl⟩ | ⟨k, c', dy, dx, hc, hdy, hdx, hbit, rfl⟩)
    · exact ⟨k + 1, c', dy, dx, hc, hdy, hdx, hbit, by rw [hnext]⟩
    · obtain ⟨hk, -⟩ := List.getElem?_eq_some_iff.mp hc
      obtain rfl : k = 0 := by simpa using hk
      exact ⟨0, c', dy, dx, hc, hdy, hdx, hbit, rfl⟩

theorem putStr_draws (font : Font) (stride y : Int) (s : Text) (color : Pixel) (x : Int) :
    Draws (fun a v => v = color ∧ TextWord font stride x y s a)
      (putStr font stride x y s color) := by
  induction s generalizing x with
  | nil =>
    refine Draws.nothing.congr fun a v => ⟨False.elim, ?_⟩
    rintro ⟨-, k, c, dy, dx, hc, -⟩
    cases hc
  | cons c s ih =>
    refine ((ih (x + 8)).union (putChar_draws font stride x y c color) ?_).congr fun a v => ?_
    · rintro a v w ⟨rfl, -⟩ ⟨rfl, -⟩
      rfl
    · rw [textWord_cons font stride x y c s]
      exact and_or_left.symm

/-! ### Where they may lie -/

/-- The text lies in the first `n` words. -/
structure TextInside (stride n x y : Int) (len : Nat) : Prop where
  first : 0 ≤ y * stride + x
  last : (y + 15) * stride + x + 8 * len ≤ n

/-- Every glyph is a full block. -/
def fullFont : Font := fun _ _ => 0xFF

theorem fullFont_bit (c : BitVec 8) {dy dx : Int} (h0 : 0 ≤ dx) (h1 : dx < 8) :
    fullFont c dy &&& (0x80#8 >>> dx.toNat) ≠ 0 := by
  have hall : ∀ k < 8, (0xFF#8) &&& (0x80#8 >>> k) ≠ 0 := by decide
  exact hall dx.toNat (by omega)

/-- No index of the text wraps by more than its sign. -/
structure TextSmall (stride n x y : Int) (len : Nat) : Prop where
  nonneg : 0 ≤ stride
  first : -2 ^ 31 ≤ y * stride + x
  last : (y + 15) * stride + x + 8 * len < 2 ^ 31
  words : n ≤ 2 ^ 31

theorem u32_inside {i n : Int} (h0 : -2 ^ 31 ≤ i) (h1 : i < 2 ^ 31) (hn : n ≤ 2 ^ 31) :
    u32 i < n ↔ 0 ≤ i ∧ i < n := by
  unfold u32
  omega

/-- The indices lie between the first and the last. -/
theorem index_between {stride x y dy dx : Int} {k len : Nat} (hstride : 0 ≤ stride)
    (hdy : 0 ≤ dy ∧ dy < 16) (hdx : 0 ≤ dx ∧ dx < 8) (hk : k < len) :
    y * stride + x ≤ (y + dy) * stride + (x + 8 * k) + dx ∧
      (y + dy) * stride + (x + 8 * k) + dx < (y + 15) * stride + x + 8 * len := by
  have hlow : y * stride ≤ (y + dy) * stride :=
    Int.mul_le_mul_of_nonneg_right (by omega) hstride
  have hhigh : (y + dy) * stride ≤ (y + 15) * stride :=
    Int.mul_le_mul_of_nonneg_right (by omega) hstride
  omega

/-- A text of full blocks stays inside exactly if its first and its last pixel do; then every other
text of that length does. -/
theorem textWords_inside {stride n x y : Int} {s : Text} (h : TextSmall stride n x y s.length)
    (hs : s ≠ []) :
    (∀ font a, TextWord font stride x y s a → a < n) ↔ TextInside stride n x y s.length := by
  have hlen := List.length_pos_of_ne_nil hs
  have hfirst := h.first
  have hlast := h.last
  have hwords := h.words
  have hsmall : ∀ {k : Nat} {dy dx : Int}, 0 ≤ dy ∧ dy < 16 → 0 ≤ dx ∧ dx < 8 → k < s.length →
      (u32 ((y + dy) * stride + (x + 8 * k) + dx) < n ↔
        0 ≤ (y + dy) * stride + (x + 8 * k) + dx ∧ (y + dy) * stride + (x + 8 * k) + dx < n) := by
    intro k dy dx hdy hdx hk
    obtain ⟨hlow, hhigh⟩ := @index_between stride x y dy dx k s.length h.nonneg hdy hdx hk
    exact u32_inside (by omega) (by omega) hwords
  constructor
  · intro hall
    have hword : ∀ {k : Nat} {dy dx : Int}, 0 ≤ dy ∧ dy < 16 → 0 ≤ dx ∧ dx < 8 → k < s.length →
        0 ≤ (y + dy) * stride + (x + 8 * k) + dx ∧ (y + dy) * stride + (x + 8 * k) + dx < n := by
      intro k dy dx hdy hdx hk
      exact (hsmall hdy hdx hk).mp (hall fullFont _ ⟨k, s[k], dy, dx, List.getElem?_eq_getElem hk,
        hdy, hdx, fullFont_bit _ hdx.1 hdx.2, rfl⟩)
    have h0 := @hword 0 0 0 (by decide) (by decide) hlen
    have h1 := @hword (s.length - 1) 15 7 (by decide) (by decide) (by omega)
    simp only [Int.add_zero] at h0
    exact ⟨by omega, by omega⟩
  · rintro ⟨hin0, hin1⟩ font a ⟨k, c, dy, dx, hc, hdy, hdx, -, rfl⟩
    obtain ⟨hk, -⟩ := List.getElem?_eq_some_iff.mp hc
    obtain ⟨hlow, hhigh⟩ := @index_between stride x y dy dx k s.length h.nonneg hdy hdx hk
    exact (hsmall hdy hdx hk).mpr ⟨by omega, by omega⟩

/-! ### The screen -/

/-- Nothing outside the first `n` words is written. -/
def Stays (n : Int) (draw : Buffer → Buffer) : Prop :=
  ∀ fb a, ¬ (0 ≤ a ∧ a < n) → draw fb a = fb a

theorem stays_of_draws {n : Int} {W : Int → Pixel → Prop} {draw : Buffer → Buffer}
    (h : Draws W draw) (hin : ∀ a v, W a v → 0 ≤ a ∧ a < n) : Stays n draw :=
  fun fb a hout => h.kept fb a fun v hv => hout (hin a v hv)

theorem textWord_nonneg {font : Font} {stride x y a : Int} {s : Text}
    (h : TextWord font stride x y s a) : 0 ≤ a := by
  obtain ⟨k, c, dy, dx, -, -, -, -, rfl⟩ := h
  exact Int.emod_nonneg _ (by decide)

namespace Display

/-- What `fb_ok` checks of the geometry. -/
structure Plausible (d : Display) : Prop where
  width : 0 < d.width
  width_le : d.width ≤ d.stride
  stride_le : d.stride ≤ 8192
  height : 0 < d.height
  height_le : d.height ≤ 8192

theorem plausible_of_ok {d : Display} (h : d.ok = true) : d.Plausible := by
  unfold ok at h
  simp only [Bool.decide_and, Bool.and_eq_true, decide_eq_true_eq] at h
  obtain ⟨-, -, hw0, -, hh0, hh1, hst0, hst1⟩ := h
  have hw : 0 < d.w.toNat := BitVec.lt_def.mp hw0
  have hle : d.w.toNat ≤ d.st.toNat := BitVec.le_def.mp hst0
  have hst : d.st.toNat ≤ 8192 := BitVec.le_def.mp hst1
  have hh : 0 < d.h.toNat := BitVec.lt_def.mp hh0
  have hhle : d.h.toNat ≤ 8192 := BitVec.le_def.mp hh1
  exact ⟨Int.natCast_pos.mpr hw, Int.ofNat_le.mpr hle, Int.ofNat_le.mpr hst,
    Int.natCast_pos.mpr hh, Int.ofNat_le.mpr hhle⟩

/-- The words of the framebuffer. -/
def words (d : Display) : Int := d.stride * d.height

end Display

theorem dsTitle_length : dsTitle.length = 52 := by decide

theorem dsStop_length (error : Text) : (dsStop error).length = 11 + (cstr error).length := by
  have hformat : ascii "Stop code: %s" = ascii "Stop code: " ++ 0x25 :: 0x73 :: [] := by decide
  unfold dsStop
  rw [hformat, ksprintf_plain (by decide), ksprintf_str, List.length_append, List.length_append]
  rfl

section Screen

variable {d : Display} (hd : d.Plausible) (error : Text)
include hd

theorem Display.Plausible.rows {y k : Int} (h0 : k ≤ y) (h1 : y ≤ 8207) (hk : k ≤ 0) :
    8192 * k ≤ y * d.stride ∧ y * d.stride ≤ 8192 * 8207 := by
  have hst := hd.stride_le
  have hst0 : 0 ≤ d.stride := (le_of_lt hd.width).trans hd.width_le
  have hlow : 8192 * k ≤ k * d.stride := by
    have := Int.mul_le_mul_of_nonpos_left hk hst
    omega
  have hhigh : y * d.stride ≤ 8207 * d.stride := Int.mul_le_mul_of_nonneg_right h1 hst0
  exact ⟨hlow.trans (Int.mul_le_mul_of_nonneg_right h0 hst0), by omega⟩

theorem Display.Plausible.target : Target d.stride d.width d.height := by
  have hw := hd.width
  have hh := hd.height
  have hhle := hd.height_le
  have hrows := hd.rows (y := d.height) (k := 0) (by omega) (by omega) (by decide)
  refine ⟨by omega, hd.width_le, by omega, ?_⟩
  rw [Int.mul_comm]
  omega

theorem dsFill_stays : Stays d.words
    (fillRectC d.stride d.width d.height 0 0 d.width d.height 0x00000000) := by
  refine stays_of_draws (fillRectC_draws hd.target _ _ _ _ _) ?_
  rintro a v ⟨-, px, py, hc, rfl⟩
  have hst0 : 0 ≤ d.stride := (le_of_lt hd.width).trans hd.width_le
  have hlow : 0 ≤ py * d.stride := Int.mul_nonneg hc.py_nonneg hst0
  have hnext : (py + 1) * d.stride ≤ d.height * d.stride :=
    Int.mul_le_mul_of_nonneg_right hc.py_lt hst0
  have hwle := hd.width_le
  have hpx := hc.px_lt
  have hpx0 := hc.px_nonneg
  rw [Int.add_mul, Int.one_mul] at hnext
  unfold Display.words
  rw [Int.mul_comm d.stride]
  omega

/-- The two texts, one over the other. -/
theorem dsTexts_draws (font : Font) : Draws (fun a v => v = 0x00FFFFFF ∧
    (TextWord font d.stride (d.width / 2 - 130) (d.height - 20) (dsStop error) a ∨
      TextWord font d.stride (d.width / 2 - 210) (d.height / 2) dsTitle a))
    (fun fb => putStr font d.stride (i32 (d.width / 2 - 130)) (i32 (d.height - 20)) (dsStop error)
      0x00FFFFFF (putStr font d.stride (i32 (d.width / 2 - 40 - 170)) (i32 (d.height / 2)) dsTitle
        0x00FFFFFF fb)) := by
  have hw := hd.width
  have hwle := hd.width_le
  have hst := hd.stride_le
  have hh := hd.height
  have hhle := hd.height_le
  have hx : i32 (d.width / 2 - 40 - 170) = d.width / 2 - 210 := by
    rw [i32_small (by omega) (by omega)]
    omega
  rw [hx, i32_small (by omega) (by omega), i32_small (by omega) (by omega),
    i32_small (by omega) (by omega)]
  refine ((putStr_draws font d.stride _ (dsStop error) _ _).union
    (putStr_draws font d.stride _ dsTitle _ _) ?_).congr fun a v => and_or_left.symm
  rintro a v w ⟨rfl, -⟩ ⟨rfl, -⟩
  rfl

theorem title_small : TextSmall d.stride d.words (d.width / 2 - 210) (d.height / 2)
    dsTitle.length := by
  have hw := hd.width
  have hwle := hd.width_le
  have hst := hd.stride_le
  have hh := hd.height
  have hhle := hd.height_le
  have hrow := hd.rows (y := d.height / 2) (k := 0) (by omega) (by omega) (by decide)
  have hlast := hd.rows (y := d.height / 2 + 15) (k := 0) (by omega) (by omega) (by decide)
  have hwords := hd.target.words
  have hlen := dsTitle_length
  refine ⟨by omega, by omega, by omega, ?_⟩
  unfold Display.words
  rw [Int.mul_comm]
  have hall := hd.rows (y := d.height) (k := 0) (by omega) (by omega) (by decide)
  omega

theorem stop_small (herror : (cstr error).length ≤ 148) :
    TextSmall d.stride d.words (d.width / 2 - 130) (d.height - 20) (dsStop error).length := by
  have hw := hd.width
  have hwle := hd.width_le
  have hst := hd.stride_le
  have hh := hd.height
  have hhle := hd.height_le
  have hrow := hd.rows (y := d.height - 20) (k := -20) (by omega) (by omega) (by decide)
  have hlast := hd.rows (y := d.height - 20 + 15) (k := -5) (by omega) (by omega) (by decide)
  have hall := hd.rows (y := d.height) (k := 0) (by omega) (by omega) (by decide)
  have hlen := dsStop_length error
  refine ⟨by omega, by omega, by omega, ?_⟩
  unfold Display.words
  rw [Int.mul_comm]
  omega

/-- The screen stays in the framebuffer with every font exactly if both texts do. -/
theorem dsDraw_stays (herror : (cstr error).length ≤ 148) :
    (∀ font, Stays d.words (dsDraw font d error)) ↔
      TextInside d.stride d.words (d.width / 2 - 210) (d.height / 2) dsTitle.length ∧
        TextInside d.stride d.words (d.width / 2 - 130) (d.height - 20)
          (dsStop error).length := by
  have htitle := textWords_inside (title_small hd) (by decide)
  have hne : dsStop error ≠ [] := by
    have hlen := dsStop_length error
    rintro h
    rw [h, List.length_nil] at hlen
    omega
  have hstop := textWords_inside (stop_small hd error herror) hne
  constructor
  · intro hstays
    -- a white word of the picture lies where the black buffer was changed
    have hword : ∀ font a, TextWord font d.stride (d.width / 2 - 130) (d.height - 20)
        (dsStop error) a ∨ TextWord font d.stride (d.width / 2 - 210) (d.height / 2) dsTitle a →
        a < d.words := by
      intro font a ha
      have hwhite : dsDraw font d error (fun _ => 0) a = 0x00FFFFFF :=
        (dsTexts_draws hd error font).written _ a _ ⟨rfl, ha⟩
      by_contra hout
      have hkept := hstays font (fun _ => 0) a fun hin => hout hin.2
      rw [hwhite] at hkept
      exact absurd hkept (by decide)
    exact ⟨htitle.mp fun font a h => hword font a (.inr h),
      hstop.mp fun font a h => hword font a (.inl h)⟩
  · rintro ⟨hin, hin'⟩ font fb a hout
    have htexts : Stays d.words _ := stays_of_draws (dsTexts_draws hd error font) (by
      rintro a v ⟨-, h | h⟩
      · exact ⟨textWord_nonneg h, hstop.mpr hin' font a h⟩
      · exact ⟨textWord_nonneg h, htitle.mpr hin font a h⟩)
    exact (htexts _ a hout).trans (dsFill_stays hd fb a hout)

end Screen

/-! ### The end of an exception -/

theorem ds_first (font : Font) (d : Display) (error : Text) (fb : Buffer) :
    (ds font d error false fb).1 = true ∧
      (ds font d error false fb).2.1 = if d.ok then dsDraw font d error fb else fb := by
  unfold ds
  cases d.ok with
  | false => exact ⟨rfl, rfl⟩
  | true => exact ⟨rfl, rfl⟩

/-- What `exc_handler` and `ds` find. -/
structure Crash where
  display : Display
  marker : BitVec 32
  cr2 : BitVec 64
  f : BitVec 64
  raw : Nat → BitVec 64

namespace Crash

variable (c : Crash)

def texts : List (Nat × Text) := (excHandler c.marker c.cr2 c.f c.raw).1

def error : Text := (excHandler c.marker c.cr2 c.f c.raw).2

/-- Exceptions, each in the handler of the one before; the flag and the memory from `g_fb` on. -/
def run (font : Font) (crashes : List Crash) (st : Bool × Buffer) : Bool × Buffer :=
  crashes.foldl (fun st c =>
    let r := ds font c.display c.error st.1 st.2
    (r.1, r.2.1)) st

theorem error_length : (cstr c.error).length ≤ 27 :=
  (cstr_length_le _).trans (excHandler_fits c.marker c.cr2 c.f c.raw).2

theorem run_entered (font : Font) (crashes : List Crash) (fb : Buffer) :
    run font crashes (true, fb) = (true, fb) := by
  induction crashes with
  | nil => rfl
  | cons c crashes ih => exact ih

/-- Only the first one draws. -/
theorem run_cons (font : Font) (crashes : List Crash) (fb : Buffer) :
    (run font (c :: crashes) (false, fb)).2 =
      if c.display.ok then dsDraw font c.display c.error fb else fb := by
  have hfirst : run font (c :: crashes) (false, fb) = run font crashes
      ((ds font c.display c.error false fb).1, (ds font c.display c.error false fb).2.1) := rfl
  obtain ⟨hflag, hfb⟩ := ds_first font c.display c.error fb
  rw [hfirst, hflag, hfb, run_entered]

end Crash

theorem texts_inside {d : Display} (hd : d.Plausible) (hw : 412 ≤ d.width) (hh : 31 ≤ d.height)
    {len : Nat} (hlen : len ≤ 38) :
    TextInside d.stride d.words (d.width / 2 - 210) (d.height / 2) 52 ∧
      TextInside d.stride d.words (d.width / 2 - 130) (d.height - 20) len := by
  have hwle := hd.width_le
  have hst0 : 0 ≤ d.stride := by omega
  have hwords : d.words = d.height * d.stride := Int.mul_comm _ _
  have hrow : ∀ {a b : Int}, a ≤ b → a * d.stride ≤ b * d.stride :=
    fun h => Int.mul_le_mul_of_nonneg_right h hst0
  have h1 := hrow (show 15 ≤ d.height / 2 by omega)
  have h2 := hrow (show d.height / 2 + 15 + 1 ≤ d.height by omega)
  have h3 := hrow (show 11 ≤ d.height - 20 by omega)
  have h4 : (d.height - 20 + 15 + 5) * d.stride = d.height * d.stride := by
    congr 1
    omega
  rw [Int.add_mul, Int.one_mul] at h2
  rw [Int.add_mul] at h4
  constructor
  · exact ⟨by omega, by omega⟩
  · exact ⟨by omega, by omega⟩

/-- A crash, whatever it left in the frame and in the display's variables, and whatever crashes
follow in its handlers, which draw nothing: the texts fit into their arrays, and the screen stays in
the framebuffer exactly if the display is rejected or both texts lie in it, as they do from 412 by 31
pixels on. -/
theorem crash_stays_iff (c : Crash) (nested : List Crash) :
    (∀ p ∈ c.texts, p.2.length < p.1) ∧ (dsStop c.error).length < 160 ∧
      (∀ font fb, (Crash.run font (c :: nested) (false, fb)).2 =
        (Crash.run font [c] (false, fb)).2) ∧
      ((∀ font, Stays c.display.words fun fb => (Crash.run font (c :: nested) (false, fb)).2) ↔
        (c.display.ok = true →
          TextInside c.display.stride c.display.words (c.display.width / 2 - 210)
              (c.display.height / 2) dsTitle.length ∧
            TextInside c.display.stride c.display.words (c.display.width / 2 - 130)
              (c.display.height - 20) (dsStop c.error).length)) ∧
      (412 ≤ c.display.width → 31 ≤ c.display.height → ∀ font,
        Stays c.display.words fun fb => (Crash.run font (c :: nested) (false, fb)).2) := by
  have herror := c.error_length
  have hstop := dsStop_length c.error
  have hiff : (∀ font, Stays c.display.words fun fb =>
      (Crash.run font (c :: nested) (false, fb)).2) ↔ (c.display.ok = true →
        TextInside c.display.stride c.display.words (c.display.width / 2 - 210)
            (c.display.height / 2) dsTitle.length ∧
          TextInside c.display.stride c.display.words (c.display.width / 2 - 130)
            (c.display.height - 20) (dsStop c.error).length) := by
    simp only [Crash.run_cons]
    by_cases hok : c.display.ok = true
    · have hdraw := dsDraw_stays (Display.plausible_of_ok hok) c.error (by omega)
      simp only [if_pos hok]
      rw [← hdraw]
      exact ⟨fun h _ => h, fun h => h hok⟩
    · simp only [if_neg hok]
      exact iff_of_true (fun _ _ _ _ => rfl) fun h => absurd h hok
  refine ⟨(excHandler_fits c.marker c.cr2 c.f c.raw).1, by omega, fun font fb => ?_, hiff,
    fun hw hh => ?_⟩
  · rw [Crash.run_cons, Crash.run_cons]
  · refine hiff.mpr fun hok => ?_
    have hinside := @texts_inside c.display (Display.plausible_of_ok hok) hw hh
      (dsStop c.error).length (by omega)
    rw [dsTitle_length]
    exact hinside

end WinDOS
