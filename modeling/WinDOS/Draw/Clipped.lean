import Mathlib.Data.BitVec
import WinDOS.Lib.Overwrite

/-!
# Clipped drawing (`sys/draw.h`)

A buffer is a function from word index to pixel. Row addresses are products of `u32`
values and wrap; coordinates are integers, as in `clip_rect`, which computes in `long`.
-/

set_option autoImplicit false

namespace WinDOS

open Loop Overwrite

abbrev Pixel := BitVec 32

abbrev Buffer := Int → Pixel

/-- A NUL-terminated text, without its NUL. -/
abbrev Text := List (BitVec 8)

/-- `font[256][16]`. -/
abbrev Font := BitVec 8 → Int → BitVec 8

def u32 (n : Int) : Int := n % 2 ^ 32

namespace Pixel

def high (p : Pixel) : BitVec 8 := p.extractLsb' 24 8
def red (p : Pixel) : BitVec 8 := p.extractLsb' 16 8
def green (p : Pixel) : BitVec 8 := p.extractLsb' 8 8
def blue (p : Pixel) : BitVec 8 := p.extractLsb' 0 8

/-- `pix & 0xFF000000`: the marker of a shadow pixel. -/
def isShadow (p : Pixel) : Bool := p.high != 0

/-- `(r << 16) | (g << 8) | b`. -/
def pack (r g b : BitVec 8) : Pixel := 0#8 ++ r ++ g ++ b

end Pixel

/-- The visible part of a rectangle, as position and size; `none` is the return value 0. -/
def clipRect (x y w h fw fh : Int) : Option (Int × Int × Int × Int) :=
  let x0 := if x < 0 then 0 else x
  let y0 := if y < 0 then 0 else y
  let x1 := if x + w > fw then fw else x + w
  let y1 := if y + h > fh then fh else y + h
  if x1 ≤ x0 ∨ y1 ≤ y0 then none else some (x0, y0, x1 - x0, y1 - y0)

def fillRectC (stride fw fh x y w h : Int) (color : Pixel) (fb : Buffer) : Buffer :=
  match clipRect x y w h fw fh with
  | none => fb
  | some (x, y, w, h) =>
    forUp 0 h (fun dy =>
      forUp 0 w fun dx fb => Function.update fb (u32 ((y + dy) * stride) + x + dx) color) fb

def putCharC (font : Font) (stride fw fh x y : Int) (c : BitVec 8) (color : Pixel)
    (fb : Buffer) : Buffer :=
  forUp 0 16 (fun dy fb =>
    let py := y + dy
    let bits := font c dy
    if 0 ≤ py ∧ py < fh ∧ bits ≠ 0 then
      forUp 0 8 (fun dx fb =>
        let px := x + dx
        if 0 ≤ px ∧ px < fw ∧ bits &&& (0x80#8 >>> dx.toNat) ≠ 0 then
          Function.update fb (u32 (py * stride) + px) color
        else fb) fb
    else fb) fb

def putStrC (font : Font) (stride fw fh : Int) : Int → Int → Text → Pixel → Buffer → Buffer
  | _, _, [], _, fb => fb
  | x, y, c :: s, color, fb =>
    putStrC font stride fw fh (x + 8) y s color (putCharC font stride fw fh x y c color fb)

section Overwrites

variable {Q : Pixel → Prop} {color : Pixel} (hcolor : Q color)
include hcolor

theorem fillRectC_overwrites (stride fw fh x y w h : Int) :
    Overwrites Q (fillRectC stride fw fh x y w h color) := by
  unfold fillRectC
  cases clipRect x y w h fw fh with
  | none => exact .id
  | some r => exact .forUp fun dy _ _ => .forUp fun dx _ _ => .update _ hcolor

theorem putCharC_overwrites (font : Font) (stride fw fh x y : Int) (c : BitVec 8) :
    Overwrites Q (putCharC font stride fw fh x y c color) := by
  unfold putCharC
  refine .forUp fun dy _ _ => .ite _ fun _ => .forUp fun dx _ _ => .ite _ fun _ => ?_
  exact .update _ hcolor

theorem putStrC_overwrites (font : Font) (stride fw fh y : Int) (s : Text) (x : Int) :
    Overwrites Q (putStrC font stride fw fh x y s color) := by
  induction s generalizing x with
  | nil => exact .id
  | cons c s ih => exact (ih (x + 8)).comp (putCharC_overwrites hcolor font stride fw fh x y c)

end Overwrites

end WinDOS
