import Mathlib.Algebra.GroupWithZero.Nat
import WinDOS.Draw.Clipped
import WinDOS.Lib.Layers

/-!
# Sheets and the sheet controller (`window/window.h`)

The pool `sheets0` is indexed by `Fin 16`; a sheet pointer is its index, so the address
difference `sht - sheets0` is the index itself. `sheets` maps a height to the sheet
standing there, entries above `top` being stale. Coordinates and indices are integers
without a width, as they are as long as no sum leaves `int` and the screen and every buffer
have at most 2^31 pixels; the same functions in 32-bit `int` are those of `Checked`.
-/

set_option autoImplicit false

namespace WinDOS

open Loop Layers Overwrite

/-- `if (c > add) c -= add; else c = 0;` -/
def darken (c add : BitVec 8) : BitVec 8 := if add < c then c - add else 0

/-- The shadow branch of `sheet_refreshsub`: the low byte of `pix` comes off every channel. -/
def shade (dst pix : Pixel) : Pixel :=
  Pixel.pack (darken dst.red pix.blue) (darken dst.green pix.blue) (darken dst.blue pix.blue)

abbrev Sid := Fin 16

/-- The pool is not empty: the sheets of a desk that is written out are numerals. -/
theorem Sid.neZero : NeZero 16 := ⟨by decide⟩

structure Rect where
  vx0 : Int
  vy0 : Int
  vx1 : Int
  vy1 : Int
deriving DecidableEq, Repr

def Rect.contains (r : Rect) (x y : Int) : Bool :=
  r.vx0 ≤ x && x < r.vx1 && r.vy0 ≤ y && y < r.vy1

theorem Rect.contains_iff {r : Rect} {x y : Int} :
    r.contains x y = true ↔ r.vx0 ≤ x ∧ x < r.vx1 ∧ r.vy0 ≤ y ∧ y < r.vy1 := by
  simp only [Rect.contains, Bool.and_eq_true, decide_eq_true_eq, and_assoc]

structure Sheet where
  buf : Buffer
  bxsize : Int
  bysize : Int
  vx0 : Int
  vy0 : Int
  colInv : Pixel
  height : Int
  flags : Nat

structure Shtctl where
  vram : Int → Pixel
  map : Int → BitVec 8
  xsize : Int
  ysize : Int
  top : Int
  sheets : Int → Sid
  sheets0 : Sid → Sheet

/-- `(u8)(sht - ctl->sheets0)`. -/
def sidByte (s : Sid) : BitVec 8 := BitVec.ofNat 8 s.val

def colInvNone : Pixel := 0xFFFFFFFF

namespace Sheet

def rect (sht : Sheet) : Rect :=
  ⟨sht.vx0, sht.vy0, sht.vx0 + sht.bxsize, sht.vy0 + sht.bysize⟩

def withBuf (sht : Sheet) (buf : Buffer) : Sheet := { sht with buf := buf }

def moveTo (sht : Sheet) (vx0 vy0 : Int) : Sheet := { sht with vx0 := vx0, vy0 := vy0 }

/-- A rectangle of the sheet in screen coordinates. -/
def toScreen (sht : Sheet) (b : Rect) : Rect :=
  ⟨sht.vx0 + b.vx0, sht.vy0 + b.vy0, sht.vx0 + b.vx1, sht.vy0 + b.vy1⟩

/-- The buffer pixel at sheet coordinates. -/
def pixel (sht : Sheet) (bX bY : Int) : Pixel := sht.buf (bY * sht.bxsize + bX)

/-- What `sheet_refreshmap` enters in the map. The two loops of the source, one for
sheets without transparency and one for the others, differ in this test only. -/
def registers (sht : Sheet) (bX bY : Int) : Bool :=
  sht.colInv == colInvNone ||
    (sht.pixel bX bY != sht.colInv && !(sht.pixel bX bY).isShadow)

/-- The part of a screen rectangle that can fall on the sheet, in sheet coordinates. -/
def clip (sht : Sheet) (r : Rect) : Rect where
  vx0 := if r.vx0 - sht.vx0 < 0 then 0 else r.vx0 - sht.vx0
  vy0 := if r.vy0 - sht.vy0 < 0 then 0 else r.vy0 - sht.vy0
  vx1 := if r.vx1 - sht.vx0 > sht.bxsize then sht.bxsize else r.vx1 - sht.vx0
  vy1 := if r.vy1 - sht.vy0 > sht.bysize then sht.bysize else r.vy1 - sht.vy0

end Sheet

/-- The desktop colours `shtctl_refresh_all` puts into the buffer of the bottom sheet. -/
def desktopFill (bw bh : Int) (bp : Buffer) : Buffer :=
  forUp 0 bh (fun y =>
    let bg : Pixel := if y ≥ u32 (bh - 40) then 0 else 0x00008080
    forUp 0 bw fun x bp => Function.update bp (u32 (y * bw + x)) bg) bp

/-- What `g_taskbar_paint` may point to: it draws unmarked colours at fixed places. -/
structure TaskbarHook where
  paint : (stride w h : Int) → Buffer → Buffer
  overwrites : ∀ stride w h, Overwrites (fun p => p.isShadow = false) (paint stride w h)

/-- Desktop colours and taskbar buttons; `none` is the null hook. -/
def paintBack (hook : Option TaskbarHook) (bw bh : Int) (bp : Buffer) : Buffer :=
  match hook with
  | none => desktopFill bw bh bp
  | some hook => hook.paint bw bw bh (desktopFill bw bh bp)

theorem desktopFill_overwrites (bw bh : Int) :
    Overwrites (fun p => p.isShadow = false) (desktopFill bw bh) := by
  unfold desktopFill
  refine .forUp fun y _ _ => .forUp fun x _ _ => .update _ ?_
  split <;> decide

theorem paintBack_overwrites (hook : Option TaskbarHook) (bw bh : Int) :
    Overwrites (fun p => p.isShadow = false) (paintBack hook bw bh) := by
  cases hook with
  | none => exact desktopFill_overwrites bw bh
  | some hook => exact (hook.overwrites bw bw bh).comp (desktopFill_overwrites bw bh)

namespace Shtctl

def clip (ctl : Shtctl) (r : Rect) : Rect where
  vx0 := if r.vx0 < 0 then 0 else r.vx0
  vy0 := if r.vy0 < 0 then 0 else r.vy0
  vx1 := if r.vx1 > ctl.xsize then ctl.xsize else r.vx1
  vy1 := if r.vy1 > ctl.ysize then ctl.ysize else r.vy1

/-- Rows and columns of a rectangle of the sheet, each tested against the screen. -/
def forBox {σ : Type} (ctl : Shtctl) (sht : Sheet) (b : Rect)
    (body : Int → Int → Int → Int → σ → σ) : σ → σ :=
  forUp b.vy0 b.vy1 fun bY =>
    let vy := sht.vy0 + bY
    if 0 ≤ vy ∧ vy < ctl.ysize then
      forUp b.vx0 b.vx1 fun bX =>
        let vx := sht.vx0 + bX
        if 0 ≤ vx ∧ vx < ctl.xsize then body bX bY vx vy else id
    else id

/-- The pixel loops shared by `sheet_refreshmap` and `sheet_refreshsub`, over the clipped
rectangle. -/
def forPixels {σ : Type} (ctl : Shtctl) (sht : Sheet) (r : Rect)
    (body : Int → Int → Int → Int → σ → σ) : σ → σ := ctl.forBox sht (sht.clip r) body

/-- One round of the height loop of `sheet_refreshmap`. -/
def mapLayer (ctl : Shtctl) (r : Rect) (s : Sid) : (Int → BitVec 8) → (Int → BitVec 8) :=
  let sht := ctl.sheets0 s
  ctl.forPixels sht r fun bX bY vx vy map =>
    if sht.registers bX bY then Function.update map (vy * ctl.xsize + vx) (sidByte s) else map

def sheetRefreshmap (ctl : Shtctl) (r : Rect) (h0 : Int) : Shtctl :=
  let r := ctl.clip r
  { ctl with map := forUp h0 (ctl.top + 1) (fun h => ctl.mapLayer r (ctl.sheets h)) ctl.map }

/-- One round of the height loop of `sheet_refreshsub`. -/
def subLayer (ctl : Shtctl) (r : Rect) (h : Int) (s : Sid) : (Int → Pixel) → (Int → Pixel) :=
  let sht := ctl.sheets0 s
  ctl.forPixels sht r fun bX bY vx vy vram =>
    let pix := sht.pixel bX bY
    if ctl.map (vy * ctl.xsize + vx) == sidByte s || (h == sht.height && pix.isShadow) then
      Function.update vram (vy * ctl.xsize + vx)
        (if pix.isShadow then shade (vram (vy * ctl.xsize + vx)) pix else pix)
    else vram

def sheetRefreshsub (ctl : Shtctl) (r : Rect) (h0 h1 : Int) : Shtctl :=
  let r := ctl.clip r
  { ctl with vram := forUp h0 (h1 + 1) (fun h => ctl.subLayer r h (ctl.sheets h)) ctl.vram }

theorem sheetRefreshmap_map (ctl : Shtctl) (r : Rect) (h0 : Int) :
    (ctl.sheetRefreshmap r h0).map =
      forUp h0 (ctl.top + 1) (fun h => ctl.mapLayer (ctl.clip r) (ctl.sheets h)) ctl.map := rfl

theorem sheetRefreshsub_vram (ctl : Shtctl) (r : Rect) (h0 h1 : Int) :
    (ctl.sheetRefreshsub r h0 h1).vram =
      forUp h0 (h1 + 1) (fun h => ctl.subLayer (ctl.clip r) h (ctl.sheets h)) ctl.vram := rfl

/-- The whole screen. -/
def screen (ctl : Shtctl) : Rect := ⟨0, 0, ctl.xsize, ctl.ysize⟩

def height (ctl : Shtctl) (s : Sid) : Int := (ctl.sheets0 s).height

def setSheet (ctl : Shtctl) (s : Sid) (sht : Sheet) : Shtctl :=
  { ctl with sheets0 := Function.update ctl.sheets0 s sht }

def setHeight (ctl : Shtctl) (s : Sid) (h : Int) : Shtctl :=
  ctl.setSheet s { ctl.sheets0 s with height := h }

/-- `ctl->sheets[h] = sht`. -/
def place (ctl : Shtctl) (h : Int) (s : Sid) : Shtctl :=
  { ctl with sheets := Function.update ctl.sheets h s }

/-- `ctl->sheets[dst] = ctl->sheets[src]; ctl->sheets[dst]->height = dst`. -/
def moveEntry (ctl : Shtctl) (dst src : Int) : Shtctl :=
  (ctl.place dst (ctl.sheets src)).setHeight (ctl.sheets src) dst

/-- The clamp at the head of `sheet_updown`. -/
def clampHeight (ctl : Shtctl) (height : Int) : Int :=
  let height := if height > ctl.top + 1 then ctl.top + 1 else height
  if height < -1 then -1 else height

def sheetUpdown (ctl : Shtctl) (s : Sid) (height : Int) : Shtctl :=
  let old := ctl.height s
  let r := (ctl.sheets0 s).rect
  let height := ctl.clampHeight height
  let ctl := ctl.setHeight s height
  if old > height then
    if height ≥ 0 then
      let ctl := (forDown old height (fun h ctl => ctl.moveEntry h (h - 1)) ctl).place height s
      (ctl.sheetRefreshmap r (height + 1)).sheetRefreshsub r (height + 1) old
    else
      let ctl := if ctl.top > old then
          forUp old ctl.top (fun h ctl => ctl.moveEntry h (h + 1)) ctl
        else ctl
      let ctl := { ctl with top := ctl.top - 1 }
      (ctl.sheetRefreshmap r 0).sheetRefreshsub r 0 (old - 1)
  else if old < height then
    let ctl := if old ≥ 0 then
        (forUp old height (fun h ctl => ctl.moveEntry h (h + 1)) ctl).place height s
      else
        let ctl := (forDown ctl.top (height - 1)
          (fun h ctl => ctl.moveEntry (h + 1) h) ctl).place height s
        { ctl with top := ctl.top + 1 }
    (ctl.sheetRefreshmap r height).sheetRefreshsub r height height
  else ctl

/-- One round of the shadow loop of `sheet_refresh`; `r` is the refreshed screen rectangle.
An entry of `g_shadow_shts` may be null. -/
def refreshShadow (s : Sid) (r : Rect) (ctl : Shtctl) : Option Sid → Shtctl
  | none => ctl
  | some g =>
    let gs := ctl.sheets0 g
    if g ≠ s ∧ gs.height ≥ 0 ∧ r.vx0 < gs.vx0 + gs.bxsize ∧ r.vx1 > gs.vx0 ∧
        r.vy0 < gs.vy0 + gs.bysize ∧ r.vy1 > gs.vy0 then
      ctl.sheetRefreshsub gs.rect gs.height gs.height
    else ctl

/-- `b` is in sheet coordinates; `shadows` holds the first `g_shadow_cnt` entries of
`g_shadow_shts`. -/
def sheetRefresh (shadows : List (Option Sid)) (ctl : Shtctl) (s : Sid) (b : Rect) : Shtctl :=
  let sht := ctl.sheets0 s
  if sht.height ≥ 0 then
    let r := sht.toScreen b
    shadows.foldl (refreshShadow s r) (ctl.sheetRefreshsub r sht.height sht.height)
  else ctl

theorem sheetRefresh_visible {shadows : List (Option Sid)} {ctl : Shtctl} {s : Sid} {b : Rect}
    (hv : 0 ≤ ctl.height s) : ctl.sheetRefresh shadows s b =
      shadows.foldl (refreshShadow s ((ctl.sheets0 s).toScreen b))
        (ctl.sheetRefreshsub ((ctl.sheets0 s).toScreen b) (ctl.height s) (ctl.height s)) :=
  if_pos hv

theorem sheetRefresh_hidden {shadows : List (Option Sid)} {ctl : Shtctl} {s : Sid} {b : Rect}
    (hv : ¬ 0 ≤ ctl.height s) : ctl.sheetRefresh shadows s b = ctl := if_neg hv

def sheetSlide (ctl : Shtctl) (s : Sid) (vx0 vy0 : Int) : Shtctl :=
  let oldRect := (ctl.sheets0 s).rect
  let ctl := ctl.setSheet s ((ctl.sheets0 s).moveTo vx0 vy0)
  let sht := ctl.sheets0 s
  if sht.height ≥ 0 then
    let ctl := (ctl.sheetRefreshmap oldRect 0).sheetRefreshmap sht.rect sht.height
    (ctl.sheetRefreshsub oldRect 0 (sht.height - 1)).sheetRefreshsub sht.rect sht.height sht.height
  else ctl

def sheetFree (ctl : Shtctl) (s : Sid) : Shtctl :=
  let ctl := if ctl.height s ≥ 0 then ctl.sheetUpdown s (-1) else ctl
  ctl.setSheet s { ctl.sheets0 s with flags := 0 }

def shtctlInit (ctl : Shtctl) (vram : Buffer) (xsize ysize : Int) (map : Int → BitVec 8) :
    Shtctl :=
  { ctl with
    vram := vram, map := map, xsize := xsize, ysize := ysize, top := -1
    sheets0 := fun s => { ctl.sheets0 s with flags := 0 } }

/-- The first free sheet of the pool; `none` is the null pointer. -/
def sheetAlloc (ctl : Shtctl) : Option (Sid × Shtctl) :=
  match (List.finRange 16).find? fun s => (ctl.sheets0 s).flags == 0 with
  | none => none
  | some s => some (s, ctl.setSheet s { ctl.sheets0 s with flags := 1, height := -1 })

def sheetSetbuf (ctl : Shtctl) (s : Sid) (buf : Buffer) (xsize ysize : Int) (colInv : Pixel) :
    Shtctl :=
  ctl.setSheet s { ctl.sheets0 s with buf := buf, bxsize := xsize, bysize := ysize, colInv := colInv }

/-- The buffer of `sheets[0]` repainted, as `shtctl_refresh_all` begins. -/
def repaintBack (hook : Option TaskbarHook) (ctl : Shtctl) : Shtctl :=
  let sht := ctl.sheets0 (ctl.sheets 0)
  ctl.setSheet (ctl.sheets 0)
    (sht.withBuf (paintBack hook (u32 sht.bxsize) (u32 sht.bysize) sht.buf))

def shtctlRefreshAll (hook : Option TaskbarHook) (ctl : Shtctl) : Shtctl :=
  let ctl := ctl.repaintBack hook
  (ctl.sheetRefreshmap ctl.screen 0).sheetRefreshsub ctl.screen 0 ctl.top

end Shtctl

end WinDOS
