import WinDOS.Draw.Blit
import WinDOS.Window.Stack

/-!
# The sheet functions in 32-bit `int`

The functions of `window.h` as the processor computes them, where a sum or a product that does not
fit wraps, and with every access put before a guard: the coordinates before they wrap, the indices
into the map, the frame buffer and the sheet buffers, and the entries of the table `sheets`.
A call has no result from the first access on that the guard stops.
-/

set_option autoImplicit false

namespace WinDOS

open Loop Guarded

inductive Access where
  /-- A coordinate, before it wraps. -/
  | coord (x : Int)
  /-- `map[i]` of `size` bytes. -/
  | map (i size : Int)
  /-- `vram[i]` of `size` words. -/
  | vram (i size : Int)
  /-- `buf[i]` of `size` words. -/
  | buf (i size : Int)
  /-- `sheets[h]` read, with the `top` at that time and whether a visible sheet stands there. -/
  | entry (h top : Int) (visible : Bool)
  /-- `sheets[h]` written. -/
  | store (h : Int)
  /-- `sheets[h]` read back right after it has been written. -/
  | reload (h : Int) (visible : Bool)
deriving DecidableEq

namespace Checked

variable (ok : Access → Bool)

def visible (ctl : Shtctl) (s : Sid) : Bool := ctl.inUse s && 0 ≤ ctl.height s

/-- The corner opposite to the position of a sheet. -/
def corner (sht : Sheet) : List Access :=
  [.coord (sht.vx0 + sht.bxsize), .coord (sht.vy0 + sht.bysize)]

/-- `bx0`, `by0`, `bx1` and `by1` before they are clipped. -/
def offsets (sht : Sheet) (r : Rect) : List Access :=
  [.coord (r.vx0 - sht.vx0), .coord (r.vy0 - sht.vy0), .coord (r.vx1 - sht.vx0),
    .coord (r.vy1 - sht.vy0)]

/-! ### The functions -/

def rect (sht : Sheet) : Rect :=
  ⟨sht.vx0, sht.vy0, i32 (sht.vx0 + sht.bxsize), i32 (sht.vy0 + sht.bysize)⟩

def toScreen (sht : Sheet) (b : Rect) : Rect :=
  ⟨i32 (sht.vx0 + b.vx0), i32 (sht.vy0 + b.vy0), i32 (sht.vx0 + b.vx1), i32 (sht.vy0 + b.vy1)⟩

def clip (sht : Sheet) (r : Rect) : Rect where
  vx0 := if i32 (r.vx0 - sht.vx0) < 0 then 0 else i32 (r.vx0 - sht.vx0)
  vy0 := if i32 (r.vy0 - sht.vy0) < 0 then 0 else i32 (r.vy0 - sht.vy0)
  vx1 := if i32 (r.vx1 - sht.vx0) > sht.bxsize then sht.bxsize else i32 (r.vx1 - sht.vx0)
  vy1 := if i32 (r.vy1 - sht.vy0) > sht.bysize then sht.bysize else i32 (r.vy1 - sht.vy0)

/-- `by * sht->bxsize + bx`. -/
def bufIdx (sht : Sheet) (bX bY : Int) : Int := i32 (bY * sht.bxsize + bX)

/-- `vy * ctl->xsize + vx`. -/
def idx (ctl : Shtctl) (vx vy : Int) : Int := i32 (vy * ctl.xsize + vx)

def bufAt (sht : Sheet) (bX bY : Int) : Access :=
  .buf (bufIdx sht bX bY) (sht.bxsize * sht.bysize)

def mapAt (ctl : Shtctl) (vx vy : Int) : Access := .map (idx ctl vx vy) (ctl.xsize * ctl.ysize)

def vramAt (ctl : Shtctl) (vx vy : Int) : Access := .vram (idx ctl vx vy) (ctl.xsize * ctl.ysize)

def forPixels {σ : Type} (ctl : Shtctl) (sht : Sheet) (r : Rect)
    (body : Int → Int → Int → Int → σ → Option σ) (s : σ) : Option σ :=
  let b := clip sht r
  (after ok (offsets sht r) s).bind <| Guarded.forUp b.vy0 b.vy1 fun bY s =>
    let vy := i32 (sht.vy0 + bY)
    (after ok [.coord (sht.vy0 + bY)] s).bind fun s =>
      if 0 ≤ vy ∧ vy < ctl.ysize then
        Guarded.forUp b.vx0 b.vx1 (fun bX s =>
          let vx := i32 (sht.vx0 + bX)
          (after ok [.coord (sht.vx0 + bX)] s).bind fun s =>
            if 0 ≤ vx ∧ vx < ctl.xsize then body bX bY vx vy s else some s) s
      else some s

/-- The loop for sheets without transparency does not look at the buffer. -/
def registers (sht : Sheet) (bX bY : Int) : Option Bool :=
  if sht.colInv == colInvNone then some true
  else
    let pix := sht.buf (bufIdx sht bX bY)
    after ok [bufAt sht bX bY] (pix != sht.colInv && !pix.isShadow)

def mapLayer (ctl : Shtctl) (r : Rect) (s : Sid) (map : Int → BitVec 8) :
    Option (Int → BitVec 8) :=
  let sht := ctl.sheets0 s
  forPixels ok ctl sht r (fun bX bY vx vy map =>
    (registers ok sht bX bY).bind fun registered =>
      if registered then
        after ok [mapAt ctl vx vy] (Function.update map (idx ctl vx vy) (sidByte s))
      else some map) map

def sheetRefreshmap (ctl : Shtctl) (r : Rect) (h0 : Int) : Option Shtctl :=
  (Guarded.forUp h0 (ctl.top + 1) (fun h map =>
    (after ok [.entry h ctl.top (visible ctl (ctl.sheets h))] map).bind
      (mapLayer ok ctl (ctl.clip r) (ctl.sheets h))) ctl.map).map
    fun map => { ctl with map := map }

/-- The second operand of `||` is evaluated only where the pixel is another sheet's, and the
second operand of `&&` only at the sheet's own height. -/
def subLayer (ctl : Shtctl) (r : Rect) (h : Int) (s : Sid) (vram : Int → Pixel) :
    Option (Int → Pixel) :=
  let sht := ctl.sheets0 s
  forPixels ok ctl sht r (fun bX bY vx vy vram =>
    let pix := sht.buf (bufIdx sht bX bY)
    (after ok [mapAt ctl vx vy] (ctl.map (idx ctl vx vy) == sidByte s)).bind fun own =>
    (if own then some true
      else if h == sht.height then after ok [bufAt sht bX bY] pix.isShadow
      else some false).bind fun drawn =>
    if drawn then
      after ok [bufAt sht bX bY, vramAt ctl vx vy] (Function.update vram (idx ctl vx vy)
        (if pix.isShadow then shade (vram (idx ctl vx vy)) pix else pix))
    else some vram) vram

def sheetRefreshsub (ctl : Shtctl) (r : Rect) (h0 h1 : Int) : Option Shtctl :=
  (Guarded.forUp h0 (h1 + 1) (fun h vram =>
    (after ok [.entry h ctl.top (visible ctl (ctl.sheets h))] vram).bind
      (subLayer ok ctl (ctl.clip r) h (ctl.sheets h))) ctl.vram).map
    fun vram => { ctl with vram := vram }

def moveEntry (ctl : Shtctl) (dst src : Int) : Option Shtctl :=
  let s := ctl.sheets src
  after ok [.entry src ctl.top (visible ctl s), .store dst, .reload dst (visible ctl s)]
    (ctl.moveEntry dst src)

def place (ctl : Shtctl) (h : Int) (s : Sid) : Option Shtctl :=
  after ok [.store h] (ctl.place h s)

/-- `sheet_refreshmap` and `sheet_refreshsub` of the sheet's rectangle. -/
def refreshBoth (sht : Sheet) (m0 h0 h1 : Int) (ctl : Shtctl) : Option Shtctl :=
  (after ok (corner sht) ctl).bind fun ctl =>
  (sheetRefreshmap ok ctl (rect sht) m0).bind fun ctl => sheetRefreshsub ok ctl (rect sht) h0 h1

def sheetUpdown (ctl : Shtctl) (s : Sid) (height : Int) : Option Shtctl :=
  let old := ctl.height s
  let sht := ctl.sheets0 s
  let height := ctl.clampHeight height
  let ctl := ctl.setHeight s height
  if old > height then
    if height ≥ 0 then
      (Guarded.forDown old height (fun h ctl => moveEntry ok ctl h (h - 1)) ctl).bind fun ctl =>
      (place ok ctl height s).bind (refreshBoth ok sht (height + 1) (height + 1) old)
    else
      (if ctl.top > old then
        Guarded.forUp old ctl.top (fun h ctl => moveEntry ok ctl h (h + 1)) ctl
      else some ctl).bind fun ctl =>
      refreshBoth ok sht 0 0 (old - 1) { ctl with top := ctl.top - 1 }
  else if old < height then
    (if old ≥ 0 then
      (Guarded.forUp old height (fun h ctl => moveEntry ok ctl h (h + 1)) ctl).bind fun ctl =>
      place ok ctl height s
    else
      (Guarded.forDown ctl.top (height - 1) (fun h ctl => moveEntry ok ctl (h + 1) h) ctl).bind
        fun ctl => (place ok ctl height s).map fun ctl => { ctl with top := ctl.top + 1 }).bind
    (refreshBoth ok sht height height height)
  else some ctl

/-- The corners of a rectangle that is given in sheet coordinates. -/
def sums (sht : Sheet) (b : Rect) : List Access :=
  [.coord (sht.vx0 + b.vx0), .coord (sht.vy0 + b.vy0), .coord (sht.vx0 + b.vx1),
    .coord (sht.vy0 + b.vy1)]

def refreshShadow (s : Sid) (r : Rect) (ctl : Shtctl) : Option Sid → Option Shtctl
  | none => some ctl
  | some g =>
    let gs := ctl.sheets0 g
    if g ≠ s ∧ gs.height ≥ 0 then
      (after ok (corner gs) ctl).bind fun ctl =>
      if r.vx0 < i32 (gs.vx0 + gs.bxsize) ∧ r.vx1 > gs.vx0 ∧
          r.vy0 < i32 (gs.vy0 + gs.bysize) ∧ r.vy1 > gs.vy0 then
        sheetRefreshsub ok ctl (rect gs) gs.height gs.height
      else some ctl
    else some ctl

def sheetRefresh (shadows : List (Option Sid)) (ctl : Shtctl) (s : Sid) (b : Rect) :
    Option Shtctl :=
  let sht := ctl.sheets0 s
  if sht.height ≥ 0 then
    (after ok (sums sht b) ctl).bind fun ctl =>
    (sheetRefreshsub ok ctl (toScreen sht b) sht.height sht.height).bind fun ctl =>
    shadows.foldlM (refreshShadow ok s (toScreen sht b)) ctl
  else some ctl

def sheetSlide (ctl : Shtctl) (s : Sid) (vx0 vy0 : Int) : Option Shtctl :=
  let oldSht := ctl.sheets0 s
  let ctl := ctl.setSheet s (oldSht.moveTo vx0 vy0)
  let sht := ctl.sheets0 s
  if sht.height ≥ 0 then
    (after ok (corner oldSht ++ corner sht) ctl).bind fun ctl =>
    (sheetRefreshmap ok ctl (rect oldSht) 0).bind fun ctl =>
    (sheetRefreshmap ok ctl (rect sht) sht.height).bind fun ctl =>
    (sheetRefreshsub ok ctl (rect oldSht) 0 (sht.height - 1)).bind fun ctl =>
    sheetRefreshsub ok ctl (rect sht) sht.height sht.height
  else some ctl

def sheetFree (ctl : Shtctl) (s : Sid) : Option Shtctl :=
  (if ctl.height s ≥ 0 then sheetUpdown ok ctl s (-1) else some ctl).map fun ctl =>
    ctl.setSheet s { ctl.sheets0 s with flags := 0 }

def shtctlRefreshAll (hook : Option TaskbarHook) (ctl : Shtctl) : Option Shtctl :=
  let ctl := ctl.repaintBack hook
  (sheetRefreshmap ok ctl ctl.screen 0).bind fun ctl => sheetRefreshsub ok ctl ctl.screen 0 ctl.top

end Checked

end WinDOS
