import WinDOS.Window.Accesses

/-!
# The sheet functions without a guard

Under a guard that stops nothing, what is left is the arithmetic of `int`: every call has a result,
wherever the sheets lie and whatever wraps. A refresh draws a sheet at a screen pixel if the
rectangle that it computes for the sheet holds the pixel.
-/

set_option autoImplicit false

namespace WinDOS

open Loop Layers Guarded

def anyAccess : Access → Bool := fun _ => true

theorem anyAccess_entries : Checked.PermitsEntries anyAccess where
  entry _ _ _ _ _ := rfl
  store _ _ _ := rfl
  reload _ _ _ := rfl

theorem anyAccess_pixels : Checked.PermitsPixels anyAccess where
  coord _ := rfl
  map _ _ := rfl
  vram _ _ := rfl
  buf _ _ := rfl

theorem anyAccess_arrays : Checked.PermitsArrays anyAccess where
  map _ _ _ _ := rfl
  vram _ _ _ _ := rfl
  buf _ _ _ _ := rfl

@[simp] theorem after_anyAccess {σ : Type} (l : List Access) (s : σ) :
    after anyAccess l s = some s := after_eq (fun _ _ => rfl) s

namespace Shtctl

def intRefreshmap (ctl : Shtctl) (r : Rect) (h0 : Int) : Shtctl :=
  (Checked.sheetRefreshmap anyAccess ctl r h0).getD ctl

def intRefreshsub (ctl : Shtctl) (r : Rect) (h0 h1 : Int) : Shtctl :=
  (Checked.sheetRefreshsub anyAccess ctl r h0 h1).getD ctl

def intUpdown (ctl : Shtctl) (s : Sid) (height : Int) : Shtctl :=
  (Checked.sheetUpdown anyAccess ctl s height).getD ctl

def intSlide (ctl : Shtctl) (s : Sid) (vx0 vy0 : Int) : Shtctl :=
  (Checked.sheetSlide anyAccess ctl s vx0 vy0).getD ctl

def intFree (ctl : Shtctl) (s : Sid) : Shtctl := (Checked.sheetFree anyAccess ctl s).getD ctl

def intRefreshShadow (s : Sid) (r : Rect) (ctl : Shtctl) (g : Option Sid) : Shtctl :=
  (Checked.refreshShadow anyAccess s r ctl g).getD ctl

def intRefresh (shadows : List (Option Sid)) (ctl : Shtctl) (s : Sid) (b : Rect) : Shtctl :=
  (Checked.sheetRefresh anyAccess shadows ctl s b).getD ctl

def intRefreshAll (hook : Option TaskbarHook) (ctl : Shtctl) : Shtctl :=
  (Checked.shtctlRefreshAll anyAccess hook ctl).getD ctl

/-- `sheet_refreshmap` and `sheet_refreshsub` over the whole screen and all heights. -/
def intRedrawAll (ctl : Shtctl) : Shtctl :=
  let c := ctl.intRefreshmap ctl.screen 0
  c.intRefreshsub c.screen 0 c.top

/-! ### Every call has a result -/

theorem intRefreshmap_eq (ctl : Shtctl) (r : Rect) (h0 : Int) :
    Checked.sheetRefreshmap anyAccess ctl r h0 = some (ctl.intRefreshmap r h0) := by
  obtain ⟨map, h⟩ := Checked.sheetRefreshmap_some anyAccess_pixels (fun _ _ _ => rfl) r
  rw [intRefreshmap, h, Option.getD_some]

theorem intRefreshsub_eq (ctl : Shtctl) (r : Rect) (h0 h1 : Int) :
    Checked.sheetRefreshsub anyAccess ctl r h0 h1 = some (ctl.intRefreshsub r h0 h1) := by
  obtain ⟨vram, h⟩ := Checked.sheetRefreshsub_some anyAccess_pixels (fun _ _ _ => rfl) r
  rw [intRefreshsub, h, Option.getD_some]

theorem intUpdown_eq (ctl : Shtctl) (s : Sid) (height : Int) :
    Checked.sheetUpdown anyAccess ctl s height = some (ctl.intUpdown s height) := by
  have hboth : ∀ sht m0 h0 h1 c, ∃ d, Checked.refreshBoth anyAccess sht m0 h0 h1 c = some d := by
    intro sht m0 h0 h1 c
    unfold Checked.refreshBoth
    rw [after_anyAccess, Option.bind_some, intRefreshmap_eq, Option.bind_some, intRefreshsub_eq]
    exact ⟨_, rfl⟩
  have hmove : ∀ c dst src, Checked.moveEntry anyAccess c dst src = some (c.moveEntry dst src) :=
    fun c dst src => after_anyAccess _ _
  have hplace : ∀ c h, Checked.place anyAccess c h s = some (c.place h s) :=
    fun c h => after_anyAccess _ _
  have hup : ∀ lo hi c, ∃ d,
      Guarded.forUp lo hi (fun h c => Checked.moveEntry anyAccess c h (h + 1)) c = some d :=
    fun lo hi c => forUp_some (fun _ _ _ _ => ⟨_, hmove _ _ _⟩) c
  have hdown : ∀ hi lo (f g : Int → Int) c, ∃ d,
      Guarded.forDown hi lo (fun h c => Checked.moveEntry anyAccess c (f h) (g h)) c = some d :=
    fun hi lo f g c => forDown_some (fun _ _ _ _ => ⟨_, hmove _ _ _⟩) c
  obtain ⟨c, h⟩ : ∃ c, Checked.sheetUpdown anyAccess ctl s height = some c := by
    unfold Checked.sheetUpdown
    dsimp only
    split_ifs
    · obtain ⟨c, hc⟩ := hdown (ctl.height s) (ctl.clampHeight height) (fun h => h) (fun h => h - 1)
        (ctl.setHeight s (ctl.clampHeight height))
      rw [hc, Option.bind_some, hplace, Option.bind_some]
      exact hboth _ _ _ _ _
    · obtain ⟨c, hc⟩ := hup (ctl.height s) (ctl.setHeight s (ctl.clampHeight height)).top
        (ctl.setHeight s (ctl.clampHeight height))
      rw [hc, Option.bind_some]
      exact hboth _ _ _ _ _
    · exact hboth _ _ _ _ _
    · obtain ⟨c, hc⟩ := hup (ctl.height s) (ctl.clampHeight height)
        (ctl.setHeight s (ctl.clampHeight height))
      rw [hc, Option.bind_some, hplace, Option.bind_some]
      exact hboth _ _ _ _ _
    · obtain ⟨c, hc⟩ := hdown (ctl.setHeight s (ctl.clampHeight height)).top
        (ctl.clampHeight height - 1) (fun h => h + 1) (fun h => h)
        (ctl.setHeight s (ctl.clampHeight height))
      rw [hc, Option.bind_some, hplace, Option.map_some, Option.bind_some]
      exact hboth _ _ _ _ _
    · exact ⟨_, rfl⟩
  rw [intUpdown, h, Option.getD_some]

theorem intSlide_eq (ctl : Shtctl) (s : Sid) (vx0 vy0 : Int) :
    Checked.sheetSlide anyAccess ctl s vx0 vy0 = some (ctl.intSlide s vx0 vy0) := by
  obtain ⟨c, h⟩ : ∃ c, Checked.sheetSlide anyAccess ctl s vx0 vy0 = some c := by
    unfold Checked.sheetSlide
    dsimp only
    split_ifs
    · simp only [after_anyAccess, intRefreshmap_eq, intRefreshsub_eq, Option.bind_some]
      exact ⟨_, rfl⟩
    · exact ⟨_, rfl⟩
  rw [intSlide, h, Option.getD_some]

theorem intFree_eq (ctl : Shtctl) (s : Sid) :
    Checked.sheetFree anyAccess ctl s = some (ctl.intFree s) := by
  obtain ⟨c, h⟩ : ∃ c, Checked.sheetFree anyAccess ctl s = some c := by
    unfold Checked.sheetFree
    split_ifs
    · rw [intUpdown_eq]
      exact ⟨_, rfl⟩
    · exact ⟨_, rfl⟩
  rw [intFree, h, Option.getD_some]

theorem intRefreshShadow_eq (s : Sid) (r : Rect) (ctl : Shtctl) (g : Option Sid) :
    Checked.refreshShadow anyAccess s r ctl g = some (intRefreshShadow s r ctl g) := by
  obtain ⟨c, h⟩ : ∃ c, Checked.refreshShadow anyAccess s r ctl g = some c := by
    cases g with
    | none => exact ⟨_, rfl⟩
    | some g =>
      unfold Checked.refreshShadow
      simp only [after_anyAccess, Option.bind_some, intRefreshsub_eq]
      split_ifs <;> exact ⟨_, rfl⟩
  rw [intRefreshShadow, h, Option.getD_some]

theorem checked_refresh_visible {shadows : List (Option Sid)} {ctl : Shtctl} {s : Sid} {b : Rect}
    (hv : 0 ≤ ctl.height s) : Checked.sheetRefresh anyAccess shadows ctl s b =
      some (shadows.foldl (intRefreshShadow s (Checked.toScreen (ctl.sheets0 s) b))
        (ctl.intRefreshsub (Checked.toScreen (ctl.sheets0 s) b) (ctl.height s) (ctl.height s))) := by
  unfold Checked.sheetRefresh
  dsimp only
  rw [if_pos (show (ctl.sheets0 s).height ≥ 0 from hv), after_anyAccess, Option.bind_some,
    intRefreshsub_eq, Option.bind_some]
  exact foldlM_eq (fun _ => True) (fun c g _ _ => ⟨intRefreshShadow_eq s _ c g, trivial⟩) trivial

theorem intRefresh_visible {shadows : List (Option Sid)} {ctl : Shtctl} {s : Sid} {b : Rect}
    (hv : 0 ≤ ctl.height s) : ctl.intRefresh shadows s b =
      shadows.foldl (intRefreshShadow s (Checked.toScreen (ctl.sheets0 s) b))
        (ctl.intRefreshsub (Checked.toScreen (ctl.sheets0 s) b) (ctl.height s) (ctl.height s)) := by
  rw [intRefresh, checked_refresh_visible hv, Option.getD_some]

theorem intRefresh_eq (shadows : List (Option Sid)) (ctl : Shtctl) (s : Sid) (b : Rect) :
    Checked.sheetRefresh anyAccess shadows ctl s b = some (ctl.intRefresh shadows s b) := by
  by_cases hv : 0 ≤ ctl.height s
  · rw [checked_refresh_visible hv, intRefresh_visible hv]
  · have h : Checked.sheetRefresh anyAccess shadows ctl s b = some ctl := if_neg hv
    rw [intRefresh, h, Option.getD_some]

theorem checked_refreshAll (hook : Option TaskbarHook) (ctl : Shtctl) :
    Checked.shtctlRefreshAll anyAccess hook ctl = some (ctl.repaintBack hook).intRedrawAll := by
  unfold Checked.shtctlRefreshAll
  dsimp only
  rw [intRefreshmap_eq, Option.bind_some, intRefreshsub_eq]
  rfl

theorem intRefreshAll_redraws (hook : Option TaskbarHook) (ctl : Shtctl) :
    ctl.intRefreshAll hook = (ctl.repaintBack hook).intRedrawAll := by
  rw [intRefreshAll, checked_refreshAll, Option.getD_some]

theorem intRefreshAll_eq (hook : Option TaskbarHook) (ctl : Shtctl) :
    Checked.shtctlRefreshAll anyAccess hook ctl = some (ctl.intRefreshAll hook) := by
  rw [checked_refreshAll, intRefreshAll_redraws]

/-! ### What a call leaves alone -/

theorem sameStack_intRefreshmap (ctl : Shtctl) (r : Rect) (h0 : Int) :
    SameStack ctl (ctl.intRefreshmap r h0) := by
  obtain ⟨map, h⟩ := Checked.sheetRefreshmap_some anyAccess_pixels (fun _ _ _ => rfl) r
  rw [intRefreshmap, h]
  exact ⟨rfl, rfl, rfl, rfl, rfl⟩

theorem intRefreshmap_vram (ctl : Shtctl) (r : Rect) (h0 : Int) :
    (ctl.intRefreshmap r h0).vram = ctl.vram := by
  obtain ⟨map, h⟩ := Checked.sheetRefreshmap_some anyAccess_pixels (fun _ _ _ => rfl) r
  rw [intRefreshmap, h]
  rfl

theorem intRefreshsub_same (ctl : Shtctl) (r : Rect) (h0 h1 : Int) :
    SameStack ctl (ctl.intRefreshsub r h0 h1) ∧ (ctl.intRefreshsub r h0 h1).map = ctl.map := by
  obtain ⟨vram, h⟩ := Checked.sheetRefreshsub_some anyAccess_pixels (fun _ _ _ => rfl) r
  rw [intRefreshsub, h]
  exact ⟨⟨rfl, rfl, rfl, rfl, rfl⟩, rfl⟩

/-- A registered shadow window that overlaps the rectangle, with sums that may have wrapped. -/
def ShadowMeets (ctl : Shtctl) (s : Sid) (r : Rect) (g : Sid) : Prop :=
  g ≠ s ∧ (ctl.sheets0 g).height ≥ 0 ∧ r.vx0 < (Checked.rect (ctl.sheets0 g)).vx1 ∧
    r.vx1 > (ctl.sheets0 g).vx0 ∧ r.vy0 < (Checked.rect (ctl.sheets0 g)).vy1 ∧
    r.vy1 > (ctl.sheets0 g).vy0

instance (ctl : Shtctl) (s : Sid) (r : Rect) (g : Sid) : Decidable (ctl.ShadowMeets s r g) :=
  inferInstanceAs (Decidable (_ ∧ _))

theorem intRefreshShadow_some (s : Sid) (r : Rect) (ctl : Shtctl) (g : Sid) :
    intRefreshShadow s r ctl (some g) = if ctl.ShadowMeets s r g then
      ctl.intRefreshsub (Checked.rect (ctl.sheets0 g)) (ctl.height g) (ctl.height g) else ctl := by
  have h : Checked.refreshShadow anyAccess s r ctl (some g) = some (if ctl.ShadowMeets s r g then
      ctl.intRefreshsub (Checked.rect (ctl.sheets0 g)) (ctl.height g) (ctl.height g)
      else ctl) := by
    unfold Checked.refreshShadow
    simp only [after_anyAccess, Option.bind_some, intRefreshsub_eq]
    by_cases hvis : g ≠ s ∧ (ctl.sheets0 g).height ≥ 0
    · rw [if_pos hvis, ← apply_ite some]
      congr 1
      exact if_congr ⟨fun h => ⟨hvis.1, hvis.2, h⟩, fun h => h.2.2⟩ rfl rfl
    · rw [if_neg hvis, if_neg fun h => hvis ⟨h.1, h.2.1⟩]
  rw [intRefreshShadow, h, Option.getD_some]

theorem intRefreshShadow_same (s : Sid) (r : Rect) (ctl : Shtctl) (g : Option Sid) :
    SameStack ctl (intRefreshShadow s r ctl g) ∧ (intRefreshShadow s r ctl g).map = ctl.map := by
  cases g with
  | none => exact ⟨.refl ctl, rfl⟩
  | some g =>
    rw [intRefreshShadow_some]
    split
    · exact intRefreshsub_same _ _ _ _
    · exact ⟨.refl ctl, rfl⟩

theorem intRefresh_same (shadows : List (Option Sid)) (ctl : Shtctl) (s : Sid) (b : Rect) :
    SameStack ctl (ctl.intRefresh shadows s b) ∧ (ctl.intRefresh shadows s b).map = ctl.map := by
  have hloop : ∀ (l : List (Option Sid)) (r : Rect) (c : Shtctl), SameStack ctl c →
      c.map = ctl.map → SameStack ctl (l.foldl (intRefreshShadow s r) c) ∧
        (l.foldl (intRefreshShadow s r) c).map = ctl.map := by
    intro l r
    induction l with
    | nil => exact fun c h hm => ⟨h, hm⟩
    | cons g l ih =>
      intro c h hm
      obtain ⟨hsame, hmap⟩ := intRefreshShadow_same s r c g
      exact ih _ (h.trans hsame) (hmap.trans hm)
  by_cases hv : 0 ≤ ctl.height s
  · rw [intRefresh_visible hv]
    obtain ⟨hsame, hmap⟩ := intRefreshsub_same ctl (Checked.toScreen (ctl.sheets0 s) b)
      (ctl.height s) (ctl.height s)
    exact hloop shadows _ _ hsame hmap
  · have h : ctl.intRefresh shadows s b = ctl := by
      rw [intRefresh, show Checked.sheetRefresh anyAccess shadows ctl s b = some ctl from if_neg hv,
        Option.getD_some]
    rw [h]
    exact ⟨.refl ctl, rfl⟩

/-! ### At a screen pixel -/

/-- What the types of the source can hold, with arrays of at most 2^31 entries. -/
structure IntSheet (sht : Sheet) : Prop where
  vx0 : IsI32 sht.vx0
  vy0 : IsI32 sht.vy0
  bxsize : IsI32 sht.bxsize
  bysize : IsI32 sht.bysize
  area : sht.bxsize * sht.bysize ≤ 2147483648

structure Ints (ctl : Shtctl) : Prop where
  xsize : IsI32 ctl.xsize
  ysize : IsI32 ctl.ysize
  area : ctl.xsize * ctl.ysize ≤ 2147483648
  sheet : ∀ s, ctl.inUse s → IntSheet (ctl.sheets0 s)

theorem SameStack.ints {a b : Shtctl} (h : SameStack a b) (ha : Ints a) : Ints b where
  xsize := h.xsize ▸ ha.xsize
  ysize := h.ysize ▸ ha.ysize
  area := h.xsize ▸ h.ysize ▸ ha.area
  sheet s hs := by
    rw [h.sheets0]
    exact ha.sheet s ((h.inUse s).mp hs)

/-- A sum that wraps is negative, so that it lands on no axis. -/
theorem lands_of_isI32 {n v b size : Int} (hn : IsI32 n) (hv : IsI32 v) (hsize : IsI32 size)
    (h0 : 0 ≤ b) (h1 : b < size) : Checked.Lands n (v + b) := by
  obtain ⟨h2, h3⟩ := hn
  obtain ⟨h4, h5⟩ := hv
  obtain ⟨h6, h7⟩ := hsize
  unfold Checked.Lands i32
  omega

theorem Ints.box {ctl : Shtctl} (h : Ints ctl) {s : Sid} (hs : ctl.inUse s) :
    Checked.FitsBox anyAccess ctl (ctl.sheets0 s) where
  column _ h0 h1 := ⟨rfl, lands_of_isI32 h.xsize (h.sheet s hs).vx0 (h.sheet s hs).bxsize h0 h1⟩
  row _ h0 h1 := ⟨rfl, lands_of_isI32 h.ysize (h.sheet s hs).vy0 (h.sheet s hs).bysize h0 h1⟩
  area := (h.sheet s hs).area

/-- The part of the sheet that is drawn for a rectangle holds the screen pixel. -/
def hits (ctl : Shtctl) (r : Rect) (x y : Int) (s : Sid) : Bool :=
  (Checked.clip (ctl.sheets0 s) (ctl.clip r)).contains (x - (ctl.sheets0 s).vx0)
    (y - (ctl.sheets0 s).vy0)

theorem SameStack.hits {a b : Shtctl} (h : SameStack a b) (r : Rect) (x y : Int) :
    b.hits r x y = a.hits r x y := by
  unfold Shtctl.hits
  rw [h.sheets0, Shtctl.clip, Shtctl.clip, h.xsize, h.ysize]

theorem covers_of_hits {ctl : Shtctl} {r : Rect} {x y : Int} {s : Sid}
    (h : ctl.hits r x y s = true) : (ctl.sheets0 s).covers x y = true := by
  obtain ⟨h0, h1, h2, h3⟩ := Rect.contains_iff.mp h
  obtain ⟨hx0, hy0⟩ := Checked.clip_low_nonneg (ctl.sheets0 s) (ctl.clip r)
  obtain ⟨hx1, hy1⟩ := Checked.clip_high_le (ctl.sheets0 s) (ctl.clip r)
  refine Rect.contains_iff.mpr ?_
  simp only [Sheet.rect]
  omega

section Drawn

variable {ctl : Shtctl} (hc : Consistent ctl) (hint : Ints ctl) {h0 h1 : Int} (hh0 : 0 ≤ h0)
  (hh1 : h1 ≤ ctl.top) (r : Rect)
include hc hint hh0 hh1

theorem intRefreshsub_vram : (ctl.intRefreshsub r h0 h1).vram =
    Loop.forUp h0 (h1 + 1) (fun h => ctl.forBox (ctl.sheets0 (ctl.sheets h))
      (Checked.clip (ctl.sheets0 (ctl.sheets h)) (ctl.clip r)) (ctl.subPixel h (ctl.sheets h)))
      ctl.vram := by
  have h : Checked.sheetRefreshsub anyAccess ctl r h0 h1 = some { ctl with
      vram := Loop.forUp h0 (h1 + 1) (fun h => ctl.forBox (ctl.sheets0 (ctl.sheets h))
        (Checked.clip (ctl.sheets0 (ctl.sheets h)) (ctl.clip r)) (ctl.subPixel h (ctl.sheets h)))
        ctl.vram } := by
    unfold Checked.sheetRefreshsub
    rw [Guarded.forUp_eq fun h h2 h3 => ?_, Option.map_some]
    rw [after_anyAccess, Option.bind_some]
    exact Checked.subLayer_box anyAccess_arrays hint.area
      (hint.box (hc.used h (by omega) (by omega))) (fun _ => after_anyAccess _ _) _
  rw [intRefreshsub, h, Option.getD_some]

/-- The layers `h0..h1` that the rectangle hits paint the pixel one after the other. -/
theorem intRefreshsub_at {x y : Int} (hon : ctl.OnScreen x y) :
    (ctl.intRefreshsub r h0 h1).vram (ctl.idx x y) =
      ((seg ctl.sheets h0 (h1 + 1)).filter (ctl.hits r x y)).foldl
        (paint ctl.sheets0 (ctl.map (ctl.idx x y)) x y) (ctl.vram (ctl.idx x y)) := by
  rw [intRefreshsub_vram hc hint hh0 hh1, forUp_map (fun vram : Int → Pixel => vram (ctl.idx x y))
    (g := fun h v => if ctl.hits r x y (ctl.sheets h) then
      paint ctl.sheets0 (ctl.map (ctl.idx x y)) x y v (ctl.sheets h) else v) fun h vram h2 h3 => ?_,
    List.foldl_filter]
  · exact forUp_eq_foldl_seg ctl.sheets (fun s v => if ctl.hits r x y s then
      paint ctl.sheets0 (ctl.map (ctl.idx x y)) x y v s else v) h0 (h1 + 1) _
  · refine forBox_subPixel hon (hc.at_height h (by omega) (by omega)) ?_ vram
    change ctl.hits r x y (ctl.sheets h) = _
    cases hhit : ctl.hits r x y (ctl.sheets h) with
    | false => rfl
    | true => rw [covers_of_hits hhit, Bool.true_and]

theorem intRefreshsub_off {a : Int} (ha : ∀ x y, ctl.OnScreen x y → ctl.idx x y ≠ a) :
    (ctl.intRefreshsub r h0 h1).vram a = ctl.vram a := by
  rw [intRefreshsub_vram hc hint hh0 hh1, forUp_map (fun vram : Int → Pixel => vram a)
    (g := fun _ v => v) fun h vram _ _ => forBox_off ctl _ _ subPixel_other ha vram]
  exact forUp_skip (fun _ _ _ _ => rfl) _

end Drawn

end Shtctl

end WinDOS
