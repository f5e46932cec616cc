import WinDOS.Window.Accesses

/-!
# The bounds of the sheet functions

With every coordinate and size between `-2^29` and `2^29`, and no more than `2^31` entries in the
map, the frame buffer or a sheet's buffer, no coordinate that the sheet functions compute leaves
`int`, every index into the arrays is below the length of its array, and the table is read only
where a visible sheet stands. On a larger screen an index itself wraps and is negative.
-/

set_option autoImplicit false

namespace WinDOS

namespace Shtctl

open Guarded

/-- Coordinates that are `int`s, indices inside their array, entries with a visible sheet. -/
def inBounds : Access → Bool
  | .coord x => IsI32 x
  | .map i size => 0 ≤ i && i < size
  | .vram i size => 0 ≤ i && i < size
  | .buf i size => 0 ≤ i && i < size
  | .entry h _ visible => 0 ≤ h && h ≤ 15 && visible
  | .store h => 0 ≤ h && h ≤ 15
  | .reload h visible => 0 ≤ h && h ≤ 15 && visible

theorem inBounds_permits : Checked.Permits inBounds IsI32 where
  int _ h := i32_small h.1 h.2
  coord _ h := decide_eq_true h
  map _ _ h h' := by simp [inBounds, h, h']
  vram _ _ h h' := by simp [inBounds, h, h']
  buf _ _ h h' := by simp [inBounds, h, h']
  entry _ _ h _ h' := by simp [inBounds, h, h']
  store _ h h' := by simp [inBounds, h, h']
  reload _ h h' := by simp [inBounds, h, h']

/-! ### Coordinates -/

def SmallCoord (x : Int) : Prop := -536870912 ≤ x ∧ x ≤ 536870912

instance (x : Int) : Decidable (SmallCoord x) := inferInstanceAs (Decidable (_ ∧ _))

structure SmallRect (r : Rect) : Prop where
  vx0 : SmallCoord r.vx0
  vy0 : SmallCoord r.vy0
  vx1 : SmallCoord r.vx1
  vy1 : SmallCoord r.vy1

structure SmallSheet (sht : Sheet) : Prop where
  vx0 : SmallCoord sht.vx0
  vy0 : SmallCoord sht.vy0
  bxsize : SmallCoord sht.bxsize
  bysize : SmallCoord sht.bysize
  area : sht.bxsize * sht.bysize ≤ 2147483648

structure Small (ctl : Shtctl) : Prop where
  xsize : SmallCoord ctl.xsize
  ysize : SmallCoord ctl.ysize
  area : ctl.xsize * ctl.ysize ≤ 2147483648
  sheet : ∀ s, ctl.inUse s → SmallSheet (ctl.sheets0 s)

/-- Corners that are sums of two coordinates. -/
structure SumRect (r : Rect) : Prop where
  vx0 : -1073741824 ≤ r.vx0 ∧ r.vx0 ≤ 1073741824
  vy0 : -1073741824 ≤ r.vy0 ∧ r.vy0 ≤ 1073741824
  vx1 : -1073741824 ≤ r.vx1 ∧ r.vx1 ≤ 1073741824
  vy1 : -1073741824 ≤ r.vy1 ∧ r.vy1 ≤ 1073741824

theorem SmallCoord.add {x y : Int} (hx : SmallCoord x) (hy : SmallCoord y) :
    -1073741824 ≤ x + y ∧ x + y ≤ 1073741824 := by
  obtain ⟨h1, h2⟩ := hx
  obtain ⟨h3, h4⟩ := hy
  omega

theorem SmallCoord.sum {x : Int} (hx : SmallCoord x) : -1073741824 ≤ x ∧ x ≤ 1073741824 := by
  obtain ⟨h1, h2⟩ := hx
  omega

theorem isI32_of_sum {x : Int} (h : -1073741824 ≤ x ∧ x ≤ 1073741824) : IsI32 x := by
  obtain ⟨h1, h2⟩ := h
  exact ⟨by omega, by omega⟩

theorem SmallRect.sum {r : Rect} (h : SmallRect r) : SumRect r :=
  ⟨h.vx0.sum, h.vy0.sum, h.vx1.sum, h.vy1.sum⟩

theorem SmallSheet.rect {sht : Sheet} (h : SmallSheet sht) : SumRect sht.rect :=
  ⟨h.vx0.sum, h.vy0.sum, h.vx0.add h.bxsize, h.vy0.add h.bysize⟩

theorem SmallSheet.toScreen {sht : Sheet} (h : SmallSheet sht) {b : Rect} (hb : SmallRect b) :
    SumRect (sht.toScreen b) :=
  ⟨h.vx0.add hb.vx0, h.vy0.add hb.vy0, h.vx0.add hb.vx1, h.vy0.add hb.vy1⟩

theorem SmallSheet.corner {sht : Sheet} (h : SmallSheet sht) :
    ∀ a ∈ Checked.corner sht, ∃ x, a = .coord x ∧ IsI32 x := by
  intro a ha
  simp only [Checked.corner, List.mem_cons, List.not_mem_nil, or_false] at ha
  rcases ha with rfl | rfl
  · exact ⟨_, rfl, isI32_of_sum (h.vx0.add h.bxsize)⟩
  · exact ⟨_, rfl, isI32_of_sum (h.vy0.add h.bysize)⟩

/-- A corner cut to the screen, seen from the sheet. -/
theorem clipped_isI32 {v size x : Int} (hv : -1073741824 ≤ v ∧ v ≤ 1073741824)
    (hsize : SmallCoord size) (hx : SmallCoord x) :
    IsI32 ((if v < 0 then 0 else v) - x) ∧ IsI32 ((if v > size then size else v) - x) := by
  obtain ⟨h1, h2⟩ := hv
  obtain ⟨h3, h4⟩ := hsize
  obtain ⟨h5, h6⟩ := hx
  unfold IsI32
  split_ifs <;> omega

theorem Small.fits {ctl : Shtctl} (h : Small ctl) {r : Rect} (hr : SumRect r) :
    Checked.Fits IsI32 ctl r := by
  refine ⟨h.area, fun s hs => ?_⟩
  have hsht := h.sheet s hs
  refine ⟨fun bX h1 h2 => ?_, fun bY h1 h2 => ?_, hsht.area, fun a ha x hx => ?_⟩
  · have hb : SmallCoord bX := ⟨by omega, h2.le.trans hsht.bxsize.2⟩
    exact isI32_of_sum (hsht.vx0.add hb)
  · have hb : SmallCoord bY := ⟨by omega, h2.le.trans hsht.bysize.2⟩
    exact isI32_of_sum (hsht.vy0.add hb)
  · simp only [Checked.offsets, List.mem_cons, List.not_mem_nil, or_false] at ha
    rcases ha with rfl | rfl | rfl | rfl <;> obtain rfl := Access.coord.inj hx
    · exact (clipped_isI32 hr.vx0 h.xsize hsht.vx0).1
    · exact (clipped_isI32 hr.vy0 h.ysize hsht.vy0).1
    · exact (clipped_isI32 hr.vx1 h.xsize hsht.vx0).2
    · exact (clipped_isI32 hr.vy1 h.ysize hsht.vy0).2

theorem SameStack.small {a b : Shtctl} (h : SameStack a b) (ha : Small a) : Small b where
  xsize := h.xsize ▸ ha.xsize
  ysize := h.ysize ▸ ha.ysize
  area := h.xsize ▸ h.ysize ▸ ha.area
  sheet s hs := by
    rw [h.sheets0]
    exact ha.sheet s ((h.inUse s).mp hs)

/-! ### The calls -/

section Calls

variable {ok : Access → Bool} (hok : Checked.Permits ok IsI32) {ctl : Shtctl}
  (hc : Consistent ctl) (hsmall : Small ctl) {s : Sid} (hs : ctl.inUse s)
include hok hc hsmall

theorem checked_refreshmap {r : Rect} (hr : SumRect r) {h0 : Int} (hh0 : 0 ≤ h0) :
    Checked.sheetRefreshmap ok ctl r h0 = some (ctl.sheetRefreshmap r h0) :=
  Checked.sheetRefreshmap_eq hok hc (hsmall.fits hr) hh0

theorem checked_refreshsub {r : Rect} (hr : SumRect r) {h0 h1 : Int} (hh0 : 0 ≤ h0)
    (hh1 : h1 ≤ ctl.top) :
    Checked.sheetRefreshsub ok ctl r h0 h1 = some (ctl.sheetRefreshsub r h0 h1) :=
  Checked.sheetRefreshsub_eq hok hc (hsmall.fits hr) hh0 hh1

theorem checked_refreshShadow {shadows : List (Option Sid)} (hreg : Registered shadows ctl)
    (r : Rect) {g : Option Sid} (hg : g ∈ shadows) :
    Checked.refreshShadow ok s r ctl g = some (refreshShadow s r ctl g) := by
  cases g with
  | none => rfl
  | some g =>
    unfold Checked.refreshShadow refreshShadow
    dsimp only
    by_cases hvis : g ≠ s ∧ (ctl.sheets0 g).height ≥ 0
    · have hpos : 0 ≤ ctl.height g := hvis.2
      have huse : ctl.inUse g := (hreg g hg).resolve_right (by omega)
      have hsht := hsmall.sheet g huse
      have hrect := Checked.rect_eq hok hsht.corner
      rw [if_pos hvis, Checked.after_coords hok hsht.corner, Option.bind_some,
        show i32 ((ctl.sheets0 g).vx0 + (ctl.sheets0 g).bxsize) = _ from congrArg Rect.vx1 hrect,
        show i32 ((ctl.sheets0 g).vy0 + (ctl.sheets0 g).bysize) = _ from congrArg Rect.vy1 hrect,
        hrect]
      split_ifs with h1 h2 h2
      · exact checked_refreshsub hok hc hsmall hsht.rect hpos
          (hc.height_of_mem (hc.visible huse hpos)).2.1
      · exact absurd ⟨hvis.1, hvis.2, h1⟩ h2
      · exact absurd h2.2.2 h1
      · rfl
    · rw [if_neg hvis, if_neg fun h => hvis ⟨h.1, h.2.1⟩]

include hs

theorem checked_refresh {shadows : List (Option Sid)} (hreg : Registered shadows ctl) {b : Rect}
    (hb : SmallRect b) :
    Checked.sheetRefresh ok shadows ctl s b = some (ctl.sheetRefresh shadows s b) := by
  have hsht := hsmall.sheet s hs
  have hscreen := hsht.toScreen hb
  unfold Checked.sheetRefresh sheetRefresh
  dsimp only
  split_ifs with hvis
  · have hle : (ctl.sheets0 s).height ≤ ctl.top :=
      (hc.height_of_mem (hc.visible hs hvis)).2.1
    have hsums : ∀ a ∈ Checked.sums (ctl.sheets0 s) b, ∃ x, a = .coord x ∧ IsI32 x := by
      intro a ha
      simp only [Checked.sums, List.mem_cons, List.not_mem_nil, or_false] at ha
      rcases ha with rfl | rfl | rfl | rfl
      · exact ⟨_, rfl, isI32_of_sum hscreen.vx0⟩
      · exact ⟨_, rfl, isI32_of_sum hscreen.vy0⟩
      · exact ⟨_, rfl, isI32_of_sum hscreen.vx1⟩
      · exact ⟨_, rfl, isI32_of_sum hscreen.vy1⟩
    rw [Checked.after_coords hok hsums, Option.bind_some, Checked.toScreen_eq hok hsums,
      checked_refreshsub hok hc hsmall hscreen hvis hle, Option.bind_some]
    -- the shadow loop leaves the stack and the coordinates alone
    refine foldlM_eq (SameStack ctl) (fun c g hg hsame => ⟨?_, ?_⟩) (sameStack_refreshsub ..)
    · exact checked_refreshShadow hok (hsame.consistent hc) (hsame.small hsmall)
        (hsame.registered hreg) _ hg
    · exact hsame.trans (sameStack_refreshShadow s _ c g).1
  · rfl

theorem checked_slide {vx0 vy0 : Int} (hx : SmallCoord vx0) (hy : SmallCoord vy0) :
    Checked.sheetSlide ok ctl s vx0 vy0 = some (ctl.sheetSlide s vx0 vy0) := by
  have hsht := hsmall.sheet s hs
  have hnew : SmallSheet ((ctl.sheets0 s).moveTo vx0 vy0) := ⟨hx, hy, hsht.bxsize, hsht.bysize, hsht.area⟩
  have hshape : SameShape ctl (ctl.setSheet s ((ctl.sheets0 s).moveTo vx0 vy0)) :=
    sameShape_setSheet rfl rfl
  have hcm := hshape.consistent hc
  have hsm : Small (ctl.setSheet s ((ctl.sheets0 s).moveTo vx0 vy0)) := by
    refine ⟨hsmall.xsize, hsmall.ysize, hsmall.area, fun t ht => ?_⟩
    rw [setSheet_sheets0]
    split
    · exact hnew
    · exact hsmall.sheet t ((hshape.inUse t).mp ht)
  have hcorners : ∀ a ∈ Checked.corner (ctl.sheets0 s) ++
      Checked.corner ((ctl.sheets0 s).moveTo vx0 vy0), ∃ x, a = .coord x ∧ IsI32 x := by
    intro a ha
    rcases List.mem_append.mp ha with ha | ha
    · exact hsht.corner a ha
    · exact hnew.corner a ha
  have hself : (ctl.setSheet s ((ctl.sheets0 s).moveTo vx0 vy0)).sheets0 s =
      (ctl.sheets0 s).moveTo vx0 vy0 := by rw [setSheet_sheets0, if_pos rfl]
  unfold Checked.sheetSlide sheetSlide
  dsimp only
  rw [hself]
  split_ifs with hvis
  · have hmem := hc.visible hs hvis
    obtain ⟨h0, h1, -⟩ := hc.height_of_mem hmem
    generalize ctl.setSheet s ((ctl.sheets0 s).moveTo vx0 vy0) = c at hshape hcm hsm
    have htop : ctl.height s ≤ c.top := hshape.top ▸ h1
    have hsame := sameStack_refreshmap c (ctl.sheets0 s).rect 0
    have hsame' := hsame.trans (sameStack_refreshmap _
      ((ctl.sheets0 s).moveTo vx0 vy0).rect (ctl.height s))
    have hsame'' := hsame'.trans (sameStack_refreshsub _ (ctl.sheets0 s).rect 0
      (ctl.height s - 1))
    rw [Checked.after_coords hok hcorners, Option.bind_some, Checked.rect_eq hok hsht.corner,
      Checked.rect_eq hok hnew.corner, checked_refreshmap hok hcm hsm hsht.rect (Int.le_refl 0),
      Option.bind_some]
    change (Checked.sheetRefreshmap ok _ _ (ctl.height s)).bind _ = _
    rw [checked_refreshmap hok (hsame.consistent hcm) (hsame.small hsm) hnew.rect h0,
      Option.bind_some]
    change (Checked.sheetRefreshsub ok _ _ 0 (ctl.height s - 1)).bind _ = _
    rw [checked_refreshsub hok (hsame'.consistent hcm) (hsame'.small hsm) hsht.rect (Int.le_refl 0)
      (hsame'.top.symm ▸ (by omega : ctl.height s - 1 ≤ c.top)), Option.bind_some]
    exact checked_refreshsub hok (hsame''.consistent hcm) (hsame''.small hsm) hnew.rect h0
      (hsame''.top.symm ▸ htop)
  · rfl

theorem checked_updown {height : Int} (htarget : 0 ≤ ctl.height s → height ≤ ctl.top) :
    Checked.sheetUpdown ok ctl s height = some (ctl.sheetUpdown s height) :=
  Checked.sheetUpdown_eq hok hc hs (hsmall.fits (hsmall.sheet s hs).rect)
    (hsmall.sheet s hs).corner htarget

end Calls

/-- Every call of the five sheet functions runs to its end under a guard that stops it at the
first access outside an array. -/
theorem sheet_calls_in_bounds {ctl : Shtctl} (hc : Consistent ctl) (hsmall : Small ctl)
    {shadows : List (Option Sid)} (hreg : Registered shadows ctl) :
    (∀ r h0, SmallRect r → 0 ≤ h0 →
      Checked.sheetRefreshmap inBounds ctl r h0 = some (ctl.sheetRefreshmap r h0)) ∧
    (∀ r h0 h1, SmallRect r → 0 ≤ h0 → h1 ≤ ctl.top →
      Checked.sheetRefreshsub inBounds ctl r h0 h1 = some (ctl.sheetRefreshsub r h0 h1)) ∧
    (∀ s b, ctl.inUse s → SmallRect b →
      Checked.sheetRefresh inBounds shadows ctl s b = some (ctl.sheetRefresh shadows s b)) ∧
    (∀ s vx0 vy0, ctl.inUse s → SmallCoord vx0 → SmallCoord vy0 →
      Checked.sheetSlide inBounds ctl s vx0 vy0 = some (ctl.sheetSlide s vx0 vy0)) ∧
    ∀ s height, ctl.inUse s → (0 ≤ ctl.height s → height ≤ ctl.top) →
      Checked.sheetUpdown inBounds ctl s height = some (ctl.sheetUpdown s height) :=
  have hok := inBounds_permits
  ⟨fun _ _ hr h0 => checked_refreshmap hok hc hsmall hr.sum h0,
    fun _ _ _ hr h0 h1 => checked_refreshsub hok hc hsmall hr.sum h0 h1,
    fun _ _ hs hb => checked_refresh hok hc hsmall hs hreg hb,
    fun _ _ _ hs hx hy => checked_slide hok hc hsmall hs hx hy,
    fun _ _ hs htarget => checked_updown hok hc hsmall hs htarget⟩

theorem desk_small : Small desk where
  xsize := by decide
  ysize := by decide
  area := by decide
  sheet s _ := by
    have hall : ∀ s : Sid, SmallCoord (desk.sheets0 s).vx0 ∧ SmallCoord (desk.sheets0 s).vy0 ∧
      SmallCoord (desk.sheets0 s).bxsize ∧ SmallCoord (desk.sheets0 s).bysize ∧
      (desk.sheets0 s).bxsize * (desk.sheets0 s).bysize ≤ 2147483648 := by decide
    obtain ⟨hx, hy, hw, hh, harea⟩ := hall s
    exact ⟨hx, hy, hw, hh, harea⟩

theorem desk_registered : Registered [some 1, none] desk := by
  intro g hg
  simp only [List.mem_cons, Option.some.injEq, reduceCtorEq, List.not_mem_nil, or_false] at hg
  subst hg
  exact .inl (by decide)

theorem sheet_calls_in_bounds_desk :
    Checked.sheetUpdown inBounds desk 1 1 = some (desk.sheetUpdown 1 1) ∧
      Checked.sheetSlide inBounds desk 0 (-3) 2 = some (desk.sheetSlide 0 (-3) 2) ∧
      Checked.sheetRefresh inBounds [some 1, none] desk 0 ⟨-7, -7, 9, 9⟩ =
        some (desk.sheetRefresh [some 1, none] 0 ⟨-7, -7, 9, 9⟩) := by
  obtain ⟨-, -, hrefresh, hslide, hupdown⟩ :=
    sheet_calls_in_bounds desk_desktop.consistent desk_small desk_registered
  exact ⟨hupdown 1 1 (by decide) (by decide), hslide 0 (-3) 2 (by decide) (by decide) (by decide),
    hrefresh 0 ⟨-7, -7, 9, 9⟩ (by decide) ⟨by decide, by decide, by decide, by decide⟩⟩

attribute [local instance] Sid.neZero in
/-- A screen of 65536×65536 pixels with a sheet of one pixel in the middle of its left edge. -/
def bigDesk : Shtctl where
  vram := fun _ => 0
  map := fun _ => 0
  xsize := 65536
  ysize := 65536
  top := 0
  sheets := fun _ => 0
  sheets0 := fun s =>
    { buf := fun _ => 0x00008080
      bxsize := 1, bysize := 1, vx0 := 0, vy0 := 32768
      colInv := colInvNone
      height := if s = 0 then 0 else -1
      flags := if s = 0 then 1 else 0 }

/-- All coordinates are far below `2^29`, but the index of row 32768 wraps. -/
theorem bigDesk_out_of_bounds :
    Consistent bigDesk ∧ SmallCoord bigDesk.xsize ∧ SmallCoord bigDesk.ysize ∧
      (∀ s, SmallSheet (bigDesk.sheets0 s)) ∧ SmallRect ⟨0, 32768, 1, 32769⟩ ∧
      Checked.idx bigDesk 0 32768 = -2147483648 ∧
      Checked.sheetRefreshmap inBounds bigDesk ⟨0, 32768, 1, 32769⟩ 0 = none := by
  refine ⟨?_, by decide, by decide, fun s => ?_, ⟨by decide, by decide, by decide, by decide⟩,
    by decide, Option.isNone_iff_eq_none.mp (by decide +kernel)⟩
  · exact {
      top_ge := by decide
      used := fun _ _ _ => show bigDesk.inUse 0 by decide
      at_height := fun h h0 h1 => Int.le_antisymm h0 h1
      hidden_or := by decide }
  · exact ⟨show SmallCoord 0 by decide, show SmallCoord 32768 by decide,
      show SmallCoord 1 by decide, show SmallCoord 1 by decide,
      show (1 : Int) * 1 ≤ 2147483648 by decide⟩

end Shtctl

end WinDOS
