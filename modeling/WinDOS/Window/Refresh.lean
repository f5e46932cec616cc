import WinDOS.Window.Painter
import WinDOS.Window.Strokes
import WinDOS.Window.Wrapping

/-!
# When `sheet_refresh` is idempotent

At one screen pixel `sheet_refresh` draws the refreshed sheet and every registered shadow
window that overlaps the rectangle, each as a stroke. Shadow strokes subtract from the
frame buffer, so a second call darkens the pixel again unless a put comes first or nothing
is left to subtract. The rectangle and the positions are any `int`s: the sums with them may wrap.
-/

set_option autoImplicit false

namespace WinDOS

open Layers

/-- What a layer does to a screen pixel with map entry `owner`, if anything. -/
def strokeOf (sheets0 : Sid → Sheet) (owner : BitVec 8) (x y : Int) (s : Sid) : Option Stroke :=
  if (sheets0 s).covers x y then
    if ((sheets0 s).pixelAt x y).isShadow then
      some (.dim ((sheets0 s).pixelAt x y).blue.toNat)
    else if owner == sidByte s then some (.put ((sheets0 s).pixelAt x y))
    else none
  else none

theorem strokeOf_unmarked {sheets0 : Sid → Sheet} {owner : BitVec 8} {x y : Int} (l : List Sid) :
    ∀ k ∈ l.filterMap (strokeOf sheets0 owner x y), k.Unmarked := by
  rintro k hk c rfl
  obtain ⟨s, -, hs⟩ := List.mem_filterMap.mp hk
  unfold strokeOf at hs
  split_ifs at hs with h1 h2 h3
  · simp at hs
  · obtain rfl : (sheets0 s).pixelAt x y = c := by simpa using hs
    exact Pixel.isShadow_eq_false.mp (by simpa using h2)

/-- Only the layer named by the map puts a colour. -/
theorem strokeOf_put {sheets0 : Sid → Sheet} {owner : BitVec 8} {x y : Int} {s : Sid} {c : Pixel}
    (h : strokeOf sheets0 owner x y s = some (.put c)) :
    owner = sidByte s ∧ (sheets0 s).pixelAt x y = c := by
  unfold strokeOf at h
  split_ifs at h with h1 h2 h3
  · simp at h
  · exact ⟨by simpa using h3, by simpa using h⟩

namespace Stroke

theorem put_mem_of_lastPut {l : List Stroke} {c : Pixel} {n : Nat} (h : lastPut l = some (c, n)) :
    put c ∈ l := by
  induction l using List.reverseRecOn generalizing n with
  | nil => simp [lastPut] at h
  | append_singleton l k ih =>
    rw [lastPut_concat] at h
    cases k with
    | put d =>
      obtain ⟨rfl, -⟩ : d = c ∧ 0 = n := by simpa using h
      simp
    | dim depth =>
      simp only [Option.map_eq_some_iff] at h
      obtain ⟨⟨d, m⟩, hlast, heq⟩ := h
      obtain ⟨rfl, -⟩ : d = c ∧ m + depth = n := by simpa using heq
      exact List.mem_append_left _ (ih hlast)

end Stroke

namespace Shtctl

theorem foldl_paint_eq_strokes (sheets0 : Sid → Sheet) (owner : BitVec 8) (x y : Int)
    (l : List Sid) (v : Pixel) :
    l.foldl (paint sheets0 owner x y) v =
      (l.filterMap (strokeOf sheets0 owner x y)).foldl Stroke.apply v := by
  rw [List.foldl_filterMap]
  refine List.foldl_ext _ _ _ fun v s _ => ?_
  rw [paint, strokeOf]
  generalize (sheets0 s).covers x y = c
  generalize hsh : ((sheets0 s).pixelAt x y).isShadow = d
  generalize (owner == sidByte s) = e
  cases c <;> cases d <;> cases e <;> first | rfl | exact shade_eq _ _

/-- The shadow window an entry of `g_shadow_shts` makes `sheet_refresh` redraw. -/
def shadowRedrawn (ctl : Shtctl) (s : Sid) (r : Rect) : Option Sid → Option Sid
  | none => none
  | some g => if ctl.ShadowMeets s r g then some g else none

/-- The sheets `sheet_refresh` redraws at a screen pixel, in order. -/
def redrawn (ctl : Shtctl) (shadows : List (Option Sid)) (s : Sid) (b : Rect) (x y : Int) :
    List Sid :=
  let r := Checked.toScreen (ctl.sheets0 s) b
  [s].filter (ctl.hits r x y) ++ (shadows.filterMap (ctl.shadowRedrawn s r)).filter fun g =>
    ctl.hits (Checked.rect (ctl.sheets0 g)) x y g

def refreshStrokes (ctl : Shtctl) (shadows : List (Option Sid)) (s : Sid) (b : Rect) (x y : Int) :
    List Stroke :=
  (ctl.redrawn shadows s b x y).filterMap (strokeOf ctl.sheets0 (ctl.map (ctl.idx x y)) x y)

/-- The strokes of a refresh of the whole screen at a screen pixel. -/
def layerStrokes (ctl : Shtctl) (x y : Int) : List Stroke :=
  (ctl.layers.filter (ctl.hits ctl.screen x y)).filterMap
    (strokeOf ctl.sheets0 (ctl.map (ctl.idx x y)) x y)

section Sub

variable {shadows : List (Option Sid)} {ctl : Shtctl} (hc : Consistent ctl) (hint : Ints ctl)
  (hreg : Registered shadows ctl) {s : Sid} {x y : Int} (hon : ctl.OnScreen x y)
include hc

section Self

variable (hs : s ∈ ctl.layers)
include hs hint

theorem intRefreshsub_self (hon : ctl.OnScreen x y) (r : Rect) :
    (ctl.intRefreshsub r (ctl.height s) (ctl.height s)).vram (ctl.idx x y) =
      ([s].filter (ctl.hits r x y)).foldl (paint ctl.sheets0 (ctl.map (ctl.idx x y)) x y)
        (ctl.vram (ctl.idx x y)) := by
  obtain ⟨h0, h1, h2⟩ := hc.height_of_mem hs
  rw [intRefreshsub_at hc hint h0 h1 r hon, seg_cons ctl.sheets (by omega),
    seg_of_le ctl.sheets (by omega), h2]

theorem intRefreshsub_self_off {a : Int} (ha : ∀ x y, ctl.OnScreen x y → ctl.idx x y ≠ a)
    (r : Rect) : (ctl.intRefreshsub r (ctl.height s) (ctl.height s)).vram a = ctl.vram a := by
  obtain ⟨h0, h1, -⟩ := hc.height_of_mem hs
  exact intRefreshsub_off hc hint h0 h1 r ha

end Self

include hreg

theorem mem_of_meets {r : Rect} {g : Sid} (hg : some g ∈ shadows) (h : ctl.ShadowMeets s r g) :
    g ∈ ctl.layers :=
  hc.visible ((hreg g hg).resolve_right (Int.not_lt.mpr h.2.1)) h.2.1

include hint

theorem intRefreshShadow_at (hon : ctl.OnScreen x y) (r : Rect) {g : Option Sid} (hg : g ∈ shadows) :
    (intRefreshShadow s r ctl g).vram (ctl.idx x y) =
      ((ctl.shadowRedrawn s r g).toList.filter fun g =>
        ctl.hits (Checked.rect (ctl.sheets0 g)) x y g).foldl
        (paint ctl.sheets0 (ctl.map (ctl.idx x y)) x y) (ctl.vram (ctl.idx x y)) := by
  cases g with
  | none => rfl
  | some g =>
    rw [intRefreshShadow_some, shadowRedrawn]
    split
    · rename_i hmeets
      refine (intRefreshsub_self hc hint (mem_of_meets hc hreg hg hmeets) hon _).trans ?_
      rw [Option.toList_some, List.filter_singleton, List.filter_singleton]
    · rfl

theorem intRefreshShadow_off {a : Int} (ha : ∀ x y, ctl.OnScreen x y → ctl.idx x y ≠ a) (r : Rect)
    {g : Option Sid} (hg : g ∈ shadows) : (intRefreshShadow s r ctl g).vram a = ctl.vram a := by
  cases g with
  | none => rfl
  | some g =>
    rw [intRefreshShadow_some]
    split
    · rename_i hmeets
      exact intRefreshsub_self_off hc hint (mem_of_meets hc hreg hg hmeets) ha _
    · rfl

omit hreg hc hint in
theorem SameStack.shadowMeets {a b : Shtctl} (h : SameStack a b) {s : Sid} {r : Rect} {g : Sid} :
    b.ShadowMeets s r g ↔ a.ShadowMeets s r g := by
  unfold Shtctl.ShadowMeets
  rw [h.sheets0]

omit hreg hc hint in
theorem SameStack.shadowRedrawn {a b : Shtctl} (h : SameStack a b) (s : Sid) (r : Rect)
    (g : Option Sid) : b.shadowRedrawn s r g = a.shadowRedrawn s r g := by
  cases g with
  | none => rfl
  | some g => exact if_congr h.shadowMeets rfl rfl

omit hreg hc hint in
theorem intRefreshShadows_at (hc : Consistent ctl) (hint : Ints ctl) (hreg : Registered shadows ctl)
    (hon : ctl.OnScreen x y) (r : Rect) (l : List (Option Sid)) (hl : ∀ g ∈ l, g ∈ shadows) :
    (l.foldl (intRefreshShadow s r) ctl).vram (ctl.idx x y) =
      ((l.filterMap (ctl.shadowRedrawn s r)).filter fun g =>
        ctl.hits (Checked.rect (ctl.sheets0 g)) x y g).foldl
        (paint ctl.sheets0 (ctl.map (ctl.idx x y)) x y) (ctl.vram (ctl.idx x y)) := by
  induction l generalizing ctl with
  | nil => rfl
  | cons g l ih =>
    obtain ⟨hsame, hmap⟩ := intRefreshShadow_same s r ctl g
    have hstep := ih (hsame.consistent hc) (hsame.ints hint) (hsame.registered hreg)
      (hsame.onScreen.mpr hon) fun a ha => hl a (List.mem_cons_of_mem g ha)
    have hred : (intRefreshShadow s r ctl g).shadowRedrawn s r = ctl.shadowRedrawn s r :=
      funext (hsame.shadowRedrawn s r)
    simp only [hsame.idx, hmap, hsame.sheets0, hred, hsame.hits] at hstep
    rw [intRefreshShadow_at hc hint hreg hon r (hl g List.mem_cons_self)] at hstep
    rw [List.foldl_cons, hstep, ← List.foldl_append, ← List.filter_append]
    congr 2
    cases hr : ctl.shadowRedrawn s r g with
    | none => rw [List.filterMap_cons_none hr, Option.toList_none, List.nil_append]
    | some a => rw [List.filterMap_cons_some hr, Option.toList_some, List.singleton_append]

omit hreg hc hint in
theorem intRefreshShadows_off (hc : Consistent ctl) (hint : Ints ctl)
    (hreg : Registered shadows ctl) {a : Int} (ha : ∀ x y, ctl.OnScreen x y → ctl.idx x y ≠ a)
    (r : Rect) (l : List (Option Sid)) (hl : ∀ g ∈ l, g ∈ shadows) :
    (l.foldl (intRefreshShadow s r) ctl).vram a = ctl.vram a := by
  induction l generalizing ctl with
  | nil => rfl
  | cons g l ih =>
    obtain ⟨hsame, -⟩ := intRefreshShadow_same s r ctl g
    rw [List.foldl_cons, ih (hsame.consistent hc) (hsame.ints hint) (hsame.registered hreg)
      (fun x y hon => hsame.idx.symm ▸ ha x y (hsame.onScreen.mp hon))
      fun b hb => hl b (List.mem_cons_of_mem g hb)]
    exact intRefreshShadow_off hc hint hreg ha r (hl g List.mem_cons_self)

section Refreshed

variable (hs : s ∈ ctl.layers) (b : Rect)
include hs

theorem intRefresh_at (hon : ctl.OnScreen x y) :
    (ctl.intRefresh shadows s b).vram (ctl.idx x y) =
      (ctl.refreshStrokes shadows s b x y).foldl Stroke.apply (ctl.vram (ctl.idx x y)) := by
  obtain ⟨hsame, hmap⟩ := intRefreshsub_same ctl (Checked.toScreen (ctl.sheets0 s) b)
    (ctl.height s) (ctl.height s)
  have hloop := intRefreshShadows_at (s := s) (hsame.consistent hc) (hsame.ints hint)
    (hsame.registered hreg) (hsame.onScreen.mpr hon) (Checked.toScreen (ctl.sheets0 s) b) shadows
    fun _ => id
  have hred : (ctl.intRefreshsub (Checked.toScreen (ctl.sheets0 s) b) (ctl.height s)
      (ctl.height s)).shadowRedrawn s (Checked.toScreen (ctl.sheets0 s) b) =
      ctl.shadowRedrawn s (Checked.toScreen (ctl.sheets0 s) b) :=
    funext fun g => hsame.shadowRedrawn s _ g
  simp only [hsame.idx, hsame.sheets0, hmap, hred, hsame.hits] at hloop
  rw [intRefreshsub_self hc hint hs hon] at hloop
  rw [intRefresh_visible (hc.height_of_mem hs).1, refreshStrokes, ← foldl_paint_eq_strokes,
    redrawn, List.foldl_append, hloop]

theorem intRefresh_off {a : Int} (ha : ∀ x y, ctl.OnScreen x y → ctl.idx x y ≠ a) :
    (ctl.intRefresh shadows s b).vram a = ctl.vram a := by
  obtain ⟨hsame, -⟩ := intRefreshsub_same ctl (Checked.toScreen (ctl.sheets0 s) b)
    (ctl.height s) (ctl.height s)
  rw [intRefresh_visible (hc.height_of_mem hs).1,
    intRefreshShadows_off (hsame.consistent hc) (hsame.ints hint) (hsame.registered hreg)
      (fun x y hon => hsame.idx.symm ▸ ha x y (hsame.onScreen.mp hon)) _ _ fun _ => id]
  exact intRefreshsub_self_off hc hint hs ha _

end Refreshed

end Sub

/-! ### The conditions -/

theorem vram_eq_iff {ctl c c' : Shtctl}
    (h : ∀ a, (∀ x y, ctl.OnScreen x y → ctl.idx x y ≠ a) → c.vram a = c'.vram a) :
    c.vram = c'.vram ↔ ∀ x y, ctl.OnScreen x y → c.vram (ctl.idx x y) = c'.vram (ctl.idx x y) := by
  refine ⟨fun heq x y _ => by rw [heq], fun hall => funext fun a => ?_⟩
  by_cases ha : ∀ x y, ctl.OnScreen x y → ctl.idx x y ≠ a
  · exact h a ha
  · push Not at ha
    obtain ⟨x, y, hon, rfl⟩ := ha
    exact hall x y hon

/-- A second refresh repeats no subtraction: the owner of the pixel is redrawn with an
unmarked colour, or the redrawn shadows have depth 0 in all, or the pixel is so dark that
one refresh leaves every channel at 0. -/
def RepeatSafe (ctl : Shtctl) (shadows : List (Option Sid)) (s : Sid) (b : Rect) (x y : Int) :
    Prop :=
  let l := ctl.refreshStrokes shadows s b x y
  Stroke.lastPut l ≠ none ∨ Stroke.total l = 0 ∨ (ctl.vram (ctl.idx x y)).AtMost (Stroke.total l)

/-- A refresh of a composed screen composes the pixel as before: if its owner is redrawn, the
shadows drawn after it darken its colour as much as the visible shadows above it; if not,
the redrawn shadows have depth 0 in all, or the pixel is black. Only where a sum has wrapped can
a pixel be redrawn that the composition has left alone. -/
def ComposeSafe (ctl : Shtctl) (shadows : List (Option Sid)) (s : Sid) (b : Rect) (x y : Int) :
    Prop :=
  let l := ctl.refreshStrokes shadows s b x y
  let v := ctl.vram (ctl.idx x y)
  match Stroke.lastPut l, Stroke.lastPut (ctl.layerStrokes x y) with
  | some (c, n), some (_, n') => c.SameDim n n'
  | some (c, n), none => c.dim n = v
  | none, _ => l = [] ∨ v.high = 0 ∧ (Stroke.total l = 0 ∨ v.AtMost 0)

section Conditions

variable {shadows : List (Option Sid)} {ctl : Shtctl} (hc : Consistent ctl) (hint : Ints ctl)
  (hreg : Registered shadows ctl) {s : Sid} (hs : s ∈ ctl.layers) (b : Rect)
include hc hint hreg hs

theorem intRefresh_twice_iff :
    ((ctl.intRefresh shadows s b).intRefresh shadows s b).vram =
        (ctl.intRefresh shadows s b).vram ↔
      ∀ x y, ctl.OnScreen x y → ctl.RepeatSafe shadows s b x y := by
  obtain ⟨hsame, hmap⟩ := intRefresh_same shadows ctl s b
  have hidx := hsame.idx
  have hs' : s ∈ (ctl.intRefresh shadows s b).layers := hsame.layers ▸ hs
  rw [@vram_eq_iff ctl _ _ fun a ha => ?_]
  · refine forall₃_congr fun x y hon => ?_
    have h2 := intRefresh_at (hsame.consistent hc) (hsame.ints hint) (hsame.registered hreg) hs' b
      (hsame.onScreen.mpr hon)
    have hstrokes : (ctl.intRefresh shadows s b).refreshStrokes shadows s b x y =
        ctl.refreshStrokes shadows s b x y := by
      have hred : (ctl.intRefresh shadows s b).shadowRedrawn s = ctl.shadowRedrawn s :=
        funext fun r => funext fun g => hsame.shadowRedrawn s r g
      simp only [refreshStrokes, redrawn, hmap, hidx, hsame.sheets0, hred, hsame.hits]
    rw [hidx, hstrokes] at h2
    rw [h2, intRefresh_at hc hint hreg hs b hon]
    exact Stroke.run_twice_iff (strokeOf_unmarked _) _
  · exact intRefresh_off (hsame.consistent hc) (hsame.ints hint) (hsame.registered hreg) hs' b
      fun x y hon => hidx.symm ▸ ha x y (hsame.onScreen.mp hon)

end Conditions

section Composed

variable {shadows : List (Option Sid)} {ctl : Shtctl} {s : Sid}

/-- A refresh and the composition put no other colour than that of the owner in the map. -/
theorem put_eq {b : Rect} {x y : Int} {c d : Pixel} {n n' : Nat}
    (h : Stroke.lastPut (ctl.refreshStrokes shadows s b x y) = some (c, n))
    (h' : Stroke.lastPut (ctl.layerStrokes x y) = some (d, n')) : c = d := by
  obtain ⟨a, -, hput⟩ := List.mem_filterMap.mp (Stroke.put_mem_of_lastPut h)
  obtain ⟨a', -, hput'⟩ := List.mem_filterMap.mp (Stroke.put_mem_of_lastPut h')
  obtain ⟨howner, hpix⟩ := strokeOf_put hput
  obtain ⟨howner', hpix'⟩ := strokeOf_put hput'
  have haa : a = a' := sidByte_injective a a' (howner.symm.trans howner')
  rw [← hpix, ← hpix', haa]

theorem repaintBack_consistent (hc : Consistent ctl) (hook : Option TaskbarHook) :
    Consistent (ctl.repaintBack hook) :=
  hc.setSheet rfl id fun h => hc.inUse_of_mem h

theorem repaintBack_ints (hint : Ints ctl) (hook : Option TaskbarHook) :
    Ints (ctl.repaintBack hook) := by
  refine ⟨hint.xsize, hint.ysize, hint.area, fun t ht => ?_⟩
  rw [repaintBack, inUse, setSheet_sheets0] at ht
  rw [repaintBack, setSheet_sheets0]
  split at ht
  · have hback := hint.sheet (ctl.sheets 0) ht
    rw [if_pos ‹_›]
    exact ⟨hback.vx0, hback.vy0, hback.bxsize, hback.bysize, hback.area⟩
  · rw [if_neg ‹_›]
    exact hint.sheet t ht

theorem sameStack_intRefreshAll (ctl : Shtctl) (hook : Option TaskbarHook) :
    SameStack (ctl.repaintBack hook) (ctl.intRefreshAll hook) := by
  rw [intRefreshAll_redraws]
  exact (sameStack_intRefreshmap _ _ _).trans (intRefreshsub_same _ _ _ _).1

theorem intRefreshsub_strokes (hc : Consistent ctl) (hint : Ints ctl) {x y : Int}
    (hon : ctl.OnScreen x y) :
    (ctl.intRefreshsub ctl.screen 0 ctl.top).vram (ctl.idx x y) =
      ((ctl.intRefreshsub ctl.screen 0 ctl.top).layerStrokes x y).foldl Stroke.apply
        (ctl.vram (ctl.idx x y)) := by
  obtain ⟨hsame, hmap⟩ := intRefreshsub_same ctl ctl.screen 0 ctl.top
  rw [intRefreshsub_at hc hint (Int.le_refl 0) (Int.le_refl ctl.top) _ hon, layerStrokes,
    ← foldl_paint_eq_strokes, hsame.layers, hsame.screen, hsame.hits, hsame.sheets0, hmap, hsame.idx]
  rfl

/-- After `shtctl_refresh_all` a pixel is the run of strokes of all visible sheets. -/
theorem intRefreshAll_at (hc : Consistent ctl) (hint : Ints ctl) (hook : Option TaskbarHook)
    {x y : Int} (hon : ctl.OnScreen x y) :
    (ctl.intRefreshAll hook).vram (ctl.idx x y) =
      ((ctl.intRefreshAll hook).layerStrokes x y).foldl Stroke.apply (ctl.vram (ctl.idx x y)) := by
  have hsame := sameStack_intRefreshmap (ctl.repaintBack hook) (ctl.repaintBack hook).screen 0
  have hat := intRefreshsub_strokes (hsame.consistent (repaintBack_consistent hc hook))
    (hsame.ints (repaintBack_ints hint hook)) (hsame.onScreen.mpr hon)
  rw [hsame.idx, intRefreshmap_vram] at hat
  rw [intRefreshAll_redraws]
  exact hat

theorem intRefresh_composed_iff (hc : Consistent ctl) (hint : Ints ctl)
    (hreg : Registered shadows ctl) (hs : s ∈ ctl.layers) (hook : Option TaskbarHook) (b : Rect) :
    ((ctl.intRefreshAll hook).intRefresh shadows s b).vram = (ctl.intRefreshAll hook).vram ↔
      ∀ x y, ctl.OnScreen x y → (ctl.intRefreshAll hook).ComposeSafe shadows s b x y := by
  have hsame := ctl.sameStack_intRefreshAll hook
  have hc' := hsame.consistent (repaintBack_consistent hc hook)
  have hint' := hsame.ints (repaintBack_ints hint hook)
  have hreg' : Registered shadows (ctl.intRefreshAll hook) :=
    hsame.registered (hreg.setSheet rfl (.inl rfl))
  have hs' : s ∈ (ctl.intRefreshAll hook).layers := hsame.layers ▸ hs
  have hidx : (ctl.intRefreshAll hook).idx = ctl.idx := hsame.idx
  have hscreen : ∀ x y, (ctl.intRefreshAll hook).OnScreen x y ↔ ctl.OnScreen x y :=
    fun x y => hsame.onScreen
  rw [@vram_eq_iff ctl _ _ fun a ha => intRefresh_off hc' hint' hreg' hs' b fun x y hon =>
    hidx.symm ▸ ha x y ((hscreen x y).mp hon)]
  refine forall₃_congr fun x y hon => ?_
  have href := intRefresh_at hc' hint' hreg' hs' b ((hscreen x y).mpr hon)
  rw [hidx] at href
  rw [href]
  have hfix := Stroke.run_fixed_iff
    (l := (ctl.intRefreshAll hook).refreshStrokes shadows s b x y)
    (m := (ctl.intRefreshAll hook).layerStrokes x y) (strokeOf_unmarked _) (strokeOf_unmarked _)
    (v := ctl.vram (ctl.idx x y)) fun c n d n' => put_eq
  rw [← intRefreshAll_at hc hint hook hon] at hfix
  rw [ComposeSafe, hidx]
  exact hfix

/-- Refreshing twice is refreshing once, and refreshing a composed screen changes nothing,
exactly if no pixel is shaded again. -/
theorem sheetRefresh_idempotent_iff (hc : Consistent ctl) (hint : Ints ctl)
    (hreg : Registered shadows ctl) (hs : s ∈ ctl.layers) (hook : Option TaskbarHook) (b : Rect) :
    (((ctl.intRefresh shadows s b).intRefresh shadows s b).vram =
        (ctl.intRefresh shadows s b).vram ∧
      ((ctl.intRefreshAll hook).intRefresh shadows s b).vram = (ctl.intRefreshAll hook).vram) ↔
    ∀ x y, ctl.OnScreen x y →
      ctl.RepeatSafe shadows s b x y ∧ (ctl.intRefreshAll hook).ComposeSafe shadows s b x y := by
  rw [intRefresh_twice_iff hc hint hreg hs b, intRefresh_composed_iff hc hint hreg hs hook b]
  constructor
  · rintro ⟨h1, h2⟩ x y hon
    exact ⟨h1 x y hon, h2 x y hon⟩
  · intro h
    exact ⟨fun x y hon => (h x y hon).1, fun x y hon => (h x y hon).2⟩

end Composed

theorem markedDesk_registered (colInv : Pixel) : Registered [some 1] (markedDesk colInv) := by
  intro g hg
  obtain rfl : g = 1 := by simpa using hg
  exact .inl (show (1 : Nat) ≠ 0 by decide)

theorem markedDesk_ints (colInv : Pixel) : Ints (markedDesk colInv) where
  xsize := show IsI32 1 by decide
  ysize := show IsI32 1 by decide
  area := show (1 : Int) * 1 ≤ 2147483648 by decide
  sheet _ _ := ⟨show IsI32 0 by decide, show IsI32 0 by decide, show IsI32 1 by decide,
    show IsI32 1 by decide, show (1 : Int) * 1 ≤ 2147483648 by decide⟩

theorem sheetRefresh_idempotent_iff_markedDesk :
    ((((markedDesk 0x00FF00FF).intRefresh [some 1] 1 ⟨0, 0, 1, 1⟩).intRefresh [some 1] 1
          ⟨0, 0, 1, 1⟩).vram =
        ((markedDesk 0x00FF00FF).intRefresh [some 1] 1 ⟨0, 0, 1, 1⟩).vram ∧
      (((markedDesk 0x00FF00FF).intRefreshAll none).intRefresh [some 1] 1 ⟨0, 0, 1, 1⟩).vram =
        ((markedDesk 0x00FF00FF).intRefreshAll none).vram) ↔
    ∀ x y, (markedDesk 0x00FF00FF).OnScreen x y →
      (markedDesk 0x00FF00FF).RepeatSafe [some 1] 1 ⟨0, 0, 1, 1⟩ x y ∧
      ((markedDesk 0x00FF00FF).intRefreshAll none).ComposeSafe [some 1] 1 ⟨0, 0, 1, 1⟩ x y :=
  sheetRefresh_idempotent_iff (markedDesk_desktop _).consistent (markedDesk_ints _)
    (markedDesk_registered _) (by decide) none _

/-- A composed screen with one shadow pixel gets darker with each refresh of its window. -/
theorem sheetRefresh_darkens :
    let ctl := (markedDesk 0x00FF00FF).intRefreshAll none
    Consistent ctl ∧ Ints ctl ∧ Registered [some 1] ctl ∧ (1 : Sid) ∈ ctl.layers ∧
    ctl.vram 0 = 0x00007B7B ∧
    (ctl.intRefresh [some 1] 1 ⟨0, 0, 1, 1⟩).vram 0 = 0x00007676 ∧
    ((ctl.intRefresh [some 1] 1 ⟨0, 0, 1, 1⟩).intRefresh [some 1] 1 ⟨0, 0, 1, 1⟩).vram 0 =
      0x00007171 := by
  have hsame := (markedDesk 0x00FF00FF).sameStack_intRefreshAll none
  refine ⟨?_, ?_, ?_, ?_, by decide +kernel, by decide +kernel, by decide +kernel⟩
  · exact hsame.consistent (repaintBack_consistent (markedDesk_desktop _).consistent none)
  · exact hsame.ints (repaintBack_ints (markedDesk_ints _) none)
  · exact hsame.registered ((markedDesk_registered _).setSheet rfl (.inl rfl))
  · rw [hsame.layers]
    decide

end Shtctl

end WinDOS
