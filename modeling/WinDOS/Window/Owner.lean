import Mathlib.Logic.Relation
import WinDOS.Window.AtPixel
import WinDOS.Window.Stack

/-!
# The map names the topmost opaque sheet

The owner of a screen pixel is the topmost visible sheet that is opaque there. Every call
recomputes the map in one or two rectangles and from some height on; the invariant
`MapRight` says that it nevertheless names the owner everywhere.
-/

set_option autoImplicit false

namespace WinDOS

open Layers

namespace Shtctl

/-- The topmost visible sheet that is opaque at a screen pixel. -/
def owner (ctl : Shtctl) (x y : Int) : Option Sid :=
  topmost (ctl.opaqueLayer x y) ctl.layers

def MapRight (ctl : Shtctl) : Prop :=
  ∀ x y, ctl.OnScreen x y → (ctl.owner x y).map sidByte = some (ctl.map (ctl.idx x y))

/-- `back` is an opaque full-screen sheet at height 0. -/
structure Desktop (ctl : Shtctl) (back : Sid) : Prop where
  consistent : Consistent ctl
  bottom : ctl.layers.head? = some back
  solid : (ctl.sheets0 back).colInv = colInvNone
  left : (ctl.sheets0 back).vx0 = 0
  upper : (ctl.sheets0 back).vy0 = 0
  width : ctl.xsize ≤ (ctl.sheets0 back).bxsize
  depth : ctl.ysize ≤ (ctl.sheets0 back).bysize

/-- Heights, the order and the sheets in use agree. -/
structure SameShape (c c' : Shtctl) : Prop where
  top : c'.top = c.top
  sheets : c'.sheets = c.sheets
  height : ∀ s, c'.height s = c.height s
  inUse : ∀ s, c'.inUse s ↔ c.inUse s

namespace SameShape

variable {a b c : Shtctl}

theorem refl (c : Shtctl) : SameShape c c := ⟨rfl, rfl, fun _ => rfl, fun _ => .rfl⟩

theorem trans (h : SameShape a b) (h' : SameShape b c) : SameShape a c :=
  ⟨h'.top.trans h.top, h'.sheets.trans h.sheets, fun s => (h'.height s).trans (h.height s),
    fun s => (h'.inUse s).trans (h.inUse s)⟩

theorem layers (h : SameShape a b) : b.layers = a.layers := by
  unfold Shtctl.layers
  rw [h.sheets, h.top]

theorem consistent (h : SameShape a b) (hc : Consistent a) : Consistent b where
  top_ge := by rw [h.top]; exact hc.top_ge
  used k h0 h1 := by
    rw [h.inUse, h.sheets]
    exact hc.used k h0 (by rwa [h.top] at h1)
  at_height k h0 h1 := by
    rw [h.height, h.sheets]
    exact hc.at_height k h0 (by rwa [h.top] at h1)
  hidden_or s hs := by
    rw [h.height, h.layers]
    exact hc.hidden_or s ((h.inUse s).mp hs)

end SameShape

/-- Only the map and the frame buffer differ. -/
structure SameStack (c c' : Shtctl) : Prop where
  xsize : c'.xsize = c.xsize
  ysize : c'.ysize = c.ysize
  top : c'.top = c.top
  sheets : c'.sheets = c.sheets
  sheets0 : c'.sheets0 = c.sheets0

namespace SameStack

variable {a b c : Shtctl}

theorem refl (c : Shtctl) : SameStack c c := ⟨rfl, rfl, rfl, rfl, rfl⟩

theorem trans (h : SameStack a b) (h' : SameStack b c) : SameStack a c :=
  ⟨h'.xsize.trans h.xsize, h'.ysize.trans h.ysize, h'.top.trans h.top, h'.sheets.trans h.sheets,
    h'.sheets0.trans h.sheets0⟩

theorem symm (h : SameStack a b) : SameStack b a :=
  ⟨h.xsize.symm, h.ysize.symm, h.top.symm, h.sheets.symm, h.sheets0.symm⟩

theorem height (h : SameStack a b) (s : Sid) : b.height s = a.height s := by
  unfold Shtctl.height
  rw [h.sheets0]

theorem inUse (h : SameStack a b) (s : Sid) : b.inUse s ↔ a.inUse s := by
  unfold Shtctl.inUse
  rw [h.sheets0]

theorem sameShape (h : SameStack a b) : SameShape a b :=
  ⟨h.top, h.sheets, h.height, h.inUse⟩

theorem layers (h : SameStack a b) : b.layers = a.layers := h.sameShape.layers

theorem consistent (h : SameStack a b) (hc : Consistent a) : Consistent b :=
  h.sameShape.consistent hc

theorem opaqueLayer (h : SameStack a b) : b.opaqueLayer = a.opaqueLayer := by
  funext x y s
  unfold Shtctl.opaqueLayer
  rw [h.sheets0]

theorem owner (h : SameStack a b) : b.owner = a.owner := by
  funext x y
  unfold Shtctl.owner
  rw [h.opaqueLayer, h.layers]

theorem onScreen (h : SameStack a b) {x y : Int} : b.OnScreen x y ↔ a.OnScreen x y := by
  unfold OnScreen
  rw [h.xsize, h.ysize]

theorem screen (h : SameStack a b) : b.screen = a.screen := by
  unfold Shtctl.screen
  rw [h.xsize, h.ysize]

theorem idx (h : SameStack a b) : b.idx = a.idx := by
  funext x y
  unfold Shtctl.idx
  rw [h.xsize]

theorem desktop (h : SameStack a b) {back : Sid} (hd : Desktop a back) : Desktop b back where
  consistent := h.consistent hd.consistent
  bottom := by rw [h.layers, hd.bottom]
  solid := by rw [h.sheets0, hd.solid]
  left := by rw [h.sheets0, hd.left]
  upper := by rw [h.sheets0, hd.upper]
  width := by rw [h.sheets0, h.xsize]; exact hd.width
  depth := by rw [h.sheets0, h.ysize]; exact hd.depth

end SameStack

theorem sameStack_refreshmap (ctl : Shtctl) (r : Rect) (h0 : Int) :
    SameStack ctl (ctl.sheetRefreshmap r h0) := ⟨rfl, rfl, rfl, rfl, rfl⟩

theorem sameStack_refreshsub (ctl : Shtctl) (r : Rect) (h0 h1 : Int) :
    SameStack ctl (ctl.sheetRefreshsub r h0 h1) := ⟨rfl, rfl, rfl, rfl, rfl⟩

@[simp] theorem sheetRefreshsub_map (ctl : Shtctl) (r : Rect) (h0 h1 : Int) :
    (ctl.sheetRefreshsub r h0 h1).map = ctl.map := rfl

@[simp] theorem sheetRefreshmap_vram (ctl : Shtctl) (r : Rect) (h0 : Int) :
    (ctl.sheetRefreshmap r h0).vram = ctl.vram := rfl

theorem sameStack_refreshShadow (s : Sid) (r : Rect) (ctl : Shtctl) (g : Option Sid) :
    SameStack ctl (refreshShadow s r ctl g) ∧ (refreshShadow s r ctl g).map = ctl.map := by
  cases g with
  | none => exact ⟨.refl ctl, rfl⟩
  | some g =>
    simp only [refreshShadow]
    split
    · exact ⟨sameStack_refreshsub _ _ _ _, rfl⟩
    · exact ⟨.refl ctl, rfl⟩

theorem sameStack_sheetRefresh (shadows : List (Option Sid)) (ctl : Shtctl) (s : Sid) (b : Rect) :
    SameStack ctl (ctl.sheetRefresh shadows s b) ∧
      (ctl.sheetRefresh shadows s b).map = ctl.map := by
  unfold sheetRefresh
  dsimp only
  split
  · have hloop : ∀ (l : List (Option Sid)) (r : Rect) (c : Shtctl), SameStack ctl c → c.map = ctl.map →
        SameStack ctl (l.foldl (refreshShadow s r) c) ∧
          (l.foldl (refreshShadow s r) c).map = ctl.map := by
      intro l r
      induction l with
      | nil => exact fun c hc hm => ⟨hc, hm⟩
      | cons g l ih =>
        intro c hc hm
        obtain ⟨h1, h2⟩ := sameStack_refreshShadow s r c g
        exact ih _ (hc.trans h1) (h2.trans hm)
    exact hloop _ _ _ (sameStack_refreshsub _ _ _ _) rfl
  · exact ⟨.refl ctl, rfl⟩

/-! ### One refresh of the map -/

theorem seg_of_layers {ctl : Shtctl} {low up : List Sid} (h : ctl.layers = low ++ up) :
    seg ctl.sheets low.length (ctl.top + 1) = up := by
  have hlen := congrArg List.length h
  rw [List.length_append, layers, seg_length] at hlen
  have hdrop := drop_seg ctl.sheets (a := 0) (b := ctl.top + 1) (n := low.length)
  by_cases hle : 0 ≤ ctl.top + 1
  · rw [Int.zero_add] at hdrop
    rw [← hdrop (by omega), ← layers, h, List.drop_left]
  · rw [seg_of_le _ (by omega)]
    exact (List.eq_nil_of_length_eq_zero (by omega)).symm

/-- A refresh from the lowest layer that may have changed makes the entry of a pixel right. -/
theorem sheetRefreshmap_owner {ctl : Shtctl} {x y : Int} (hon : ctl.OnScreen x y)
    {low up : List Sid} (hlayers : ctl.layers = low ++ up) (r : Rect) {old : Option Sid}
    (hold : old.map sidByte = some (ctl.map (ctl.idx x y)))
    (hin : r.contains x y = true → (∀ a ∈ up, ctl.opaqueLayer x y a = false) →
      old = topmost (ctl.opaqueLayer x y) low)
    (hout : r.contains x y = false → old = ctl.owner x y) :
    (ctl.owner x y).map sidByte =
      some ((ctl.sheetRefreshmap r low.length).map (ctl.idx x y)) := by
  rw [sheetRefreshmap_at hon, seg_of_layers hlayers]
  by_cases hr : r.contains x y = true
  · rw [if_pos hr, owner, hlayers, ← topmost_upper (hin hr)]
    cases htop : topmost (ctl.opaqueLayer x y) up with
    | some s => rfl
    | none => simpa using hold
  · rw [if_neg hr, ← hold, hout (by simpa using hr)]

theorem Frame.opaqueLayer {c c' : Shtctl} (h : Frame c c') :
    c'.opaqueLayer = c.opaqueLayer := by
  funext x y s
  unfold Shtctl.opaqueLayer
  rw [h.sheet s]
  rfl

theorem Frame.idx {c c' : Shtctl} (h : Frame c c') : c'.idx = c.idx := by
  funext x y
  rw [Shtctl.idx, Shtctl.idx, h.xsize]

theorem Frame.onScreen {c c' : Shtctl} (h : Frame c c') {x y : Int} :
    c'.OnScreen x y ↔ c.OnScreen x y := by
  rw [OnScreen, OnScreen, h.xsize, h.ysize]

theorem Frame.pixelAt {c c' : Shtctl} (h : Frame c c') (t : Sid) (x y : Int) :
    (c'.sheets0 t).pixelAt x y = (c.sheets0 t).pixelAt x y := by
  rw [h.sheet]
  rfl

theorem opaqueAt_off {sht : Sheet} {x y : Int} (h : sht.rect.contains x y = false) :
    sht.opaqueAt x y = false := by
  rw [Sheet.opaqueAt, Sheet.covers, h, Bool.false_and]

section Restack

variable {ctl st res : Shtctl} {s : Sid} (h : Updown ctl s st res)
include h

theorem Updown.sameStack : SameStack st res := by
  cases h with
  | same => exact .refl st
  | _ => exact (sameStack_refreshmap _ _ _).trans (sameStack_refreshsub _ _ _ _)

/-- Where `s` is not opaque, restacking it changes no owner. -/
theorem Updown.owner_off (hframe : Frame ctl st) {x y : Int}
    (hs : ctl.opaqueLayer x y s = false) : st.owner x y = ctl.owner x y := by
  unfold owner
  rw [hframe.opaqueLayer]
  cases h with
  | same order => rw [order]
  | lower below passed above before after =>
    rw [before, after, ← List.append_assoc below passed (s :: above), topmost_insert hs,
      topmost_insert hs, List.append_assoc]
  | hide below above before after => rw [before, after, topmost_insert hs]
  | raise below passed above before after =>
    rw [before, after, topmost_insert hs, topmost_insert hs, List.append_assoc]
  | appear below above before after => rw [before, after, topmost_insert hs]

/-- The map entry of a pixel is right after the call if it was before. -/
theorem Updown.map_right (hframe : Frame ctl st) {x y : Int} (hon : ctl.OnScreen x y)
    (hold : (ctl.owner x y).map sidByte = some (ctl.map (ctl.idx x y)))
    (hfirst : st.owner x y ≠ none) :
    (st.owner x y).map sidByte = some (res.map (ctl.idx x y)) := by
  have hoff : (ctl.sheets0 s).rect.contains x y = false → ctl.owner x y = st.owner x y :=
    fun hr => (h.owner_off hframe (opaqueAt_off hr)).symm
  have hon' : st.OnScreen x y := hframe.onScreen.mpr hon
  rw [← hframe.idx, ← hframe.map] at hold
  rw [← hframe.idx]
  have hp := hframe.opaqueLayer
  cases h with
  | same order =>
    have howner : st.owner x y = ctl.owner x y := by rw [owner, owner, order, hp]
    rw [howner, hold]
  | lower below passed above before after =>
    have hlen : (below.length : Int) + 1 = ((below ++ [s]).length : Int) := by simp
    rw [sheetRefreshsub_map, hlen]
    refine sheetRefreshmap_owner hon' (by rw [after]; simp : st.layers = _ ++ (passed ++ above)) _ hold
      (fun _ hup => ?_) hoff
    rw [hp] at hup ⊢
    have habove : topmost (ctl.opaqueLayer x y) above = none :=
      topmost_eq_none_iff.mpr fun a ha => hup a (List.mem_append_right _ ha)
    have hpassed : topmost (ctl.opaqueLayer x y) passed = none :=
      topmost_eq_none_iff.mpr fun a ha => hup a (List.mem_append_left _ ha)
    rw [owner, before, topmost_append, topmost_append, topmost_cons, habove, hpassed,
      topmost_append, topmost_cons]
    simp
  | hide below above before after =>
    rw [sheetRefreshsub_map]
    refine @sheetRefreshmap_owner _ _ _ hon' [] _ (List.nil_append _).symm _ _ hold
      (fun _ hup => ?_) hoff
    exact absurd (topmost_eq_none_iff.mpr hup) hfirst
  | raise below passed above before after =>
    rw [sheetRefreshsub_map]
    refine sheetRefreshmap_owner hon' after _ hold (fun _ hup => ?_) hoff
    rw [hp] at hup ⊢
    have hs := hup s List.mem_cons_self
    have habove : topmost (ctl.opaqueLayer x y) above = none :=
      topmost_eq_none_iff.mpr fun a ha => hup a (List.mem_cons_of_mem s ha)
    rw [owner, before, topmost_insert hs, ← List.append_assoc, topmost_append, habove,
      Option.none_or]
  | appear below above before after =>
    rw [sheetRefreshsub_map]
    refine sheetRefreshmap_owner hon' after _ hold (fun _ hup => ?_) hoff
    rw [hp] at hup ⊢
    have habove : topmost (ctl.opaqueLayer x y) above = none :=
      topmost_eq_none_iff.mpr fun a ha => hup a (List.mem_cons_of_mem s ha)
    rw [owner, before, topmost_append, habove, Option.none_or]

end Restack

/-! ### Moving a sheet -/

theorem setSheet_sheets0 (ctl : Shtctl) (s t : Sid) (sht : Sheet) :
    (ctl.setSheet s sht).sheets0 t = if t = s then sht else ctl.sheets0 t :=
  Function.update_apply _ _ _ _

@[simp] theorem setSheet_layers (ctl : Shtctl) (s : Sid) (sht : Sheet) :
    (ctl.setSheet s sht).layers = ctl.layers := rfl

theorem setSheet_opaqueLayer_ne {ctl : Shtctl} {s t : Sid} (h : t ≠ s) (sht : Sheet) (x y : Int) :
    (ctl.setSheet s sht).opaqueLayer x y t = ctl.opaqueLayer x y t := by
  rw [opaqueLayer, opaqueLayer, setSheet_sheets0, if_neg h]

theorem setSheet_opaqueLayer {ctl : Shtctl} {s : Sid} {sht : Sheet} {x y : Int}
    (h : sht.opaqueAt x y = (ctl.sheets0 s).opaqueAt x y) :
    (ctl.setSheet s sht).opaqueLayer x y = ctl.opaqueLayer x y := by
  funext t
  by_cases ht : t = s
  · rw [opaqueLayer, setSheet_sheets0, if_pos ht, h, ht]
    rfl
  · exact setSheet_opaqueLayer_ne ht sht x y

theorem setSheet_owner {ctl : Shtctl} {s : Sid} {sht : Sheet} {x y : Int}
    (h : sht.opaqueAt x y = (ctl.sheets0 s).opaqueAt x y) :
    (ctl.setSheet s sht).owner x y = ctl.owner x y := by
  rw [owner, owner, setSheet_opaqueLayer h, setSheet_layers]

theorem Consistent.split {ctl : Shtctl} (hc : Consistent ctl) {s : Sid} (hs : s ∈ ctl.layers) :
    ∃ below above, ctl.layers = below ++ s :: above ∧ (below.length : Int) = ctl.height s ∧
      s ∉ below ∧ s ∉ above := by
  have h0 := (hc.height_of_mem hs).1
  have hsplit := hc.layers_at hs
  have hnodup := hc.layers_nodup
  rw [hsplit] at hnodup
  refine ⟨_, _, hsplit, ?_, ?_, ?_⟩
  · rw [seg_length_int ctl.sheets h0, Int.sub_zero]
  · intro hm
    exact (List.nodup_append.mp hnodup).2.2 s hm s List.mem_cons_self rfl
  · exact (List.nodup_cons.mp (List.nodup_append.mp hnodup).2.1).1

section Slide

variable {ctl c : Shtctl} {s : Sid} {sht : Sheet} {below above : List Sid} {x y : Int}

/-- Where the old place of a moved sheet is not opaque and neither it at its new place nor a
layer above it is, the owner is the topmost of the layers below, before and after. -/
theorem owner_below (hlayers : ctl.layers = below ++ s :: above) (hbelow : s ∉ below)
    (habove : s ∉ above) (hs : ctl.opaqueLayer x y s = false)
    (hup : ∀ a ∈ above, (ctl.setSheet s sht).opaqueLayer x y a = false) :
    ctl.owner x y = topmost ((ctl.setSheet s sht).opaqueLayer x y) below := by
  have hne : ∀ t, t ≠ s → (ctl.setSheet s sht).opaqueLayer x y t = ctl.opaqueLayer x y t :=
    fun t ht => setSheet_opaqueLayer_ne ht sht x y
  have hnone : topmost (ctl.opaqueLayer x y) above = none := topmost_eq_none_iff.mpr fun a ha => by
    rw [← hne a fun h => habove (h ▸ ha)]
    exact hup a ha
  rw [owner, hlayers, topmost_insert hs, topmost_append, hnone, Option.none_or]
  exact topmost_congr fun a ha => (hne a fun h => hbelow (h ▸ ha)).symm

/-- The two refreshes of `sheet_slide` make the map entry of a pixel right. -/
theorem slide_map_right (hlayers : ctl.layers = below ++ s :: above) (hbelow : s ∉ below)
    (habove : s ∉ above) (hon : ctl.OnScreen x y)
    (hold : (ctl.owner x y).map sidByte = some (ctl.map (ctl.idx x y)))
    (hfirst : (ctl.setSheet s sht).owner x y ≠ none) :
    ((ctl.setSheet s sht).owner x y).map sidByte =
      some ((((ctl.setSheet s sht).sheetRefreshmap (ctl.sheets0 s).rect 0).sheetRefreshmap
        sht.rect below.length).map (ctl.idx x y)) := by
  have hc1 : (ctl.setSheet s sht).layers = below ++ s :: above := hlayers
  have hm1 := sameStack_refreshmap (ctl.setSheet s sht) (ctl.sheets0 s).rect 0
  by_cases hr : (ctl.sheets0 s).rect.contains x y = true
  · have hentry : ((ctl.setSheet s sht).owner x y).map sidByte =
        some (((ctl.setSheet s sht).sheetRefreshmap (ctl.sheets0 s).rect 0).map (ctl.idx x y)) :=
      @sheetRefreshmap_owner (ctl.setSheet s sht) _ _ hon [] _ (List.nil_append _).symm _ _
        hold (fun _ hup => absurd (topmost_eq_none_iff.mpr hup) hfirst)
        fun h => absurd hr (by simp [h])
    rw [← hm1.owner]
    refine sheetRefreshmap_owner (hm1.onScreen.mpr hon) (hm1.layers.trans hc1) _ hentry
      (fun _ hup => ?_) fun _ => by rw [hm1.owner]
    rw [hm1.opaqueLayer] at hup ⊢
    rw [owner, hc1, topmost_append, topmost_eq_none_iff.mpr hup, Option.none_or]
  · have hr : (ctl.sheets0 s).rect.contains x y = false := by simpa using hr
    have hentry : ((ctl.setSheet s sht).sheetRefreshmap (ctl.sheets0 s).rect 0).map (ctl.idx x y) =
        ctl.map (ctl.idx x y) := by
      have hat := @sheetRefreshmap_at (ctl.setSheet s sht) _ _ hon (ctl.sheets0 s).rect 0
      rw [hr] at hat
      exact hat
    have hs : ctl.opaqueLayer x y s = false := opaqueAt_off hr
    rw [← hentry] at hold
    rw [← hm1.owner]
    refine sheetRefreshmap_owner (hm1.onScreen.mpr hon) (hm1.layers.trans hc1) _ hold
      (fun _ hup => ?_) fun hout => ?_
    · rw [hm1.opaqueLayer] at hup ⊢
      exact owner_below hlayers hbelow habove hs fun a ha => hup a (List.mem_cons_of_mem s ha)
    · rw [hm1.owner]
      exact (setSheet_owner ((opaqueAt_off hout).trans hs.symm)).symm

end Slide

end Shtctl

end WinDOS
