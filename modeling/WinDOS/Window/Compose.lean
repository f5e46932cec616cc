import WinDOS.Window.Runs

/-!
# Incremental drawing agrees with a full redraw

Without shadow pixels a refresh writes a screen pixel only through its owner. Each call
redraws some heights in one or two rectangles; a pixel it leaves alone still shows the
buffer pixel of its owner, because the owner has not changed.
-/

set_option autoImplicit false

namespace WinDOS

open Layers

/-- No pixel of the sheet carries the shadow marker. -/
def Sheet.Plain (sht : Sheet) : Prop :=
  ∀ bX bY, 0 ≤ bX → bX < sht.bxsize → 0 ≤ bY → bY < sht.bysize → (sht.pixel bX bY).isShadow = false

theorem Sheet.Plain.pixelAt {sht : Sheet} (h : sht.Plain) {x y : Int}
    (hcov : sht.covers x y = true) : (sht.pixelAt x y).isShadow = false := by
  have hin := Rect.contains_iff.mp hcov
  simp only [Sheet.rect] at hin
  exact h _ _ (by omega) (by omega) (by omega) (by omega)

theorem sidByte_injective : ∀ s t : Sid, sidByte s = sidByte t → s = t := by decide

namespace Shtctl

def Plain (ctl : Shtctl) : Prop := ∀ s, ctl.inUse s → (ctl.sheets0 s).Plain

theorem SameStack.plain {a b : Shtctl} (h : SameStack a b) (hp : Plain a) : Plain b := by
  intro s hs
  rw [h.sheets0]
  exact hp s ((h.inUse s).mp hs)

/-- The pixel belongs to its owner in the map and shows the owner's buffer pixel. -/
def Shows (ctl : Shtctl) (x y : Int) : Prop :=
  ∃ s, ctl.owner x y = some s ∧ ctl.map (ctl.idx x y) = sidByte s ∧
    ctl.vram (ctl.idx x y) = (ctl.sheets0 s).pixelAt x y

/-- `sheet_refreshmap` and `sheet_refreshsub` over the whole screen and all heights. -/
def redrawAll (ctl : Shtctl) : Shtctl :=
  (ctl.sheetRefreshmap ctl.screen 0).sheetRefreshsub ctl.screen 0 ctl.top

theorem shtctlRefreshAll_eq (hook : Option TaskbarHook) (ctl : Shtctl) :
    ctl.shtctlRefreshAll hook = (ctl.repaintBack hook).redrawAll := rfl

theorem owner_mem {ctl : Shtctl} {x y : Int} {s : Sid} (h : ctl.owner x y = some s) :
    s ∈ ctl.layers ∧ (ctl.sheets0 s).covers x y = true := by
  obtain ⟨hmem, hop⟩ := mem_of_topmost h
  rw [opaqueLayer, Sheet.opaqueAt, Bool.and_eq_true] at hop
  exact ⟨hmem, hop.1⟩

theorem foldl_paint_plain {sheets0 : Sid → Sheet} {x y : Int} {t : Sid}
    (hcov : (sheets0 t).covers x y = true) (l : List Sid) (hplain : ∀ s ∈ l, (sheets0 s).Plain)
    (v : Pixel) :
    l.foldl (paint sheets0 (sidByte t) x y) v = if t ∈ l then (sheets0 t).pixelAt x y else v := by
  induction l generalizing v with
  | nil => simp
  | cons s l ih =>
    have hs := hplain s List.mem_cons_self
    rw [List.foldl_cons, ih fun a ha => hplain a (List.mem_cons_of_mem s ha)]
    have hstep : paint sheets0 (sidByte t) x y v s =
        if t = s then (sheets0 t).pixelAt x y else v := by
      unfold paint
      by_cases hts : t = s
      · subst hts
        rw [if_pos (by simp [hcov]), if_pos rfl, hs.pixelAt hcov]
        rfl
      · have hbyte : (sidByte t == sidByte s) = false :=
          beq_eq_false_iff_ne.mpr fun h => hts (sidByte_injective t s h)
        rw [hbyte, if_neg hts, Bool.false_or, if_neg]
        intro h
        rw [Bool.and_eq_true] at h
        rw [hs.pixelAt h.1] at h
        exact Bool.noConfusion h.2
    rw [hstep]
    by_cases hts : t = s
    · simp [hts]
    · simp [hts]

section Refresh

variable {ctl : Shtctl} {x y : Int} {s : Sid} (hc : Consistent ctl) (hplain : Plain ctl)
  (howner : ctl.owner x y = some s) (hmap : ctl.map (ctl.idx x y) = sidByte s)
include hc hplain howner hmap

/-- A refresh of some heights redraws the pixel exactly if its owner is among them. -/
theorem sheetRefreshsub_owner (hon : ctl.OnScreen x y) (r : Rect) (h0 h1 : Int) (hlow : 0 ≤ h0)
    (hhigh : h1 ≤ ctl.top) :
    (ctl.sheetRefreshsub r h0 h1).vram (ctl.idx x y) =
      if r.contains x y = true ∧ s ∈ seg ctl.sheets h0 (h1 + 1) then (ctl.sheets0 s).pixelAt x y
      else ctl.vram (ctl.idx x y) := by
  rw [sheetRefreshsub_at hon r _ _ fun h h2 h3 => hc.at_height h (by omega) (by omega), hmap]
  by_cases hr : r.contains x y = true
  · simp only [hr, if_true, true_and]
    refine foldl_paint_plain (owner_mem howner).2 _ (fun t ht => ?_) _
    obtain ⟨k, hk0, hk1, rfl⟩ := mem_seg.mp ht
    exact hplain _ (hc.used k (by omega) (by omega))
  · rw [if_neg hr, if_neg fun h => hr h.1]

/-- A pixel that shows its owner keeps doing so. -/
theorem sheetRefreshsub_shows (hon : ctl.OnScreen x y) (r : Rect) {h0 h1 : Int} (hlow : 0 ≤ h0)
    (hhigh : h1 ≤ ctl.top) (hvram : ctl.vram (ctl.idx x y) = (ctl.sheets0 s).pixelAt x y) :
    (ctl.sheetRefreshsub r h0 h1).vram (ctl.idx x y) = (ctl.sheets0 s).pixelAt x y := by
  rw [sheetRefreshsub_owner hc hplain howner hmap hon r h0 h1 hlow hhigh, hvram, ite_self]

end Refresh

theorem Consistent.seg_mid {ctl : Shtctl} (hc : Consistent ctl) (low mid up : List Sid)
    (h : ctl.layers = low ++ (mid ++ up)) :
    ((low.length + mid.length : Nat) : Int) ≤ ctl.top + 1 ∧
      seg ctl.sheets low.length (low.length + mid.length) = mid := by
  have hlen := hc.layers_length
  rw [h, List.length_append, List.length_append] at hlen
  refine ⟨by omega, ?_⟩
  rw [← take_seg ctl.sheets (b := ctl.top + 1) (by omega), seg_of_layers h, List.take_left]

/-- The pixel of an owner after the two refreshes of a call: it is redrawn, or it was right before. -/
theorem owner_refreshed {ctl st : Shtctl} {s t : Sid} {x y : Int} (hframe : Frame ctl st)
    (hst : Consistent st) (hplain : Plain st) (hon : st.OnScreen x y) (ht : st.owner x y = some t)
    {h0 h1 : Int} (hlow : 0 ≤ h0) (hhigh : h1 ≤ st.top)
    (hmap : (st.sheetRefreshmap (ctl.sheets0 s).rect h0).map (ctl.idx x y) = sidByte t)
    (hkept : ¬ ((ctl.sheets0 s).rect.contains x y = true ∧ t ∈ seg st.sheets h0 (h1 + 1)) →
      ctl.vram (ctl.idx x y) = (ctl.sheets0 t).pixelAt x y) :
    ((st.sheetRefreshmap (ctl.sheets0 s).rect h0).sheetRefreshsub (ctl.sheets0 s).rect h0 h1).vram
      (ctl.idx x y) = (ctl.sheets0 t).pixelAt x y := by
  have hm := sameStack_refreshmap st (ctl.sheets0 s).rect h0
  rw [← hframe.idx, ← hm.idx] at hmap ⊢
  rw [sheetRefreshsub_owner (hm.consistent hst) (fun a ha => by
      rw [hm.sheets0]
      exact hplain a ((hm.inUse a).mp ha)) (by rw [hm.owner, ht]) hmap
      (hm.onScreen.mpr hon) _ _ _ hlow (by rw [hm.top]; exact hhigh), hm.sheets]
  split
  · rw [hm.sheets0, hframe.pixelAt]
  · rename_i hnot
    rw [sheetRefreshmap_vram, hframe.vram, hm.idx, hframe.idx, hkept hnot]

section Restack

variable {ctl st res : Shtctl} {s : Sid} (h : Updown ctl s st res)
include h

/-- An owner that a call does not redraw was the owner before. -/
theorem Updown.shows (hframe : Frame ctl st) (hst : Consistent st) (hplain : Plain st) {x y : Int}
    (hon : ctl.OnScreen x y) (hold : Shows ctl x y) (hfirst : st.owner x y ≠ none) :
    Shows res x y := by
  obtain ⟨s₀, howner₀, hmap₀, hvram₀⟩ := hold
  have hsame := h.sameStack
  have hmap : (st.owner x y).map sidByte = some (res.map (ctl.idx x y)) := by
    refine h.map_right hframe hon ?_ hfirst
    rw [howner₀, hmap₀]
    rfl
  obtain ⟨t, ht⟩ := Option.ne_none_iff_exists'.mp hfirst
  have hmapt : res.map (ctl.idx x y) = sidByte t := by simpa [ht] using hmap.symm
  refine ⟨t, by rw [hsame.owner, ht], by rw [hsame.idx, hframe.idx, hmapt], ?_⟩
  rw [hsame.idx, hframe.idx, hsame.sheets0, hframe.pixelAt]
  have hkept : ctl.owner x y = some t →
      ctl.vram (ctl.idx x y) = (ctl.sheets0 t).pixelAt x y := fun hsame₀ => by
    obtain rfl := Option.some.inj (howner₀.symm.trans hsame₀)
    exact hvram₀
  have hkey : ∀ (h0 h1 : Int) (redrawn : List Sid), 0 ≤ h0 → h1 ≤ st.top →
      seg st.sheets h0 (h1 + 1) = redrawn →
      ((st.sheetRefreshmap (ctl.sheets0 s).rect h0).map (ctl.idx x y) = sidByte t) →
      (t ∉ redrawn → ctl.opaqueLayer x y s = true → ctl.owner x y = some t) →
      ((st.sheetRefreshmap (ctl.sheets0 s).rect h0).sheetRefreshsub (ctl.sheets0 s).rect h0 h1).vram
        (ctl.idx x y) = (ctl.sheets0 t).pixelAt x y := by
    rintro h0 h1 redrawn hlow hhigh rfl hm hout
    refine owner_refreshed hframe hst hplain (hframe.onScreen.mpr hon) ht hlow hhigh hm
      fun hnot => hkept ?_
    by_cases hop : ctl.opaqueLayer x y s = true
    · refine hout (fun hin => hnot ⟨?_, hin⟩) hop
      rw [opaqueLayer, Sheet.opaqueAt, Bool.and_eq_true] at hop
      exact hop.1
    · rw [← h.owner_off hframe (by simpa using hop), ht]
  have htop := ht
  rw [owner, hframe.opaqueLayer] at htop
  cases h with
  | same order =>
    rw [hframe.vram]
    exact hkept (by rw [← htop, owner, order])
  | lower below passed above before after =>
    have hlen : ((below ++ [s]).length : Int) = below.length + 1 := by simp
    obtain ⟨hle, hmid⟩ := hst.seg_mid (below ++ [s]) passed above
      (by rw [after]; simp)
    rw [hlen, Int.add_right_comm] at hmid
    refine hkey _ _ passed (by omega) (by simp at hle; omega) hmid hmapt fun hnot hop => ?_
    rw [owner, before, ← List.append_assoc, topmost_cut hop]
    rw [after, topmost_cut hop, topmost_append] at htop
    cases habove : topmost (ctl.opaqueLayer x y) above with
    | some a => simpa [habove] using htop
    | none =>
      cases hpassed : topmost (ctl.opaqueLayer x y) passed with
      | some a =>
        obtain rfl : a = t := by simpa [habove, hpassed] using htop
        exact absurd (mem_of_topmost hpassed).1 hnot
      | none => simpa [habove, hpassed] using htop
  | hide below above before after =>
    obtain ⟨hle, hmid⟩ := hst.seg_mid [] below above after
    refine hkey _ _ below (by omega) (by simp at hle; omega) ?_ hmapt fun hnot hop => ?_
    · rw [← hmid]
      simp
    · have habove := topmost_upper_of_not_mem (after ▸ htop) hnot
      rw [owner, before, topmost_cut hop, habove]
      rfl
  | raise below passed above before after =>
    obtain ⟨hle, hmid⟩ := hst.seg_mid (below ++ passed) [s] above after
    refine hkey _ _ [s] (by omega) (by simp at hle ⊢; omega) hmid hmapt fun hnot hop => ?_
    have habove := topmost_above hop (after ▸ htop) fun hts => hnot (by simp [hts])
    rw [owner, before, topmost_cut hop, topmost_append_of_some habove]
    rfl
  | appear below above before after =>
    obtain ⟨hle, hmid⟩ := hst.seg_mid below [s] above after
    refine hkey _ _ [s] (by omega) (by simp at hle ⊢; omega) hmid hmapt fun hnot hop => ?_
    have habove := topmost_above hop (after ▸ htop) fun hts => hnot (by simp [hts])
    rw [owner, before, topmost_append_of_some habove]

end Restack

/-! ### One pixel through each call -/

/-- The two redraws of `sheet_slide`: everything below the sheet, then the sheet. -/
theorem refreshsub_below_self {ctl : Shtctl} {x y : Int} {s t : Sid} (hc : Consistent ctl)
    (hplain : Plain ctl) (howner : ctl.owner x y = some t)
    (hmap : ctl.map (ctl.idx x y) = sidByte t) (hon : ctl.OnScreen x y) {below above : List Sid}
    (hsplit : ctl.layers = below ++ s :: above) (r r' : Rect) :
    ((ctl.sheetRefreshsub r 0 (below.length - 1)).sheetRefreshsub r' below.length
        below.length).vram (ctl.idx x y) =
      if r'.contains x y = true ∧ t = s ∨ r.contains x y = true ∧ t ∈ below then
        (ctl.sheets0 t).pixelAt x y
      else ctl.vram (ctl.idx x y) := by
  have hsame := sameStack_refreshsub ctl r 0 (below.length - 1)
  obtain ⟨hle, hlow⟩ := hc.seg_mid [] below (s :: above) hsplit
  obtain ⟨hle', hself⟩ := hc.seg_mid below [s] above hsplit
  have h1 : (ctl.sheetRefreshsub r 0 (below.length - 1)).vram (ctl.idx x y) = _ :=
    sheetRefreshsub_owner hc hplain howner hmap hon r 0 (below.length - 1) (by omega)
      (by simp at hle; omega)
  have h2 := sheetRefreshsub_owner (hsame.consistent hc) (hsame.plain hplain)
    (by rw [hsame.owner, howner]) hmap (hsame.onScreen.mpr hon) r' below.length
    below.length (by omega) (by rw [hsame.top]; simp at hle'; omega)
  rw [hsame.idx, hsame.sheets, hsame.sheets0, h1] at h2
  have hlow' : seg ctl.sheets 0 ((below.length : Int) - 1 + 1) = below := by simpa using hlow
  have hself' : seg ctl.sheets below.length ((below.length : Int) + 1) = [s] := by simpa using hself
  rw [h2, hlow', hself']
  simp only [List.mem_singleton]
  by_cases hs : r'.contains x y = true ∧ t = s
  · rw [if_pos hs, if_pos (.inl hs)]
  · rw [if_neg hs]
    simp only [hs, false_or]

theorem setSheet_pixelAt_ne {ctl : Shtctl} {s t : Sid} (h : t ≠ s) (sht : Sheet) (x y : Int) :
    ((ctl.setSheet s sht).sheets0 t).pixelAt x y = (ctl.sheets0 t).pixelAt x y := by
  rw [setSheet_sheets0, if_neg h]

/-- After a sheet has moved, an owner other than it was the owner before, unless it stands
below the sheet and was covered by it. -/
theorem slide_owner_kept {ctl : Shtctl} (hc : Consistent ctl) {s t : Sid} {sht : Sheet} {x y : Int}
    {below above : List Sid} (hsplit : ctl.layers = below ++ s :: above)
    (ht : (ctl.setSheet s sht).owner x y = some t) (hts : t ≠ s)
    (hout : t ∈ below → ctl.opaqueLayer x y s = false) : ctl.owner x y = some t := by
  have hnodup := hc.layers_nodup
  rw [hsplit] at hnodup
  have hdisj := (List.nodup_append.mp hnodup).2.2
  rw [owner, setSheet_layers, hsplit] at ht
  by_cases hb : t ∈ below
  · have hout' : (ctl.setSheet s sht).opaqueLayer x y s = false := by
      by_contra h
      rw [topmost_cut (by simpa using h)] at ht
      cases ha : topmost ((ctl.setSheet s sht).opaqueLayer x y) above with
      | some a =>
        obtain rfl : a = t := by simpa [ha] using ht
        exact hdisj a hb a (List.mem_cons_of_mem s (mem_of_topmost ha).1) rfl
      | none => exact hts (by simpa [ha] using ht.symm)
    rw [← ht, ← hsplit]
    refine (@setSheet_owner ctl s sht _ _ ?_).symm
    rw [opaqueLayer, setSheet_sheets0, if_pos rfl] at hout'
    exact hout'.trans (hout hb).symm
  · have hup := topmost_upper_of_not_mem (l := [s]) (topmost_upper_of_not_mem ht hb)
      (by simpa using hts)
    have habove : ∀ a ∈ above, a ≠ s := by
      rintro a ha rfl
      exact (List.nodup_cons.mp (List.nodup_append.mp hnodup).2.1).1 ha
    rw [topmost_congr fun a ha => setSheet_opaqueLayer_ne (habove a ha) sht x y] at hup
    rw [owner, hsplit]
    exact topmost_append_of_some (topmost_append_of_some hup [s]) below

section Calls

variable {ctl : Shtctl} {back : Sid} (hd : Desktop ctl back) (hplain : Plain ctl) {x y : Int}
  (hon : ctl.OnScreen x y) (hold : Shows ctl x y)
include hd hplain hon hold

theorem updown_shows {s : Sid} {height : Int} (hs : ctl.inUse s) (hback : s = back ↔ height = 0)
    (htarget : 0 ≤ ctl.height s → height ≤ ctl.top) : Shows (ctl.sheetUpdown s height) x y := by
  obtain ⟨st, hre, hst, h⟩ := hd.updown hs hback htarget
  have hon' : st.OnScreen x y := by rwa [OnScreen, hre.frame.xsize, hre.frame.ysize]
  refine h.shows hre.frame hre.consistent ?_ hon hold (hst.owner_ne_none hon')
  intro t ht
  rw [inUse, hre.frame.sheet] at ht
  rw [hre.frame.sheet]
  exact hplain t ht

/-- The owner of a pixel after a slide is redrawn or was the owner before. -/
theorem slide_shows {s : Sid} {vx0 vy0 : Int} (hs : ctl.inUse s)
    (hback : s = back → vx0 = 0 ∧ vy0 = 0) (hmap : MapRight ctl) :
    Shows (ctl.sheetSlide s vx0 vy0) x y := by
  let sht := (ctl.sheets0 s).moveTo vx0 vy0
  obtain ⟨s₀, howner₀, -, hvram₀⟩ := hold
  obtain ⟨hd', hmap'⟩ := slide_step hd hmap hs hback
  have hsame : SameStack (ctl.setSheet s sht) (ctl.sheetSlide s vx0 vy0) := sameStack_slide
  have hon' : (ctl.sheetSlide s vx0 vy0).OnScreen x y := hsame.onScreen.mpr hon
  obtain ⟨t, ht⟩ := Option.ne_none_iff_exists'.mp (hd'.owner_ne_none hon')
  have hidx : (ctl.sheetSlide s vx0 vy0).idx = ctl.idx := hsame.idx
  have hmapt : (ctl.sheetSlide s vx0 vy0).map (ctl.idx x y) = sidByte t := by
    have h := hmap' x y hon'
    rw [ht, hidx] at h
    simpa using h.symm
  refine ⟨t, ht, by rw [hidx, hmapt], ?_⟩
  rw [hsame.owner] at ht
  rw [hidx, hsame.sheets0]
  -- an owner that is not redrawn is the old one
  have hkeep : ctl.owner x y = some t → t ≠ s →
      ctl.vram (ctl.idx x y) = ((ctl.setSheet s sht).sheets0 t).pixelAt x y := by
    intro h hts
    rw [howner₀] at h
    obtain rfl : s₀ = t := by simpa using h
    rw [setSheet_pixelAt_ne hts, hvram₀]
  by_cases hv : 0 ≤ ctl.height s
  · obtain ⟨below, above, hsplit, hlen, -, -⟩ :=
      hd.consistent.split (hd.consistent.visible hs hv)
    have hc1 := hsame.symm.consistent hd'.consistent
    have hp1 : Plain (ctl.setSheet s sht) := by
      intro a ha
      rw [inUse, setSheet_sheets0] at ha
      rw [setSheet_sheets0]
      by_cases has : a = s
      · rw [if_pos has]
        exact hplain s hs
      · rw [if_neg has] at ha ⊢
        exact hplain a ha
    rw [sheetSlide_visible hv, ← hlen] at hmapt ⊢
    generalize hm2 : ((ctl.setSheet s sht).sheetRefreshmap (ctl.sheets0 s).rect 0).sheetRefreshmap
      sht.rect below.length = m2
    have hs2 : SameStack (ctl.setSheet s sht) m2 := by
      rw [← hm2]
      exact ⟨rfl, rfl, rfl, rfl, rfl⟩
    have hsub := refreshsub_below_self (hs2.consistent hc1) (hs2.plain hp1)
      (by rw [hs2.owner, ht]) (by rw [hs2.idx, ← hm2]; exact hmapt) (hs2.onScreen.mpr hon)
      (hs2.layers.trans hsplit) (ctl.sheets0 s).rect sht.rect
    have hidx2 : m2.idx = ctl.idx := hs2.idx
    have hvram2 : m2.vram = ctl.vram := by
      rw [← hm2]
      rfl
    rw [hidx2, hs2.sheets0, hvram2] at hsub
    refine hsub.trans ?_
    split
    · rfl
    rename_i hnot
    have hts : t ≠ s := by
      rintro rfl
      have hop := (mem_of_topmost ht).2
      rw [opaqueLayer, setSheet_sheets0, if_pos rfl, Sheet.opaqueAt, Bool.and_eq_true] at hop
      exact hnot (.inl ⟨hop.1, rfl⟩)
    refine hkeep (slide_owner_kept hd.consistent hsplit ht hts fun hb => ?_) hts
    exact opaqueAt_off (by simpa [hb] using fun h => hnot (.inr h))
  · rw [sheetSlide_hidden hv]
    have hts : t ≠ s := fun h => hv (hd.consistent.height_of_mem (h ▸ (mem_of_topmost ht).1)).1
    refine hkeep ?_ hts
    rw [← ht]
    exact topmost_congr fun a ha => (setSheet_opaqueLayer_ne
      (fun h => hv (hd.consistent.height_of_mem (h ▸ ha)).1) sht x y).symm

end Calls

/-- Every registered shadow window is in use or hidden. -/
def Registered (shadows : List (Option Sid)) (ctl : Shtctl) : Prop :=
  ∀ g, some g ∈ shadows → ctl.inUse g ∨ ctl.height g < 0

/-- The invariant of incremental drawing. -/
structure Shown (shadows : List (Option Sid)) (back : Sid) (ctl : Shtctl) : Prop where
  desktop : Desktop ctl back
  plain : Plain ctl
  registered : Registered shadows ctl
  shows : ∀ x y, ctl.OnScreen x y → Shows ctl x y

theorem SameStack.registered {a b : Shtctl} (h : SameStack a b) {shadows : List (Option Sid)}
    (hr : Registered shadows a) : Registered shadows b := by
  intro g hg
  rw [h.inUse, h.height]
  exact hr g hg

theorem Shown.mapRight {shadows : List (Option Sid)} {back : Sid} {ctl : Shtctl}
    (h : Shown shadows back ctl) : MapRight ctl := by
  intro x y hon
  obtain ⟨s, howner, hmap, -⟩ := h.shows x y hon
  rw [howner, hmap]
  rfl

/-- Redrawing a registered shadow window changes no pixel that shows its owner. -/
theorem refreshShadow_shows {shadows : List (Option Sid)} {ctl : Shtctl} (hc : Consistent ctl)
    (hplain : Plain ctl) (hreg : Registered shadows ctl) {x y : Int} (hon : ctl.OnScreen x y)
    (hold : Shows ctl x y) (s : Sid) (r : Rect) {g : Option Sid} (hg : g ∈ shadows) :
    Shows (refreshShadow s r ctl g) x y := by
  cases g with
  | none => exact hold
  | some g =>
    simp only [refreshShadow]
    split
    · rename_i hcond
      obtain ⟨t, howner, hmap, hvram⟩ := hold
      have hpos : 0 ≤ ctl.height g := hcond.2.1
      have hvis := hc.visible ((hreg g hg).resolve_right (by omega)) hpos
      exact ⟨t, howner, hmap, sheetRefreshsub_shows hc hplain howner hmap hon _ hpos
        (hc.height_of_mem hvis).2.1 hvram⟩
    · exact hold

theorem refreshShadows_shows {shadows : List (Option Sid)} (s : Sid) (r : Rect) {x y : Int}
    (l : List (Option Sid)) (hl : ∀ g ∈ l, g ∈ shadows) (ctl : Shtctl) (hc : Consistent ctl)
    (hplain : Plain ctl) (hreg : Registered shadows ctl) (hon : ctl.OnScreen x y)
    (hold : Shows ctl x y) : Shows (l.foldl (refreshShadow s r) ctl) x y := by
  induction l generalizing ctl with
  | nil => exact hold
  | cons g l ih =>
    obtain ⟨hsame, -⟩ := sameStack_refreshShadow s r ctl g
    exact ih (fun a ha => hl a (List.mem_cons_of_mem g ha)) _ (hsame.consistent hc)
      (hsame.plain hplain) (hsame.registered hreg) (hsame.onScreen.mpr hon)
      (refreshShadow_shows hc hplain hreg hon hold s r (hl g List.mem_cons_self))

/-- After `sheet_refresh` a pixel shows its owner if it did before, or if the owner is the
refreshed sheet and the pixel lies in the rectangle. -/
theorem sheetRefresh_shows {shadows : List (Option Sid)} {ctl : Shtctl} (hc : Consistent ctl)
    (hplain : Plain ctl) (hreg : Registered shadows ctl) {s : Sid} (hs : ctl.inUse s) {b : Rect}
    {x y : Int} (hon : ctl.OnScreen x y) {t : Sid} (howner : ctl.owner x y = some t)
    (hmap : ctl.map (ctl.idx x y) = sidByte t)
    (hvram : ((ctl.sheets0 s).toScreen b).contains x y = true ∧ t = s ∨
      ctl.vram (ctl.idx x y) = (ctl.sheets0 t).pixelAt x y) :
    Shows (ctl.sheetRefresh shadows s b) x y := by
  by_cases hv : 0 ≤ ctl.height s
  · rw [sheetRefresh_visible hv]
    have hmem := hc.visible hs hv
    obtain ⟨h0, h1, h2⟩ := hc.height_of_mem hmem
    have hsame := sameStack_refreshsub ctl ((ctl.sheets0 s).toScreen b) (ctl.height s) (ctl.height s)
    refine refreshShadows_shows s ((ctl.sheets0 s).toScreen b) shadows (fun _ => id) _
      (hsame.consistent hc) (hsame.plain hplain) (hsame.registered hreg) (hsame.onScreen.mpr hon)
      ⟨t, by rw [hsame.owner, howner], hmap, ?_⟩
    refine (sheetRefreshsub_owner hc hplain howner hmap hon _ _ _ h0 h1).trans ?_
    have hself : s ∈ seg ctl.sheets (ctl.height s) (ctl.height s + 1) :=
      mem_seg.mpr ⟨ctl.height s, by omega, by omega, h2⟩
    split
    · rfl
    · rename_i hnot
      refine hvram.resolve_left ?_
      rintro ⟨hr, rfl⟩
      exact hnot ⟨hr, hself⟩
  · rw [sheetRefresh_hidden hv]
    refine ⟨t, howner, hmap, hvram.resolve_left ?_⟩
    rintro ⟨-, rfl⟩
    exact hv (hc.height_of_mem (owner_mem howner).1).1

/-- Steps of incremental drawing: a call, or new contents for a buffer followed by a
refresh of the rectangle that has changed. -/
inductive Redraw (shadows : List (Option Sid)) (back : Sid) (ctl : Shtctl) : Shtctl → Prop where
  | call (op : Op) (ok : op.Allowed back ctl) : Redraw shadows back ctl (op.run shadows ctl)
  | edit (s : Sid) (buf : Buffer) (b : Rect) (used : ctl.inUse s)
      (keeps : KeepsOpacity (ctl.sheets0 s) buf) (plain : ((ctl.sheets0 s).withBuf buf).Plain)
      (outside : ∀ bX bY, b.contains bX bY = false →
        ((ctl.sheets0 s).withBuf buf).pixel bX bY = (ctl.sheets0 s).pixel bX bY) :
      Redraw shadows back ctl ((ctl.draw s buf).sheetRefresh shadows s b)

theorem Restacked.plain {ctl st : Shtctl} {s : Sid} {p : Int} (h : Restacked ctl s p st)
    (hplain : Plain ctl) : Plain st := by
  intro t ht
  rw [inUse, h.frame.sheet] at ht
  rw [h.frame.sheet]
  exact hplain t ht

theorem Restacked.registered {ctl st : Shtctl} {s : Sid} {p : Int} (h : Restacked ctl s p st)
    (hc : Consistent ctl) (hs : ctl.inUse s) {shadows : List (Option Sid)}
    (hreg : Registered shadows ctl) : Registered shadows st := by
  intro g hg
  have huse : st.inUse g ↔ ctl.inUse g := by rw [inUse, inUse, h.frame.sheet]
  rw [huse]
  by_cases hu : ctl.inUse g
  · exact .inl hu
  · rw [h.hidden g (fun heq => hu (heq ▸ hs)) fun hm => hu (hc.inUse_of_mem hm)]
    exact .inr ((hreg g hg).resolve_left hu)

theorem Plain.setSheet {ctl : Shtctl} (hplain : Plain ctl) {s : Sid} {sht : Sheet}
    (h : sht.flags ≠ 0 → sht.Plain) : Plain (ctl.setSheet s sht) := by
  intro t ht
  rw [inUse, setSheet_sheets0] at ht
  rw [setSheet_sheets0]
  by_cases hts : t = s
  · rw [if_pos hts] at ht ⊢
    exact h ht
  · rw [if_neg hts] at ht ⊢
    exact hplain t ht

theorem Registered.setSheet {ctl : Shtctl} {shadows : List (Option Sid)}
    (hreg : Registered shadows ctl) {s : Sid} {sht : Sheet} (h : sht.height = ctl.height s)
    (huse : sht.flags = (ctl.sheets0 s).flags ∨ ctl.height s < 0) :
    Registered shadows (ctl.setSheet s sht) := by
  intro g hg
  rw [inUse, height, setSheet_sheets0]
  by_cases hgs : g = s
  · subst hgs
    rw [if_pos rfl, h]
    rcases huse with huse | huse
    · rw [huse]
      exact hreg g hg
    · exact .inr huse
  · rw [if_neg hgs]
    exact hreg g hg

namespace Shown

variable {shadows : List (Option Sid)} {back : Sid} {ctl : Shtctl} (h : Shown shadows back ctl)
include h

theorem updown {s : Sid} {height : Int} (hs : ctl.inUse s) (hback : s = back ↔ height = 0)
    (htarget : 0 ≤ ctl.height s → height ≤ ctl.top) :
    Shown shadows back (ctl.sheetUpdown s height) := by
  obtain ⟨st, hre, hst, hup⟩ := h.desktop.updown hs hback htarget
  have hsame := hup.sameStack
  refine ⟨hsame.desktop hst, hsame.plain (hre.plain h.plain),
    hsame.registered (hre.registered h.desktop.consistent hs h.registered), fun x y hon => ?_⟩
  have hon' : ctl.OnScreen x y := by
    have := hsame.onScreen.mp hon
    rwa [OnScreen, hre.frame.xsize, hre.frame.ysize] at this
  exact updown_shows h.desktop h.plain hon' (h.shows x y hon') hs hback htarget

theorem slide {s : Sid} {vx0 vy0 : Int} (hs : ctl.inUse s)
    (hback : s = back → vx0 = 0 ∧ vy0 = 0) : Shown shadows back (ctl.sheetSlide s vx0 vy0) := by
  have hsame : SameStack (ctl.setSheet s ((ctl.sheets0 s).moveTo vx0 vy0))
    (ctl.sheetSlide s vx0 vy0) := sameStack_slide
  refine ⟨(slide_step h.desktop h.mapRight hs hback).1,
    hsame.plain (h.plain.setSheet fun hf => h.plain s hf),
    hsame.registered (h.registered.setSheet rfl (.inl rfl)), fun x y hon => ?_⟩
  have hon' : ctl.OnScreen x y := hsame.onScreen.mp hon
  exact slide_shows h.desktop h.plain hon' (h.shows x y hon') hs hback h.mapRight

theorem free {s : Sid} (hs : ctl.inUse s) (hback : s ≠ back) :
    Shown shadows back (ctl.sheetFree s) := by
  have hdesk := (free_step h.desktop h.mapRight hs hback).1
  obtain ⟨c, hres, -, hneg, hc⟩ := free_hides h.desktop h.mapRight hs hback
  have hcs : Shown shadows back c := by
    rcases hc with rfl | ⟨-, rfl⟩
    · exact h
    · have htop := h.desktop.top_nonneg
      exact h.updown hs (by simp [hback]) fun _ => by omega
  rw [hres] at hdesk ⊢
  refine ⟨hdesk, hcs.plain.setSheet fun hf => absurd rfl hf,
    hcs.registered.setSheet rfl (.inr hneg), fun x y hon => ?_⟩
  obtain ⟨t, howner, hmap, hvram⟩ := hcs.shows x y hon
  refine ⟨t, ?_, hmap, ?_⟩
  · rw [@setSheet_owner c s { c.sheets0 s with flags := 0 } _ _ rfl, howner]
  · rw [setSheet_sheets0]
    split
    · rename_i hts
      exact hvram.trans (by rw [hts]; rfl)
    · exact hvram

theorem refresh {s : Sid} (hs : ctl.inUse s) (b : Rect) :
    Shown shadows back (ctl.sheetRefresh shadows s b) := by
  have hsame := (sameStack_sheetRefresh shadows ctl s b).1
  refine ⟨hsame.desktop h.desktop, hsame.plain h.plain, hsame.registered h.registered,
    fun x y hon => ?_⟩
  have hon' := hsame.onScreen.mp hon
  obtain ⟨t, howner, hmap, hvram⟩ := h.shows x y hon'
  exact sheetRefresh_shows h.desktop.consistent h.plain h.registered hs hon' howner hmap (.inr hvram)

theorem edit {s : Sid} {buf : Buffer} {b : Rect} (hs : ctl.inUse s)
    (hkeeps : KeepsOpacity (ctl.sheets0 s) buf) (hplain : ((ctl.sheets0 s).withBuf buf).Plain)
    (hout : ∀ bX bY, b.contains bX bY = false →
      ((ctl.sheets0 s).withBuf buf).pixel bX bY = (ctl.sheets0 s).pixel bX bY) :
    Shown shadows back ((ctl.draw s buf).sheetRefresh shadows s b) := by
  have hsame := (sameStack_sheetRefresh shadows (ctl.draw s buf) s b).1
  have hdesk := h.desktop.draw s buf
  have hp : Plain (ctl.draw s buf) := h.plain.setSheet fun _ => hplain
  have hr : Registered shadows (ctl.draw s buf) := h.registered.setSheet rfl (.inl rfl)
  have hsht : (ctl.draw s buf).sheets0 s = (ctl.sheets0 s).withBuf buf := by
    rw [draw, setSheet_sheets0, if_pos rfl]
  have hs' : (ctl.draw s buf).inUse s := by
    rw [inUse, hsht]
    exact hs
  refine ⟨hsame.desktop hdesk, hsame.plain hp, hsame.registered hr, fun x y hon => ?_⟩
  have hon' : ctl.OnScreen x y := hsame.onScreen.mp hon
  obtain ⟨t, howner, hmap, hvram⟩ := h.shows x y hon'
  have howner' : (ctl.draw s buf).owner x y = some t := by rw [draw_owner hkeeps, howner]
  refine sheetRefresh_shows hdesk.consistent hp hr hs' (x := x) (y := y) hon' howner' hmap ?_
  by_cases hts : t = s
  · subst hts
    by_cases hr : (((ctl.draw t buf).sheets0 t).toScreen b).contains x y = true
    · exact .inl ⟨hr, rfl⟩
    · right
      rw [hsht]
      refine hvram.trans (hout _ _ ?_).symm
      rw [hsht] at hr
      rw [Bool.eq_false_iff]
      intro hb
      rw [Rect.contains_iff] at hb
      refine hr (Rect.contains_iff.mpr ?_)
      simp only [Sheet.toScreen, Sheet.withBuf]
      omega
  · right
    rw [draw, setSheet_pixelAt_ne hts]
    exact hvram

end Shown

theorem Redraw.preserves {shadows : List (Option Sid)} {back : Sid} {ctl c : Shtctl}
    (hstep : Redraw shadows back ctl c) (h : Shown shadows back ctl) : Shown shadows back c := by
  cases hstep with
  | call op ok =>
    cases op with
    | updown s height => exact h.updown ok.1 ok.2.1 ok.2.2
    | slide s vx0 vy0 => exact h.slide ok.1 ok.2
    | free s => exact h.free ok.1 ok.2
    | refresh s b => exact h.refresh ok b
  | edit s buf b used keeps plain outside => exact h.edit used keeps plain outside

/-! ### The full redraw -/

theorem sheets_zero {ctl : Shtctl} {s : Sid} (h : ctl.layers.head? = some s) : ctl.sheets 0 = s := by
  by_cases htop : 0 < ctl.top + 1
  · rw [layers, seg_cons ctl.sheets htop] at h
    simpa using h
  · rw [layers, seg_of_le ctl.sheets (by omega)] at h
    simp at h

/-- A full redraw paints all layers over the old colour, for the owner of the pixel. -/
theorem redrawAll_at {ctl : Shtctl} (hc : Consistent ctl) {x y : Int} (hon : ctl.OnScreen x y)
    {t : Sid} (howner : ctl.owner x y = some t) :
    ctl.redrawAll.map (ctl.idx x y) = sidByte t ∧
      ctl.redrawAll.vram (ctl.idx x y) =
        ctl.layers.foldl (paint ctl.sheets0 (sidByte t) x y) (ctl.vram (ctl.idx x y)) := by
  have hin := screen_contains hon
  have hmap : (ctl.sheetRefreshmap ctl.screen 0).map (ctl.idx x y) = sidByte t := by
    rw [sheetRefreshmap_at hon, if_pos hin]
    change ((ctl.owner x y).map sidByte).getD _ = _
    rw [howner]
    rfl
  have hsame := sameStack_refreshmap ctl ctl.screen 0
  refine ⟨hmap, ?_⟩
  have hsub := sheetRefreshsub_at (hsame.onScreen.mpr hon) ctl.screen
    0 ctl.top fun h h2 h3 => (hsame.consistent hc).at_height h h2 h3
  rw [hsame.idx, hmap, if_pos hin] at hsub
  exact hsub

theorem redrawAll_shows {ctl : Shtctl} {back : Sid} (hd : Desktop ctl back) (hplain : Plain ctl)
    {x y : Int} (hon : ctl.OnScreen x y) : Shows ctl.redrawAll x y := by
  obtain ⟨t, howner⟩ := Option.ne_none_iff_exists'.mp (hd.owner_ne_none hon)
  obtain ⟨hmap, hvram⟩ := redrawAll_at hd.consistent hon howner
  have hmem := owner_mem howner
  refine ⟨t, howner, hmap, hvram.trans ?_⟩
  rw [foldl_paint_plain hmem.2 _ fun s hs => hplain s (hd.consistent.inUse_of_mem hs),
    if_pos hmem.1]
  rfl

theorem sameStack_redrawAll (ctl : Shtctl) : SameStack ctl ctl.redrawAll := ⟨rfl, rfl, rfl, rfl, rfl⟩

section Repaint

variable {ctl : Shtctl} {back : Sid} (hd : Desktop ctl back) (hook : Option TaskbarHook)
include hd

theorem repaintBack_eq : ctl.repaintBack hook = ctl.draw back
    (paintBack hook (u32 (ctl.sheets0 back).bxsize) (u32 (ctl.sheets0 back).bysize)
      (ctl.sheets0 back).buf) := by
  unfold repaintBack
  rw [sheets_zero hd.bottom]
  rfl

theorem repaintBack_desktop : Desktop (ctl.repaintBack hook) back := by
  rw [repaintBack_eq hd hook]
  exact hd.draw back _

/-- Repainting puts unmarked colours only. -/
theorem repaintBack_plain {s : Sid} (h : (ctl.sheets0 s).Plain) :
    ((ctl.repaintBack hook).sheets0 s).Plain := by
  rw [repaintBack_eq hd hook, draw, setSheet_sheets0]
  split
  · rename_i hs
    subst hs
    intro bX bY h1 h2 h3 h4
    exact (paintBack_overwrites hook _ _).of_forall (h bX bY h1 h2 h3 h4)
  · exact h

end Repaint

theorem refreshAll_shown {ctl : Shtctl} {back : Sid} (hd : Desktop ctl back) (hplain : Plain ctl)
    {shadows : List (Option Sid)} (hreg : Registered shadows ctl) (hook : Option TaskbarHook) :
    Shown shadows back (ctl.shtctlRefreshAll hook) := by
  rw [shtctlRefreshAll_eq]
  have hd' := repaintBack_desktop hd hook
  have huse : ∀ s, (ctl.repaintBack hook).inUse s ↔ ctl.inUse s := by
    intro s
    rw [repaintBack_eq hd hook, draw, inUse, inUse, setSheet_sheets0]
    split
    · rename_i hs
      rw [hs]
      rfl
    · rfl
  have hp : Plain (ctl.repaintBack hook) := fun s hs =>
    repaintBack_plain hd hook (hplain s ((huse s).mp hs))
  have hr : Registered shadows (ctl.repaintBack hook) := by
    rw [repaintBack_eq hd hook]
    exact hreg.setSheet rfl (.inl rfl)
  have hsame := sameStack_redrawAll (ctl.repaintBack hook)
  exact ⟨hsame.desktop hd', hsame.plain hp, hsame.registered hr,
    fun x y hon => redrawAll_shows hd' hp (hsame.onScreen.mp hon)⟩

/-- Every pixel shows its topmost opaque sheet, as a full redraw over any old contents would. -/
theorem Shown.agrees {shadows : List (Option Sid)} {back : Sid} {ctl : Shtctl}
    (h : Shown shadows back ctl) {x y : Int} (hon : ctl.OnScreen x y) :
    (∃ s, topmost (ctl.opaqueLayer x y) ctl.layers = some s ∧
      ctl.vram (ctl.idx x y) = (ctl.sheets0 s).pixelAt x y) ∧
    ∀ vram map, ({ ctl with vram := vram, map := map } : Shtctl).redrawAll.vram (ctl.idx x y) =
      ctl.vram (ctl.idx x y) := by
  obtain ⟨s, howner, -, hvram⟩ := h.shows x y hon
  refine ⟨⟨s, howner, hvram⟩, fun vram map => ?_⟩
  have hsame : SameStack ctl { ctl with vram := vram, map := map } := ⟨rfl, rfl, rfl, rfl, rfl⟩
  obtain ⟨t, howner', -, hvram'⟩ := redrawAll_shows (hsame.desktop h.desktop) (hsame.plain h.plain)
    (hsame.onScreen.mpr hon)
  have heq : t = s := Option.some.inj (howner'.symm.trans howner)
  rw [heq] at hvram'
  exact hvram'.trans hvram.symm

theorem desk_plain : Plain desk := by
  intro s _ _ _ _ _ _ _
  change Pixel.isShadow (if s = 0 then 0x00008080 else 0x00C0C0C0) = false
  split <;> decide

end Shtctl

end WinDOS
