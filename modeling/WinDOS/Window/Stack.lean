import Mathlib.Data.Fintype.Card
import WinDOS.Window.Sheet

/-!
# The stacking order and `sheet_updown`

A consistent controller is a list of distinct in-use sheets, bottom first. The shifting
loops of `sheet_updown` take one sheet out of that list or put it in elsewhere; the
single lemma `sheetUpdown_cases` says which list results and what is refreshed, and is
all that later modules use.
-/

set_option autoImplicit false

namespace WinDOS

open Loop Layers

namespace Shtctl

def inUse (ctl : Shtctl) (s : Sid) : Prop := (ctl.sheets0 s).flags ≠ 0

instance (ctl : Shtctl) (s : Sid) : Decidable (ctl.inUse s) :=
  inferInstanceAs (Decidable (_ ≠ _))

/-- The visible sheets, bottom first. -/
def layers (ctl : Shtctl) : List Sid := seg ctl.sheets 0 (ctl.top + 1)

structure Consistent (ctl : Shtctl) : Prop where
  top_ge : -1 ≤ ctl.top
  used : ∀ h, 0 ≤ h → h ≤ ctl.top → ctl.inUse (ctl.sheets h)
  at_height : ∀ h, 0 ≤ h → h ≤ ctl.top → ctl.height (ctl.sheets h) = h
  hidden_or : ∀ s, ctl.inUse s → ctl.height s = -1 ∨ s ∈ ctl.layers

/-- Only heights and the order of the sheets differ. -/
structure Frame (c c' : Shtctl) : Prop where
  xsize : c'.xsize = c.xsize
  ysize : c'.ysize = c.ysize
  vram : c'.vram = c.vram
  map : c'.map = c.map
  sheet : ∀ s, c'.sheets0 s = { c.sheets0 s with height := c'.height s }

theorem mem_layers {ctl : Shtctl} {s : Sid} :
    s ∈ ctl.layers ↔ ∃ h, 0 ≤ h ∧ h ≤ ctl.top ∧ ctl.sheets h = s := by
  simp only [layers, mem_seg, Int.lt_add_one_iff]

namespace Consistent

variable {ctl : Shtctl} (hc : Consistent ctl)
include hc

theorem sheets_inj {j k : Int} (hj : 0 ≤ j) (hj' : j ≤ ctl.top) (hk : 0 ≤ k) (hk' : k ≤ ctl.top)
    (h : ctl.sheets j = ctl.sheets k) : j = k := by
  rw [← hc.at_height j hj hj', h, hc.at_height k hk hk']

theorem layers_nodup : ctl.layers.Nodup :=
  seg_nodup fun _ _ hj hj' hk hk' h => hc.sheets_inj hj (by omega) hk (by omega) h

theorem layers_length : (ctl.layers.length : Int) = ctl.top + 1 := by
  have := hc.top_ge
  rw [layers, seg_length]
  omega

theorem top_le : ctl.top ≤ 15 := by
  have hcard := hc.layers_nodup.length_le_card
  have hlen := hc.layers_length
  rw [Fintype.card_fin] at hcard
  omega

/-- The pool has one sheet more than the stack, as long as a sheet is not in it. -/
theorem room {s : Sid} (hs : s ∉ ctl.layers) : ctl.top + 1 ≤ 15 := by
  have hcard := (List.nodup_cons.mpr ⟨hs, hc.layers_nodup⟩).length_le_card
  have hlen := hc.layers_length
  rw [Fintype.card_fin, List.length_cons] at hcard
  omega

theorem height_of_mem {s : Sid} (hs : s ∈ ctl.layers) :
    0 ≤ ctl.height s ∧ ctl.height s ≤ ctl.top ∧ ctl.sheets (ctl.height s) = s := by
  obtain ⟨h, h0, h1, rfl⟩ := mem_layers.mp hs
  rw [hc.at_height h h0 h1]
  exact ⟨h0, h1, rfl⟩

theorem sheets_ne {s : Sid} {k : Int} (hs : s ∈ ctl.layers) (h0 : 0 ≤ k) (h1 : k ≤ ctl.top)
    (hk : k ≠ ctl.height s) : ctl.sheets k ≠ s := by
  obtain ⟨hs0, hs1, hs2⟩ := hc.height_of_mem hs
  exact fun heq => hk (hc.sheets_inj h0 h1 hs0 hs1 (heq.trans hs2.symm))

theorem inUse_of_mem {s : Sid} (hs : s ∈ ctl.layers) : ctl.inUse s := by
  obtain ⟨h, h0, h1, rfl⟩ := mem_layers.mp hs
  exact hc.used h h0 h1

theorem visible {s : Sid} (hs : ctl.inUse s) (hv : 0 ≤ ctl.height s) : s ∈ ctl.layers := by
  rcases hc.hidden_or s hs with h | h
  · omega
  · exact h

theorem layers_at {s : Sid} (hs : s ∈ ctl.layers) : ctl.layers =
    seg ctl.sheets 0 (ctl.height s) ++ s :: seg ctl.sheets (ctl.height s + 1) (ctl.top + 1) := by
  obtain ⟨h0, h1, hsheet⟩ := hc.height_of_mem hs
  rw [layers, seg_append ctl.sheets (a := 0) (b := ctl.height s) (c := ctl.top + 1) (by omega)
    (by omega), seg_cons ctl.sheets (a := ctl.height s) (by omega), hsheet]

theorem hidden_iff {s : Sid} (hs : ctl.inUse s) : ctl.height s = -1 ↔ s ∉ ctl.layers := by
  constructor
  · intro h hm
    have := (hc.height_of_mem hm).1
    omega
  · intro h
    exact (hc.hidden_or s hs).resolve_right h

end Consistent

/-! ### The shifting loops -/

/-- Entries `a..b-1` have been moved by `d` places, their heights with them. -/
structure Shift (d a b : Int) (c c' : Shtctl) : Prop where
  frame : Frame c c'
  top : c'.top = c.top
  sheets : ∀ k, c'.sheets k = if a + d ≤ k ∧ k < b + d then c.sheets (k - d) else c.sheets k
  moved : ∀ k, a ≤ k → k < b → c'.height (c.sheets k) = k + d
  kept : ∀ s, (∀ k, a ≤ k → k < b → c.sheets k ≠ s) → c'.height s = c.height s

theorem Frame.refl (c : Shtctl) : Frame c c := ⟨rfl, rfl, rfl, rfl, fun _ => rfl⟩

theorem Shift.refl (d a : Int) (c : Shtctl) : Shift d a a c c where
  frame := .refl c
  top := rfl
  sheets k := by rw [if_neg (by omega)]
  moved k _ _ := by omega
  kept _ _ := rfl

@[simp] theorem setHeight_height (c : Shtctl) (s t : Sid) (h : Int) :
    (c.setHeight s h).height t = if t = s then h else c.height t := by
  unfold setHeight setSheet height
  by_cases hts : t = s
  · subst hts
    simp
  · simp [hts]

theorem setHeight_sheet (c : Shtctl) (s t : Sid) (h : Int) :
    (c.setHeight s h).sheets0 t = { c.sheets0 t with height := (c.setHeight s h).height t } := by
  unfold setHeight setSheet height
  by_cases hts : t = s
  · subst hts
    simp
  · simp [hts]

theorem frame_setHeight (c : Shtctl) (s : Sid) (h : Int) : Frame c (c.setHeight s h) :=
  ⟨rfl, rfl, rfl, rfl, fun t => setHeight_sheet c s t h⟩

theorem Frame.trans {a b c : Shtctl} (h : Frame a b) (h' : Frame b c) : Frame a c where
  xsize := h'.xsize.trans h.xsize
  ysize := h'.ysize.trans h.ysize
  vram := h'.vram.trans h.vram
  map := h'.map.trans h.map
  sheet s := by rw [h'.sheet s, h.sheet s]

theorem frame_place (t : Shtctl) (p : Int) (s : Sid) : Frame t (t.place p s) :=
  ⟨rfl, rfl, rfl, rfl, fun _ => rfl⟩

theorem place_sheets (t : Shtctl) (p : Int) (s : Sid) (k : Int) :
    (t.place p s).sheets k = if k = p then s else t.sheets k := by
  by_cases h : k = p
  · subst h
    simp [place]
  · simp [place, h]

theorem Frame.moveEntry {c t : Shtctl} (h : Frame c t) (dst src : Int) :
    Frame c (t.moveEntry dst src) :=
  (h.trans (frame_place t dst _)).trans (frame_setHeight _ _ _)

theorem moveEntry_sheets (t : Shtctl) (dst src k : Int) :
    (t.moveEntry dst src).sheets k = if k = dst then t.sheets src else t.sheets k :=
  place_sheets t dst (t.sheets src) k

theorem moveEntry_height (t : Shtctl) (dst src : Int) (s : Sid) :
    (t.moveEntry dst src).height s = if s = t.sheets src then dst else t.height s :=
  setHeight_height _ _ _ _

section Loops

variable {c t : Shtctl} {a b : Int}

/-- One more entry at the lower end of a window that moves up. -/
theorem Shift.up (h : Shift 1 a b c t) (hab : a ≤ b)
    (hinj : ∀ k, a ≤ k → k < b → c.sheets k ≠ c.sheets (a - 1)) :
    Shift 1 (a - 1) b c (t.moveEntry a (a - 1)) := by
  have hsrc : t.sheets (a - 1) = c.sheets (a - 1) := by rw [h.sheets, if_neg (by omega)]
  refine ⟨h.frame.moveEntry _ _, h.top, ?_, ?_, ?_⟩
  · intro k
    rw [moveEntry_sheets, hsrc, h.sheets]
    split_ifs <;> first | rfl | omega | (congr 1; omega)
  · intro k h1 h2
    rw [moveEntry_height, hsrc]
    by_cases hk : k = a - 1
    · subst hk
      simp
    · rw [if_neg (hinj k (by omega) h2), h.moved k (by omega) h2]
  · intro s hs
    rw [moveEntry_height, hsrc, if_neg (hs (a - 1) (by omega) (by omega)).symm]
    exact h.kept s fun k h1 h2 => hs k (by omega) h2

/-- One more entry at the upper end of a window that moves down. -/
theorem Shift.down (h : Shift (-1) a b c t) (hab : a ≤ b)
    (hinj : ∀ k, a ≤ k → k < b → c.sheets k ≠ c.sheets b) :
    Shift (-1) a (b + 1) c (t.moveEntry (b - 1) b) := by
  have hsrc : t.sheets b = c.sheets b := by rw [h.sheets, if_neg (by omega)]
  refine ⟨h.frame.moveEntry _ _, h.top, ?_, ?_, ?_⟩
  · intro k
    rw [moveEntry_sheets, hsrc, h.sheets]
    split_ifs <;> first | rfl | omega | (congr 1; omega)
  · intro k h1 h2
    rw [moveEntry_height, hsrc]
    by_cases hk : k = b
    · subst hk
      rw [if_pos rfl]
      omega
    · rw [if_neg (hinj k h1 (by omega)), h.moved k h1 (by omega)]
  · intro s hs
    rw [moveEntry_height, hsrc, if_neg (hs b (by omega) (by omega)).symm]
    exact h.kept s fun k h1 h2 => hs k h1 (by omega)

theorem shift_up_loop (hab : a ≤ b)
    (hinj : ∀ j k, a ≤ j → j < b → a ≤ k → k < b → c.sheets j = c.sheets k → j = k) :
    Shift 1 a b c (forDown b a (fun h c => c.moveEntry h (h - 1)) c) := by
  refine forDown_inv (fun i t => Shift 1 i b c t) hab (Shift.refl 1 b c) ?_
  intro i t h1 h2 ht
  refine ht.up h2 fun k hk hk' heq => ?_
  have := hinj k (i - 1) (by omega) hk' (by omega) (by omega) heq
  omega

theorem shift_up_loop' (hab : a ≤ b)
    (hinj : ∀ j k, a ≤ j → j < b → a ≤ k → k < b → c.sheets j = c.sheets k → j = k) :
    Shift 1 a b c (forDown (b - 1) (a - 1) (fun h c => c.moveEntry (h + 1) h) c) := by
  have h := @forDown_inv _ (fun i t => Shift 1 (i + 1) b c t) (b - 1) (a - 1) (by omega)
    (fun h c => c.moveEntry (h + 1) h) c (by simpa using Shift.refl 1 b c) ?_
  · simpa using h
  intro i t h1 h2 ht
  have hstep := ht.up (by omega) fun k hk hk' heq => by
    have := hinj k (i + 1 - 1) (by omega) hk' (by omega) (by omega) heq
    omega
  simpa using hstep

theorem shift_down_loop (hab : a ≤ b)
    (hinj : ∀ j k, a < j → j ≤ b → a < k → k ≤ b → c.sheets j = c.sheets k → j = k) :
    Shift (-1) (a + 1) (b + 1) c (forUp a b (fun h c => c.moveEntry h (h + 1)) c) := by
  refine forUp_inv (fun i t => Shift (-1) (a + 1) (i + 1) c t) hab (Shift.refl (-1) (a + 1) c) ?_
  intro i t h1 h2 ht
  have hstep := ht.down (by omega) fun k hk hk' heq => by
    have := hinj k (i + 1) (by omega) (by omega) (by omega) (by omega) heq
    omega
  simpa using hstep

end Loops

/-! ### What a call does to the order -/

/-- `st` is consistent, has `s` at height `p`, and no hidden sheet but `s` has moved. -/
structure Restacked (ctl : Shtctl) (s : Sid) (p : Int) (st : Shtctl) : Prop where
  frame : Frame ctl st
  consistent : Consistent st
  height : st.height s = p
  hidden : ∀ t, t ≠ s → t ∉ ctl.layers → st.height t = ctl.height t

section Table

variable {ctl c st : Shtctl} {s : Sid} {p d a b : Int}

/-- A table whose entries are `s` at its new height, moved entries and untouched ones
belongs to a consistent controller again. -/
theorem consistent_of_table (hc : Consistent ctl) (hs : ctl.inUse s)
    (hsh : Shift d a b (ctl.setHeight s p) c) (hframe : Frame c st) (hst : st.sheets0 = c.sheets0)
    (htop : -1 ≤ st.top)
    (hwin : ∀ k, a ≤ k → k < b → 0 ≤ k ∧ k ≤ ctl.top ∧ ctl.sheets k ≠ s)
    (htable : ∀ k, 0 ≤ k → k ≤ st.top → (k = p ∧ st.sheets k = s) ∨
      (a + d ≤ k ∧ k < b + d ∧ st.sheets k = ctl.sheets (k - d)) ∨
      (0 ≤ k ∧ k ≤ ctl.top ∧ ¬ (a ≤ k ∧ k < b) ∧ ctl.sheets k ≠ s ∧ st.sheets k = ctl.sheets k))
    (hmem : ∀ t, t ∈ ctl.layers → t = s ∨ t ∈ st.layers) (hself : p = -1 ∨ s ∈ st.layers) :
    Restacked ctl s p st := by
  have hheight : ∀ t, st.height t = c.height t := fun t => by rw [height, hst]; rfl
  have huse : ∀ t, st.inUse t ↔ ctl.inUse t := by
    intro t
    rw [inUse, inUse, hst, hsh.frame.sheet t, setHeight_sheet]
  have hself' : st.height s = p := by
    rw [hheight, hsh.kept s fun k h1 h2 => (hwin k h1 h2).2.2, setHeight_height, if_pos rfl]
  have hkept : ∀ t, t ≠ s → (∀ k, a ≤ k → k < b → ctl.sheets k ≠ t) →
      st.height t = ctl.height t := by
    intro t hts ht
    rw [hheight, hsh.kept t ht, setHeight_height, if_neg hts]
  have hat : ∀ k, 0 ≤ k → k ≤ st.top → ctl.inUse (st.sheets k) ∧ st.height (st.sheets k) = k := by
    intro k h0 h1
    rcases htable k h0 h1 with ⟨rfl, hk⟩ | ⟨h2, h3, hk⟩ | ⟨h2, h3, h4, h5, hk⟩
    · rw [hk]
      exact ⟨hs, hself'⟩
    · obtain ⟨hk0, hk1, _⟩ := hwin (k - d) (by omega) (by omega)
      have hm : c.height (ctl.sheets (k - d)) = k - d + d :=
        hsh.moved (k - d) (by omega) (by omega)
      rw [hk, hheight, hm]
      exact ⟨hc.used _ hk0 hk1, by omega⟩
    · rw [hk, hkept _ h5 ?_]
      · exact ⟨hc.used k h2 h3, hc.at_height k h2 h3⟩
      · intro j hj hj' heq
        have := hc.sheets_inj (hwin j hj hj').1 (hwin j hj hj').2.1 h2 h3 heq
        omega
  refine ⟨(frame_setHeight ctl s p).trans (hsh.frame.trans hframe), ?_, hself', fun t hts ht =>
    hkept t hts fun k h1 h2 heq => ht (mem_layers.mpr ⟨k, (hwin k h1 h2).1, (hwin k h1 h2).2.1, heq⟩)⟩
  refine ⟨htop, fun k h0 h1 => (huse _).mpr (hat k h0 h1).1, fun k h0 h1 => (hat k h0 h1).2, ?_⟩
  intro t ht
  by_cases hts : t = s
  · subst hts
    rw [hself']
    exact hself
  · by_cases hm : t ∈ ctl.layers
    · exact .inr ((hmem t hm).resolve_left hts)
    · have ht' := (huse t).mp ht
      left
      rw [hkept t hts fun k h1 h2 heq => hm (mem_layers.mpr
        ⟨k, (hwin k h1 h2).1, (hwin k h1 h2).2.1, heq⟩)]
      exact (hc.hidden_iff ht').mpr hm

/-- The table after the moves, with `s` at its new place. -/
theorem Shift.placed (hsh : Shift d a b (ctl.setHeight s p) c) (k : Int) :
    (c.place p s).sheets k = if k = p then s
      else if a + d ≤ k ∧ k < b + d then ctl.sheets (k - d) else ctl.sheets k := by
  rw [place_sheets, hsh.sheets]
  rfl

/-- The entries of such a table, if the untouched ones held other sheets. -/
theorem placed_entries
    (htab : ∀ k, st.sheets k = if k = p then s
      else if a + d ≤ k ∧ k < b + d then ctl.sheets (k - d) else ctl.sheets k)
    (hout : ∀ k, 0 ≤ k → k ≤ st.top → k ≠ p → ¬ (a + d ≤ k ∧ k < b + d) →
      k ≤ ctl.top ∧ ¬ (a ≤ k ∧ k < b) ∧ ctl.sheets k ≠ s) :
    ∀ k, 0 ≤ k → k ≤ st.top → (k = p ∧ st.sheets k = s) ∨
      (a + d ≤ k ∧ k < b + d ∧ st.sheets k = ctl.sheets (k - d)) ∨
      (0 ≤ k ∧ k ≤ ctl.top ∧ ¬ (a ≤ k ∧ k < b) ∧ ctl.sheets k ≠ s ∧
        st.sheets k = ctl.sheets k) := by
  intro k h0 h1
  rw [htab]
  by_cases hk : k = p
  · exact .inl ⟨hk, if_pos hk⟩
  · rw [if_neg hk]
    by_cases hwin : a + d ≤ k ∧ k < b + d
    · exact .inr (.inl ⟨hwin.1, hwin.2, if_pos hwin⟩)
    · obtain ⟨htop, hkeep, hne⟩ := hout k h0 h1 hk hwin
      exact .inr (.inr ⟨h0, htop, hkeep, hne, if_neg hwin⟩)

/-- A sheet of the stack put at `p` after moves within it, if the same sheets are there again. -/
theorem restacked_place (hc : Consistent ctl) (hmem : s ∈ ctl.layers)
    (hsh : Shift d a b (ctl.setHeight s p) c)
    (hwin : ∀ k, a ≤ k → k < b → 0 ≤ k ∧ k ≤ ctl.top ∧ k ≠ ctl.height s)
    (hout : ∀ k, 0 ≤ k → k ≤ ctl.top → k ≠ p → ¬ (a + d ≤ k ∧ k < b + d) →
      ¬ (a ≤ k ∧ k < b) ∧ k ≠ ctl.height s)
    (hperm : ctl.layers.Perm (c.place p s).layers) : Restacked ctl s p (c.place p s) := by
  have hne : ∀ k, 0 ≤ k → k ≤ ctl.top → k ≠ ctl.height s → ctl.sheets k ≠ s :=
    fun k => hc.sheets_ne hmem
  have htop : (c.place p s).top = ctl.top := hsh.top
  refine consistent_of_table hc (hc.inUse_of_mem hmem) hsh (frame_place c p s) rfl
    (htop ▸ hc.top_ge) ?_ ?_ ?_ (.inr (hperm.mem_iff.mp hmem))
  · intro k h1 h2
    obtain ⟨h0, hle, hk⟩ := hwin k h1 h2
    exact ⟨h0, hle, hne k h0 hle hk⟩
  · refine placed_entries hsh.placed fun k h0 h1 hk hmoved => ?_
    rw [htop] at h1
    obtain ⟨hkeep, hold⟩ := hout k h0 h1 hk hmoved
    exact ⟨h1, hkeep, hne k h0 h1 hold⟩
  · exact fun t ht => .inr (hperm.mem_iff.mp ht)

end Table

/-- What a call of `sheet_updown` on `s` does: `st` is the controller after the shifting
loops, the last argument the result after the refreshes of the sheet's rectangle. -/
inductive Updown (ctl : Shtctl) (s : Sid) (st : Shtctl) : Shtctl → Prop where
  | same (order : st.layers = ctl.layers) : Updown ctl s st st
  | lower (below passed above : List Sid)
      (before : ctl.layers = below ++ (passed ++ s :: above))
      (after : st.layers = below ++ s :: (passed ++ above)) :
      Updown ctl s st ((st.sheetRefreshmap (ctl.sheets0 s).rect (below.length + 1)).sheetRefreshsub
        (ctl.sheets0 s).rect (below.length + 1) (below.length + passed.length))
  | hide (below above : List Sid)
      (before : ctl.layers = below ++ s :: above) (after : st.layers = below ++ above) :
      Updown ctl s st ((st.sheetRefreshmap (ctl.sheets0 s).rect 0).sheetRefreshsub
        (ctl.sheets0 s).rect 0 (below.length - 1))
  | raise (below passed above : List Sid)
      (before : ctl.layers = below ++ s :: (passed ++ above))
      (after : st.layers = (below ++ passed) ++ s :: above) :
      Updown ctl s st ((st.sheetRefreshmap (ctl.sheets0 s).rect
        (below ++ passed).length).sheetRefreshsub (ctl.sheets0 s).rect
        (below ++ passed).length (below ++ passed).length)
  | appear (below above : List Sid)
      (before : ctl.layers = below ++ above) (after : st.layers = below ++ s :: above) :
      Updown ctl s st ((st.sheetRefreshmap (ctl.sheets0 s).rect below.length).sheetRefreshsub
        (ctl.sheets0 s).rect below.length below.length)

section Cases

variable {ctl : Shtctl} {s : Sid} (hc : Consistent ctl) (hs : ctl.inUse s)

theorem clampHeight_bounds (ctl : Shtctl) (htop : -1 ≤ ctl.top) (height : Int) :
    -1 ≤ ctl.clampHeight height ∧ ctl.clampHeight height ≤ ctl.top + 1 ∧
      (height ≤ ctl.top → ctl.clampHeight height ≤ ctl.top) := by
  unfold clampHeight
  simp only
  split_ifs <;> omega

theorem clampHeight_eq_self {ctl : Shtctl} {height : Int} (hlow : -1 ≤ height)
    (hhigh : height ≤ ctl.top + 1) : ctl.clampHeight height = height := by
  unfold clampHeight
  dsimp only
  rw [if_neg (by omega), if_neg (by omega)]

include hc hs

theorem sheetUpdown_lower {height : Int} (hlow : ctl.clampHeight height < ctl.height s)
    (hpos : 0 ≤ ctl.clampHeight height) :
    ∃ st, Restacked ctl s (ctl.clampHeight height) st ∧
      Updown ctl s st (ctl.sheetUpdown s height) := by
  generalize hp : ctl.clampHeight height = p at *
  have hmem := hc.visible hs (by omega)
  obtain ⟨hold0, hold1, -⟩ := hc.height_of_mem hmem
  have hat := hc.layers_at hmem
  generalize hq : ctl.height s = old at *
  have hsh := shift_up_loop (c := ctl.setHeight s p) (a := p) (b := old) (by omega)
    fun j k h1 h2 h3 h4 h => hc.sheets_inj (by omega) (by omega) (by omega) (by omega) h
  generalize hloop : forDown old p (fun h c => c.moveEntry h (h - 1)) (ctl.setHeight s p) = c at hsh
  have htop : (c.place p s).top = ctl.top := hsh.top
  have htab := hsh.placed
  have hplace := @restacked_place ctl c s p _ _ _ hc hmem hsh
  rw [hq] at hplace
  generalize hst : c.place p s = st at htab htop hplace
  have hbefore : ctl.layers =
      seg ctl.sheets 0 p ++ (seg ctl.sheets p old ++ s :: seg ctl.sheets (old + 1) (ctl.top + 1)) := by
    rw [hat, seg_append ctl.sheets (a := 0) (b := p) (c := old) (by omega) (by omega),
      List.append_assoc]
  have hafter : st.layers =
      seg ctl.sheets 0 p ++ s :: (seg ctl.sheets p old ++ seg ctl.sheets (old + 1) (ctl.top + 1)) := by
    have h1 : seg st.sheets 0 p = seg ctl.sheets 0 p :=
      seg_congr fun k h1 h2 => by rw [htab, if_neg (by omega), if_neg (by omega)]
    have h2 : seg st.sheets (p + 1) (old + 1) = seg ctl.sheets p old :=
      seg_shift fun k h1 h2 => by
        rw [htab, if_neg (by omega), if_pos (by omega)]
        exact congrArg ctl.sheets (by omega)
    have h3 : seg st.sheets (old + 1) (ctl.top + 1) = seg ctl.sheets (old + 1) (ctl.top + 1) :=
      seg_congr fun k h1 h2 => by rw [htab, if_neg (by omega), if_neg (by omega)]
    rw [layers, htop, seg_append st.sheets (a := 0) (b := p) (c := ctl.top + 1) (by omega) (by omega),
      seg_cons st.sheets (a := p) (by omega),
      seg_append st.sheets (a := p + 1) (b := old + 1) (c := ctl.top + 1) (by omega) (by omega),
      h1, h2, h3, htab p, if_pos rfl]
  refine ⟨st, hplace ?_ ?_ ?_, ?_⟩
  · exact fun k h1 h2 => ⟨by omega, by omega, by omega⟩
  · exact fun k h0 h1 hk hwin => ⟨by omega, by omega⟩
  · rw [hbefore, hafter]
    exact List.perm_middle.append_left _
  · have hres := Updown.lower _ _ _ hbefore hafter
    rw [seg_length_int ctl.sheets hpos, seg_length_int ctl.sheets (by omega : p ≤ old), Int.sub_zero,
      show p + (old - p) = old by omega] at hres
    convert hres using 1
    unfold sheetUpdown
    simp only [hp, hq]
    rw [if_pos hlow, if_pos hpos, hloop, hst]

theorem sheetUpdown_hide {height : Int} (hlow : ctl.clampHeight height = -1)
    (hvis : 0 ≤ ctl.height s) :
    ∃ st, Restacked ctl s (-1) st ∧
      Updown ctl s st (ctl.sheetUpdown s height) := by
  have hmem := hc.visible hs hvis
  have hne : ∀ k, 0 ≤ k → k ≤ ctl.top → k ≠ ctl.height s → ctl.sheets k ≠ s :=
    fun k => hc.sheets_ne hmem
  obtain ⟨hold0, hold1, hold⟩ := hc.height_of_mem hmem
  have hat := hc.layers_at hmem
  generalize hq : ctl.height s = old at *
  have hsh := shift_down_loop (c := ctl.setHeight s (-1)) (a := old) (b := ctl.top) (by omega)
    fun j k h1 h2 h3 h4 h => hc.sheets_inj (by omega) (by omega) (by omega) (by omega) h
  generalize hloop : forUp old ctl.top (fun h c => c.moveEntry h (h + 1)) (ctl.setHeight s (-1)) = c
    at hsh
  have htop : ({ c with top := c.top - 1 } : Shtctl).top = ctl.top - 1 :=
    congrArg (· - 1) hsh.top
  have htab : ∀ k, ({ c with top := c.top - 1 } : Shtctl).sheets k =
      if old ≤ k ∧ k < ctl.top then ctl.sheets (k + 1) else ctl.sheets k := by
    intro k
    refine (hsh.sheets k).trans ?_
    split_ifs <;> first | rfl | omega
  have hframe : Frame c { c with top := c.top - 1 } := ⟨rfl, rfl, rfl, rfl, fun _ => rfl⟩
  have hsheets0 : ({ c with top := c.top - 1 } : Shtctl).sheets0 = c.sheets0 := rfl
  generalize hst : ({ c with top := c.top - 1 } : Shtctl) = st at htab htop hframe hsheets0
  have hafter : st.layers = seg ctl.sheets 0 old ++ seg ctl.sheets (old + 1) (ctl.top + 1) := by
    have h1 : seg st.sheets 0 old = seg ctl.sheets 0 old :=
      seg_congr fun k h1 h2 => by rw [htab, if_neg (by omega)]
    have h2 : seg st.sheets (old + 1 + -1) (ctl.top + 1 + -1) =
        seg ctl.sheets (old + 1) (ctl.top + 1) :=
      seg_shift fun k h1 h2 => by
        rw [htab, if_pos (by omega)]
        exact congrArg ctl.sheets (by omega)
    have h3 : old + 1 + -1 = old := by omega
    have h4 : ctl.top + 1 + -1 = ctl.top - 1 + 1 := by omega
    rw [h3, h4] at h2
    rw [layers, htop, seg_append st.sheets (a := 0) (b := old) (c := ctl.top - 1 + 1) (by omega)
      (by omega), h1, h2]
  refine ⟨st, consistent_of_table hc hs hsh hframe hsheets0 (by omega) ?_ ?_ ?_ (.inl rfl), ?_⟩
  · exact fun k h1 h2 => ⟨by omega, by omega, hne k (by omega) (by omega) (by omega)⟩
  · intro k h0 h1
    rw [htab]
    by_cases hwin : old ≤ k
    · exact .inr (.inl ⟨by omega, by omega, by
        rw [if_pos (by omega)]
        exact congrArg ctl.sheets (by omega)⟩)
    · exact .inr (.inr ⟨h0, by omega, by omega, hne k h0 (by omega) (by omega),
        by rw [if_neg (by omega)]⟩)
  · intro t
    rw [hat, hafter]
    simp only [List.mem_append, List.mem_cons]
    tauto
  · have hres := Updown.hide _ _ hat hafter
    rw [seg_length_int ctl.sheets hold0, Int.sub_zero] at hres
    convert hres using 1
    unfold sheetUpdown
    simp only [hlow, hq]
    have hskip : (if (ctl.setHeight s (-1)).top > old then
        forUp old (ctl.setHeight s (-1)).top (fun h ctl => ctl.moveEntry h (h + 1))
          (ctl.setHeight s (-1)) else ctl.setHeight s (-1)) = c := by
      rw [← hloop]
      split_ifs with h
      · rfl
      · rw [forUp_of_le]
        exact Int.not_lt.mp h
    rw [if_pos (by omega), if_neg (by omega), hskip, hst]

theorem sheetUpdown_raise {height : Int} (hlow : ctl.height s < ctl.clampHeight height)
    (hvis : 0 ≤ ctl.height s) (hle : ctl.clampHeight height ≤ ctl.top) :
    ∃ st, Restacked ctl s (ctl.clampHeight height) st ∧
      Updown ctl s st (ctl.sheetUpdown s height) := by
  generalize hp : ctl.clampHeight height = p at *
  have hmem := hc.visible hs hvis
  obtain ⟨hold0, hold1, -⟩ := hc.height_of_mem hmem
  have hat := hc.layers_at hmem
  generalize hq : ctl.height s = old at *
  have hsh := shift_down_loop (c := ctl.setHeight s p) (a := old) (b := p) (by omega)
    fun j k h1 h2 h3 h4 h => hc.sheets_inj (by omega) (by omega) (by omega) (by omega) h
  generalize hloop : forUp old p (fun h c => c.moveEntry h (h + 1)) (ctl.setHeight s p) = c at hsh
  have htop : (c.place p s).top = ctl.top := hsh.top
  have htab := hsh.placed
  have hplace := @restacked_place ctl c s p _ _ _ hc hmem hsh
  rw [hq] at hplace
  generalize hst : c.place p s = st at htab htop hplace
  have hbefore : ctl.layers = seg ctl.sheets 0 old ++
      s :: (seg ctl.sheets (old + 1) (p + 1) ++ seg ctl.sheets (p + 1) (ctl.top + 1)) := by
    rw [hat, seg_append ctl.sheets (a := old + 1) (b := p + 1) (c := ctl.top + 1) (by omega)
      (by omega)]
  have hafter : st.layers = (seg ctl.sheets 0 old ++ seg ctl.sheets (old + 1) (p + 1)) ++
      s :: seg ctl.sheets (p + 1) (ctl.top + 1) := by
    have h1 : seg st.sheets 0 old = seg ctl.sheets 0 old :=
      seg_congr fun k h1 h2 => by rw [htab, if_neg (by omega), if_neg (by omega)]
    have h2 : seg st.sheets (old + 1 + -1) (p + 1 + -1) = seg ctl.sheets (old + 1) (p + 1) :=
      seg_shift fun k h1 h2 => by
        rw [htab, if_neg (by omega), if_pos (by omega)]
        exact congrArg ctl.sheets (by omega)
    have h3 : seg st.sheets (p + 1) (ctl.top + 1) = seg ctl.sheets (p + 1) (ctl.top + 1) :=
      seg_congr fun k h1 h2 => by rw [htab, if_neg (by omega), if_neg (by omega)]
    have h4 : old + 1 + -1 = old := by omega
    have h5 : p + 1 + -1 = p := by omega
    rw [h4, h5] at h2
    rw [layers, htop, seg_append st.sheets (a := 0) (b := p) (c := ctl.top + 1) (by omega) (by omega),
      seg_append st.sheets (a := 0) (b := old) (c := p) (by omega) (by omega),
      seg_cons st.sheets (a := p) (by omega), h1, h2, h3, htab p, if_pos rfl]
  refine ⟨st, hplace ?_ ?_ ?_, ?_⟩
  · exact fun k h1 h2 => ⟨by omega, by omega, by omega⟩
  · exact fun k h0 h1 hk hwin => ⟨by omega, by omega⟩
  · rw [hbefore, hafter, List.append_assoc]
    exact List.perm_middle.symm.append_left _
  · have hres := Updown.raise _ _ _ hbefore hafter
    have h1 : ((seg ctl.sheets 0 old ++ seg ctl.sheets (old + 1) (p + 1)).length : Int) = p := by
      rw [List.length_append, seg_length, seg_length]
      omega
    rw [h1] at hres
    convert hres using 1
    unfold sheetUpdown
    simp only [hp, hq]
    rw [if_neg (by omega), if_pos hlow, if_pos hvis, hloop, hst]

theorem sheetUpdown_appear {height : Int} (hpos : 0 ≤ ctl.clampHeight height)
    (hhid : ctl.height s = -1) :
    ∃ st, Restacked ctl s (ctl.clampHeight height) st ∧
      Updown ctl s st (ctl.sheetUpdown s height) := by
  obtain ⟨-, hle, -⟩ := clampHeight_bounds ctl hc.top_ge height
  generalize hp : ctl.clampHeight height = p at *
  have hnot := (hc.hidden_iff hs).mp hhid
  have hne : ∀ k, 0 ≤ k → k ≤ ctl.top → ctl.sheets k ≠ s :=
    fun k h0 h1 heq => hnot (mem_layers.mpr ⟨k, h0, h1, heq⟩)
  have hsh := shift_up_loop' (c := ctl.setHeight s p) (a := p) (b := ctl.top + 1) (by omega)
    fun j k h1 h2 h3 h4 h => hc.sheets_inj (by omega) (by omega) (by omega) (by omega) h
  have hlast : ctl.top + 1 - 1 = ctl.top := by omega
  rw [hlast] at hsh
  generalize hloop : forDown ctl.top (p - 1) (fun h c => c.moveEntry (h + 1) h)
    (ctl.setHeight s p) = c at hsh
  have htop : ({ c.place p s with top := c.top + 1 } : Shtctl).top = ctl.top + 1 :=
    congrArg (· + 1) hsh.top
  have htab : ∀ k, ({ c.place p s with top := c.top + 1 } : Shtctl).sheets k = if k = p then s
      else if p + 1 ≤ k ∧ k < ctl.top + 1 + 1 then ctl.sheets (k - 1) else ctl.sheets k :=
    hsh.placed
  have hframe : Frame c { c.place p s with top := c.top + 1 } :=
    ⟨rfl, rfl, rfl, rfl, fun _ => rfl⟩
  have hsheets0 : ({ c.place p s with top := c.top + 1 } : Shtctl).sheets0 = c.sheets0 := rfl
  generalize hst : ({ c.place p s with top := c.top + 1 } : Shtctl) = st
    at htab htop hframe hsheets0
  have hbefore : ctl.layers = seg ctl.sheets 0 p ++ seg ctl.sheets p (ctl.top + 1) := by
    rw [layers, seg_append ctl.sheets (a := 0) (b := p) (c := ctl.top + 1) (by omega) (by omega)]
  have hafter : st.layers = seg ctl.sheets 0 p ++ s :: seg ctl.sheets p (ctl.top + 1) := by
    have h1 : seg st.sheets 0 p = seg ctl.sheets 0 p :=
      seg_congr fun k h1 h2 => by rw [htab, if_neg (by omega), if_neg (by omega)]
    have h2 : seg st.sheets (p + 1) (ctl.top + 1 + 1) = seg ctl.sheets p (ctl.top + 1) :=
      seg_shift fun k h1 h2 => by
        rw [htab, if_neg (by omega), if_pos (by omega)]
        exact congrArg ctl.sheets (by omega)
    rw [layers, htop, seg_append st.sheets (a := 0) (b := p) (c := ctl.top + 1 + 1) (by omega)
      (by omega), seg_cons st.sheets (a := p) (by omega), h1, h2, htab p, if_pos rfl]
  refine ⟨st, consistent_of_table hc hs hsh hframe hsheets0 (by omega) ?_ ?_ ?_ (.inr ?_), ?_⟩
  · exact fun k h1 h2 => ⟨by omega, by omega, hne k (by omega) (by omega)⟩
  · exact placed_entries htab fun k h0 h1 hk hwin => ⟨by omega, by omega, hne k h0 (by omega)⟩
  · intro t
    rw [hbefore, hafter]
    simp only [List.mem_append, List.mem_cons]
    tauto
  · simp [hafter]
  · have hres := Updown.appear _ _ hbefore hafter
    rw [seg_length_int ctl.sheets hpos, Int.sub_zero] at hres
    convert hres using 1
    unfold sheetUpdown
    simp only [hp, hhid]
    have hset : (ctl.setHeight s p).top = ctl.top := rfl
    rw [if_neg (by omega), if_pos (by omega), if_neg (by omega), hset, hloop, ← hst]
    rfl

omit hc hs in
theorem sheetUpdown_same {height : Int} (heq : ctl.clampHeight height = ctl.height s) :
    ctl.sheetUpdown s height = ctl := by
  have hself : ctl.setHeight s (ctl.height s) = ctl := by
    unfold setHeight setSheet Shtctl.height
    simp
  unfold sheetUpdown
  simp only [heq]
  rw [if_neg (by omega), if_neg (by omega), hself]

/-- Every call on an in-use sheet keeps the controller consistent and is one of the five
cases. A visible sheet may not be sent above the top. -/
theorem sheetUpdown_cases (height : Int) (htarget : 0 ≤ ctl.height s → height ≤ ctl.top) :
    ∃ st, Restacked ctl s (ctl.clampHeight height) st ∧
      Updown ctl s st (ctl.sheetUpdown s height) := by
  obtain ⟨hge, hle, hle'⟩ := clampHeight_bounds ctl hc.top_ge height
  rcases Int.lt_trichotomy (ctl.clampHeight height) (ctl.height s) with hlt | heq | hgt
  · by_cases hpos : 0 ≤ ctl.clampHeight height
    · exact sheetUpdown_lower hc hs hlt hpos
    · have hlow : ctl.clampHeight height = -1 := by omega
      rw [hlow]
      exact sheetUpdown_hide hc hs hlow (by omega)
  · refine ⟨ctl, ⟨.refl ctl, hc, heq.symm, fun _ _ _ => rfl⟩, ?_⟩
    rw [sheetUpdown_same heq]
    exact .same rfl
  · by_cases hvis : 0 ≤ ctl.height s
    · exact sheetUpdown_raise hc hs hgt hvis (hle' (htarget hvis))
    · have hhid : ctl.height s = -1 := 
        (hc.hidden_or s hs).resolve_right fun h => hvis (hc.height_of_mem h).1
      exact sheetUpdown_appear hc hs (by omega) hhid

end Cases

end Shtctl

end WinDOS
