import WinDOS.Window.Owner

/-!
# Stacks with a background and a cursor

The background is the lowest sheet and the cursor the highest. The handlers only send
windows to heights strictly between the two, which keeps them there. The order of the
other sheets never changes in a call of `sheet_updown`.
-/

set_option autoImplicit false

namespace WinDOS

open Layers

namespace Shtctl

/-! ### The order of the other sheets -/

/-- The visible sheets other than `s`. -/
def others (ctl : Shtctl) (s : Sid) : List Sid := ctl.layers.filter (· != s)

theorem mem_others {ctl : Shtctl} {s t : Sid} : t ∈ ctl.others s ↔ t ∈ ctl.layers ∧ t ≠ s := by
  simp [others]

theorem Consistent.layers_eq {ctl : Shtctl} (hc : Consistent ctl) {s : Sid} (hs : s ∈ ctl.layers) :
    ctl.layers = (ctl.others s).take (ctl.height s).toNat ++
      s :: (ctl.others s).drop (ctl.height s).toNat := by
  obtain ⟨below, above, hsplit, hlen, hbelow, habove⟩ := hc.split hs
  have hfilter : ∀ l : List Sid, s ∉ l → l.filter (· != s) = l := by
    intro l hl
    refine List.filter_eq_self.mpr fun a ha => ?_
    have : a ≠ s := fun h => hl (h ▸ ha)
    simpa using this
  have hothers : ctl.others s = below ++ above := by
    rw [others, hsplit, List.filter_append, List.filter_cons_of_neg (by simp), hfilter below hbelow,
      hfilter above habove]
  have hn : (ctl.height s).toNat = below.length := by omega
  rw [hothers, hn, List.take_left, List.drop_left, ← hsplit]

theorem others_of_not_mem {ctl : Shtctl} {s : Sid} (hs : s ∉ ctl.layers) :
    ctl.others s = ctl.layers := by
  refine List.filter_eq_self.mpr fun a ha => ?_
  have : a ≠ s := fun h => hs (h ▸ ha)
  simpa using this

/-- `sheet_updown` keeps the other visible sheets and their order. -/
theorem Updown.others {ctl st res : Shtctl} {s : Sid} (h : Updown ctl s st res) :
    st.others s = ctl.others s := by
  unfold Shtctl.others
  cases h with
  | same order => rw [order]
  | lower below passed above before after => rw [before, after]; simp
  | hide below above before after => rw [before, after]; simp
  | raise below passed above before after => rw [before, after]; simp
  | appear below above before after => rw [before, after]; simp

/-! ### Replacing a sheet -/

theorem Consistent.setSheet {ctl : Shtctl} (hc : Consistent ctl) {s : Sid} {sht : Sheet}
    (hheight : sht.height = ctl.height s) (huse : sht.flags ≠ 0 → ctl.inUse s)
    (hvis : s ∈ ctl.layers → sht.flags ≠ 0) : Consistent (ctl.setSheet s sht) := by
  have hh : ∀ t, (ctl.setSheet s sht).height t = ctl.height t := by
    intro t
    rw [Shtctl.height, setSheet_sheets0]
    split
    · rename_i ht
      rw [hheight, ht]
    · rfl
  have hu : ∀ t, (ctl.setSheet s sht).inUse t ↔ if t = s then sht.flags ≠ 0 else ctl.inUse t := by
    intro t
    rw [inUse, setSheet_sheets0]
    split <;> rfl
  refine ⟨hc.top_ge, fun k h0 h1 => ?_, fun k h0 h1 => ?_, fun t ht => ?_⟩
  · rw [hu]
    split
    · rename_i hs
      exact hvis (mem_layers.mpr ⟨k, h0, h1, hs⟩)
    · exact hc.used k h0 h1
  · rw [hh]
    exact hc.at_height k h0 h1
  · rw [hh, setSheet_layers]
    refine hc.hidden_or t ?_
    rw [hu] at ht
    split at ht
    · rename_i hs
      exact hs ▸ huse ht
    · exact ht

theorem sameShape_setSheet {ctl : Shtctl} {s : Sid} {sht : Sheet}
    (hheight : sht.height = ctl.height s) (hflags : sht.flags = (ctl.sheets0 s).flags) :
    SameShape ctl (ctl.setSheet s sht) := by
  refine ⟨rfl, rfl, fun t => ?_, fun t => ?_⟩
  · rw [height, setSheet_sheets0]
    split
    · rename_i ht
      rw [hheight, ht]
    · rfl
  · rw [inUse, inUse, setSheet_sheets0]
    split
    · rename_i ht
      rw [hflags, ht]
    · rfl

theorem sameShape_slide (ctl : Shtctl) (s : Sid) (vx0 vy0 : Int) :
    SameShape ctl (ctl.sheetSlide s vx0 vy0) := by
  have hset : SameShape ctl (ctl.setSheet s ((ctl.sheets0 s).moveTo vx0 vy0)) :=
    sameShape_setSheet rfl rfl
  refine hset.trans ?_
  unfold sheetSlide
  simp only [setSheet_sheets0, if_true]
  split
  · exact SameStack.sameShape ⟨rfl, rfl, rfl, rfl, rfl⟩
  · exact .refl _

theorem sameShape_refreshAll (ctl : Shtctl) (hook : Option TaskbarHook) :
    SameShape ctl (ctl.shtctlRefreshAll hook) := by
  have hset : SameShape ctl (ctl.repaintBack hook) := sameShape_setSheet rfl rfl
  exact hset.trans (SameStack.sameShape ⟨rfl, rfl, rfl, rfl, rfl⟩)

/-! ### Background and cursor -/

structure Pinned (ctl : Shtctl) (back cur : Sid) : Prop where
  consistent : Consistent ctl
  bottom : ctl.layers.head? = some back
  cursor : ctl.layers.getLast? = some cur
  ne : back ≠ cur

theorem SameShape.pinned {a b : Shtctl} (h : SameShape a b) {back cur : Sid}
    (hp : Pinned a back cur) : Pinned b back cur :=
  ⟨h.consistent hp.consistent, by rw [h.layers, hp.bottom], by rw [h.layers, hp.cursor], hp.ne⟩

theorem Consistent.height_head {ctl : Shtctl} (hc : Consistent ctl) {s : Sid}
    (h : ctl.layers.head? = some s) : ctl.height s = 0 := by
  have hmem : s ∈ ctl.layers := List.mem_of_mem_head? h
  obtain ⟨below, above, hsplit, hlen, hbelow, -⟩ := hc.split hmem
  cases below with
  | nil => simpa using hlen.symm
  | cons b below =>
    rw [hsplit] at h
    obtain rfl : b = s := by simpa using h
    exact absurd List.mem_cons_self hbelow

theorem Consistent.height_last {ctl : Shtctl} (hc : Consistent ctl) {s : Sid}
    (h : ctl.layers.getLast? = some s) : ctl.height s = ctl.top := by
  have hmem : s ∈ ctl.layers := List.mem_of_getLast? h
  obtain ⟨below, above, hsplit, hlen, -, habove⟩ := hc.split hmem
  have hlength := hc.layers_length
  rw [hsplit] at h hlength
  rw [List.getLast?_append, List.getLast?_cons] at h
  cases hlast : above.getLast? with
  | none =>
    obtain rfl := List.getLast?_eq_none_iff.mp hlast
    simp only [List.length_append, List.length_cons, List.length_nil] at hlength
    omega
  | some a =>
    rw [hlast] at h
    obtain rfl : a = s := by simpa using h
    exact absurd (List.mem_of_getLast? hlast) habove

theorem Consistent.others_length {ctl : Shtctl} (hc : Consistent ctl) {s : Sid} :
    ((ctl.others s).length : Int) = if s ∈ ctl.layers then ctl.top else ctl.top + 1 := by
  have hlength := hc.layers_length
  split
  · rename_i hs
    rw [hc.layers_eq hs, List.length_append, List.length_cons] at hlength
    rw [List.length_take, List.length_drop] at hlength
    omega
  · rename_i hs
    rw [others_of_not_mem hs, hlength]

namespace Pinned

variable {ctl : Shtctl} {back cur : Sid} (hp : Pinned ctl back cur)
include hp

theorem back_mem : back ∈ ctl.layers := List.mem_of_mem_head? hp.bottom

theorem cur_mem : cur ∈ ctl.layers := List.mem_of_getLast? hp.cursor

theorem back_height : ctl.height back = 0 := hp.consistent.height_head hp.bottom

theorem cur_height : ctl.height cur = ctl.top := hp.consistent.height_last hp.cursor

theorem top_pos : 1 ≤ ctl.top := by
  have h0 := hp.consistent.height_of_mem hp.back_mem
  have h1 := hp.consistent.height_of_mem hp.cur_mem
  rw [hp.back_height] at h0
  rw [hp.cur_height] at h1
  by_contra h
  have htop : ctl.top = 0 := by omega
  rw [htop] at h1
  exact hp.ne (h0.2.2.symm.trans h1.2.2)

/-- Putting a window back strictly between background and cursor. -/
theorem of_others {st : Shtctl} {s : Sid} (hst : Consistent st) (hothers : st.others s = ctl.others s)
    (hb : s ≠ back) (hcur : s ≠ cur)
    (hpos : s ∈ st.layers → 0 < st.height s ∧ st.height s < (ctl.others s).length) :
    Pinned st back cur := by
  have hhead : (ctl.others s).head? = some back := by
    obtain ⟨rest, hrest⟩ := List.head?_eq_some_iff.mp hp.bottom
    rw [others, hrest, List.filter_cons_of_pos (by simpa using hb.symm)]
    rfl
  have hlast : (ctl.others s).getLast? = some cur := by
    obtain ⟨init, hinit⟩ := List.getLast?_eq_some_iff.mp hp.cursor
    rw [others, hinit, List.filter_append, List.filter_cons_of_pos (by simpa using hcur.symm)]
    simp
  by_cases hs : s ∈ st.layers
  · obtain ⟨h0, h1⟩ := hpos hs
    have heq := hst.layers_eq hs
    rw [hothers] at heq
    refine ⟨hst, ?_, ?_, hp.ne⟩
    · rw [heq, List.head?_append, List.head?_take, if_neg (by omega), hhead]
      rfl
    · rw [heq, List.getLast?_append, List.getLast?_cons, List.getLast?_drop, if_neg (by omega), hlast]
      rfl
  · rw [others_of_not_mem hs] at hothers
    exact ⟨hst, by rw [hothers, hhead], by rw [hothers, hlast], hp.ne⟩

/-- Hiding a window, or sending it to a height between background and cursor. -/
theorem updown {s : Sid} (hs : ctl.inUse s) (hb : s ≠ back) (hcur : s ≠ cur) (height : Int)
    (htarget : height = -1 ∨ 0 < height ∧ height < (ctl.others s).length) :
    Pinned (ctl.sheetUpdown s height) back cur ∧
      (∀ t, (ctl.sheetUpdown s height).inUse t ↔ ctl.inUse t) ∧
      (∀ t, t ∈ (ctl.sheetUpdown s height).layers ↔
        t ≠ s ∧ t ∈ ctl.layers ∨ t = s ∧ height ≠ -1) ∧
      ∀ t, t ≠ s → t ∉ ctl.layers → (ctl.sheetUpdown s height).height t = ctl.height t := by
  have htop := hp.top_pos
  have hlen := hp.consistent.others_length (s := s)
  have hvis : 0 ≤ ctl.height s → s ∈ ctl.layers := hp.consistent.visible hs
  have hbound : height ≤ ctl.top + 1 ∧ (0 ≤ ctl.height s → height ≤ ctl.top) := by
    constructor
    · split at hlen <;> omega
    · intro hv
      rw [if_pos (hvis hv)] at hlen
      omega
  have hclamp : ctl.clampHeight height = height := clampHeight_eq_self (by omega) hbound.1
  obtain ⟨st, hre, h⟩ := sheetUpdown_cases hp.consistent hs _ hbound.2
  have hsame := h.sameStack.sameShape
  rw [hclamp] at hre
  have hmem : s ∈ st.layers ↔ height ≠ -1 := by
    constructor
    · intro hm
      have := (hre.consistent.height_of_mem hm).1
      have := hre.height
      omega
    · intro hne
      refine hre.consistent.visible ?_ (by have := hre.height; omega)
      rw [inUse, hre.frame.sheet]
      exact hs
  refine ⟨hsame.pinned (hp.of_others hre.consistent h.others hb hcur fun hm => ?_), fun t => ?_,
    fun t => ?_, fun t hts ht => ?_⟩
  · have := hmem.mp hm
    rw [hre.height]
    omega
  · rw [hsame.inUse, inUse, hre.frame.sheet]
    exact Iff.rfl
  · rw [hsame.layers]
    by_cases hts : t = s
    · subst hts
      rw [hmem]
      simp
    · have hiff : t ∈ st.layers ↔ t ∈ ctl.layers := by
        have h1 : t ∈ st.others s ↔ t ∈ ctl.others s := by rw [h.others]
        simpa [mem_others, hts] using h1
      simp [hiff, hts]
  · rw [hsame.height]
    exact hre.hidden t hts ht

theorem updown_cur : ctl.sheetUpdown cur ctl.top = ctl := by
  have htop := hp.top_pos
  refine sheetUpdown_same ?_
  rw [clampHeight_eq_self (by omega) (by omega), hp.cur_height]

/-- A window, or a sheet that was freed before, is freed. -/
theorem free {s : Sid} (hs : ctl.inUse s ∨ ctl.height s < 0) (hb : s ≠ back) (hcur : s ≠ cur) :
    Pinned (ctl.sheetFree s) back cur ∧
      (∀ t, (ctl.sheetFree s).inUse t ↔ ctl.inUse t ∧ t ≠ s) ∧
      (∀ t, t ∈ (ctl.sheetFree s).layers ↔ t ∈ ctl.layers ∧ t ≠ s) ∧
      (ctl.sheetFree s).height s < 0 ∧
      ∀ t, t ≠ s → t ∉ ctl.layers → (ctl.sheetFree s).height t = ctl.height t := by
  obtain ⟨c, hres, hpc, huse, hmem, hneg, hother⟩ : ∃ c,
      ctl.sheetFree s = c.setSheet s { c.sheets0 s with flags := 0 } ∧ Pinned c back cur ∧
      (∀ t, c.inUse t ↔ ctl.inUse t) ∧ (∀ t, t ∈ c.layers ↔ t ∈ ctl.layers ∧ t ≠ s) ∧
      c.height s < 0 ∧ ∀ t, t ≠ s → t ∉ ctl.layers → c.height t = ctl.height t := by
    by_cases hv : 0 ≤ ctl.height s
    · obtain ⟨h1, h2, h3, h4⟩ := hp.updown (hs.resolve_right (by omega)) hb hcur (-1) (.inl rfl)
      refine ⟨ctl.sheetUpdown s (-1), ?_, h1, h2, fun t => ?_, ?_, h4⟩
      · unfold sheetFree
        rw [if_pos hv]
      · rw [h3]
        simp [and_comm]
      · have hnot : s ∉ (ctl.sheetUpdown s (-1)).layers := by simp [h3]
        rw [(h1.consistent.hidden_iff ((h2 s).mpr (hs.resolve_right (by omega)))).mpr hnot]
        decide
    · refine ⟨ctl, ?_, hp, fun _ => .rfl, fun t => ⟨fun ht => ⟨ht, ?_⟩, And.left⟩, by omega,
        fun _ _ _ => rfl⟩
      · unfold sheetFree
        rw [if_neg hv]
      · rintro rfl
        exact hv (hp.consistent.height_of_mem ht).1
  have hnot : s ∉ c.layers := by simp [hmem]
  have hset : Consistent (c.setSheet s { c.sheets0 s with flags := 0 }) :=
    hpc.consistent.setSheet rfl (fun h => absurd rfl h) fun h => absurd h hnot
  have hheight : ∀ t, (c.setSheet s { c.sheets0 s with flags := 0 }).height t = c.height t := by
    intro t
    rw [height, setSheet_sheets0]
    split
    · rename_i ht
      rw [ht]
      rfl
    · rfl
  rw [hres]
  refine ⟨⟨hset, hpc.bottom, hpc.cursor, hp.ne⟩, fun t => ?_, hmem, ?_, fun t hts ht => ?_⟩
  · rw [inUse, setSheet_sheets0]
    split
    · rename_i ht
      simp [ht]
    · rename_i ht
      exact (huse t).trans (by simp [ht])
  · rw [hheight]
    exact hneg
  · rw [hheight]
    exact hother t hts ht

end Pinned

end Shtctl

end WinDOS
