import WinDOS.Gui.Handlers
import WinDOS.Window.Pinned

/-!
# The stack under every sequence of GUI events

The invariant pins the background to height 0 and the cursor to the top and ties the `min`
flag of every window slot to the visibility of its sheet. Handlers that only draw, refresh
or move sheets keep the shape of the stack; the others are a few calls on one window.
-/

set_option autoImplicit false

namespace WinDOS

open Shtctl

/-- A window slot names a sheet in use, and its flag says whether that is hidden. -/
def SlotOk (ctl : Shtctl) (back cur : Sid) (slot : WinSlot) : Prop :=
  ∃ s, slot.sht = some s ∧ ctl.inUse s ∧ s ≠ back ∧ s ≠ cur ∧ (slot.min = 0 ∨ slot.min = 1) ∧
    (slot.min = 1 ↔ s ∉ ctl.layers)

structure GuiInv (back cur : Sid) (g : Gui) : Prop where
  pinned : Pinned g.ctl back cur
  cursor : g.curSht = some cur
  background : g.backSht = some back
  slots : ∀ slot ∈ g.wins, SlotOk g.ctl back cur slot
  distinct : (g.wins.map WinSlot.sht).Nodup
  shown : ∀ s ∈ g.ctl.layers, s = back ∨ s = cur ∨ some s ∈ g.wins.map WinSlot.sht
  loginNe : g.login ≠ back ∧ g.login ≠ cur
  loginUse : g.ctl.inUse g.login ∨ g.ctl.height g.login < 0

/-- Everything the invariant looks at is the same. -/
structure SameGui (g g' : Gui) : Prop where
  shape : SameShape g.ctl g'.ctl
  wins : g'.wins = g.wins
  curSht : g'.curSht = g.curSht
  backSht : g'.backSht = g.backSht
  login : g'.login = g.login

theorem SameGui.trans {a b c : Gui} (h : SameGui a b) (h' : SameGui b c) : SameGui a c :=
  ⟨h.shape.trans h'.shape, h'.wins.trans h.wins, h'.curSht.trans h.curSht,
    h'.backSht.trans h.backSht, h'.login.trans h.login⟩

theorem SameGui.inv {g g' : Gui} (h : SameGui g g') {back cur : Sid} (hi : GuiInv back cur g) :
    GuiInv back cur g' where
  pinned := h.shape.pinned hi.pinned
  cursor := h.curSht.trans hi.cursor
  background := h.backSht.trans hi.background
  slots slot hslot := by
    rw [h.wins] at hslot
    obtain ⟨s, h1, h2, h3, h4, h5, h6⟩ := hi.slots slot hslot
    exact ⟨s, h1, (h.shape.inUse s).mpr h2, h3, h4, h5, by rw [h.shape.layers]; exact h6⟩
  distinct := by rw [h.wins]; exact hi.distinct
  shown := by rw [h.shape.layers, h.wins]; exact hi.shown
  loginNe := by rw [h.login]; exact hi.loginNe
  loginUse := by
    rw [h.login, h.shape.inUse, h.shape.height]
    exact hi.loginUse

namespace Gui

/-! ### Handlers that keep the shape -/

theorem sameGui_refreshBack (g : Gui) (b : Rect) : SameGui g (g.refreshBack b) := by
  unfold refreshBack
  split
  · exact ⟨.refl _, rfl, rfl, rfl, rfl⟩
  · exact ⟨(sameStack_sheetRefresh _ _ _ _).1.sameShape, rfl, rfl, rfl, rfl⟩

theorem sameGui_taskbarDraw (font : Font) (g : Gui) : SameGui g (g.taskbarDraw font) := by
  unfold taskbarDraw
  split
  · exact ⟨.refl _, rfl, rfl, rfl, rfl⟩
  · exact ⟨sameShape_setSheet rfl rfl, rfl, rfl, rfl, rfl⟩

theorem sameGui_refreshAll (font : Font) (g : Gui) : SameGui g (g.refreshAll font) :=
  ⟨sameShape_refreshAll _ _, rfl, rfl, rfl, rfl⟩

theorem sameGui_redrawBar (font : Font) (g : Gui) :
    SameGui g (g.taskbarDraw font).refreshTaskbar :=
  (sameGui_taskbarDraw font g).trans (sameGui_refreshBack _ _)

theorem sameGui_clock (font : Font) (g : Gui) (now : Nat) : SameGui g (g.clock font now) := by
  unfold clock
  split
  · exact ⟨.refl _, rfl, rfl, rfl, rfl⟩
  · refine SameGui.trans ?_ (sameGui_refreshBack _ _)
    exact ⟨sameShape_setSheet rfl rfl, rfl, rfl, rfl, rfl⟩

theorem sameGui_moveCursor (g : Gui) (dx dy : Int) : SameGui g (g.moveCursor dx dy) := by
  unfold moveCursor
  dsimp only
  split
  · exact ⟨.refl _, rfl, rfl, rfl, rfl⟩
  · exact ⟨sameShape_slide _ _ _ _, rfl, rfl, rfl, rfl⟩

theorem sameGui_drag (g : Gui) : SameGui g g.drag := by
  unfold drag
  dsimp only
  split
  · split
    · exact ⟨.refl _, rfl, rfl, rfl, rfl⟩
    · exact ⟨sameShape_slide _ _ _ _, rfl, rfl, rfl, rfl⟩
  · exact ⟨.refl _, rfl, rfl, rfl, rfl⟩

end Gui

/-! ### Calls on one window -/

namespace GuiInv

open Gui

section Window

variable {g : Gui} {back cur : Sid} (h : GuiInv back cur g)
include h

theorem slot_unique {i j : Nat} {a b : WinSlot} (hi : g.wins[i]? = some a)
    (hj : g.wins[j]? = some b) (hab : a.sht = b.sht) : i = j := by
  have hlen : i < (g.wins.map WinSlot.sht).length := by
    rw [List.length_map]
    exact (List.getElem?_eq_some_iff.mp hi).1
  refine (List.getElem?_inj hlen h.distinct).mp ?_
  rw [List.getElem?_map, List.getElem?_map, hi, hj, Option.map_some, Option.map_some, hab]

theorem login_updown {s : Sid} (hs : g.ctl.inUse s) (hb : s ≠ back) (hc : s ≠ cur) {height : Int}
    (htarget : height = -1 ∨ 0 < height ∧ height < (g.ctl.others s).length) :
    (g.ctl.sheetUpdown s height).inUse g.login ∨ (g.ctl.sheetUpdown s height).height g.login < 0 := by
  obtain ⟨-, huse, -, hhid⟩ := h.pinned.updown hs hb hc _ htarget
  rw [huse]
  by_cases hl : g.ctl.inUse g.login
  · exact .inl hl
  · right
    rw [hhid g.login (fun heq => hl (heq ▸ hs)) fun hm => hl (h.pinned.consistent.inUse_of_mem hm)]
    exact h.loginUse.resolve_left hl

theorem toggled {i : Nat} {slot : WinSlot} {s : Sid} (hi : g.wins[i]? = some slot)
    (hslot : slot.sht = some s) {m height : Int} (hm : m = 0 ∨ m = 1)
    (hiff : m = 1 ↔ height = -1)
    (htarget : height = -1 ∨ 0 < height ∧ height < (g.ctl.others s).length) :
    GuiInv back cur ((g.setMin i m).updown s height) := by
  obtain ⟨s', h1, hs, hb, hc, -, -⟩ := h.slots slot (List.mem_of_getElem? hi)
  obtain rfl : s = s' := Option.some.inj (hslot.symm.trans h1)
  obtain ⟨hp, huse, hmem, -⟩ := h.pinned.updown hs hb hc _ htarget
  have hmap : (g.setMin i m).wins.map WinSlot.sht = g.wins.map WinSlot.sht := by
    rw [← map_fst_slots, ← map_fst_slots, setMin_slots]
  refine ⟨hp, h.cursor, h.background, ?_, hmap.symm ▸ h.distinct, fun t ht => ?_, h.loginNe,
    h.login_updown hs hb hc htarget⟩
  · intro slot' hin
    obtain ⟨j, hj⟩ := List.getElem?_of_mem hin
    change (g.wins.modify i fun slot => { slot with min := m })[j]? = some slot' at hj
    by_cases hij : i = j
    · subst hij
      rw [List.getElem?_modify_eq, hi] at hj
      obtain rfl : { slot with min := m } = slot' := by simpa using hj
      refine ⟨s, hslot, (huse s).mpr hs, hb, hc, hm, ?_⟩
      change m = 1 ↔ s ∉ (g.ctl.sheetUpdown s height).layers
      rw [hmem, hiff]
      simp
    · rw [List.getElem?_modify_ne _ _ hij] at hj
      obtain ⟨t, ht, hu, htb, htc, hmin, hvis⟩ := h.slots slot' (List.mem_of_getElem? hj)
      have hts : t ≠ s := by
        rintro rfl
        exact hij (h.slot_unique hi hj (hslot.trans ht.symm))
      refine ⟨t, ht, (huse t).mpr hu, htb, htc, hmin, hvis.trans ?_⟩
      change t ∉ g.ctl.layers ↔ t ∉ (g.ctl.sheetUpdown s height).layers
      rw [hmem]
      simp [hts]
  · change t = back ∨ t = cur ∨ some t ∈ (g.setMin i m).wins.map WinSlot.sht
    rw [hmap]
    rcases (hmem t).mp ht with ⟨hne, hin⟩ | ⟨rfl, -⟩
    · exact h.shown t hin
    · exact .inr (.inr (List.mem_map.mpr ⟨slot, List.mem_of_getElem? hi, hslot⟩))

/-- A visible window moves to another height between background and cursor. -/
theorem raised {s : Sid} (hs : s ∈ g.ctl.layers) (hb : s ≠ back) (hc : s ≠ cur) (height : Int)
    (h0 : 0 < height) (h1 : height < (g.ctl.others s).length) :
    GuiInv back cur (g.updown s height) ∧ ∀ t, t ∈ (g.updown s height).ctl.layers ↔ t ∈ g.ctl.layers := by
  have huses := h.pinned.consistent.inUse_of_mem hs
  obtain ⟨hp, huse, hmem, -⟩ := h.pinned.updown huses hb hc _ (.inr ⟨h0, h1⟩)
  have hiff : ∀ t, t ∈ (g.ctl.sheetUpdown s height).layers ↔ t ∈ g.ctl.layers := by
    intro t
    rw [hmem]
    by_cases hts : t = s
    · subst hts
      simp only [ne_eq, not_true_eq_false, false_and, true_and, false_or]
      exact ⟨fun _ => hs, fun _ => by omega⟩
    · simp [hts]
  refine ⟨⟨hp, h.cursor, h.background, fun slot hslot => ?_, h.distinct,
    fun t ht => h.shown t ((hiff t).mp ht), h.loginNe,
    h.login_updown huses hb hc (.inr ⟨h0, h1⟩)⟩, hiff⟩
  obtain ⟨t, ht, hu, htb, htc, hmin, hvis⟩ := h.slots slot hslot
  exact ⟨t, ht, (huse t).mpr hu, htb, htc, hmin, hvis.trans (not_congr (hiff t)).symm⟩

theorem removed {s : Sid} (hs : g.ctl.inUse s ∨ g.ctl.height s < 0) (hb : s ≠ back)
    (hc : s ≠ cur) : GuiInv back cur ((g.winRemove s).free s) := by
  have hrem : (g.winRemove s).ctl = g.ctl ∧ (g.winRemove s).curSht = g.curSht ∧
      (g.winRemove s).backSht = g.backSht ∧ (g.winRemove s).login = g.login ∧
      ((g.winRemove s).wins.map WinSlot.sht).Nodup ∧
      ∀ slot ∈ (g.winRemove s).wins, slot.sht ≠ some s := by
    unfold winRemove
    cases hi : g.slotOf s with
    | none =>
      refine ⟨rfl, rfl, rfl, rfl, h.distinct, fun slot hslot heq => ?_⟩
      have := List.findIdx?_eq_none_iff.mp hi slot hslot
      simp [heq] at this
    | some i =>
      obtain ⟨a, ha, hsht⟩ := slotOf_spec hi
      refine ⟨rfl, rfl, rfl, rfl, ?_, fun slot hslot heq => ?_⟩
      · exact h.distinct.sublist ((List.eraseIdx_sublist _ _).map _)
      · obtain ⟨j, hj, hslotj⟩ := List.mem_eraseIdx_iff_getElem?.mp hslot
        exact hj (h.slot_unique hslotj ha (heq.trans hsht.symm))
  obtain ⟨hctl, hcur, hback, hlogin, hnodup, hgone⟩ := hrem
  obtain ⟨hfewer, hkept⟩ := mem_winRemove g s
  obtain ⟨hp, huse, hmem, hneg, hother⟩ := h.pinned.free hs hb hc
  have hfree : ((g.winRemove s).free s).ctl = g.ctl.sheetFree s := by
    unfold free
    rw [hctl]
  refine ⟨hfree ▸ hp, hcur.trans h.cursor, hback.trans h.background, fun slot hslot => ?_, hnodup,
    fun t ht => ?_, hlogin ▸ h.loginNe, ?_⟩
  · obtain ⟨t, ht, hu, htb, htc, hmin, hvis⟩ := h.slots slot (hfewer slot hslot)
    have hts : t ≠ s := fun heq => hgone slot hslot (heq ▸ ht)
    refine ⟨t, ht, ?_, htb, htc, hmin, hvis.trans ?_⟩
    · rw [hfree, huse]
      exact ⟨hu, hts⟩
    · rw [hfree, hmem]
      simp [hts]
  · rw [hfree, hmem] at ht
    refine (h.shown t ht.1).imp_right (Or.imp_right fun hin => ?_)
    obtain ⟨slot, hslot, hsht⟩ := List.mem_map.mp hin
    exact List.mem_map.mpr ⟨slot, hkept slot hslot fun heq =>
      ht.2 (Option.some.inj (hsht.symm.trans heq)), hsht⟩
  · change ((g.winRemove s).free s).ctl.inUse (g.winRemove s).login ∨
      ((g.winRemove s).free s).ctl.height (g.winRemove s).login < 0
    rw [hlogin, hfree, huse]
    by_cases hls : g.login = s
    · exact .inr (hls ▸ hneg)
    · by_cases hl : g.ctl.inUse g.login
      · exact .inl ⟨hl, hls⟩
      · right
        rw [hother _ hls fun hm => hl (h.pinned.consistent.inUse_of_mem hm)]
        exact h.loginUse.resolve_left hl

theorem withMouse (mmx mmy : Int) (dragSht : Option Sid) :
    GuiInv back cur { g with mmx := mmx, mmy := mmy, dragSht := dragSht } :=
  ⟨h.pinned, h.cursor, h.background, h.slots, h.distinct, h.shown, h.loginNe, h.loginUse⟩

theorem cursor_on_top {c : Sid} (hcur : g.curSht = some c) : g.updown c g.ctl.top = g := by
  obtain rfl : cur = c := Option.some.inj (h.cursor.symm.trans hcur)
  unfold Gui.updown
  rw [h.pinned.updown_cur]

theorem of_min {i : Nat} {slot : WinSlot} {s : Sid} (hi : g.wins[i]? = some slot)
    (hslot : slot.sht = some s) : slot.min ≠ 0 → s ∉ g.ctl.layers := by
  obtain ⟨s', h1, -, -, -, hmin, hvis⟩ := h.slots slot (List.mem_of_getElem? hi)
  obtain rfl : s = s' := Option.some.inj (hslot.symm.trans h1)
  exact fun hne => hvis.mp (hmin.resolve_left hne)

theorem minimised {i : Nat} {slot : WinSlot} {s : Sid} (hi : g.wins[i]? = some slot)
    (hslot : slot.sht = some s) : GuiInv back cur (g.hideSlot i s) :=
  (h.toggled hi hslot (.inr rfl) (iff_of_true rfl rfl) (.inl rfl)).withMouse _ _ _

theorem restored {i : Nat} {slot : WinSlot} {s : Sid} (hi : g.wins[i]? = some slot)
    (hslot : slot.sht = some s) (hmin : slot.min ≠ 0) :
    GuiInv back cur ((g.setMin i 0).updown s g.ctl.top) := by
  have htop := h.pinned.top_pos
  have hlen := h.pinned.consistent.others_length (s := s)
  rw [if_neg (h.of_min hi hslot hmin)] at hlen
  exact h.toggled hi hslot (.inl rfl) (iff_of_false (by decide) (by omega)) (.inr ⟨by omega, by omega⟩)

theorem showSlot {i : Nat} {slot : WinSlot} {s : Sid} (hi : g.wins[i]? = some slot)
    (hslot : slot.sht = some s) (hmin : slot.min ≠ 0) : GuiInv back cur (g.showSlot i s) := by
  have hup := h.restored hi hslot hmin
  unfold Gui.showSlot
  dsimp only
  split
  · exact hup
  · rename_i c hc
    rwa [hup.cursor_on_top hc]

theorem taskbarClick (font : Font) (x y : Int) : GuiInv back cur (g.taskbarClick font x y) := by
  rcases taskbarClick_cases font g x y with heq | ⟨i, slot, s, hi, hslot, ⟨hmin, heq⟩ | ⟨-, heq⟩⟩
  · rw [heq]
    exact h
  · rw [heq]
    exact (sameGui_redrawBar font _).inv (h.showSlot hi hslot hmin)
  · rw [heq]
    exact (sameGui_redrawBar font _).inv (h.minimised hi hslot)

theorem winMinimize (font : Font) (s : Sid) : GuiInv back cur (g.winMinimize font s) := by
  rcases winMinimize_cases font g s with heq | ⟨i, slot, hi, hslot, heq⟩
  · rw [heq]
    exact h
  · rw [heq]
    exact (sameGui_redrawBar font _).inv (h.minimised hi hslot)

theorem winClosed (font : Font) {s : Sid} (hs : g.ctl.inUse s) (hb : s ≠ back) (hc : s ≠ cur) :
    GuiInv back cur (g.winClosed font s) :=
  ((sameGui_taskbarDraw font _).trans (sameGui_refreshAll font _)).inv
    (h.removed (.inl hs) hb hc)

theorem loginTeardown (font : Font) : GuiInv back cur (g.loginTeardown font) :=
  (sameGui_refreshAll font _).inv (h.removed h.loginUse h.loginNe.1 h.loginNe.2)

theorem sheets_ne_back {j : Int} (h0 : 1 ≤ j) (h1 : j ≤ g.ctl.top) :
    g.ctl.sheets j ≠ back := fun heq => by
  have := h.pinned.consistent.at_height j (by omega) h1
  rw [heq, h.pinned.back_height] at this
  omega

/-- A click hits a sheet between background and cursor. -/
theorem hit_between {j : Int} (hhit : g.hitHeight = some j) :
    1 ≤ j ∧ j ≤ g.ctl.top ∧ g.ctl.sheets j ≠ cur := by
  have hfound := List.find?_some hhit
  obtain ⟨k, hk, rfl⟩ := List.mem_map.mp (List.mem_of_find?_eq_some hhit)
  rw [List.mem_range] at hk
  rw [h.cursor, Bool.and_eq_true] at hfound
  refine ⟨by omega, by omega, fun heq => ?_⟩
  simp [heq] at hfound

theorem bringUp {j : Int} (h0 : 1 ≤ j) (h1 : j ≤ g.ctl.top) (hc : g.ctl.sheets j ≠ cur) :
    GuiInv back cur (g.bringUp j) ∧ ∀ t, t ∈ (g.bringUp j).ctl.layers ↔ t ∈ g.ctl.layers := by
  have hmem : g.ctl.sheets j ∈ g.ctl.layers := mem_layers.mpr ⟨j, by omega, h1, rfl⟩
  have hb := h.sheets_ne_back h0 h1
  have hlen := h.pinned.consistent.others_length (s := g.ctl.sheets j)
  rw [if_pos hmem] at hlen
  unfold Gui.bringUp
  dsimp only
  by_cases hj : j < g.ctl.top - 1
  · have hr := h.raised hmem hb hc (g.ctl.top - 1) (by omega) (by omega)
    simp only [if_pos hj]
    split
    · exact hr
    · rename_i c hcur
      rwa [hr.1.cursor_on_top hcur]
  · simp only [if_neg hj]
    split
    · exact ⟨h, fun _ => .rfl⟩
    · rename_i c hcur
      rw [h.cursor_on_top hcur]
      exact ⟨h, fun _ => .rfl⟩

theorem clicked (font : Font) {j : Int} (h0 : 1 ≤ j) (h1 : j ≤ g.ctl.top)
    (hc : g.ctl.sheets j ≠ cur) : GuiInv back cur (g.clicked font j) := by
  have hb := h.sheets_ne_back h0 h1
  obtain ⟨hup, hiff⟩ := h.bringUp h0 h1 hc
  have huse := hup.pinned.consistent.inUse_of_mem
    ((hiff _).mpr (mem_layers.mpr ⟨j, by omega, h1, rfl⟩))
  unfold Gui.clicked
  dsimp only
  split
  · exact (hup.winClosed font huse hb hc).withMouse _ _ _
  split
  · exact (hup.winMinimize font _).withMouse _ _ _
  split
  · exact hup.withMouse _ _ _
  · exact hup

theorem press (font : Font) : GuiInv back cur (g.press font) := by
  unfold Gui.press
  split
  · exact h.taskbarClick font _ _
  cases hhit : g.hitHeight with
  | none => exact h
  | some j =>
    obtain ⟨h0, h1, hc⟩ := h.hit_between hhit
    exact h.clicked font h0 h1 hc

theorem isr2cPacket (font : Font) (btn : Nat) (dx dy : Int) :
    GuiInv back cur (g.isr2cPacket font btn dx dy) := by
  unfold Gui.isr2cPacket
  dsimp only
  refine (sameGui_moveCursor _ dx dy).inv ?_
  split
  · split
    · exact h.press font
    · exact (sameGui_drag g).inv h
  · exact h.withMouse _ _ _

end Window

end GuiInv

end WinDOS
