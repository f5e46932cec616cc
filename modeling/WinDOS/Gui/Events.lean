import WinDOS.Gui.Invariant

/-!
# Runs of GUI events from the end of start-up

Start-up takes the first four sheets of the pool and shows each on top of the ones before;
the cursor then moves above the login window. From there the events come one at a time.
-/

set_option autoImplicit false

namespace WinDOS

open Shtctl Layers Gui

/-! ### Start-up -/

/-- The first `n` sheets of the pool are in use and stand in the order they were created. -/
structure Opened (n : Nat) (ctl : Shtctl) : Prop where
  consistent : Consistent ctl
  inUse : ∀ s, ctl.inUse s ↔ s.val < n
  layers : ctl.layers = (List.finRange 16).take n

theorem opened_shtctlInit (mem : Shtctl) (vram : Buffer) (xsize ysize : Int)
    (map : Int → BitVec 8) : Opened 0 (mem.shtctlInit vram xsize ysize map) where
  consistent :=
    have hnone : ∀ h : Int, 0 ≤ h → ¬ h ≤ -1 := by omega
    ⟨le_refl _, fun h h0 h1 => absurd h1 (hnone h h0), fun h h0 h1 => absurd h1 (hnone h h0),
      fun _ hs => absurd rfl hs⟩
  inUse s := iff_of_false (fun hs => hs rfl) (Nat.not_lt_zero _)
  layers := rfl

namespace Opened

variable {n : Nat} {ctl : Shtctl}

theorem of_sameShape {ctl' : Shtctl} (h : Opened n ctl) (hs : SameShape ctl ctl') :
    Opened n ctl' :=
  ⟨hs.consistent h.consistent, fun s => (hs.inUse s).trans (h.inUse s), hs.layers.trans h.layers⟩

theorem top_eq (h : Opened n ctl) (hn : n ≤ 16) : ctl.top + 1 = n := by
  have hlen := h.consistent.layers_length
  rw [h.layers, List.length_take, List.length_finRange, min_eq_left hn] at hlen
  exact hlen.symm

theorem mem_layers (h : Opened n ctl) {s : Sid} : s ∈ ctl.layers ↔ s.val < n := by
  rw [h.layers, List.mem_take_iff_getElem]
  constructor
  · rintro ⟨i, hi, rfl⟩
    rw [List.getElem_finRange]
    exact lt_of_lt_of_le hi (min_le_left _ _)
  · intro hs
    refine ⟨s.val, lt_min hs (by simp), ?_⟩
    simp

theorem sheetAlloc (h : Opened n ctl) (hn : n < 16) :
    ctl.sheetAlloc = some (⟨n, hn⟩,
      ctl.setSheet ⟨n, hn⟩ { ctl.sheets0 ⟨n, hn⟩ with flags := 1, height := -1 }) := by
  have hfind : (List.finRange 16).find? (fun s => (ctl.sheets0 s).flags == 0) = some ⟨n, hn⟩ := by
    refine List.find?_eq_some_iff_getElem.mpr ⟨?_, n, by simpa using hn, by simp, fun j hj => ?_⟩
    · have := (h.inUse ⟨n, hn⟩).not.mpr (lt_irrefl n)
      simpa [Shtctl.inUse] using this
    · have := (h.inUse ⟨j, by omega⟩).mpr hj
      simpa [Shtctl.inUse] using this
  unfold Shtctl.sheetAlloc
  rw [hfind]

theorem consistent_alloc (hc : Consistent ctl) {s : Sid} (hs : s ∉ ctl.layers) (sht : Sheet)
    (hheight : sht.height = -1) : Consistent (ctl.setSheet s sht) := by
  have hne : ∀ k, 0 ≤ k → k ≤ ctl.top → ctl.sheets k ≠ s := fun k h0 h1 heq =>
    hs (Shtctl.mem_layers.mpr ⟨k, h0, h1, heq⟩)
  refine ⟨hc.top_ge, fun k h0 h1 => ?_, fun k h0 h1 => ?_, fun t ht => ?_⟩
  · change ((ctl.setSheet s sht).sheets0 (ctl.sheets k)).flags ≠ 0
    rw [setSheet_sheets0, if_neg (hne k h0 h1)]
    exact hc.used k h0 h1
  · change ((ctl.setSheet s sht).sheets0 (ctl.sheets k)).height = k
    rw [setSheet_sheets0, if_neg (hne k h0 h1)]
    exact hc.at_height k h0 h1
  · rw [Shtctl.inUse, setSheet_sheets0] at ht
    rw [Shtctl.height, setSheet_sheets0, setSheet_layers]
    split
    · exact .inl hheight
    · rename_i hts
      rw [if_neg hts] at ht
      exact hc.hidden_or t ht

theorem addSheet (h : Opened n ctl) (hn : n < 16) (buf : Buffer) (xsize ysize : Int)
    (colInv : Pixel) (vx0 vy0 : Int) :
    ∃ ctl', addSheet ctl buf xsize ysize colInv vx0 vy0 n = some (⟨n, hn⟩, ctl') ∧
      Opened (n + 1) ctl' := by
  have hnot : (⟨n, hn⟩ : Sid) ∉ ctl.layers := fun hm => lt_irrefl n (h.mem_layers.mp hm)
  have halloc := consistent_alloc h.consistent hnot { ctl.sheets0 ⟨n, hn⟩ with flags := 1, height := -1 } rfl
  unfold WinDOS.addSheet
  rw [h.sheetAlloc hn]
  refine ⟨_, rfl, ?_⟩
  generalize hc1 : ctl.setSheet ⟨n, hn⟩ { ctl.sheets0 ⟨n, hn⟩ with flags := 1, height := -1 } = c1
    at halloc ⊢
  have hset : SameShape c1 (c1.sheetSetbuf ⟨n, hn⟩ buf xsize ysize colInv) :=
    sameShape_setSheet rfl rfl
  have hmove := hset.trans (@sameShape_setSheet _ ⟨n, hn⟩
    (((c1.sheetSetbuf ⟨n, hn⟩ buf xsize ysize colInv).sheets0 ⟨n, hn⟩).moveTo vx0 vy0) rfl rfl)
  generalize (c1.sheetSetbuf ⟨n, hn⟩ buf xsize ysize colInv).setSheet ⟨n, hn⟩ _ = c2 at hmove ⊢
  have hcons := hmove.consistent halloc
  have hlayers : c2.layers = (List.finRange 16).take n := by
    rw [hmove.layers, ← hc1, setSheet_layers, h.layers]
  have hheight : c2.height ⟨n, hn⟩ = -1 := by
    rw [hmove.height, ← hc1, Shtctl.height, setSheet_sheets0, if_pos rfl]
  have huse : ∀ s, c2.inUse s ↔ s.val < n + 1 := by
    intro s
    rw [hmove.inUse, ← hc1, Shtctl.inUse, setSheet_sheets0]
    split
    · rename_i hs
      subst hs
      exact iff_of_true Nat.one_ne_zero (Nat.lt_succ_self n)
    · rename_i hs
      rw [show (ctl.sheets0 s).flags ≠ 0 ↔ ctl.inUse s from .rfl, h.inUse]
      have : s.val ≠ n := fun heq => hs (Fin.ext heq)
      omega
  have htop : c2.top + 1 = n := by
    rw [hmove.top, ← hc1]
    exact h.top_eq hn.le
  have hclamp : c2.clampHeight n = n := clampHeight_eq_self (by omega) (by omega)
  obtain ⟨st, hre, hup⟩ := sheetUpdown_cases hcons ((huse ⟨n, hn⟩).mpr (Nat.lt_succ_self n))
    n (by omega)
  rw [hclamp] at hre
  have hsame := hup.sameStack.sameShape
  have hstuse : ∀ s, st.inUse s ↔ s.val < n + 1 := by
    intro s
    rw [Shtctl.inUse, hre.frame.sheet]
    exact huse s
  have hvis : (⟨n, hn⟩ : Sid) ∈ st.layers :=
    hre.consistent.visible ((hstuse _).mpr (Nat.lt_succ_self n)) (by rw [hre.height]; omega)
  have hothers : st.others ⟨n, hn⟩ = (List.finRange 16).take n := by
    rw [hup.others, others_of_not_mem, hlayers]
    rw [hlayers, ← h.layers]
    exact hnot
  have hnum : (st.height ⟨n, hn⟩).toNat = n := by
    rw [hre.height]
    exact Int.toNat_natCast n
  refine ⟨hsame.consistent hre.consistent, fun s => (hsame.inUse s).trans (hstuse s), ?_⟩
  rw [hsame.layers, hre.consistent.layers_eq hvis, hothers, hnum, List.take_take, min_self,
    List.drop_eq_nil_of_le (by simp), ← List.take_append_getElem (by simpa using hn)]
  simp

end Opened

theorem startSheets_opened (b : StartUp) :
    ∃ ctl, startSheets b = some (0, 1, 2, 3, ctl) ∧ Opened 4 ctl := by
  obtain ⟨c0, h0, o0⟩ := (opened_shtctlInit b.mem b.fb b.hr b.vr b.lmMap).addSheet (by omega)
    b.backBuf b.hr b.vr colInvNone 0 0
  obtain ⟨c1, h1, o1⟩ := o0.addSheet (by omega) b.winBuf (200 * UI_SCALE + 2 * SHADOW)
    (120 * UI_SCALE + 2 * SHADOW) COL_INV (80 - SHADOW) (72 - SHADOW)
  obtain ⟨c2, h2, o2⟩ := o1.addSheet (by omega) b.curBuf CUR_W CUR_H COL_INV (b.hr / 2) (b.vr / 2)
  obtain ⟨c3, h3, o3⟩ := (o2.of_sameShape (sameShape_refreshAll c2 none)).addSheet (by omega)
    b.loginBuf (LOGIN_W + 2 * SHADOW) (LOGIN_H + 2 * SHADOW) COL_INV
    (b.hr / 2 - LOGIN_W / 2 - SHADOW) (b.vr / 2 - LOGIN_H / 2 - SHADOW)
  refine ⟨c3, ?_, o3⟩
  unfold startSheets
  simp only [Nat.cast_zero, Nat.cast_one, Nat.cast_ofNat, zero_add, Nat.reduceAdd] at h0 h1 h2 h3
  simp only [h0, h1, h2, h3, Option.bind_some]
  rfl

/-- The stack the last `sheet_updown` of the start-up leaves: the cursor above the login. -/
theorem Opened.cursor_up {ctl : Shtctl} (h : Opened 4 ctl) :
    Consistent (ctl.sheetUpdown 2 ctl.top) ∧
      (∀ s, (ctl.sheetUpdown 2 ctl.top).inUse s ↔ s.val < 4) ∧
      (ctl.sheetUpdown 2 ctl.top).layers = [0, 1, 3, 2] := by
  have htop := h.top_eq (by omega)
  obtain ⟨st, hre, hup⟩ := sheetUpdown_cases h.consistent ((h.inUse 2).mpr (by decide))
    ctl.top fun _ => le_refl _
  rw [clampHeight_eq_self (by omega) (by omega)] at hre
  have hsame := hup.sameStack.sameShape
  have huse : ∀ s, st.inUse s ↔ s.val < 4 := by
    intro s
    rw [Shtctl.inUse, hre.frame.sheet]
    exact h.inUse s
  have hheight : st.height 2 = 3 := by
    rw [hre.height]
    omega
  have hvis := hre.consistent.visible ((huse 2).mpr (by decide)) (by rw [hheight]; decide)
  refine ⟨hsame.consistent hre.consistent, fun s => (hsame.inUse s).trans (huse s), ?_⟩
  rw [hsame.layers, hre.consistent.layers_eq hvis, hup.others, Shtctl.others, h.layers, hheight]
  decide

theorem sameGui_hook (g : Gui) : SameGui g { g with hooked := true } :=
  ⟨.refl _, rfl, rfl, rfl, rfl⟩

theorem startUp_inv (font : Font) (b : StartUp) :
    ∃ g, startUp font b = some g ∧ GuiInv 0 2 g := by
  obtain ⟨ctl, hstart, hopen⟩ := startSheets_opened b
  obtain ⟨hcons, huse, hlayers⟩ := hopen.cursor_up
  refine ⟨_, by unfold startUp; rw [hstart]; rfl, ?_⟩
  refine (((sameGui_taskbarDraw font _).trans (sameGui_hook _)).trans
    (sameGui_refreshAll font _)).inv ?_
  have hshape := sameShape_refreshAll (ctl.sheetUpdown 2 ctl.top) none
  have huse' := fun s => (hshape.inUse s).trans (huse s)
  have hlayers' := hshape.layers.trans hlayers
  refine ⟨⟨hshape.consistent hcons, ?_, ?_, by decide⟩, rfl, rfl, ?_, ?_, ?_,
    ⟨show (3 : Sid) ≠ 0 by decide, show (3 : Sid) ≠ 2 by decide⟩, .inl ?_⟩
  · rw [hlayers']
    rfl
  · rw [hlayers']
    rfl
  · intro slot hslot
    rcases List.mem_pair.mp hslot with rfl | rfl
    · exact ⟨1, rfl, (huse' 1).mpr (by decide), by decide, by decide, .inl rfl, by
        rw [hlayers']
        decide⟩
    · exact ⟨3, rfl, (huse' 3).mpr (by decide), by decide, by decide, .inl rfl, by
        rw [hlayers']
        decide⟩
  · change ([some 1, some 3] : List (Option Sid)).Nodup
    decide
  · rw [hlayers']
    change ∀ s ∈ [0, 1, 3, 2], s = 0 ∨ s = 2 ∨ some s ∈ [some (1 : Sid), some 3]
    decide
  · exact (huse' 3).mpr (by decide)

/-! ### Events -/

/-- What reaches the GUI one at a time: a decoded mouse packet, a click on the task bar, F1 or
another call of `win_minimize`, a closed window, the end of the login, a tick of the clock. -/
inductive Event where
  | packet (btn : Nat) (dx dy : Int)
  | taskbar (x y : Int)
  | minimize (s : Sid)
  | close (s : Sid)
  | teardown
  | tick (now : Nat)

/-- Only windows are closed. -/
def Event.Enabled (g : Gui) : Event → Prop
  | close s => g.ctl.inUse s ∧ g.backSht ≠ some s ∧ g.curSht ≠ some s
  | _ => True

def Event.run (font : Font) (g : Gui) : Event → Gui
  | packet btn dx dy => g.isr2cPacket font btn dx dy
  | taskbar x y => g.taskbarClick font x y
  | minimize s => g.winMinimize font s
  | close s => g.winClosed font s
  | teardown => g.loginTeardown font
  | tick now => g.clock font now

inductive Reachable (font : Font) (b : StartUp) : Gui → Prop where
  | start {g : Gui} (h : startUp font b = some g) : Reachable font b g
  | step {g : Gui} (h : Reachable font b g) (e : Event) (ok : e.Enabled g) :
      Reachable font b (e.run font g)

theorem GuiInv.run {g : Gui} {back cur : Sid} (h : GuiInv back cur g) (font : Font) {e : Event}
    (ok : e.Enabled g) : GuiInv back cur (e.run font g) := by
  cases e with
  | packet btn dx dy => exact h.isr2cPacket font btn dx dy
  | taskbar x y => exact h.taskbarClick font x y
  | minimize s => exact h.winMinimize font s
  | close s =>
    obtain ⟨hs, hb, hc⟩ := ok
    exact h.winClosed font hs (fun heq => hb (heq ▸ h.background)) fun heq =>
      hc (heq ▸ h.cursor)
  | teardown => exact h.loginTeardown font
  | tick now => exact (sameGui_clock font g now).inv h

theorem Reachable.inv {font : Font} {b : StartUp} {g : Gui} (h : Reachable font b g) :
    GuiInv 0 2 g := by
  induction h with
  | start h =>
    obtain ⟨g', hg', hinv⟩ := startUp_inv font b
    obtain rfl : g' = _ := Option.some.inj (hg'.symm.trans h)
    exact hinv
  | step _ e ok ih => exact ih.run font ok

/-- Sheets and window slots after every run of events. -/
theorem Reachable.stack_wellFormed {font : Font} {b : StartUp} {g : Gui} (h : Reachable font b g) :
    (1 ≤ g.ctl.top ∧ g.ctl.top ≤ 15) ∧
    (∀ j k, 0 ≤ j → j ≤ g.ctl.top → 0 ≤ k → k ≤ g.ctl.top →
      g.ctl.sheets j = g.ctl.sheets k → j = k) ∧
    (∀ j, 0 ≤ j → j ≤ g.ctl.top →
      g.ctl.inUse (g.ctl.sheets j) ∧ g.ctl.height (g.ctl.sheets j) = j) ∧
    (∀ s, g.ctl.inUse s → (∀ j, 0 ≤ j → j ≤ g.ctl.top → g.ctl.sheets j ≠ s) →
      g.ctl.height s = -1) ∧
    (∃ back, g.backSht = some back ∧ g.ctl.sheets 0 = back ∧ g.ctl.height back = 0) ∧
    (∃ cur, g.curSht = some cur ∧ g.ctl.sheets g.ctl.top = cur ∧
      g.ctl.height cur = g.ctl.top) ∧
    ∀ slot ∈ g.wins, ∃ s, slot.sht = some s ∧ g.ctl.inUse s ∧
      (slot.min = 1 ↔ g.ctl.height s = -1) := by
  have hinv := h.inv
  have hc := hinv.pinned.consistent
  refine ⟨⟨hinv.pinned.top_pos, hc.top_le⟩, fun j k h0 h1 h2 h3 => hc.sheets_inj h0 h1 h2 h3,
    fun j h0 h1 => ⟨hc.used j h0 h1, hc.at_height j h0 h1⟩, fun s hs hne => ?_,
    ⟨0, hinv.background, ?_, hinv.pinned.back_height⟩,
    ⟨2, hinv.cursor, ?_, hinv.pinned.cur_height⟩, fun slot hslot => ?_⟩
  · refine (hc.hidden_iff hs).mpr fun hm => ?_
    obtain ⟨j, h0, h1, heq⟩ := Shtctl.mem_layers.mp hm
    exact hne j h0 h1 heq
  · have := (hc.height_of_mem hinv.pinned.back_mem).2.2
    rwa [hinv.pinned.back_height] at this
  · have := (hc.height_of_mem hinv.pinned.cur_mem).2.2
    rwa [hinv.pinned.cur_height] at this
  · obtain ⟨s, hsht, huse, -, -, -, hvis⟩ := hinv.slots slot hslot
    exact ⟨s, hsht, huse, hvis.trans (hc.hidden_iff huse).symm⟩

attribute [local instance] Sid.neZero in
/-- An 800×600 screen, with blank buffers. -/
def blankStart : StartUp where
  mem :=
    { vram := fun _ => 0, map := fun _ => 0, xsize := 0, ysize := 0, top := 0
      sheets := fun _ => 0
      sheets0 := fun _ =>
        { buf := fun _ => 0, bxsize := 0, bysize := 0, vx0 := 0, vy0 := 0, colInv := 0
          height := 0, flags := 0 } }
  fb := fun _ => 0
  lmMap := fun _ => 0
  hr := 800
  vr := 600
  backBuf := fun _ => 0
  winBuf := fun _ => 0
  curBuf := fun _ => 0
  loginBuf := fun _ => 0

theorem stack_wellFormed_blankStart : ∃ g, startUp (fun _ _ => 0) blankStart = some g ∧
    1 ≤ (g.isr2cPacket (fun _ _ => 0) 1 5 (-5)).ctl.top ∧
    (g.isr2cPacket (fun _ _ => 0) 1 5 (-5)).ctl.top ≤ 15 := by
  obtain ⟨g, hg, -⟩ := startUp_inv (fun _ _ => 0) blankStart
  exact ⟨g, hg, (Reachable.stack_wellFormed (.step (.start hg) (.packet 1 5 (-5)) trivial)).1⟩

end WinDOS
