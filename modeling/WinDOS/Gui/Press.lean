import WinDOS.Gui.Pointers

/-!
# What one press of the mouse button does

The handler keeps no record of the button: a packet with the left button acts unless
`g_mmx` says that a window is being dragged. A press that starts a drag therefore acts once.
-/

set_option autoImplicit false

namespace WinDOS

open Shtctl Gui

def Event.isPacket : Event → Bool
  | packet _ _ _ => true
  | _ => false

theorem Event.exists_packet {e : Event} (h : e.isPacket = true) :
    ∃ btn dx dy, e = .packet btn dx dy := by
  cases e with
  | packet btn dx dy => exact ⟨btn, dx, dy, rfl⟩
  | _ => exact Bool.noConfusion h

/-- Nothing here lets go of the left button. -/
def Event.held : Event → Bool
  | packet btn _ _ => btn.testBit 0
  | _ => true

/-- The last packet of the run, if there is one, came without the left button. -/
def Released (tr : List (Gui × Event)) : Prop :=
  ∀ past p rest, tr = past ++ p :: rest → p.2.isPacket = true →
    (∀ q ∈ rest, q.2.isPacket = false) → p.2.held = false

/-! ### The pointer -/

namespace Gui

structure SameMouse (g g' : Gui) : Prop where
  mx : g'.mx = g.mx
  mmx : g'.mmx = g.mmx

theorem SameMouse.refl (g : Gui) : SameMouse g g := ⟨rfl, rfl⟩

theorem SameMouse.trans {a b c : Gui} (h : SameMouse a b) (h' : SameMouse b c) : SameMouse a c :=
  ⟨h'.mx.trans h.mx, h'.mmx.trans h.mmx⟩

variable (font : Font) (g : Gui)

theorem sameMouse_refreshBack (b : Rect) : SameMouse g (g.refreshBack b) := by
  unfold refreshBack
  split <;> exact ⟨rfl, rfl⟩

theorem sameMouse_taskbarDraw : SameMouse g (g.taskbarDraw font) := by
  unfold taskbarDraw
  split <;> exact ⟨rfl, rfl⟩

theorem sameMouse_redrawBar : SameMouse g (g.taskbarDraw font).refreshTaskbar :=
  (sameMouse_taskbarDraw font g).trans (sameMouse_refreshBack _ _)

theorem sameMouse_clock (now : Nat) : SameMouse g (g.clock font now) := by
  unfold clock
  split
  · exact .refl g
  · refine SameMouse.trans ?_ (sameMouse_refreshBack _ _)
    exact ⟨rfl, rfl⟩

theorem sameMouse_showSlot (i : Nat) (s : Sid) : SameMouse g (g.showSlot i s) := by
  unfold showSlot
  dsimp only
  split <;> exact ⟨rfl, rfl⟩

theorem sameMouse_hideSlot (i : Nat) (s : Sid) : SameMouse g (g.hideSlot i s) := ⟨rfl, rfl⟩

theorem sameMouse_taskbarClick (x y : Int) : SameMouse g (g.taskbarClick font x y) := by
  rcases taskbarClick_cases font g x y with heq | ⟨i, slot, s, -, -, ⟨-, heq⟩ | ⟨-, heq⟩⟩
  · rw [heq]
    exact .refl g
  · rw [heq]
    exact (sameMouse_showSlot g i s).trans (sameMouse_redrawBar font _)
  · rw [heq]
    exact (sameMouse_hideSlot g i s).trans (sameMouse_redrawBar font _)

theorem sameMouse_winMinimize (s : Sid) : SameMouse g (g.winMinimize font s) := by
  rcases winMinimize_cases font g s with heq | ⟨i, slot, -, -, heq⟩
  · rw [heq]
    exact .refl g
  · rw [heq]
    exact (sameMouse_hideSlot g i s).trans (sameMouse_redrawBar font _)

theorem sameMouse_removed (s : Sid) : SameMouse g ((g.winRemove s).free s) := by
  unfold winRemove
  split <;> exact ⟨rfl, rfl⟩

theorem sameMouse_winClosed (s : Sid) : SameMouse g (g.winClosed font s) :=
  (sameMouse_removed g s).trans
    (SameMouse.trans (sameMouse_taskbarDraw font _) ⟨rfl, rfl⟩)

theorem sameMouse_loginTeardown : SameMouse g (g.loginTeardown font) :=
  (sameMouse_removed g g.login).trans ⟨rfl, rfl⟩

theorem sameMouse_raised : SameMouse g g.raised := by
  unfold raised
  split
  · exact .refl g
  split
  · exact .refl g
  · rename_i j _
    obtain ⟨hx, -, hm, -⟩ := bringUp_same g j
    exact ⟨hx, hm⟩

theorem moveCursor_mmx (dx dy : Int) : (g.moveCursor dx dy).mmx = g.mmx := by
  unfold moveCursor
  dsimp only
  split <;> rfl

theorem moveCursor_mx (dx dy : Int) (hx : 0 < g.ctl.xsize) : 0 ≤ (g.moveCursor dx dy).mx := by
  have hclamp : 0 ≤ if (if g.mx + dx < 0 then 0 else g.mx + dx) > g.ctl.xsize - CUR_H then
      g.ctl.xsize - 1 else (if g.mx + dx < 0 then 0 else g.mx + dx) := by
    split_ifs <;> omega
  unfold moveCursor
  dsimp only
  split <;> exact hclamp

theorem press_normal (hmode : g.mmx < 0) (hact : ∀ s, g.pressAct ≠ some (.dragStart s)) :
    (g.press font).mmx < 0 := by
  have hraised := sameMouse_raised g
  rw [press_eq]
  cases ha : g.pressAct with
  | none => exact hraised.mmx ▸ hmode
  | some a =>
    cases a with
    | toggle i => exact (hraised.trans (sameMouse_taskbarClick font _ _ _)).mmx ▸ hmode
    | close s => exact Int.negSucc_lt_zero 0
    | minimise s => exact Int.negSucc_lt_zero 0
    | dragStart s => exact absurd ha (hact s)

theorem press_dragStart {s : Sid} (hact : g.pressAct = some (.dragStart s)) :
    (g.press font).mmx = g.mx := by
  rw [press_eq, hact]
  exact (sameMouse_raised g).mx

theorem drag_mmx : g.drag.mmx = g.mmx ∨ g.drag.mmx = g.mx := by
  unfold drag
  dsimp only
  split
  · split <;> exact .inr rfl
  · exact .inl rfl

theorem packet_held {btn : Nat} (hbtn : btn.testBit 0 = true) (dx dy : Int) :
    (g.isr2cPacket font btn dx dy).mmx =
      if g.mmx < 0 then (g.press font).mmx else g.drag.mmx := by
  rw [isr2cPacket_eq, moveCursor_mmx, if_pos hbtn]
  split <;> rfl

theorem packet_released {btn : Nat} (hbtn : btn.testBit 0 = false) (dx dy : Int) :
    (g.isr2cPacket font btn dx dy).mmx = -1 := by
  rw [isr2cPacket_eq, moveCursor_mmx, if_neg (by simp [hbtn])]

end Gui

theorem sameMouse_run (font : Font) (g : Gui) {e : Event} (he : e.isPacket = false) :
    SameMouse g (e.run font g) := by
  cases e with
  | packet btn dx dy => contradiction
  | taskbar x y => exact sameMouse_taskbarClick font g x y
  | minimize s => exact sameMouse_winMinimize font g s
  | close s => exact sameMouse_winClosed font g s
  | teardown => exact sameMouse_loginTeardown font g
  | tick now => exact sameMouse_clock font g now

/-! ### Runs -/

section Run

variable {font : Font} {b : StartUp} {tr rest : List (Gui × Event)} {g g' : Gui}

theorem Run.last {p : Gui × Event} (h : Run font b (tr ++ [p]) g) :
    Run font b tr p.1 ∧ p.2.Enabled p.1 ∧ g = p.2.run font p.1 := by
  generalize hl : tr ++ [p] = l at h
  cases h with
  | start h => simp at hl
  | step h e ok =>
    obtain ⟨rfl, hp⟩ := List.append_inj' hl rfl
    obtain rfl := List.singleton_inj.mp hp
    exact ⟨h, ok, rfl⟩

theorem Run.before {p : Gui × Event} (h : Run font b (tr ++ p :: rest) g) : Run font b tr p.1 := by
  induction rest using List.reverseRecOn generalizing g with
  | nil => exact h.last.1
  | append_singleton rest q ih =>
    rw [← List.cons_append, ← List.append_assoc] at h
    exact ih h.last.1

theorem Run.mx_nonneg (h : Run font b tr g) (hr : 0 < b.hr) : 0 ≤ g.mx := by
  induction h with
  | start h =>
    obtain ⟨-, -, -, -, -, -, -, -, -, -, -, hmx⟩ := startUp_globals h
    omega
  | @step tr g h e ok ih =>
    cases hp : e.isPacket with
    | false => exact (sameMouse_run font g hp).mx ▸ ih
    | true =>
      have hx := (h.step e ok).pool.xsize
      obtain ⟨btn, dx, dy, rfl⟩ := Event.exists_packet hp
      change 0 ≤ (g.isr2cPacket font btn dx dy).mx
      change (g.isr2cPacket font btn dx dy).ctl.xsize = b.hr at hx
      rw [isr2cPacket_eq] at hx ⊢
      refine moveCursor_mx _ dx dy ?_
      rw [← (keeps_moveCursor _ dx dy).attrs.xsize, hx]
      exact hr

theorem Run.normal (h : Run font b tr g) (hrel : Released tr) : g.mmx < 0 := by
  induction h with
  | start h =>
    obtain ⟨-, -, -, -, -, -, -, -, -, -, hmmx, -⟩ := startUp_globals h
    omega
  | @step tr g h e ok ih =>
    cases hp : e.isPacket with
    | false =>
      rw [(sameMouse_run font g hp).mmx]
      refine ih fun past p rest heq hpk hrest => ?_
      refine hrel past p (rest ++ [(g, e)]) (by rw [heq, List.append_assoc, List.cons_append]) hpk
        fun q hq => ?_
      rcases List.mem_append.mp hq with hq | hq
      · exact hrest q hq
      · exact List.mem_singleton.mp hq ▸ hp
    | true =>
      have hheld := hrel tr (g, e) [] rfl hp fun _ hq => absurd hq List.not_mem_nil
      obtain ⟨btn, dx, dy, rfl⟩ := Event.exists_packet hp
      have := packet_released font g hheld dx dy
      change (g.isr2cPacket font btn dx dy).mmx < 0
      omega

end Run

/-! ### The packets of one press -/

/-- After its first packet the press acts no more, and so at most once. -/
def ActsOnce (p : Gui × Event) (rest : List (Gui × Event)) : Prop :=
  (∀ q ∈ rest, q.2.act q.1 = none) ∧
    ((p :: rest).filter fun q => (q.2.act q.1).isSome).length ≤ 1

theorem actsOnce_iff {p : Gui × Event} {rest : List (Gui × Event)} :
    ActsOnce p rest ↔ ∀ q ∈ rest, q.2.act q.1 = none := by
  refine and_iff_left_of_imp fun h => ?_
  have hnil : rest.filter (fun q => (q.2.act q.1).isSome) = [] := by
    rw [List.filter_eq_nil_iff]
    intro q hq
    simp [h q hq]
  rw [List.filter_cons, hnil]
  split
  · exact Nat.le_refl 1
  · exact Nat.zero_le 1

section Press

variable {font : Font} {b : StartUp} {tr rest : List (Gui × Event)} {g g' : Gui} {btn : Nat}
  {dx dy : Int}

theorem Run.dragged (hr : 0 < b.hr)
    (h : Run font b (tr ++ (g, .packet btn dx dy) :: rest) g') (hmode : g.mmx < 0)
    (hbtn : btn.testBit 0 = true) (hheld : ∀ q ∈ rest, q.2.held = true) {s : Sid}
    (hact : g.pressAct = some (.dragStart s)) :
    0 ≤ g'.mmx ∧ ∀ q ∈ rest, q.2.act q.1 = none := by
  induction rest using List.reverseRecOn generalizing g' with
  | nil =>
    obtain ⟨hrun, -, rfl⟩ := h.last
    refine ⟨?_, fun _ hq => absurd hq List.not_mem_nil⟩
    change 0 ≤ (g.isr2cPacket font btn dx dy).mmx
    rw [packet_held font g hbtn, if_pos hmode, press_dragStart font g hact]
    exact hrun.mx_nonneg hr
  | append_singleton rest q ih =>
    rw [← List.cons_append, ← List.append_assoc] at h
    obtain ⟨hrun, -, rfl⟩ := h.last
    obtain ⟨hdrag, hrest⟩ := ih hrun fun q hq => hheld q (List.mem_append_left _ hq)
    have hq := hheld q (List.mem_append_right _ List.mem_cons_self)
    obtain ⟨gq, e⟩ := q
    have hmx := hrun.mx_nonneg hr
    dsimp only at hdrag hmx hq ⊢
    have hnone : e.act gq = none := by
      cases e with
      | packet btn dx dy => exact if_neg fun h => absurd h.2 (not_lt.mpr hdrag)
      | _ => rfl
    refine ⟨?_, fun q' hq' => ?_⟩
    · cases hp : e.isPacket with
      | false => exact (sameMouse_run font gq hp).mmx ▸ hdrag
      | true =>
        obtain ⟨btn, dx, dy, rfl⟩ := Event.exists_packet hp
        change 0 ≤ (gq.isr2cPacket font btn dx dy).mmx
        rw [packet_held font gq hq, if_neg (not_lt.mpr hdrag)]
        rcases drag_mmx gq with hm | hm <;> omega
    · rcases List.mem_append.mp hq' with hq' | hq'
      · exact hrest q' hq'
      · rw [List.mem_singleton.mp hq']
        exact hnone

end Press

end WinDOS
