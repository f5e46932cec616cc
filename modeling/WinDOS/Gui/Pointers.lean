import WinDOS.Gui.Acts

/-!
# Sheet pointers and freed sheets

Start-up registers its two windows in `g_shadow_shts`, and nothing ever takes an entry out.
A run in which no sheet is freed keeps every pointer alive; the first step that frees a
window leaves a dead entry behind for good.
-/

set_option autoImplicit false

namespace WinDOS

open Shtctl Gui

/-- A run from the end of start-up: the steps, the oldest first, each with the state before it. -/
inductive Run (font : Font) (b : StartUp) : List (Gui × Event) → Gui → Prop where
  | start {g : Gui} (h : startUp font b = some g) : Run font b [] g
  | step {tr : List (Gui × Event)} {g : Gui} (h : Run font b tr g) (e : Event)
      (ok : e.Enabled g) : Run font b (tr ++ [(g, e)]) (e.run font g)

theorem Run.reachable {font : Font} {b : StartUp} {tr : List (Gui × Event)} {g : Gui}
    (h : Run font b tr g) : Reachable font b g := by
  induction h with
  | start h => exact .start h
  | step _ e ok ih => exact .step ih e ok

theorem Reachable.run {font : Font} {b : StartUp} {g : Gui} (h : Reachable font b g) :
    ∃ tr, Run font b tr g := by
  induction h with
  | start h => exact ⟨[], .start h⟩
  | @step g _ e ok ih =>
    obtain ⟨tr, hrun⟩ := ih
    exact ⟨tr ++ [(g, e)], hrun.step e ok⟩

def Event.act (g : Gui) : Event → Option Act
  | packet btn _ _ => g.packetAct btn
  | _ => none

def Event.freed (g : Gui) : Event → Option Sid
  | packet btn _ _ =>
    match g.packetAct btn with
    | some (.close s) => some s
    | _ => none
  | close s => some s
  | teardown => some g.login
  | _ => none

theorem Event.freed_packet {g : Gui} {btn : Nat} {dx dy : Int} {s : Sid} :
    (packet btn dx dy).freed g = some s ↔ g.packetAct btn = some (.close s) := by
  dsimp only [Event.freed]
  split
  · rename_i t ht
    simp [ht]
  · rename_i hne
    exact iff_of_false (Option.some_ne_none s).symm (hne s)

/-- Every global that points to a sheet points to one in use. -/
structure GlobalsLive (g : Gui) : Prop where
  drag : ∀ s, g.dragSht = some s → g.ctl.inUse s
  login : ∀ s, g.loginSht = some s → g.ctl.inUse s
  cursor : ∀ s, g.curSht = some s → g.ctl.inUse s
  windows : ∀ slot ∈ g.wins, ∀ s, slot.sht = some s → g.ctl.inUse s
  shadows : ∀ s, some s ∈ g.shadowShts → g.ctl.inUse s

theorem GlobalsLive.of_inv {back cur : Sid} {g : Gui} (h : GuiInv back cur g)
    (drag : ∀ s, g.dragSht = some s → g.ctl.inUse s)
    (login : ∀ s, g.loginSht = some s → g.ctl.inUse s)
    (shadows : ∀ s, some s ∈ g.shadowShts → g.ctl.inUse s) : GlobalsLive g where
  drag := drag
  login := login
  cursor s hs := by
    obtain rfl : cur = s := Option.some.inj (h.cursor.symm.trans hs)
    exact h.pinned.consistent.inUse_of_mem h.pinned.cur_mem
  windows slot hslot s hs := by
    obtain ⟨t, ht, hu, -⟩ := h.slots slot hslot
    rwa [Option.some.inj (hs.symm.trans ht)]
  shadows := shadows

/-! ### One step -/

section Step

variable {font : Font} {g : Gui} {back cur : Sid}

/-- The sheet that is closed or dragged is in use and neither background nor cursor. -/
theorem GuiInv.act_sheet (h : GuiInv back cur g) {s : Sid}
    (hact : g.pressAct = some (.close s) ∨ g.pressAct = some (.dragStart s)) :
    g.ctl.inUse s ∧ s ≠ back ∧ s ≠ cur := by
  have hsheet : ∀ a, (∀ i, a ≠ .toggle i) → (a = .close s ∨ a = .dragStart s) →
      g.pressAct = some a → g.ctl.inUse s ∧ s ≠ back ∧ s ≠ cur := by
    intro a hne has ha
    obtain ⟨j, h1, htop, hcur, -, hclick⟩ := clickAct_of_press ha hne
    obtain rfl : s = g.ctl.sheets j := by
      rcases clickAct_sheet hclick with rfl | rfl | rfl <;> simp at has <;> exact has.symm
    exact ⟨h.pinned.consistent.used j (by omega) htop, h.sheets_ne_back h1 htop,
      fun heq => hcur (heq ▸ h.cursor)⟩
  rcases hact with hact | hact
  · exact hsheet _ (fun _ => Act.noConfusion) (.inl rfl) hact
  · exact hsheet _ (fun _ => Act.noConfusion) (.inr rfl) hact

theorem GuiInv.press_keeps (h : GuiInv back cur g) (hact : ∀ s, g.pressAct ≠ some (.close s)) :
    Keeps g (g.press font) := by
  rw [press_eq]
  have hraised := keeps_raised g
  cases ha : g.pressAct with
  | none => exact hraised
  | some a =>
    cases a with
    | toggle i => exact hraised.trans (keeps_taskbarClick font _ _ _)
    | close s => exact absurd ha (hact s)
    | minimise s => exact (hraised.trans (keeps_winMinimize font _ s)).released _ _
    | dragStart s =>
      refine ⟨hraised.attrs, hraised.shadowShts, hraised.loginSht, hraised.login, hraised.vr2,
        hraised.slots, fun t ht => ?_⟩
      obtain rfl : s = t := Option.some.inj ht
      exact .inr (h.act_sheet (.inr ha)).1

theorem press_frees {s : Sid} (hact : g.pressAct = some (.close s)) :
    Frees s g (g.press font) := by
  rw [press_eq, hact]
  have hfree := (keeps_raised g).trans_frees (frees_winClosed font g.raised s)
  exact ⟨hfree.xsize, hfree.flags, hfree.colInv, hfree.shadowShts, hfree.login, hfree.vr2,
    hfree.slots, hfree.others⟩

theorem GuiInv.run_keeps (h : GuiInv back cur g) {e : Event} (he : e.freed g = none) :
    Keeps g (e.run font g) := by
  cases e with
  | packet btn dx dy =>
    change Keeps g (g.isr2cPacket font btn dx dy)
    rw [isr2cPacket_eq]
    refine Keeps.trans ?_ (keeps_moveCursor _ dx dy)
    split
    · rename_i hleft
      split
      · rename_i hmode
        refine h.press_keeps fun s hs => ?_
        simp [Event.freed, packetAct, hleft, hmode, hs] at he
      · exact keeps_drag g
    · exact (Keeps.refl g).released _ _
  | taskbar x y => exact keeps_taskbarClick font g x y
  | minimize s => exact keeps_winMinimize font g s
  | close s => contradiction
  | teardown => contradiction
  | tick now => exact keeps_clock font g now

theorem run_frees {e : Event} {s : Sid} (he : e.freed g = some s) :
    Frees s g (e.run font g) := by
  cases e with
  | packet btn dx dy =>
    change Frees s g (g.isr2cPacket font btn dx dy)
    have hact := Event.freed_packet.mp he
    unfold packetAct at hact
    split at hact
    · rename_i hpress
      rw [isr2cPacket_eq, if_pos hpress.1, if_pos hpress.2]
      exact (press_frees hact).trans_keeps (keeps_moveCursor _ dx dy)
    · contradiction
  | taskbar x y => contradiction
  | minimize s => contradiction
  | close t =>
    obtain rfl : t = s := Option.some.inj he
    exact frees_winClosed font g t
  | teardown =>
    obtain rfl : g.login = s := Option.some.inj he
    exact frees_loginTeardown font g
  | tick now => contradiction

end Step

/-! ### Runs -/

/-- The sheets of the pool that are ever in use, and the windows among them. -/
structure Pool (b : StartUp) (g : Gui) : Prop where
  xsize : g.ctl.xsize = b.hr
  used : ∀ s, g.ctl.inUse s → s.val < 4
  colInv : (g.ctl.sheets0 1).colInv = COL_INV ∧ (g.ctl.sheets0 3).colInv = COL_INV
  shadowShts : g.shadowShts = [some 1, some 3]
  login : g.login = 3

theorem Pool.window {b : StartUp} {g : Gui} (h : Pool b g) {s : Sid} (hs : g.ctl.inUse s)
    (h0 : s ≠ 0) (h2 : s ≠ 2) : s = 1 ∨ s = 3 := by
  have hlt := h.used s hs
  have h0' : s.val ≠ 0 := fun heq => h0 (Fin.ext heq)
  have h2' : s.val ≠ 2 := fun heq => h2 (Fin.ext heq)
  rcases (show s.val = 1 ∨ s.val = 3 by omega) with h | h
  · exact .inl (Fin.ext h)
  · exact .inr (Fin.ext h)

theorem Pool.keeps {b : StartUp} {g g' : Gui} (h : Pool b g) (hk : Keeps g g') : Pool b g' where
  xsize := hk.attrs.xsize.trans h.xsize
  used s hs := h.used s ((hk.attrs.inUse s).mp hs)
  colInv := by rw [hk.attrs.colInv, hk.attrs.colInv]; exact h.colInv
  shadowShts := hk.shadowShts.trans h.shadowShts
  login := hk.login.trans h.login

theorem Pool.frees {b : StartUp} {g g' : Gui} (h : Pool b g) {s : Sid} (hf : Frees s g g') :
    Pool b g' where
  xsize := hf.xsize.trans h.xsize
  used t ht := by
    unfold Shtctl.inUse at ht
    rw [hf.flags] at ht
    split at ht
    · contradiction
    · exact h.used t ht
  colInv := by rw [hf.colInv, hf.colInv]; exact h.colInv
  shadowShts := hf.shadowShts.trans h.shadowShts
  login := hf.login.trans h.login

/-- What a new sheet of the start-up gets, and what it leaves of the others. -/
theorem addSheet_attrs {ctl ctl' : Shtctl} {buf : Buffer} {xsize ysize : Int} {colInv : Pixel}
    {vx0 vy0 height : Int} {s : Sid}
    (h : addSheet ctl buf xsize ysize colInv vx0 vy0 height = some (s, ctl')) :
    (ctl'.xsize = ctl.xsize ∧ ctl'.ysize = ctl.ysize) ∧ (ctl'.sheets0 s).colInv = colInv ∧
      ∀ t, t ≠ s → (ctl'.sheets0 t).colInv = (ctl.sheets0 t).colInv := by
  unfold addSheet at h
  split at h
  · contradiction
  rename_i s' c halloc
  unfold sheetAlloc at halloc
  split at halloc
  · contradiction
  obtain ⟨rfl, rfl⟩ := Prod.mk.inj (Option.some.inj halloc)
  obtain ⟨rfl, rfl⟩ := Prod.mk.inj (Option.some.inj h)
  have hup := sameAttrs_updown
  refine ⟨⟨(hup _ _ _).xsize, (hup _ _ _).ysize⟩, ?_, fun t ht => ?_⟩
  · rw [(hup _ _ _).colInv, setSheet_sheets0, if_pos rfl]
    simp [sheetSetbuf, setSheet_sheets0, Sheet.moveTo]
  · rw [(hup _ _ _).colInv, setSheet_sheets0, if_neg ht]
    simp [sheetSetbuf, setSheet_sheets0, ht]

theorem startSheets_attrs {b : StartUp} {ctl : Shtctl}
    (h : startSheets b = some (0, 1, 2, 3, ctl)) :
    (ctl.xsize = b.hr ∧ ctl.ysize = b.vr) ∧ (ctl.sheets0 1).colInv = COL_INV ∧ (ctl.sheets0 3).colInv = COL_INV := by
  unfold startSheets at h
  obtain ⟨⟨s0, c0⟩, h0, h⟩ := Option.bind_eq_some_iff.mp h
  obtain ⟨⟨s1, c1⟩, h1, h⟩ := Option.bind_eq_some_iff.mp h
  obtain ⟨⟨s2, c2⟩, h2, h⟩ := Option.bind_eq_some_iff.mp h
  obtain ⟨⟨s3, c3⟩, h3, h⟩ := Option.bind_eq_some_iff.mp h
  simp only [Option.some.injEq, Prod.mk.injEq] at h
  obtain ⟨rfl, rfl, rfl, rfl, rfl⟩ := h
  have a0 := addSheet_attrs h0
  have a1 := addSheet_attrs h1
  have a2 := addSheet_attrs h2
  have a3 := addSheet_attrs h3
  have hall := sameAttrs_refreshAll c2 none
  refine ⟨⟨?_, ?_⟩, ?_, a3.2.1⟩
  · rw [a3.1.1, hall.xsize, a2.1.1, a1.1.1, a0.1.1]
    rfl
  · rw [a3.1.2, hall.ysize, a2.1.2, a1.1.2, a0.1.2]
    rfl
  · rw [a3.2.2 1 (by decide), hall.colInv, a2.2.2 1 (by decide)]
    exact a1.2.1

/-- The globals of the GUI at the end of start-up, before the last drawing. -/
theorem startUp_globals {font : Font} {b : StartUp} {g : Gui} (h : startUp font b = some g) :
    ∃ ctl g0, startSheets b = some (0, 1, 2, 3, ctl) ∧ Opened 4 ctl ∧ SameAttrs ctl g0.ctl ∧
      Keeps g0 g ∧ g0.shadowShts = [some 1, some 3] ∧ g0.login = 3 ∧ g0.loginSht = some 3 ∧
      g0.dragSht = none ∧ g.mmx = -1 ∧ g.mx = b.hr / 2 := by
  obtain ⟨ctl, hstart, hopen⟩ := startSheets_opened b
  unfold startUp at h
  rw [hstart] at h
  obtain rfl := Option.some.inj h
  refine ⟨ctl,
    { ctl := (ctl.sheetUpdown 2 ctl.top).shtctlRefreshAll none
      shadowShts := [some 1, some 3]
      wins := [⟨some 1, some titleWin, 0⟩, ⟨some 3, some titleLogin, 0⟩]
      backfb := some 0, backSht := some 0, hr2 := b.hr, vr2 := b.vr
      curSht := some 2, dragSht := none, loginSht := some 3
      mx := b.hr / 2, my := b.vr / 2, mmx := -1, mmy := -1, hooked := false
      win := 1, login := 3 }, hstart, hopen, ?_, ?_, rfl, rfl, rfl, rfl, rfl, rfl⟩
  · exact (sameAttrs_updown ctl 2 ctl.top).trans (sameAttrs_refreshAll _ none)
  · refine (keeps_taskbarDraw font _).trans (Keeps.trans ?_ (keeps_refreshAll font _))
    exact ⟨.refl _, rfl, rfl, rfl, rfl, rfl, fun _ => .inl⟩

theorem startUp_pool {font : Font} {b : StartUp} {g : Gui} (h : startUp font b = some g) :
    Pool b g := by
  obtain ⟨ctl, g0, hstart, hopen, hattrs, hkeep, hshadow, hlogin, -⟩ := startUp_globals h
  obtain ⟨⟨hx, -⟩, hwin, hcolInv⟩ := startSheets_attrs hstart
  refine Pool.keeps ⟨hattrs.xsize.trans hx, fun s hs => ?_, ?_, hshadow, hlogin⟩ hkeep
  · exact (hopen.inUse s).mp ((hattrs.inUse s).mp hs)
  · rw [hattrs.colInv, hattrs.colInv]
    exact ⟨hwin, hcolInv⟩

theorem startUp_live {font : Font} {b : StartUp} {g : Gui} (h : startUp font b = some g) :
    GlobalsLive g := by
  have hinv := (Reachable.start h).inv
  obtain ⟨ctl, g0, -, hopen, hattrs, hkeep, hshadow, -, hlogin, hdrag, -⟩ := startUp_globals h
  have huse : ∀ s : Sid, s.val < 4 → g.ctl.inUse s := fun s hs =>
    (hkeep.attrs.inUse s).mpr ((hattrs.inUse s).mpr ((hopen.inUse s).mpr hs))
  refine .of_inv hinv (fun s hs => ?_) (fun s hs => ?_) fun s hs => ?_
  · rcases hkeep.dragSht s hs with hd | hu
    · exact nomatch hdrag.symm.trans hd
    · exact (hkeep.attrs.inUse s).mpr hu
  · rw [hkeep.loginSht, hlogin] at hs
    obtain rfl : 3 = s := Option.some.inj hs
    exact huse 3 (by decide)
  · rw [hkeep.shadowShts, hshadow] at hs
    rcases List.mem_pair.mp hs with hs | hs
    · obtain rfl : s = 1 := Option.some.inj hs
      exact huse 1 (by decide)
    · obtain rfl : s = 3 := Option.some.inj hs
      exact huse 3 (by decide)

theorem Run.pool {font : Font} {b : StartUp} {tr : List (Gui × Event)} {g : Gui}
    (h : Run font b tr g) : Pool b g := by
  induction h with
  | start h => exact startUp_pool h
  | @step tr g h e ok ih =>
    cases he : e.freed g with
    | none => exact ih.keeps (h.reachable.inv.run_keeps he)
    | some s => exact ih.frees (run_frees he)

theorem GlobalsLive.keeps {back cur : Sid} {g g' : Gui} (h : GlobalsLive g) (hk : Keeps g g')
    (hinv : GuiInv back cur g') : GlobalsLive g' := by
  refine .of_inv hinv (fun s hs => ?_) (fun s hs => ?_) fun s hs => ?_
  · exact (hk.attrs.inUse s).mpr ((hk.dragSht s hs).elim (h.drag s) id)
  · exact (hk.attrs.inUse s).mpr (h.login s (hk.loginSht ▸ hs))
  · exact (hk.attrs.inUse s).mpr (h.shadows s (hk.shadowShts ▸ hs))

/-- A sheet that a step frees is one of the two registered windows. -/
theorem Run.freed_registered {font : Font} {b : StartUp} {tr : List (Gui × Event)} {g : Gui}
    (h : Run font b tr g) {e : Event} (ok : e.Enabled g) {s : Sid} (he : e.freed g = some s) :
    some s ∈ g.shadowShts := by
  have hinv := h.reachable.inv
  have hpool := h.pool
  have hwindow : g.ctl.inUse s → s ≠ 0 → s ≠ 2 → some s ∈ g.shadowShts := by
    intro hs h0 h2
    rw [hpool.shadowShts]
    rcases hpool.window hs h0 h2 with rfl | rfl
    · exact List.mem_cons_self
    · exact List.mem_cons_of_mem _ List.mem_cons_self
  cases e with
  | packet btn dx dy =>
    have hact := Event.freed_packet.mp he
    unfold packetAct at hact
    split at hact
    · obtain ⟨hs, h0, h2⟩ := hinv.act_sheet (.inl hact)
      exact hwindow hs h0 h2
    · exact nomatch hact
  | taskbar x y => exact nomatch he
  | minimize s => exact nomatch he
  | close t =>
    obtain rfl := Option.some.inj he
    obtain ⟨hs, hb, hc⟩ := ok
    exact hwindow hs (fun heq => hb (heq ▸ hinv.background)) fun heq => hc (heq ▸ hinv.cursor)
  | teardown =>
    obtain rfl := Option.some.inj he
    rw [hpool.shadowShts, hpool.login]
    exact List.mem_cons_of_mem _ List.mem_cons_self
  | tick now => exact nomatch he

/-- A registered window that has been freed stays registered and freed. -/
theorem Run.freed_stays {font : Font} {b : StartUp} {tr : List (Gui × Event)} {g : Gui}
    (h : Run font b tr g) {e : Event} {s : Sid} (hmem : some s ∈ g.shadowShts)
    (hs : ¬ g.ctl.inUse s) :
    some s ∈ (e.run font g).shadowShts ∧ ¬ (e.run font g).ctl.inUse s := by
  cases he : e.freed g with
  | none =>
    have hk : Keeps g (e.run font g) := h.reachable.inv.run_keeps he
    exact ⟨hk.shadowShts ▸ hmem, fun hu => hs ((hk.attrs.inUse s).mp hu)⟩
  | some t =>
    have hf : Frees t g (e.run font g) := run_frees he
    refine ⟨hf.shadowShts ▸ hmem, fun hu => hs ?_⟩
    unfold Shtctl.inUse at hu ⊢
    rw [hf.flags] at hu
    split at hu
    · exact absurd rfl hu
    · exact hu

theorem Run.live {font : Font} {b : StartUp} {tr : List (Gui × Event)} {g : Gui}
    (h : Run font b tr g) (hkept : ∀ p ∈ tr, p.2.freed p.1 = none) : GlobalsLive g := by
  induction h with
  | start h => exact startUp_live h
  | @step tr g h e ok ih =>
    have hinv := h.reachable.inv
    have hlast := hkept (g, e) (List.mem_append_right _ (List.mem_singleton_self _))
    exact (ih fun p hp => hkept p (List.mem_append_left _ hp)).keeps
      (hinv.run_keeps hlast) (hinv.run font ok)

theorem Run.dead {font : Font} {b : StartUp} {tr : List (Gui × Event)} {g : Gui}
    (h : Run font b tr g) (hfreed : ∃ p ∈ tr, p.2.freed p.1 ≠ none) :
    ∃ s, some s ∈ g.shadowShts ∧ ¬ g.ctl.inUse s := by
  induction h with
  | start h =>
    obtain ⟨p, hp, -⟩ := hfreed
    exact absurd hp List.not_mem_nil
  | @step tr g h e ok ih =>
    obtain ⟨p, hp, hne⟩ := hfreed
    rcases List.mem_append.mp hp with hp | hp
    · obtain ⟨s, hmem, hs⟩ := ih ⟨p, hp, hne⟩
      exact ⟨s, h.freed_stays hmem hs⟩
    · obtain rfl := List.mem_singleton.mp hp
      obtain ⟨s, hs⟩ := Option.ne_none_iff_exists'.mp hne
      have hf : Frees s g (e.run font g) := run_frees hs
      refine ⟨s, hf.shadowShts ▸ h.freed_registered ok hs, fun hu => hu ?_⟩
      rw [hf.flags, if_pos rfl]

/-- No global refers to a freed sheet exactly in the runs that free none. -/
theorem globals_live_iff {font : Font} {b : StartUp} {tr : List (Gui × Event)} {g : Gui}
    (h : Run font b tr g) : GlobalsLive g ↔ ∀ p ∈ tr, p.2.freed p.1 = none := by
  constructor
  · intro hlive
    by_contra hno
    push Not at hno
    obtain ⟨s, hmem, hs⟩ := h.dead hno
    exact hs (hlive.shadows s hmem)
  · exact h.live

/-- From the blank desk: the pointer moves to the close button of the first window. -/
theorem globals_live_blankStart : ∃ tr g, Run (fun _ _ => 0) blankStart tr g ∧ tr.length = 2 ∧
    (GlobalsLive g ↔ ∀ p ∈ tr, p.2.freed p.1 = none) := by
  obtain ⟨g, hg, -⟩ := startUp_inv (fun _ _ => 0) blankStart
  have hrun := Run.step (.step (.start hg) (.packet 0 50 (-200)) trivial) (.packet 1 0 0) trivial
  exact ⟨_, _, hrun, rfl, globals_live_iff hrun⟩

/-- After that click the first registered window is free. -/
theorem shadow_dead_after_close : ∃ tr g, Run (fun _ _ => 0) blankStart tr g ∧
    tr.map Prod.snd = [.packet 0 50 (-200), .packet 1 0 0] ∧ ¬ GlobalsLive g := by
  obtain ⟨g, hg, -⟩ := startUp_inv (fun _ _ => 0) blankStart
  have hrun := Run.step (.step (.start hg) (.packet 0 50 (-200)) trivial) (.packet 1 0 0) trivial
  refine ⟨_, _, hrun, rfl, fun hlive => hlive.shadows 1 ?_ ?_⟩
  · rw [hrun.pool.shadowShts]
    exact List.mem_cons_self
  · have hflags : ((startUp (fun _ _ => 0) blankStart).map fun g =>
        (((g.isr2cPacket (fun _ _ => 0) 0 50 (-200)).isr2cPacket (fun _ _ => 0) 1 0 0).ctl.sheets0
          1).flags) = some 0 := by decide +kernel
    rw [hg] at hflags
    exact Option.some.inj hflags

end WinDOS
