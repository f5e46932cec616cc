import WinDOS.Gui.Pointers
import WinDOS.Gui.WinShadow
import WinDOS.Window.Owner

/-!
# Hit testing and what is shown

A left press acts on the topmost window with a pixel at the pointer that is not transparent;
the map registers the topmost window with a pixel that is neither transparent nor a shadow.
The two differ where a shadow lies over the desktop or another window.
-/

set_option autoImplicit false

namespace WinDOS

open Shtctl Layers Gui

theorem GuiInv.layers_eq {g : Gui} {back cur : Sid} (h : GuiInv back cur g) :
    g.ctl.layers = back :: seg g.ctl.sheets 1 (g.ctl.top + 1) := by
  have htop := h.pinned.top_pos
  have hlayers : g.ctl.layers = g.ctl.sheets 0 :: seg g.ctl.sheets 1 (g.ctl.top + 1) :=
    seg_cons _ (by omega)
  have hhead := h.pinned.bottom
  rw [hlayers] at hhead
  rw [hlayers, Option.some.inj hhead]

theorem GuiInv.ne_back {g : Gui} {back cur : Sid} (h : GuiInv back cur g) {s : Sid}
    (hs : s ∈ seg g.ctl.sheets 1 (g.ctl.top + 1)) : s ≠ back := by
  have hnodup := h.pinned.consistent.layers_nodup
  rw [h.layers_eq] at hnodup
  exact fun heq => (List.nodup_cons.mp hnodup).1 (heq ▸ hs)

namespace Gui

/-- The sheet a left press in normal mode is about. -/
def pressTarget (g : Gui) : Option Sid := g.hitHeight.map g.ctl.sheets

/-- The topmost opaque sheet at a point, with the cursor hidden. -/
def shownSheet (g : Gui) (x y : Int) : Option Sid :=
  topmost (g.ctl.opaqueLayer x y) (g.ctl.layers.filter fun s => g.curSht != some s)

/-- The window shown at a point; the background is none. -/
def shownWindow (g : Gui) (x y : Int) : Option Sid :=
  (g.shownSheet x y).filter fun s => g.backSht != some s

/-- A window has a shadow pixel at the point, and no window above it is opaque there. -/
def ShadowOnTop (g : Gui) (x y : Int) : Prop :=
  ∃ below s above, g.ctl.layers = below ++ s :: above ∧ g.backSht ≠ some s ∧ g.curSht ≠ some s ∧
    (g.ctl.sheets0 s).covers x y = true ∧ ((g.ctl.sheets0 s).pixelAt x y).isShadow = true ∧
    ∀ t ∈ above, g.curSht ≠ some t → g.ctl.opaqueLayer x y t = false

def pointAt (g : Gui) (x y : Int) : Gui := { g with mx := x, my := y }

variable (font : Font)

/-- A left press in normal mode acts on `t`: on the sheet `clicked` is called with, or on none. -/
def PressActsOn (g : Gui) (t : Option Sid) : Prop :=
  g.pressTarget = t ∧
    match t with
    | none => g.press font = g
    | some s => ∃ j, 1 ≤ j ∧ j ≤ g.ctl.top ∧ g.ctl.sheets j = s ∧ g.press font = g.clicked font j

/-- Above the task bar the search of the click loop decides. -/
theorem pressActsOn_iff {g : Gui} (hbar : g.my < g.ctl.ysize - 40) {t : Option Sid} :
    PressActsOn font g t ↔ g.pressTarget = t := by
  refine and_iff_left_of_imp fun h => ?_
  unfold press
  rw [if_neg (not_le.mpr hbar)]
  cases t with
  | none => rw [Option.map_eq_none_iff.mp h]
  | some s =>
    obtain ⟨j, hj, hs⟩ := Option.map_eq_some_iff.mp h
    obtain ⟨k, hk, rfl⟩ := List.mem_map.mp (List.mem_of_find?_eq_some hj)
    rw [List.mem_range] at hk
    exact ⟨_, by omega, by omega, hs, by rw [hj]⟩

/-- The click loop looks for the topmost sheet above the background. -/
theorem pressTarget_eq (g : Gui) : g.pressTarget =
    topmost (fun s => g.curSht != some s && g.hits s) (seg g.ctl.sheets 1 (g.ctl.top + 1)) := by
  have hmap : (List.range g.ctl.top.toNat).map (fun k : Nat => g.ctl.sheets (g.ctl.top - k)) =
      ((List.range g.ctl.top.toNat).map fun k : Nat => g.ctl.top - k).map g.ctl.sheets :=
    List.map_map.symm
  rw [topmost_eq_find?, reverse_seg, Int.add_sub_cancel, hmap, List.find?_map]
  rfl

theorem shownWindow_eq {g : Gui} {back cur : Sid} (h : GuiInv back cur g) (x y : Int) :
    g.shownWindow x y = topmost (fun s => g.curSht != some s && g.ctl.opaqueLayer x y s)
      (seg g.ctl.sheets 1 (g.ctl.top + 1)) := by
  have hshown : g.shownSheet x y =
      topmost (fun s => g.curSht != some s && g.ctl.opaqueLayer x y s) g.ctl.layers := by
    unfold shownSheet topmost
    rw [List.filter_filter]
    refine congrArg List.getLast? (List.filter_congr fun s _ => ?_)
    rw [Bool.and_comm]
  unfold shownWindow
  rw [hshown, h.layers_eq, topmost_cons, h.background]
  cases hw : topmost (fun s => g.curSht != some s && g.ctl.opaqueLayer x y s)
      (seg g.ctl.sheets 1 (g.ctl.top + 1)) with
  | none =>
    rw [Option.none_or]
    split
    · simp
    · rfl
  | some s =>
    have hs : back ≠ s := (h.ne_back (mem_of_topmost hw).1).symm
    rw [Option.some_or, Option.filter_some, if_pos (by simpa using hs)]

end Gui

/-- A sheet with the transparent colour of windows: what the click tests and what is opaque. -/
theorem hits_pointAt {g : Gui} {x y : Int} {s : Sid} (hinv : (g.ctl.sheets0 s).colInv = COL_INV) :
    (g.pointAt x y).hits s = ((g.ctl.sheets0 s).covers x y &&
        (g.ctl.sheets0 s).pixelAt x y != COL_INV) ∧
      g.ctl.opaqueLayer x y s = ((g.pointAt x y).hits s &&
        !((g.ctl.sheets0 s).pixelAt x y).isShadow) := by
  have hcov : (g.ctl.sheets0 s).covers x y = (decide (0 ≤ x - (g.ctl.sheets0 s).vx0) &&
      decide (x - (g.ctl.sheets0 s).vx0 < (g.ctl.sheets0 s).bxsize) &&
      decide (0 ≤ y - (g.ctl.sheets0 s).vy0) &&
      decide (y - (g.ctl.sheets0 s).vy0 < (g.ctl.sheets0 s).bysize)) := by
    rw [Bool.eq_iff_iff, Sheet.covers, Rect.contains_iff]
    simp only [Sheet.rect, Bool.and_eq_true, decide_eq_true_eq, and_assoc]
    omega
  have hhits : (g.pointAt x y).hits s = ((g.ctl.sheets0 s).covers x y &&
      (g.ctl.sheets0 s).pixelAt x y != COL_INV) := by
    rw [hcov]
    rfl
  refine ⟨hhits, ?_⟩
  rw [hhits]
  unfold Shtctl.opaqueLayer Sheet.opaqueAt Sheet.registers
  rw [hinv, show (COL_INV == colInvNone) = false from rfl, Bool.false_or, Bool.and_assoc]
  rfl

/-- What stands above the background, but for the cursor, is a window. -/
theorem Run.above_back {font : Font} {b : StartUp} {tr : List (Gui × Event)} {g : Gui}
    (h : Run font b tr g) (hinv : GuiInv 0 2 g) {s : Sid}
    (hs : s ∈ seg g.ctl.sheets 1 (g.ctl.top + 1)) (hcur : g.curSht ≠ some s) :
    s ≠ 0 ∧ (g.ctl.sheets0 s).colInv = COL_INV := by
  have h0 := hinv.ne_back hs
  have huse := hinv.pinned.consistent.inUse_of_mem (hinv.layers_eq ▸ List.mem_cons_of_mem 0 hs)
  rcases h.pool.window huse h0 fun heq => hcur (heq ▸ hinv.cursor) with rfl | rfl
  · exact ⟨h0, h.pool.colInv.1⟩
  · exact ⟨h0, h.pool.colInv.2⟩

/-- The click loop finds the window that is shown, except on a shadow that nothing covers. -/
theorem pressTarget_shown_iff {font : Font} {b : StartUp} {g : Gui} (h : Reachable font b g)
    (x y : Int) : (g.pointAt x y).pressTarget = g.shownWindow x y ↔ ¬ g.ShadowOnTop x y := by
  have hinv := h.inv
  obtain ⟨tr, hrun⟩ := h.run
  have hwindow := fun s => @Run.above_back font b tr g hrun hinv s
  rw [pressTarget_eq, shownWindow_eq hinv]
  change topmost (fun s => g.curSht != some s && (g.pointAt x y).hits s)
    (seg g.ctl.sheets 1 (g.ctl.top + 1)) = _ ↔ _
  rw [topmost_eq_iff_of_imp]
  · constructor
    · rintro hall ⟨below, s, above, hl, hb, hc, hcov, hshadow, habove⟩
      rw [hinv.layers_eq] at hl
      cases below with
      | nil =>
        obtain ⟨rfl, -⟩ := List.cons.inj hl
        exact hb hinv.background
      | cons a below =>
        obtain ⟨-, hW⟩ := List.cons.inj hl
        obtain ⟨hhits, hshown⟩ := @hits_pointAt g x y s (hwindow s (hW ▸ by simp) hc).2
        have hne : ((g.ctl.sheets0 s).pixelAt x y != COL_INV) = true := by
          refine bne_iff_ne.mpr fun heq => ?_
          rw [heq] at hshadow
          exact absurd hshadow (by decide)
        have hq := hall below s above hW (by simp [hhits, hcov, hne, hc]) fun t ht => by
          by_cases htc : g.curSht = some t
          · simp [htc]
          · simp [habove t ht htc]
        rw [hshown, hshadow] at hq
        simp at hq
    · intro hno below s above hW hp habove
      rw [Bool.and_eq_true] at hp
      have hc : g.curSht ≠ some s := by simpa using hp.1
      obtain ⟨h0, hinvS⟩ := hwindow s (hW ▸ by simp) hc
      obtain ⟨hhits, hshown⟩ := @hits_pointAt g x y s hinvS
      by_contra hq
      refine hno ⟨0 :: below, s, above, by rw [hinv.layers_eq, hW, List.cons_append], ?_, hc,
        ?_, ?_, fun t ht htc => ?_⟩
      · rw [hinv.background]
        exact fun heq => h0 (Option.some.inj heq).symm
      · have := hp.2
        rw [hhits, Bool.and_eq_true] at this
        exact this.1
      · by_contra hsh
        refine hq ?_
        rw [hshown, hp.1, hp.2, Bool.eq_false_of_not_eq_true hsh]
        rfl
      · have := habove t ht
        rwa [show (g.curSht != some t) = true from bne_iff_ne.mpr htc, Bool.true_and] at this
  · intro s hs hq
    rw [Bool.and_eq_true] at hq ⊢
    refine ⟨hq.1, ?_⟩
    have hshown := (@hits_pointAt g x y s (hwindow s hs (by simpa using hq.1)).2).2
    rw [hshown, Bool.and_eq_true] at hq
    exact hq.2.1

/-- A left press acts on the window that is shown, except on a shadow that nothing covers. -/
theorem press_acts_on_shown_iff {font : Font} {b : StartUp} {g : Gui} (h : Reachable font b g)
    {x y : Int} (hbar : y < g.ctl.ysize - 40) :
    PressActsOn font (g.pointAt x y) (g.shownWindow x y) ↔ ¬ g.ShadowOnTop x y := by
  rw [@pressActsOn_iff font (g.pointAt x y) hbar]
  exact pressTarget_shown_iff h x y

/-! ### The shadow of a window -/

/-- What `draw_win_shadow` leaves outside the content of a window: the marker and the depth,
which falls with the distance from the content. -/
def shadowBorder (w h : Int) (content : Pixel) (x y : Int) : Pixel :=
  if outside w x ≠ 0 ∨ outside h y ≠ 0 then shadowPixel (outside w x) (outside h y) else content

/-- The blank desk, with a grey first window and its shadow. -/
def shadowStart : StartUp :=
  { blankStart with
    winBuf := fun i => shadowBorder (200 * UI_SCALE) (120 * UI_SCALE) 0x00C0C0C0 (i % 432) (i / 432) }

theorem press_acts_on_shown_blank : ∃ g, startUp (fun _ _ => 0) shadowStart = some g ∧
    (PressActsOn (fun _ _ => 0) (g.pointAt 70 100) (g.shownWindow 70 100) ↔
      ¬ g.ShadowOnTop 70 100) := by
  obtain ⟨g, hg, -⟩ := startUp_inv (fun _ _ => 0) shadowStart
  have hsize : ((startUp (fun _ _ => 0) shadowStart).map fun g => g.ctl.ysize) = some 600 := by
    decide +kernel
  rw [hg] at hsize
  have hbar : (100 : Int) < g.ctl.ysize - 40 := by
    have hy : g.ctl.ysize = 600 := Option.some.inj hsize
    omega
  exact ⟨g, hg, press_acts_on_shown_iff (.start hg) hbar⟩

/-- At (70, 100) the desktop is shown through the shadow of the first window. A press there
starts to drag that window. -/
theorem press_on_shadow_drags : ∃ g, Reachable (fun _ _ => 0) shadowStart g ∧ g.mx = 70 ∧
    g.my = 100 ∧ g.pressAct = some (.dragStart 1) ∧ g.shownWindow 70 100 = none ∧
    ¬ PressActsOn (fun _ _ => 0) g (g.shownWindow 70 100) := by
  obtain ⟨g, hg, -⟩ := startUp_inv (fun _ _ => 0) shadowStart
  have hfacts : ((startUp (fun _ _ => 0) shadowStart).map fun g =>
      let g := g.isr2cPacket (fun _ _ => 0) 0 (-330) (-200)
      (g.mx, g.my, g.pressAct, g.shownWindow 70 100, g.pressTarget)) =
      some (70, 100, some (.dragStart 1), none, some 1) := by decide +kernel
  rw [hg] at hfacts
  have hfacts := Option.some.inj hfacts
  simp only [Prod.mk.injEq] at hfacts
  obtain ⟨hx, hy, hact, hshown, htarget⟩ := hfacts
  refine ⟨_, .step (.start hg) (.packet 0 (-330) (-200)) trivial, hx, hy, hact, hshown, fun h => ?_⟩
  exact nomatch htarget.symm.trans (h.1.trans hshown)

end WinDOS
