import WinDOS.Window.Accesses

/-!
# The stack after `sheet_updown`

`sheet_updown` allows heights up to `top + 1`, the place of a sheet that was hidden. A visible
sheet sent there makes the shifting loop read `sheets[top + 1]`, an entry that belongs to no
visible sheet.
-/

set_option autoImplicit false

namespace WinDOS

namespace Shtctl

/-- No entry above `top` is read. -/
def noStale : Access → Bool
  | .entry h top _ => h ≤ top
  | _ => true

theorem noStale_pixels : Checked.PermitsPixels noStale where
  coord _ := rfl
  map _ _ := rfl
  vram _ _ := rfl
  buf _ _ := rfl

theorem noStale_entries : Checked.PermitsEntries noStale where
  entry _ _ _ h _ := decide_eq_true h
  store _ _ _ := rfl
  reload _ _ _ := rfl

/-- What `sheet_updown` is for. Wherever the sheets lie, the call reads no stale entry and leaves
the stack that the others are about. -/
structure UpdownRight (ctl : Shtctl) (s : Sid) (height : Int) : Prop where
  reads : ∃ res, Checked.sheetUpdown noStale ctl s height = some res ∧
    SameStack (ctl.sheetUpdown s height) res
  consistent : Consistent (ctl.sheetUpdown s height)
  distinct : (ctl.sheetUpdown s height).layers.Nodup
  order : (ctl.sheetUpdown s height).others s = ctl.others s
  hidden : height < 0 → (ctl.sheetUpdown s height).height s = -1 ∧
    s ∉ (ctl.sheetUpdown s height).layers
  standing : 0 ≤ height → s ∈ (ctl.sheetUpdown s height).layers ∧
    (ctl.sheetUpdown s height).height s = min height (ctl.others s).length

section

variable {ctl : Shtctl} (hc : Consistent ctl) {s : Sid} (hs : ctl.inUse s) {height : Int}
include hc

/-- Where a sheet that may go to `height` comes to stand. -/
theorem clampHeight_eq (htarget : 0 ≤ ctl.height s → height ≤ ctl.top) :
    ctl.clampHeight height = if height < 0 then -1 else min height (ctl.others s).length := by
  have hlen := hc.others_length (s := s)
  have htop := hc.top_ge
  have hpos : 0 ≤ min height (ctl.others s).length ∨ height < 0 := by omega
  unfold clampHeight
  dsimp only
  by_cases hmem : s ∈ ctl.layers
  · have hle := htarget (hc.height_of_mem hmem).1
    rw [if_pos hmem] at hlen
    split_ifs <;> omega
  · rw [if_neg hmem] at hlen
    split_ifs <;> omega

include hs

theorem updown_right (htarget : 0 ≤ ctl.height s → height ≤ ctl.top) :
    UpdownRight ctl s height := by
  obtain ⟨st, hre, hup⟩ := sheetUpdown_cases hc hs height htarget
  have hsame := hup.sameStack
  have hres : Consistent (ctl.sheetUpdown s height) := hsame.consistent hre.consistent
  have hheight : (ctl.sheetUpdown s height).height s = ctl.clampHeight height :=
    (hsame.height s).trans hre.height
  have hclamp := clampHeight_eq hc htarget
  have huse : (ctl.sheetUpdown s height).inUse s := by
    rw [hsame.inUse, inUse, hre.frame.sheet]
    exact hs
  refine ⟨?_, hres, hres.layers_nodup, ?_, fun hneg => ?_, fun hpos => ?_⟩
  · rcases Checked.sheetUpdown_redraws noStale_entries hc hs htarget with
      h | ⟨c, m0, h0, h1, h⟩
    · exact ⟨_, h, .refl _⟩
    · exact h.total noStale_pixels noStale_entries hres
  · rw [others, hsame.layers]
    exact hup.others
  · rw [hclamp, if_pos hneg] at hheight
    exact ⟨hheight, (hres.hidden_iff huse).mp hheight⟩
  · rw [hclamp, if_neg (by omega)] at hheight
    exact ⟨hres.visible huse (by omega), hheight⟩

/-- A visible sheet above the top: the last round of the loop reads `sheets[top + 1]`. -/
theorem updown_reads_stale (hvis : 0 ≤ ctl.height s) (habove : ctl.top < height) :
    Checked.sheetUpdown noStale ctl s height = none := by
  have hmem := hc.visible hs hvis
  obtain ⟨hold0, hold1, -⟩ := hc.height_of_mem hmem
  have hclamp : ctl.clampHeight height = ctl.top + 1 := by
    have htop := hc.top_ge
    unfold clampHeight
    dsimp only
    split_ifs <;> omega
  have hloop := Checked.raise_loop_eq (p := ctl.top + 1) noStale_entries hc hmem (Int.le_refl _)
  have hsh := shift_down_loop (c := ctl.setHeight s (ctl.top + 1)) (a := ctl.height s)
    (b := ctl.top) hold1
    fun j k _ _ _ _ h => hc.sheets_inj (by omega) (by omega) (by omega) (by omega) h
  unfold Checked.sheetUpdown
  dsimp only
  rw [hclamp, if_neg (by omega), if_pos (by omega), if_pos hvis, Guarded.forUp,
    Loop.forUp_succ hold1, ← Guarded.forUp, hloop, Option.bind_some]
  generalize Loop.forUp (ctl.height s) ctl.top (fun h c => c.moveEntry h (h + 1))
    (ctl.setHeight s (ctl.top + 1)) = t at hsh
  have htop : t.top = ctl.top := hsh.top
  have hstale : Checked.moveEntry noStale t ctl.top (ctl.top + 1) = none := by
    unfold Checked.moveEntry Guarded.after
    simp [noStale, htop]
  rw [hstale]
  rfl

/-- `sheet_updown` does what it is for exactly if a visible sheet is not sent above the top. -/
theorem updown_right_iff :
    UpdownRight ctl s height ↔ (0 ≤ ctl.height s → height ≤ ctl.top) := by
  refine ⟨fun h hvis => ?_, updown_right hc hs⟩
  by_contra habove
  have hnone := updown_reads_stale hc hs hvis (Int.not_le.mp habove)
  obtain ⟨res, hres, -⟩ := h.reads
  rw [hres] at hnone
  exact Option.some_ne_none res hnone

end

attribute [local instance] Sid.neZero in
/-- Two visible sheets and a third one that has been hidden again: its entry is still there. -/
def staleStack : Shtctl where
  vram := fun _ => 0
  map := fun _ => 0
  xsize := 4
  ysize := 4
  top := 1
  sheets := fun h => if h = 1 then 1 else if h = 2 then 2 else 0
  sheets0 := fun s =>
    { buf := fun _ => 0x00C0C0C0
      bxsize := 4, bysize := 4, vx0 := 0, vy0 := 0
      colInv := colInvNone
      height := if s = 0 then 0 else if s = 1 then 1 else -1
      flags := if s ≤ 2 then 1 else 0 }

theorem staleStack_consistent : Consistent staleStack where
  top_ge := by decide
  used := fun h _ _ => by
    change (if (if h = 1 then (1 : Sid) else if h = 2 then 2 else 0) ≤ 2 then 1 else 0) ≠ 0
    split_ifs <;> first | decide | simp_all
  at_height := fun h h0 h1 => by
    have h1 : h ≤ 1 := h1
    obtain rfl | rfl : h = 0 ∨ h = 1 := by omega
    · rfl
    · rfl
  hidden_or := by decide

theorem updown_right_iff_staleStack :
    UpdownRight staleStack 1 1 ↔ (0 ≤ staleStack.height 1 → (1 : Int) ≤ staleStack.top) :=
  updown_right_iff staleStack_consistent (by decide)

/-- The visible sheet 1 sent to `top + 1`: the hidden sheet 2 takes its place, and sheet 1 keeps a
height at which no visible sheet stands. -/
theorem updown_above_top : Consistent staleStack ∧ staleStack.inUse 1 ∧
    staleStack.others 1 = [0] ∧ (staleStack.sheetUpdown 1 2).layers = [0, 2] ∧
    (staleStack.sheetUpdown 1 2).height 1 = 2 ∧ ¬ UpdownRight staleStack 1 2 := by
  refine ⟨staleStack_consistent, by decide, by decide, rfl, rfl, fun h => ?_⟩
  have hstand := (h.standing (by decide)).1
  exact absurd hstand (show (1 : Sid) ∉ [0, 2] by decide)

end Shtctl

end WinDOS
