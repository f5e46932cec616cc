import WinDOS.Window.Pinned

/-!
# What the sheet controller leaves alone

The calls that reorder, move and draw sheets write heights, positions, the map and the
screen. The flags and the transparent colour of every sheet and the size of the screen stay
as they are; only `sheet_free` clears a flag.
-/

set_option autoImplicit false

namespace WinDOS

open Loop Shtctl

structure SameAttrs (c c' : Shtctl) : Prop where
  xsize : c'.xsize = c.xsize
  ysize : c'.ysize = c.ysize
  flags : ∀ s, (c'.sheets0 s).flags = (c.sheets0 s).flags
  colInv : ∀ s, (c'.sheets0 s).colInv = (c.sheets0 s).colInv

namespace SameAttrs

variable {a b c : Shtctl}

theorem refl (c : Shtctl) : SameAttrs c c := ⟨rfl, rfl, fun _ => rfl, fun _ => rfl⟩

theorem trans (h : SameAttrs a b) (h' : SameAttrs b c) : SameAttrs a c :=
  ⟨h'.xsize.trans h.xsize, h'.ysize.trans h.ysize, fun s => (h'.flags s).trans (h.flags s),
    fun s => (h'.colInv s).trans (h.colInv s)⟩

theorem inUse (h : SameAttrs a b) (s : Sid) : b.inUse s ↔ a.inUse s := by
  unfold Shtctl.inUse
  rw [h.flags]

end SameAttrs

theorem sameAttrs_setSheet {ctl : Shtctl} {s : Sid} {sht : Sheet}
    (hflags : sht.flags = (ctl.sheets0 s).flags) (hcolInv : sht.colInv = (ctl.sheets0 s).colInv) :
    SameAttrs ctl (ctl.setSheet s sht) := by
  refine ⟨rfl, rfl, fun t => ?_, fun t => ?_⟩
  all_goals
    rw [setSheet_sheets0]
    split
    · rename_i ht
      subst ht
      assumption
    · rfl

theorem sameAttrs_place (ctl : Shtctl) (h : Int) (s : Sid) : SameAttrs ctl (ctl.place h s) :=
  ⟨rfl, rfl, fun _ => rfl, fun _ => rfl⟩

theorem sameAttrs_moveEntry (ctl : Shtctl) (dst src : Int) :
    SameAttrs ctl (ctl.moveEntry dst src) :=
  (sameAttrs_place ctl dst _).trans (sameAttrs_setSheet rfl rfl)

theorem Shtctl.SameStack.sameAttrs {a b : Shtctl} (h : SameStack a b) : SameAttrs a b :=
  ⟨h.xsize, h.ysize, fun s => by rw [h.sheets0], fun s => by rw [h.sheets0]⟩

theorem sameAttrs_refreshed (ctl : Shtctl) (r : Rect) (h0 h1 h2 : Int) :
    SameAttrs ctl ((ctl.sheetRefreshmap r h0).sheetRefreshsub r h1 h2) :=
  ⟨rfl, rfl, fun _ => rfl, fun _ => rfl⟩

theorem sameAttrs_updown (ctl : Shtctl) (s : Sid) (height : Int) :
    SameAttrs ctl (ctl.sheetUpdown s height) := by
  have hset : ∀ h, SameAttrs ctl (ctl.setHeight s h) := fun h => sameAttrs_setSheet rfl rfl
  have hplace : ∀ {c : Shtctl} (h : Int), SameAttrs ctl c → SameAttrs ctl (c.place h s) :=
    fun h hc => hc.trans (sameAttrs_place _ h s)
  have htop : ∀ {c : Shtctl} (t : Int), SameAttrs ctl c → SameAttrs ctl { c with top := t } :=
    fun t hc => ⟨hc.xsize, hc.ysize, hc.flags, hc.colInv⟩
  unfold sheetUpdown
  dsimp only
  split
  · split
    · refine (hplace _ ?_).trans (sameAttrs_refreshed _ _ _ _ _)
      exact forDown_keeps _ _ (hset _) fun _ c hc => hc.trans (sameAttrs_moveEntry c _ _)
    · refine (htop _ ?_).trans (sameAttrs_refreshed _ _ _ _ _)
      split
      · exact forUp_keeps _ _ (hset _) fun _ c hc => hc.trans (sameAttrs_moveEntry c _ _)
      · exact hset _
  split
  · refine SameAttrs.trans ?_ (sameAttrs_refreshed _ _ _ _ _)
    split
    · refine hplace _ ?_
      exact forUp_keeps _ _ (hset _) fun _ c hc => hc.trans (sameAttrs_moveEntry c _ _)
    · refine htop _ (hplace _ ?_)
      exact forDown_keeps _ _ (hset _) fun _ c hc => hc.trans (sameAttrs_moveEntry c _ _)
  · exact hset _

theorem sameAttrs_slide (ctl : Shtctl) (s : Sid) (vx0 vy0 : Int) :
    SameAttrs ctl (ctl.sheetSlide s vx0 vy0) := by
  have hset : SameAttrs ctl (ctl.setSheet s ((ctl.sheets0 s).moveTo vx0 vy0)) :=
    sameAttrs_setSheet rfl rfl
  unfold sheetSlide
  dsimp only
  split
  · exact hset.trans ⟨rfl, rfl, fun _ => rfl, fun _ => rfl⟩
  · exact hset

theorem sameAttrs_refreshAll (ctl : Shtctl) (hook : Option TaskbarHook) :
    SameAttrs ctl (ctl.shtctlRefreshAll hook) := by
  have hset : SameAttrs ctl (ctl.repaintBack hook) := sameAttrs_setSheet rfl rfl
  exact hset.trans (sameAttrs_refreshed _ _ _ _ _)

theorem sheetFree_flags (ctl : Shtctl) (s t : Sid) :
    ((ctl.sheetFree s).sheets0 t).flags = if t = s then 0 else (ctl.sheets0 t).flags := by
  unfold sheetFree
  dsimp only
  rw [setSheet_sheets0]
  split
  · rfl
  · split
    · exact (sameAttrs_updown ctl s (-1)).flags t
    · rfl

theorem sheetFree_colInv (ctl : Shtctl) (s t : Sid) :
    ((ctl.sheetFree s).sheets0 t).colInv = (ctl.sheets0 t).colInv := by
  have hup : ∀ c : Shtctl, SameAttrs ctl c →
      ((c.setSheet s { c.sheets0 s with flags := 0 }).sheets0 t).colInv =
        (ctl.sheets0 t).colInv := by
    intro c hc
    rw [← hc.colInv t, setSheet_sheets0]
    split
    · rename_i hts
      rw [hts]
    · rfl
  unfold sheetFree
  dsimp only
  split
  · exact hup _ (sameAttrs_updown ctl s (-1))
  · exact hup _ (.refl ctl)

theorem sheetFree_xsize (ctl : Shtctl) (s : Sid) : (ctl.sheetFree s).xsize = ctl.xsize := by
  unfold sheetFree
  dsimp only
  split
  · exact (sameAttrs_updown ctl s (-1)).xsize
  · rfl

theorem sheetFree_ysize (ctl : Shtctl) (s : Sid) : (ctl.sheetFree s).ysize = ctl.ysize := by
  unfold sheetFree
  dsimp only
  split
  · exact (sameAttrs_updown ctl s (-1)).ysize
  · rfl

end WinDOS
