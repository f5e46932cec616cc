import WinDOS.Draw.Cells
import WinDOS.Gui.MapRuns

/-!
# What the task bar looks like

A full refresh paints the desktop and over it a button for each window. Each painter gives every
pixel of its area one colour.
-/

set_option autoImplicit false

namespace WinDOS

open Shtctl Gui Loop Drawing

/-! ### What is drawn -/

/-- The pixel lies on the button of slot `i`. -/
def OnBarButton (vr : Int) (i : Nat) (px py : Int) : Prop :=
  (8 + (i : Int) * 148 ≤ px ∧ px < 8 + (i : Int) * 148 + 140) ∧ vr - 33 ≤ py ∧ py < vr - 7

/-- The title of a button covers the pixel. -/
def OnTitle (font : Font) (vr : Int) (slot : WinSlot) (i : Nat) (px py : Int) : Prop :=
  ∃ title, slot.title = some title ∧
    TextPixel font (8 + (i : Int) * 148 + 6) (vr - 40 + 7 + 6) 1 title px py

/-- The colours of a button: white for its title, dark for a window that is hidden. -/
def ButtonShows (font : Font) (vr : Int) (slot : WinSlot) (i : Nat) (px py : Int) (v : Pixel) :
    Prop :=
  (OnTitle font vr slot i px py → v = 0x00FFFFFF) ∧
    (¬ OnTitle font vr slot i px py → v = if slot.min ≠ 0 then 0x00202020 else 0x004A4A4A)

theorem ButtonShows.unique {font : Font} {vr : Int} {slot : WinSlot} {i : Nat} {px py : Int}
    {v w : Pixel} (hv : ButtonShows font vr slot i px py v)
    (hw : ButtonShows font vr slot i px py w) : v = w := by
  by_cases htext : OnTitle font vr slot i px py
  · exact (hv.1 htext).trans (hw.1 htext).symm
  · exact (hv.2 htext).trans (hw.2 htext).symm

/-- The desktop and the strip of the task bar. -/
def desktopPixel (vr py : Int) : Pixel := if vr - 40 ≤ py then 0 else 0x00008080

/-- The slot has a title that fits its button. -/
def WinSlot.Fits (slot : WinSlot) : Prop := ∃ title, slot.title = some title ∧ title.length ≤ 16

section Draw

variable {font : Font} {hr vr : Int} (t : Target hr hr vr)

theorem onTitle_button {slot : WinSlot} (hfit : slot.Fits) {i : Nat} {px py : Int}
    (h : OnTitle font vr slot i px py) : OnBarButton vr i px py := by
  obtain ⟨title, htitle, hlen⟩ := hfit
  obtain ⟨title', htitle', ⟨hchar, hrow, -⟩⟩ := h
  obtain rfl : title = title' := Option.some.inj (htitle.symm.trans htitle')
  unfold OnBarButton
  omega

include t in
theorem visible_word {px py : Int} (h : Visible hr vr px py) :
    u32 (py * hr + px) = py * hr + px := by
  have hle : py * hr ≤ (vr - 1) * hr := Int.mul_le_mul_of_nonneg_right (by
    have := h.2.2
    omega) t.fw_nonneg
  have hwords := t.words
  have hpy := Int.mul_nonneg h.2.1 t.fw_nonneg
  have hlast : (vr - 1) * hr = hr * vr - hr := by
    rw [Int.sub_mul, Int.one_mul, Int.mul_comm]
  have h0 := h.1
  exact Int.emod_eq_of_lt (by omega) (by omega)

include t in
theorem desktopFill_cells (h0 : 40 ≤ vr) (h1 : vr < 2 ^ 32) :
    Draws (Cells hr vr fun _ py v => v = desktopPixel vr py) (desktopFill hr vr) := by
  have hstrip : u32 (vr - 40) = vr - 40 := Int.emod_eq_of_lt (by omega) (by omega)
  unfold desktopFill
  refine (Draws.forUp (fun y _ _ => Draws.forUp (fun x _ _ => Draws.update _ _) ?_) ?_).congr
    fun a v => ?_
  · rintro k l a v w - - - - ⟨-, rfl⟩ ⟨-, rfl⟩
    rfl
  · rintro k l a v w hk0 hk1 hl0 hl1 ⟨x, hx0, hx1, rfl, rfl⟩ ⟨x', hx0', hx1', heq, rfl⟩
    have hp : Visible hr vr x k := ⟨⟨hx0, hx1⟩, hk0, hk1⟩
    have hq : Visible hr vr x' l := ⟨⟨hx0', hx1'⟩, hl0, hl1⟩
    rw [visible_word t hp, visible_word t hq] at heq
    rw [(pixel_unique hp hq heq).2]
  · constructor
    · rintro ⟨y, hy0, hy1, x, hx0, hx1, rfl, rfl⟩
      have hp : Visible hr vr x y := ⟨⟨hx0, hx1⟩, hy0, hy1⟩
      refine ⟨x, y, hp, ?_, visible_word t hp⟩
      rw [hstrip]
      rfl
    · rintro ⟨x, y, hp, rfl, rfl⟩
      refine ⟨y, hp.2.1, hp.2.2, x, hp.1.1, hp.1.2, (visible_word t hp).symm, ?_⟩
      rw [hstrip]
      rfl

variable (font)

include t in
theorem paintButton_cells {slot : WinSlot} (hfit : slot.Fits) (i : Nat) :
    Draws (Cells hr vr fun px py v => OnBarButton vr i px py ∧ ButtonShows font vr slot i px py v)
      (fun fb => paintButton font hr hr vr fb (slot, i)) := by
  obtain ⟨title, htitle, hlen⟩ := hfit
  have hon : ∀ px py, OnTitle font vr slot i px py ↔
      TextPixel font (8 + (i : Int) * 148 + 6) (vr - 40 + 7 + 6) 1 title px py := fun px py => by
    unfold OnTitle
    rw [htitle]
    simp
  unfold paintButton
  dsimp only
  rw [htitle]
  refine (cells_comp (putStrC_cells t font _ _ title _) (fillRectC_cells t _ _ 140 26 _)).congr
    (cells_congr fun px py v _ => ?_)
  unfold ButtonShows OnBarButton
  rw [← hon]
  by_cases htext : OnTitle font vr slot i px py
  · have hin := onTitle_button ⟨title, htitle, hlen⟩ htext
    unfold OnBarButton at hin
    constructor
    · rintro (⟨rfl, -⟩ | ⟨hno, -⟩)
      · exact ⟨hin, fun _ => rfl, fun h => absurd htext h⟩
      · exact absurd ⟨rfl, htext⟩ (hno 0x00FFFFFF)
    · rintro ⟨-, hwhite, -⟩
      exact .inl ⟨hwhite htext, htext⟩
  · constructor
    · rintro (⟨-, h⟩ | ⟨-, rfl, hx, hy⟩)
      · exact absurd h htext
      · exact ⟨⟨⟨by omega, by omega⟩, by omega, by omega⟩, fun h => absurd h htext, fun _ => rfl⟩
    · rintro ⟨⟨⟨hx0, hx1⟩, hy0, hy1⟩, -, hbg⟩
      exact .inr ⟨fun w hw => htext hw.2, hbg htext, ⟨by omega, by omega⟩, by omega, by omega⟩

/-- Two buttons share no pixel. -/
theorem onBarButton_unique {i j : Nat} {px py : Int} (hi : OnBarButton vr i px py)
    (hj : OnBarButton vr j px py) : i = j := by
  have h0 := hi.1
  have h1 := hj.1
  omega

include t in
theorem paintButtons_cells {wins : List WinSlot} (hfit : ∀ slot ∈ wins, slot.Fits) (k : Nat) :
    Draws (Cells hr vr fun px py v => ∃ i slot, wins[i]? = some slot ∧
        OnBarButton vr (k + i) px py ∧ ButtonShows font vr slot (k + i) px py v)
      (fun fb => (wins.zipIdx k).foldl (paintButton font hr hr vr) fb) := by
  induction wins generalizing k with
  | nil =>
    refine Draws.nothing.congr fun a v => ⟨False.elim, ?_⟩
    rintro ⟨px, py, -, ⟨i, slot, hi, -⟩, -⟩
    rw [List.getElem?_nil] at hi
    cases hi
  | cons slot wins ih =>
    have hrest := ih (fun s hs => hfit s (List.mem_cons_of_mem slot hs)) (k + 1)
    have hfirst := paintButton_cells font t (hfit slot List.mem_cons_self) k
    refine (cells_comp hrest hfirst).congr (cells_congr fun px py v _ => ?_)
    constructor
    · rintro (⟨i, s, hi, hon, hshow⟩ | ⟨-, hon, hshow⟩)
      · refine ⟨i + 1, s, hi, ?_⟩
        rw [show k + (i + 1) = k + 1 + i by omega]
        exact ⟨hon, hshow⟩
      · exact ⟨0, slot, rfl, hon, hshow⟩
    · rintro ⟨i, s, hi, hon, hshow⟩
      cases i with
      | zero =>
        obtain rfl : slot = s := Option.some.inj hi
        refine .inr ⟨?_, hon, hshow⟩
        rintro w ⟨j, s', -, hon', -⟩
        have := onBarButton_unique hon hon'
        omega
      | succ i =>
        rw [show k + (i + 1) = k + 1 + i by omega] at hon hshow
        exact .inl ⟨i, s, hi, hon, hshow⟩

include t in
theorem taskbarPaint_cells {wins : List WinSlot} (hfit : ∀ slot ∈ wins, slot.Fits) :
    Draws (Cells hr vr fun px py v => ∃ i slot, wins[i]? = some slot ∧
        OnBarButton vr i px py ∧ ButtonShows font vr slot i px py v)
      ((taskbarPaint font wins).paint hr hr vr) := by
  have h := paintButtons_cells font t hfit 0
  simp only [Nat.zero_add] at h
  exact h

variable {font}

include t in
/-- What the painter leaves on a button. -/
theorem painted_shows {wins : List WinSlot} (hfit : ∀ slot ∈ wins, slot.Fits) {px py : Int}
    (hp : Visible hr vr px py) {i : Nat} {slot : WinSlot} (hi : wins[i]? = some slot)
    (hon : OnBarButton vr i px py) (fb : Buffer) :
    ButtonShows font vr slot i px py ((taskbarPaint font wins).paint hr hr vr fb (py * hr + px)) := by
  have hpaint := taskbarPaint_cells font t hfit
  by_cases htext : OnTitle font vr slot i px py
  · have hv := drawn_at hpaint hp (v := 0x00FFFFFF)
      ⟨i, slot, hi, hon, fun _ => rfl, fun hno => absurd htext hno⟩ fb
    exact ⟨fun _ => hv, fun hno => absurd htext hno⟩
  · have hv := drawn_at hpaint hp ⟨i, slot, hi, hon, fun hyes => absurd hyes htext, fun _ => rfl⟩ fb
    exact ⟨fun hyes => absurd hyes htext, fun _ => hv⟩

include t in
theorem painted_blank {wins : List WinSlot} (hfit : ∀ slot ∈ wins, slot.Fits) {px py : Int}
    (hp : Visible hr vr px py) (hno : ∀ i < wins.length, ¬ OnBarButton vr i px py) (fb : Buffer) :
    (taskbarPaint font wins).paint hr hr vr fb (py * hr + px) = fb (py * hr + px) := by
  refine kept_at (taskbarPaint_cells font t hfit) hp ?_ fb
  rintro v ⟨i, slot, hi, hon, -⟩
  exact hno i (List.getElem?_eq_some_iff.mp hi).1 hon

end Draw

/-! ### Calls that leave the buffers alone -/

/-- The sheets keep their buffers and sizes. -/
def SameBufs (c c' : Shtctl) : Prop := ∀ s, (c'.sheets0 s).buf = (c.sheets0 s).buf ∧
  (c'.sheets0 s).bxsize = (c.sheets0 s).bxsize ∧ (c'.sheets0 s).bysize = (c.sheets0 s).bysize

namespace SameBufs

variable {c c' c'' : Shtctl}

theorem refl (c : Shtctl) : SameBufs c c := fun _ => ⟨rfl, rfl, rfl⟩

theorem trans (h : SameBufs c c') (h' : SameBufs c' c'') : SameBufs c c'' := fun s =>
  ⟨(h' s).1.trans (h s).1, (h' s).2.1.trans (h s).2.1, (h' s).2.2.trans (h s).2.2⟩

theorem of_sameStack (h : SameStack c c') : SameBufs c c' := fun s => by
  rw [h.sheets0]
  exact ⟨rfl, rfl, rfl⟩

theorem setSheet (c : Shtctl) (s : Sid) {sht : Sheet} (hbuf : sht.buf = (c.sheets0 s).buf)
    (hx : sht.bxsize = (c.sheets0 s).bxsize) (hy : sht.bysize = (c.sheets0 s).bysize) :
    SameBufs c (c.setSheet s sht) := fun u => by
  rw [setSheet_sheets0]
  split
  · rename_i h
    rw [h]
    exact ⟨hbuf, hx, hy⟩
  · exact ⟨rfl, rfl, rfl⟩

theorem moveEntry (c : Shtctl) (dst src : Int) : SameBufs c (c.moveEntry dst src) :=
  setSheet (c.place dst (c.sheets src)) _ rfl rfl rfl

theorem redrawn (r r' : Rect) (a b d : Int) (h : SameBufs c c') :
    SameBufs c ((c'.sheetRefreshmap r a).sheetRefreshsub r' b d) :=
  h.trans (of_sameStack ((sameStack_refreshmap c' r a).trans (sameStack_refreshsub _ r' b d)))

theorem closeGap (h : SameBufs c c') (lo hi : Int) :
    SameBufs c (forUp lo hi (fun h b => b.moveEntry h (h + 1)) c') :=
  forUp_keeps lo hi h fun _ b hb => hb.trans (moveEntry b _ _)

theorem openGap (h : SameBufs c c') (hi lo : Int) :
    SameBufs c (forDown hi lo (fun h b => b.moveEntry h (h - 1)) c') ∧
      SameBufs c (forDown hi lo (fun h b => b.moveEntry (h + 1) h) c') :=
  ⟨forDown_keeps hi lo h fun _ b hb => hb.trans (moveEntry b _ _),
    forDown_keeps hi lo h fun _ b hb => hb.trans (moveEntry b _ _)⟩

theorem sheetUpdown (c : Shtctl) (s : Sid) (height : Int) : SameBufs c (c.sheetUpdown s height) := by
  have hset : SameBufs c (c.setHeight s (c.clampHeight height)) := setSheet c s rfl rfl rfl
  unfold Shtctl.sheetUpdown
  dsimp only
  split
  · split
    · exact redrawn _ _ _ _ _ fun u => (hset.openGap (c.height s) (c.clampHeight height)).1 u
    · refine redrawn _ _ _ _ _ ?_
      split
      · exact fun u => hset.closeGap (c.height s) _ u
      · exact fun u => hset u
  · split
    · refine redrawn _ _ _ _ _ ?_
      split
      · exact fun u => hset.closeGap (c.height s) (c.clampHeight height) u
      · exact fun u => (hset.openGap _ (c.clampHeight height - 1)).2 u
    · exact hset

theorem sheetSlide (c : Shtctl) (s : Sid) (vx0 vy0 : Int) : SameBufs c (c.sheetSlide s vx0 vy0) := by
  have hset : SameBufs c (c.setSheet s ((c.sheets0 s).moveTo vx0 vy0)) := setSheet c s rfl rfl rfl
  unfold Shtctl.sheetSlide
  dsimp only
  split
  · exact hset.trans (of_sameStack (((sameStack_refreshmap _ _ _).trans
      (sameStack_refreshmap _ _ _)).trans ((sameStack_refreshsub _ _ _ _).trans
        (sameStack_refreshsub _ _ _ _))))
  · exact hset

theorem sheetFree (c : Shtctl) (s : Sid) : SameBufs c (c.sheetFree s) := by
  unfold Shtctl.sheetFree
  dsimp only
  split
  · exact (sheetUpdown c s (-1)).trans (setSheet _ s rfl rfl rfl)
  · exact setSheet c s rfl rfl rfl

end SameBufs

end WinDOS
