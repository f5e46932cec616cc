import WinDOS.Boot.Ksprintf
import WinDOS.Draw.Cells
import WinDOS.Gui.Login

/-!
# What the login box shows

Each key at the login clears the input box and draws the text again. The box is cleared, the text
is not kept inside it.
-/

set_option autoImplicit false

namespace WinDOS

open Drawing

/-- The size of `login_wbuf`. -/
def LOGIN_FW : Int := LOGIN_W + 2 * SHADOW
def LOGIN_FH : Int := LOGIN_H + 2 * SHADOW

/-- The input box, empty. -/
def clearBox (fb : Buffer) : Buffer :=
  fillRectC LOGIN_FW LOGIN_FW LOGIN_FH (LOGIN_BX + SHADOW) (LOGIN_BY + SHADOW) LOGIN_BW LOGIN_BH
    0x00101010 fb

def drawLine (font : Font) (line : Text) (fb : Buffer) : Buffer :=
  putStrCs font LOGIN_FW LOGIN_FW LOGIN_FH (LOGIN_BX + 8 + SHADOW) (LOGIN_BY + SHADOW + 4) line
    0x00FFFFFF UI_SCALE fb

theorem drawLine_nil (font : Font) (fb : Buffer) : drawLine font [] fb = fb := rfl

/-- `line`, up to its NUL. -/
def loginLine (st : LoopState) : Text :=
  cstr ((List.range (min st.loginLen 31)).map fun i => BitVec.ofNat 8 (st.loginBuf i))

/-- `login_wbuf` after an iteration. -/
def loginDrawn (font : Font) (desk : Desk) (st : LoopState) (p : Poll) (fb : Buffer) : Buffer :=
  match p.key with
  | none => fb
  | some d =>
    let st := clockTicked st p.ticks
    if d < 0x80 ∧ d ≠ 0x3B ∧ st.loggedIn = false then
      match (loginKey desk st (keyChar st d)).2 with
      | none => fb
      | some st => drawLine font (loginLine st) (clearBox fb)
    else fb

/-- Iterations of the loop with `login_wbuf`; the start-up has drawn the window `base` and cleared
the box. -/
inductive PictureRun (font : Font) (desk : Desk) (st0 : LoopState) (base : Buffer) :
    List Poll → LoopState → Buffer → Prop
  | enter : PictureRun font desk st0 base [] st0 (clearBox base)
  | iterate {polls : List Poll} {st st' : LoopState} {fb : Buffer}
      (h : PictureRun font desk st0 base polls st fb) (p : Poll)
      (hst : (iteration desk st p).2 = some st') :
      PictureRun font desk st0 base (polls ++ [p]) st' (loginDrawn font desk st p fb)

/-- The text as bytes. -/
def Editor.line (e : Editor) : Text := e.text.map (BitVec.ofNat 8)

namespace Editor

theorem press_release (e : Editor) {d : Nat} (h : ¬ (d < 0x80 ∧ d ≠ 0x3B)) :
    (e.press d).text = e.text := by
  by_cases hd : d < 0x80
  · obtain rfl : d = 0x3B := by
      by_contra hne
      exact h ⟨hd, hne⟩
    rw [e.press_f1]
  · exact if_neg hd

end Editor

theorem Shows.loginLine {e : Editor} {st : LoopState} (h : Shows e st)
    (hlt : ∀ c ∈ e.text, c < 0x80) : loginLine st = e.line := by
  have hmin : min st.loginLen 31 = e.text.length := by
    rw [h.length]
    exact min_eq_left h.short
  have hline : (List.range e.text.length).map (fun i => BitVec.ofNat 8 (st.loginBuf i)) = e.line := by
    unfold Editor.line
    conv_rhs => rw [← h.buffer, List.map_map]
    rfl
  unfold WinDOS.loginLine cstr
  rw [hmin, hline, List.takeWhile_eq_self_iff]
  intro b hb
  obtain ⟨c, hc, rfl⟩ := List.mem_map.mp hb
  have h0 := h.printable c hc
  have h1 := hlt c hc
  refine decide_eq_true fun hz => ?_
  have hzero : c % 2 ^ 8 = 0 := by
    rw [← BitVec.toNat_ofNat, hz]
    rfl
  omega

/-- One iteration draws the text that the key has left, or the text has stayed. -/
theorem Shows.drawn {e : Editor} {st st' : LoopState} (h : Shows e st)
    (hlt : ∀ d, ∀ c ∈ (e.press d).text, c < 0x80) (font : Font) (desk : Desk) {p : Poll}
    (hst : (iteration desk st p).2 = some st') (fb : Buffer) :
    loginDrawn font desk st p fb =
        drawLine font (p.key.toList.foldl Editor.press e).line (clearBox fb) ∨
      loginDrawn font desk st p fb = fb ∧ (p.key.toList.foldl Editor.press e).line = e.line := by
  have ht := h.ticked p.ticks
  unfold loginDrawn
  unfold iteration at hst
  dsimp only at hst
  cases hkey : p.key with
  | none => exact .inr ⟨rfl, rfl⟩
  | some d =>
    rw [hkey] at hst
    dsimp only [Option.toList, List.foldl_cons, List.foldl_nil] at hst ⊢
    by_cases hd : d < 0x80 ∧ d ≠ 0x3B
    · unfold keyOps at hst
      rw [if_pos hd.1, if_neg hd.2, if_neg (by simp [ht.loggedIn]), ht.keyChar] at hst
      by_cases hc : e.typed d = 0x0A
      · rw [hc] at hst
        contradiction
      · obtain ⟨s, hs, hshow⟩ := ht.edit_right desk hc
        have htext : (e.press d).text = Editor.edit e.text (e.typed d) := if_pos hd.1
        rw [if_pos ⟨hd.1, hd.2, ht.loggedIn⟩, ht.keyChar, hs]
        rw [← htext] at hshow
        exact .inl (congrArg (drawLine font · (clearBox fb)) (hshow.loginLine (hlt d)))
    · rw [if_neg fun hall => hd ⟨hall.1, hall.2.1⟩]
      exact .inr ⟨rfl, congrArg (List.map _) (e.press_release hd)⟩

section Run

variable {font : Font} {desk : Desk} {buf : Nat → Nat} {base fb : Buffer} {polls : List Poll}
  {st : LoopState}

/-- A text that was typed at some time up to now. -/
def Typed (polls : List Poll) (t : Text) : Prop :=
  ∃ before, before <+: polls ∧ t = (Editor.after before).line

theorem after_concat (polls : List Poll) (p : Poll) :
    Editor.after (polls ++ [p]) = p.key.toList.foldl Editor.press (Editor.after polls) := by
  unfold Editor.after
  rw [List.flatMap_append, List.foldl_append, List.flatMap_singleton]

theorem typed_concat {polls : List Poll} {p : Poll} {t : Text} :
    Typed (polls ++ [p]) t ↔ Typed polls t ∨ t = (Editor.after (polls ++ [p])).line := by
  unfold Typed
  simp only [List.prefix_concat_iff, or_and_right, exists_or, exists_eq_left, or_comm]

/-- The buffer shows the texts typed, drawn one after the other, the current one last. -/
theorem PictureRun.redraws
    (h : PictureRun font desk { loopStart with loginBuf := buf } base polls st fb) :
    Shows (Editor.after polls) st ∧ ∃ ts,
      fb = Drawing.redraws clearBox (drawLine font) (ts ++ [(Editor.after polls).line]) base ∧
      ∀ t, t ∈ ts ++ [(Editor.after polls).line] ↔ Typed polls t := by
  induction h with
  | enter =>
    have hempty : (Editor.after []).line = [] := rfl
    have hfirst : Drawing.redraws clearBox (drawLine font) ([] ++ [(Editor.after []).line]) base =
        clearBox base := by
      rw [redraws_concat, hempty, drawLine_nil, Drawing.redraws, List.foldl_nil]
    refine ⟨shows_start buf, [], hfirst.symm, fun t => ?_⟩
    rw [List.nil_append, List.mem_singleton]
    constructor
    · rintro rfl
      exact ⟨[], List.prefix_refl _, rfl⟩
    · rintro ⟨before, hpre, rfl⟩
      rw [List.prefix_nil.mp hpre]
  | @iterate polls st st' fb h p hst ih =>
    obtain ⟨hshows, ts, hfb, hts⟩ := ih
    have hnext := hshows.iteration_right desk hst
    rw [← after_concat] at hnext
    refine ⟨hnext, ?_⟩
    have hlt : ∀ d, ∀ c ∈ ((Editor.after polls).press d).text, c < 0x80 := fun d =>
      Editor.press_text_lt (Editor.foldl_text_lt _) d
    rcases hshows.drawn hlt font desk hst fb with hdraw | ⟨hsame, htext⟩
    · rw [← after_concat] at hdraw
      refine ⟨ts ++ [(Editor.after polls).line], ?_, fun t => ?_⟩
      · rw [hdraw, redraws_concat, ← hfb]
      · rw [List.mem_append, hts, List.mem_singleton, typed_concat]
    · rw [← after_concat] at htext
      refine ⟨ts, ?_, fun t => ?_⟩
      · rw [hsame, hfb, htext]
      · rw [htext, hts, typed_concat, htext]
        refine ⟨.inl, fun h => h.elim id fun heq => ?_⟩
        rw [heq]
        exact ⟨polls, List.prefix_refl _, rfl⟩

end Run

/-! ### The picture -/

/-- The pixel shows the text in white. -/
def LinePixel (font : Font) (t : Text) (px py : Int) : Prop :=
  TextPixel font (LOGIN_BX + 8 + SHADOW) (LOGIN_BY + SHADOW + 4) UI_SCALE t px py

/-- The pixel lies in the input box. -/
def InBox (px py : Int) : Prop :=
  (LOGIN_BX + SHADOW ≤ px ∧ px < LOGIN_BX + SHADOW + LOGIN_BW) ∧
    LOGIN_BY + SHADOW ≤ py ∧ py < LOGIN_BY + SHADOW + LOGIN_BH

theorem login_target : Target LOGIN_FW LOGIN_FW LOGIN_FH :=
  ⟨by decide, by decide, by decide, by decide⟩

/-- Of a text of up to 22 characters everything lies in the box. -/
theorem linePixel_inBox {font : Font} {t : Text} (ht : t.length ≤ 22) {px py : Int}
    (h : LinePixel font t px py) : InBox px py := by
  obtain ⟨hchar, hrow, -⟩ := h
  unfold LOGIN_BX SHADOW UI_SCALE at hchar
  unfold LOGIN_BY SHADOW UI_SCALE at hrow
  unfold InBox LOGIN_BX LOGIN_BY SHADOW LOGIN_BW LOGIN_BH
  omega

theorem clearBox_cells :
    Draws (Cells LOGIN_FW LOGIN_FH fun px py v => v = 0x00101010 ∧ InBox px py) clearBox := by
  unfold clearBox
  exact fillRectC_cells login_target _ _ _ _ _

theorem drawLine_cells (font : Font) (t : Text) :
    Draws (Cells LOGIN_FW LOGIN_FH fun px py v => v = 0x00FFFFFF ∧ LinePixel font t px py)
      (drawLine font t) := by
  unfold drawLine
  exact putStrCs_cells login_target font _ _ t _ (by decide)

/-- What the buffer shows when `text` was drawn last and `Shown` are the texts drawn: the box shows
`text` alone, and beside it every text drawn has left its pixels. -/
structure BoxPicture (font : Font) (Shown : Text → Prop) (text : Text) (base fb : Buffer) : Prop where
  shown : ∀ px py, Visible LOGIN_FW LOGIN_FH px py → LinePixel font text px py →
    fb (py * LOGIN_FW + px) = 0x00FFFFFF
  box : ∀ px py, Visible LOGIN_FW LOGIN_FH px py → ¬ LinePixel font text px py → InBox px py →
    fb (py * LOGIN_FW + px) = 0x00101010
  left : ∀ px py, Visible LOGIN_FW LOGIN_FH px py → ¬ InBox px py →
    (∃ t, Shown t ∧ LinePixel font t px py) → fb (py * LOGIN_FW + px) = 0x00FFFFFF
  kept : ∀ px py, Visible LOGIN_FW LOGIN_FH px py → ¬ InBox px py →
    (∀ t, Shown t → ¬ LinePixel font t px py) → fb (py * LOGIN_FW + px) = base (py * LOGIN_FW + px)
  beside : ∀ i, (∀ px py, Visible LOGIN_FW LOGIN_FH px py → i ≠ py * LOGIN_FW + px) → fb i = base i

theorem redraws_picture (font : Font) (ts : List Text) (text : Text) (base : Buffer) :
    BoxPicture font (· ∈ ts ++ [text]) text base
      (redraws clearBox (drawLine font) (ts ++ [text]) base) := by
  have hclear : ∀ {px py : Int}, Visible LOGIN_FW LOGIN_FH px py → ¬ InBox px py → ∀ v : Pixel,
      ¬ Cells LOGIN_FW LOGIN_FH (fun px py v => v = 0x00101010 ∧ InBox px py)
        (py * LOGIN_FW + px) v :=
    fun hp hout v hv => hout ((cells_at hp v).mp hv).2
  constructor
  · intro px py hp ht
    rw [redraws_concat]
    exact drawn_at (drawLine_cells font text) hp ⟨rfl, ht⟩ _
  · intro px py hp ht hin
    rw [redraws_concat, kept_at (drawLine_cells font text) hp fun v hv => ht hv.2]
    exact drawn_at clearBox_cells hp ⟨rfl, hin⟩ _
  · rintro px py hp hout ⟨t, ht, hpixel⟩
    refine redraws_left clearBox_cells (drawLine_cells font) (hclear hp hout) (fun u _ w hw => ?_) ht
      ((cells_at hp _).mpr ⟨rfl, hpixel⟩) base
    exact ((cells_at hp w).mp hw).1
  · intro px py hp hout hno
    exact redraws_kept clearBox_cells (drawLine_cells font) (hclear hp hout)
      (fun t ht w hw => hno t ht ((cells_at hp w).mp hw).2) base
  · intro i hi
    refine redraws_kept clearBox_cells (drawLine_cells font) ?_ ?_ base
    · rintro v ⟨px, py, hp, -, heq⟩
      exact hi px py hp heq
    · rintro t - v ⟨px, py, hp, -, heq⟩
      exact hi px py hp heq

section Main

variable {font : Font} {desk : Desk} {buf : Nat → Nat} {base fb : Buffer} {polls : List Poll}
  {st : LoopState}

/-- After any keys the box shows the current text and nothing of earlier ones; outside the box
every text typed so far has left what of it lies there. The picture is that of the current text
alone exactly if there is nothing of this kind, as when no text was longer than 22 characters. -/
theorem login_picture
    (h : PictureRun font desk { loopStart with loginBuf := buf } base polls st fb) :
    BoxPicture font (Typed polls) (Editor.after polls).line base fb ∧
    (fb = drawLine font (Editor.after polls).line (clearBox base) ↔
      ∀ px py, Visible LOGIN_FW LOGIN_FH px py → ¬ InBox px py → ∀ t, Typed polls t →
        LinePixel font t px py → LinePixel font (Editor.after polls).line px py ∨
          base (py * LOGIN_FW + px) = 0x00FFFFFF) ∧
    ((∀ t, Typed polls t → t.length ≤ 22) →
      fb = drawLine font (Editor.after polls).line (clearBox base)) := by
  obtain ⟨-, ts, hfb, hts⟩ := h.redraws
  have hall : BoxPicture font (Typed polls) (Editor.after polls).line base fb := by
    have hpicture := redraws_picture font ts (Editor.after polls).line base
    rwa [← hfb, show (· ∈ ts ++ [(Editor.after polls).line]) = Typed polls from
      funext fun t => propext (hts t)] at hpicture
  have hone := redraws_picture font [] (Editor.after polls).line base
  rw [redraws_concat, Drawing.redraws, List.foldl_nil] at hone
  have hbare : ∀ px py, ¬ LinePixel font (Editor.after polls).line px py →
      ∀ t, t ∈ [] ++ [(Editor.after polls).line] → ¬ LinePixel font t px py := by
    intro px py hno t ht
    rw [List.nil_append, List.mem_singleton] at ht
    rwa [ht]
  have hclean : fb = drawLine font (Editor.after polls).line (clearBox base) ↔
      ∀ px py, Visible LOGIN_FW LOGIN_FH px py → ¬ InBox px py → ∀ t, Typed polls t →
        LinePixel font t px py → LinePixel font (Editor.after polls).line px py ∨
          base (py * LOGIN_FW + px) = 0x00FFFFFF := by
    constructor
    · intro heq px py hp hout t ht hpixel
      by_cases hnow : LinePixel font (Editor.after polls).line px py
      · exact .inl hnow
      · refine .inr ?_
        rw [← hone.kept px py hp hout (hbare px py hnow), ← heq]
        exact hall.left px py hp hout ⟨t, ht, hpixel⟩
    · intro hleft
      funext i
      by_cases hi : ∃ px py, Visible LOGIN_FW LOGIN_FH px py ∧ i = py * LOGIN_FW + px
      · obtain ⟨px, py, hp, rfl⟩ := hi
        by_cases hnow : LinePixel font (Editor.after polls).line px py
        · rw [hall.shown px py hp hnow, hone.shown px py hp hnow]
        · by_cases hin : InBox px py
          · rw [hall.box px py hp hnow hin, hone.box px py hp hnow hin]
          · rw [hone.kept px py hp hin (hbare px py hnow)]
            by_cases hold : ∃ t, Typed polls t ∧ LinePixel font t px py
            · obtain ⟨t, ht, hpixel⟩ := hold
              rw [hall.left px py hp hin ⟨t, ht, hpixel⟩]
              exact ((hleft px py hp hin t ht hpixel).resolve_left hnow).symm
            · exact hall.kept px py hp hin fun t ht hpixel => hold ⟨t, ht, hpixel⟩
      · have hno : ∀ px py, Visible LOGIN_FW LOGIN_FH px py → i ≠ py * LOGIN_FW + px :=
          fun px py hp heq => hi ⟨px, py, hp, heq⟩
        rw [hall.beside i hno, hone.beside i hno]
  refine ⟨hall, hclean, fun hshort => hclean.mpr fun px py _ hout t ht hpixel => ?_⟩
  exact absurd (linePixel_inBox (hshort t ht) hpixel) hout

end Main

/-- The letter A in a font of blocks. -/
theorem login_picture_letter : ∃ st fb, PictureRun (fun _ _ => 0xFF) startDesk
      { loopStart with loginBuf := fun _ => 0 } (fun _ => 0) [⟨0, some 0x1E⟩] st fb ∧
    BoxPicture (fun _ _ => 0xFF) (Typed [⟨0, some 0x1E⟩]) (Editor.after [⟨0, some 0x1E⟩]).line
      (fun _ => 0) fb :=
  have hrun := PictureRun.iterate (@PictureRun.enter (fun _ _ => 0xFF) startDesk
    { loopStart with loginBuf := fun _ => 0 } fun _ => 0) ⟨0, some 0x1E⟩ rfl
  ⟨_, _, hrun, (login_picture hrun).1⟩

end WinDOS
