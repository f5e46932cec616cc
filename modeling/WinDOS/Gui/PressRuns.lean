import WinDOS.Gui.MapRuns
import WinDOS.Gui.Mouse

/-!
# Presses that act again

Unless its first packet starts a drag, a press stays in normal mode: the pointer can be taken
to the buttons of the task bar with the button held, and acts there if it has not acted on the
way. Only when the last window has been closed is there nothing left to act on.
-/

set_option autoImplicit false

namespace WinDOS

open Shtctl Gui

/-- The packet as the handler gets it from the decoder. -/
def Packet.toEvent (p : Packet) : Event := .packet p.event.1.toNat p.event.2.1 p.event.2.2

/-- A packet that a mouse sends with the left button held. -/
def Event.HeldPacket (e : Event) : Prop := ∃ p : Packet, e = p.toEvent ∧ e.held = true

/-! ### The task bar -/

section Reachable

variable {font : Font} {b : StartUp} {g : Gui}

/-- What the click on the task bar looks at. -/
structure Gui.Bar (b : StartUp) (g : Gui) : Prop where
  vr2 : g.vr2 = b.vr
  titles : ∀ w ∈ g.slots, w.2 ≠ none

theorem Gui.Bar.run (h : g.Bar b) (hg : Reachable font b g) {e : Event} :
    Gui.Bar b (e.run font g) := by
  cases he : e.freed g with
  | none =>
    have hk : Keeps g (e.run font g) := hg.inv.run_keeps he
    exact ⟨hk.vr2.trans h.vr2, fun w hw => h.titles w (hk.slots ▸ hw)⟩
  | some s =>
    have hf : Frees s g (e.run font g) := run_frees he
    exact ⟨hf.vr2.trans h.vr2, fun w hw => h.titles w (hf.slots w hw)⟩

theorem Reachable.bar_globals (h : Reachable font b g) : g.Bar b := by
  induction h with
  | start h =>
    obtain ⟨ctl, hstart, -⟩ := startSheets_opened b
    unfold startUp at h
    rw [hstart] at h
    obtain rfl := Option.some.inj h
    refine ⟨rfl, fun w hw => ?_⟩
    change w ∈ [(some (1 : Sid), some titleWin), (some 3, some titleLogin)] at hw
    rcases List.mem_pair.mp hw with rfl | rfl
    · exact Option.some_ne_none _
    · exact Option.some_ne_none _
  | step hg e ok ih => exact ih.run hg

/-- The pointer is on a row of the task bar and in the columns of the first button. -/
structure Gui.OnFirstButton (b : StartUp) (g : Gui) : Prop where
  row : b.vr - 40 ≤ g.my
  column : 8 ≤ g.mx ∧ g.mx < 148

/-- As long as there is a window its button can be clicked. -/
theorem Reachable.first_button_acts (h : Reachable font b g) (hon : g.OnFirstButton b)
    (hslots : g.slots ≠ []) : g.pressAct ≠ none := by
  obtain ⟨⟨-, hysize⟩, -⟩ := h.onScreen
  obtain ⟨hvr2, htitles⟩ := h.bar_globals
  have hlen : 0 < g.wins.length := by
    refine List.length_pos_iff.mpr fun hnil => hslots ?_
    unfold Gui.slots
    rw [hnil, List.map_nil]
  have htitle : (g.wins[0].title).isSome = true :=
    Option.isSome_iff_ne_none.mpr (htitles _ (List.mem_map_of_mem (List.getElem_mem hlen)))
  obtain ⟨s, hsht, -⟩ := h.inv.slots g.wins[0] (List.getElem_mem hlen)
  have hbutton : g.buttonAt g.mx = some 0 := by
    have hcolumn := hon.column
    refine List.find?_range_eq_some.mpr ⟨?_, List.mem_range.mpr hlen,
      fun j hj => absurd hj (Nat.not_lt_zero j)⟩
    rw [List.getElem?_eq_getElem hlen]
    simp [htitle, hcolumn.1]
    omega
  have hrow := hon.row
  unfold Gui.pressAct Gui.taskbarAct
  rw [if_pos (by omega), if_neg (by rw [h.mapped.backfb, hvr2]; simp; omega), hbutton,
    Option.bind_some, List.getElem?_eq_getElem hlen, Option.bind_some, hsht]
  exact Option.some_ne_none _

end Reachable

/-! ### Packets that lead to an action -/

/-- Packets with the button held lead to one that acts. -/
inductive ActsLater (font : Font) : Gui → Prop where
  | now {g : Gui} (h : g.pressAct ≠ none) : ActsLater font g
  | next {g : Gui} (p : Packet) (held : p.toEvent.held = true) (idle : g.pressAct = none)
      (h : ActsLater font (p.toEvent.run font g)) : ActsLater font g

def stillPacket : Packet := ⟨0x09, 0x00, 0x00, leftClick.valid⟩
def rightPacket : Packet := ⟨0x09, 0x08, 0x00, leftClick.valid⟩
def leftPacket : Packet := ⟨0x19, 0x74, 0x00, by decide⟩
def downPacket : Packet := ⟨0x29, 0x00, 0x01, by decide⟩

/-- The first packet of a press starts a drag, or no window is open but the one it closes. -/
def Gui.SettlesPress (g : Gui) : Prop :=
  (∃ s, g.pressAct = some (.dragStart s)) ∨
    ∀ slot ∈ g.wins, ∃ s, slot.sht = some s ∧ g.pressAct = some (.close s)

/-- In normal mode, with a window open. -/
structure Gui.Idle (font : Font) (b : StartUp) (g : Gui) : Prop where
  reachable : Reachable font b g
  normal : g.mmx < 0
  window : g.slots ≠ []

section Steer

variable {font : Font} {b : StartUp} {g : Gui}

theorem Packet.act_eq {p : Packet} (held : p.toEvent.held = true) (hmode : g.mmx < 0) :
    p.toEvent.act g = g.pressAct := if_pos ⟨held, hmode⟩

theorem Packet.normal {p : Packet} (held : p.toEvent.held = true) (hmode : g.mmx < 0)
    (hnone : g.pressAct = none) : (p.toEvent.run font g).mmx < 0 := by
  change (g.isr2cPacket font _ _ _).mmx < 0
  rw [packet_held font g held, if_pos hmode]
  exact press_normal font g hmode fun s hs => nomatch hnone.symm.trans hs

/-- No window is opened or closed by a packet that does not act. -/
theorem Gui.Idle.step (h : g.Idle font b) (hnone : g.pressAct = none) {p : Packet}
    (held : p.toEvent.held = true) : Gui.Idle font b (p.toEvent.run font g) := by
  have hfreed : p.toEvent.freed g = none := by
    refine Option.eq_none_iff_forall_ne_some.mpr fun s hs => ?_
    exact nomatch ((p.act_eq held h.normal).trans hnone).symm.trans (Event.freed_packet.mp hs)
  have hk : Keeps g (p.toEvent.run font g) := h.reachable.inv.run_keeps hfreed
  exact ⟨h.reachable.step p.toEvent trivial, p.normal held h.normal hnone, hk.slots ▸ h.window⟩

/-- It is enough to get on from a state whose packets do not act. -/
theorem Gui.Idle.acts_of_step (h : g.Idle font b) (p : Packet) (held : p.toEvent.held = true)
    (hnext : Gui.Idle font b (p.toEvent.run font g) → ActsLater font (p.toEvent.run font g)) :
    ActsLater font g := by
  by_cases hnone : g.pressAct = none
  · exact .next p held hnone (hnext (h.step hnone held))
  · exact .now hnone

/-- Where a packet takes the pointer. -/
theorem Reachable.packet_place (h : Reachable font b g) (p : Packet) :
    (p.toEvent.run font g).mx = pointerStep b.hr g.mx p.event.2.1 ∧
      (p.toEvent.run font g).my = pointerStep b.vr g.my p.event.2.2 := by
  obtain ⟨⟨hx, hy⟩, -⟩ := h.onScreen
  obtain ⟨hmx, hmy, -⟩ := isr2cPacket_place font g p.event.1.toNat p.event.2.1 p.event.2.2
  rw [hx] at hmx
  rw [hy] at hmy
  exact ⟨hmx, hmy⟩

/-- Along the task bar to its first button: to the left in steps of 140, at the end by 8 to the
right. -/
theorem Gui.Idle.acts_from_bar (hr : 9 ≤ b.hr) (h : g.Idle font b) (hrow : b.vr - 40 ≤ g.my) :
    ActsLater font g := by
  induction hn : g.mx.toNat using Nat.strongRecOn generalizing g with
  | ind n ih =>
    obtain ⟨-, hmx, -⟩ := h.reachable.onScreen
    specialize hmx (by omega)
    have hrows : ∀ {d : Int}, d = 0 → b.vr - 40 ≤ pointerStep b.vr g.my d := by
      rintro d rfl
      rw [pointerStep_eq]
      split <;> omega
    by_cases hleft : 148 ≤ g.mx
    · refine h.acts_of_step leftPacket (by decide) fun hnext => ?_
      obtain ⟨hx, hy⟩ := h.reachable.packet_place leftPacket
      have hstep : pointerStep b.hr g.mx leftPacket.event.2.1 = g.mx - 140 := by
        rw [show leftPacket.event.2.1 = -140 by decide, pointerStep_eq, if_neg (by
          change ¬ max 0 (g.mx + -140) > b.hr - 32
          omega)]
        omega
      refine ih _ ?_ hnext (hy ▸ hrows (by decide)) rfl
      rw [hx, hstep]
      omega
    · by_cases hright : g.mx < 8
      · refine h.acts_of_step rightPacket (by decide) fun hnext => .now ?_
        obtain ⟨hx, hy⟩ := h.reachable.packet_place rightPacket
        refine hnext.reachable.first_button_acts ⟨hy ▸ hrows (by decide), ?_⟩ hnext.window
        rw [hx, show rightPacket.event.2.1 = 8 by decide, pointerStep_eq]
        have hcur : CUR_H = 32 := by decide
        split <;> omega
      · exact .now (h.reachable.first_button_acts ⟨hrow, by omega⟩ h.window)

/-- From anywhere: down to the task bar first. -/
theorem Gui.Idle.acts_later (hr : 9 ≤ b.hr) (h : g.Idle font b) : ActsLater font g := by
  induction hn : (b.vr - 40 - g.my).toNat using Nat.strongRecOn generalizing g with
  | ind n ih =>
    by_cases hrow : b.vr - 40 ≤ g.my
    · exact h.acts_from_bar hr hrow
    · refine h.acts_of_step downPacket (by decide) fun hnext => ih _ ?_ hnext rfl
      rw [(h.reachable.packet_place downPacket).2, show downPacket.event.2.2 = 255 by decide,
        pointerStep_eq]
      have hcur : CUR_H = 32 := by decide
      split <;> omega

end Steer

/-! ### Presses -/

section Press

variable {font : Font} {b : StartUp} {tr rest : List (Gui × Event)} {g g' : Gui} {btn : Nat}
  {dx dy : Int}

theorem Run.append_acts (h : Run font b tr g) (hmode : g.mmx < 0) (hacts : ActsLater font g) :
    ∃ rest g', Run font b (tr ++ rest) g' ∧ (∀ q ∈ rest, q.2.HeldPacket) ∧
      ∃ q ∈ rest, q.2.act q.1 ≠ none := by
  induction hacts generalizing tr with
  | @now g hact =>
    refine ⟨[(g, stillPacket.toEvent)], _, h.step stillPacket.toEvent trivial, fun q hq => ?_,
      _, List.mem_singleton_self _, ?_⟩
    · rw [List.mem_singleton.mp hq]
      exact ⟨stillPacket, rfl, rfl⟩
    · exact (Packet.act_eq rfl hmode).trans_ne hact
  | next p held idle _ ih =>
    obtain ⟨rest, g', hrun, hheld, q, hq, hact⟩ :=
      ih (h.step p.toEvent trivial) (p.normal held hmode idle)
    rw [List.append_assoc] at hrun
    refine ⟨_, g', hrun, fun q' hq' => ?_, q, List.mem_cons_of_mem _ hq, hact⟩
    rcases List.mem_cons.mp hq' with rfl | hq'
    · exact ⟨p, rfl, held⟩
    · exact hheld q' hq'

/-- Without windows there is nothing to act on. -/
theorem Reachable.nothing_acts (h : Reachable font b g) (hslots : g.slots = []) :
    g.pressAct = none := by
  have hwins : g.wins = [] := List.map_eq_nil_iff.mp hslots
  have hhit : g.hitHeight = none := by
    cases hhit : g.hitHeight with
    | none => rfl
    | some j =>
      obtain ⟨h0, h1, hcur⟩ := h.inv.hit_between hhit
      have hmem : g.ctl.sheets j ∈ g.ctl.layers := mem_layers.mpr ⟨j, by omega, h1, rfl⟩
      rcases h.inv.shown _ hmem with hs | hs | hs
      · exact absurd hs (h.inv.sheets_ne_back h0 h1)
      · exact absurd hs hcur
      · rw [hwins] at hs
        exact absurd hs List.not_mem_nil
  have hbutton : g.buttonAt g.mx = none := by
    unfold Gui.buttonAt
    rw [hwins]
    rfl
  unfold Gui.pressAct Gui.taskbarAct
  rw [hhit, hbutton]
  split
  · split <;> rfl
  · rfl

theorem Reachable.act_none (h : Reachable font b g) (hslots : g.slots = []) (e : Event) :
    e.act g = none := by
  cases e with
  | packet btn dx dy =>
    change g.packetAct btn = none
    unfold Gui.packetAct
    split
    · exact h.nothing_acts hslots
    · rfl
  | _ => rfl

/-- No event opens a window. -/
theorem Reachable.run_slots (h : Reachable font b g) (e : Event) :
    ∀ w ∈ (e.run font g).slots, w ∈ g.slots := by
  cases he : e.freed g with
  | none =>
    have hk : Keeps g (e.run font g) := h.inv.run_keeps he
    exact fun w hw => hk.slots ▸ hw
  | some s => exact (run_frees he).slots

theorem Run.no_windows {p : Gui × Event} (h : Run font b (tr ++ p :: rest) g')
    (hslots : (p.2.run font p.1).slots = []) :
    g'.slots = [] ∧ ∀ q ∈ rest, q.2.act q.1 = none := by
  induction rest using List.reverseRecOn generalizing g' with
  | nil =>
    obtain ⟨-, -, rfl⟩ := h.last
    exact ⟨hslots, fun _ hq => absurd hq List.not_mem_nil⟩
  | append_singleton rest q ih =>
    rw [← List.cons_append, ← List.append_assoc] at h
    obtain ⟨hrun, -, rfl⟩ := h.last
    obtain ⟨hnil, hrest⟩ := ih hrun
    refine ⟨List.eq_nil_iff_forall_not_mem.mpr fun w hw => ?_, fun q' hq' => ?_⟩
    · have hin := hrun.reachable.run_slots q.2 w hw
      rw [hnil] at hin
      exact absurd hin List.not_mem_nil
    · rcases List.mem_append.mp hq' with hq' | hq'
      · exact hrest q' hq'
      · rw [List.mem_singleton.mp hq']
        exact hrun.reachable.act_none hnil q.2

/-- The windows the first packet leaves: those open before but the one it closes. -/
theorem Reachable.all_closed_iff (h : Reachable font b g) (hmode : g.mmx < 0)
    (hbtn : btn.testBit 0 = true) : (g.isr2cPacket font btn dx dy).slots = [] ↔
      ∀ slot ∈ g.wins, ∃ s, slot.sht = some s ∧ g.pressAct = some (.close s) := by
  have h' : Reachable font b (g.isr2cPacket font btn dx dy) := h.step (.packet btn dx dy) trivial
  have hact : g.packetAct btn = g.pressAct := if_pos ⟨hbtn, hmode⟩
  constructor
  · intro hnil slot hslot
    cases he : (Event.packet btn dx dy).freed g with
    | none =>
      have hk : Keeps g (g.isr2cPacket font btn dx dy) := h.inv.run_keeps he
      have hin : (slot.sht, slot.title) ∈ g.slots := List.mem_map_of_mem hslot
      rw [← hk.slots, hnil] at hin
      exact absurd hin List.not_mem_nil
    | some s =>
      have hf : Frees s g (g.isr2cPacket font btn dx dy) := run_frees he
      refine ⟨s, ?_, hact ▸ Event.freed_packet.mp he⟩
      by_contra hne
      have hin := hf.others _ (List.mem_map_of_mem hslot) hne
      rw [hnil] at hin
      exact absurd hin List.not_mem_nil
  · intro hall
    refine List.eq_nil_iff_forall_not_mem.mpr fun w hw => ?_
    obtain ⟨slot, hslot, rfl⟩ := List.mem_map.mp (h.run_slots (.packet btn dx dy) w hw)
    obtain ⟨s, hs, hclose⟩ := hall slot hslot
    have hf : Frees s g (g.isr2cPacket font btn dx dy) :=
      run_frees (Event.freed_packet.mpr (hact.trans hclose))
    -- the sheet of a slot is in use, the one that was closed is not
    obtain ⟨slot', hslot', heq⟩ := List.mem_map.mp hw
    obtain ⟨t, ht, huse, -⟩ := h'.inv.slots slot' hslot'
    obtain rfl : s = t := by
      have hsht := congrArg Prod.fst heq
      exact Option.some.inj (hs.symm.trans (hsht.symm.trans ht))
    unfold Shtctl.inUse at huse
    rw [hf.flags, if_pos rfl] at huse
    exact huse rfl

/-- A press acts once, however it goes on, if its first packet starts a drag or closes the last
window. In every other case there are packets of the mouse that make it act again, once the screen
reaches to the first button of the task bar. -/
theorem press_acts_once_iff (hscreen : 0 < b.hr) (h : Run font b tr g) (hrel : Released tr)
    (hbtn : btn.testBit 0 = true) :
    (g.SettlesPress → ∀ rest g', Run font b (tr ++ (g, .packet btn dx dy) :: rest) g' →
      (∀ q ∈ rest, q.2.held = true) → ActsOnce (g, .packet btn dx dy) rest) ∧
    (9 ≤ b.hr → ¬ g.SettlesPress → ∃ rest g',
      Run font b (tr ++ (g, .packet btn dx dy) :: rest) g' ∧
      (∀ q ∈ rest, q.2.HeldPacket) ∧ ¬ ActsOnce (g, .packet btn dx dy) rest) := by
  have hmode := h.normal hrel
  have hclosed := @Reachable.all_closed_iff font b g btn dx dy h.reachable hmode hbtn
  constructor
  · intro hsettles rest g' hrun hheld
    apply actsOnce_iff.mpr
    rcases hsettles with ⟨s, hact⟩ | hall
    · exact (hrun.dragged hscreen hmode hbtn hheld hact).2
    · exact (hrun.no_windows (hclosed.mpr hall)).2
  · intro hr hno
    unfold Gui.SettlesPress at hno
    rw [← hclosed] at hno
    push Not at hno
    obtain ⟨hdrag, hwindow⟩ := hno
    have hstep := h.step (.packet btn dx dy) trivial
    have hidle : Gui.Idle font b (g.isr2cPacket font btn dx dy) := by
      refine ⟨hstep.reachable, ?_, hwindow⟩
      rw [packet_held font g hbtn, if_pos hmode]
      exact press_normal font g hmode hdrag
    obtain ⟨rest, g', hrun, hheld, q, hq, hact⟩ := hstep.append_acts hidle.normal
      (hidle.acts_later hr)
    rw [List.append_assoc] at hrun
    exact ⟨rest, g', hrun, hheld, fun honce => hact (honce.1 q hq)⟩

end Press

theorem released_concat {tr : List (Gui × Event)} {p : Gui × Event} (hp : p.2.isPacket = true)
    (hheld : p.2.held = false) : Released (tr ++ [p]) := by
  intro past q rest heq hq hrest
  induction rest using List.reverseRecOn with
  | nil =>
    obtain ⟨-, hpq⟩ := List.append_inj' heq rfl
    rwa [← List.singleton_inj.mp hpq]
  | append_singleton rest r _ =>
    rw [← List.cons_append, ← List.append_assoc] at heq
    obtain ⟨-, hpr⟩ := List.append_inj' heq rfl
    have hr := hrest r (List.mem_append_right _ List.mem_cons_self)
    rw [← List.singleton_inj.mp hpr, hp] at hr
    exact Bool.noConfusion hr

theorem released_barPresses {g : Gui} : Released
    ([(g, .packet 0 (-175) 145)] ++
      [(g.isr2cPacket (fun _ _ => 0) 0 (-175) 145, .packet 0 (-175) 145)]) :=
  released_concat rfl rfl

/-- A press on the first button of the task bar does not settle, and goes on to act again. -/
theorem taskbar_press_blankStart : ∃ tr g, Run (fun _ _ => 0) blankStart tr g ∧
    tr.map Prod.snd = [.packet 0 (-175) 145, .packet 0 (-175) 145] ∧
    ∃ rest g', Run (fun _ _ => 0) blankStart (tr ++ (g, .packet 1 1 0) :: rest) g' ∧
      (∀ q ∈ rest, q.2.HeldPacket) ∧ ¬ ActsOnce (g, .packet 1 1 0) rest := by
  obtain ⟨g, hg, -⟩ := startUp_inv (fun _ _ => 0) blankStart
  have hrun := Run.step (.step (.start hg) (.packet 0 (-175) 145) trivial)
    (.packet 0 (-175) 145) trivial
  refine ⟨_, _, hrun, rfl, (press_acts_once_iff (by decide) hrun released_barPresses rfl).2
    (by decide) ?_⟩
  have hact : ((startUp (fun _ _ => 0) blankStart).map fun g =>
      let g := (g.isr2cPacket (fun _ _ => 0) 0 (-175) 145).isr2cPacket (fun _ _ => 0) 0 (-175) 145
      (g.pressAct, g.wins.length)) = some (some (.toggle 0), 2) := by decide +kernel
  rw [hg] at hact
  obtain ⟨hact, hlen⟩ := Prod.mk.inj (Option.some.inj hact)
  rintro (⟨s, hs⟩ | hall)
  · exact nomatch hact.symm.trans hs
  · obtain ⟨slot, hslot⟩ := List.exists_mem_of_length_pos (hlen ▸ Nat.zero_lt_two)
    obtain ⟨s, -, hs⟩ := hall slot hslot
    exact nomatch hact.symm.trans hs

/-- Both packets toggle the first window: it is minimised and restored. -/
theorem taskbar_press_acts_twice : ∃ tr rest g g', Run (fun _ _ => 0) blankStart
      (tr ++ (g, .packet 1 1 0) :: rest) g' ∧ Released tr ∧
    tr.map Prod.snd = [.packet 0 (-175) 145, .packet 0 (-175) 145] ∧
    rest.map Prod.snd = [.packet 1 0 0] ∧ ¬ ActsOnce (g, .packet 1 1 0) rest := by
  obtain ⟨g, hg, -⟩ := startUp_inv (fun _ _ => 0) blankStart
  have hrun := Run.step (.step (.step (.step (.start hg) (.packet 0 (-175) 145) trivial)
    (.packet 0 (-175) 145) trivial) (.packet 1 1 0) trivial) (.packet 1 0 0) trivial
  rw [List.append_assoc] at hrun
  refine ⟨_, [_], _, _, hrun, released_barPresses, rfl, rfl, fun honce => ?_⟩
  have hsecond := honce.1 _ List.mem_cons_self
  have hacts : ((startUp (fun _ _ => 0) blankStart).map fun g =>
      (((g.isr2cPacket (fun _ _ => 0) 0 (-175) 145).isr2cPacket (fun _ _ => 0) 0
        (-175) 145).isr2cPacket (fun _ _ => 0) 1 1 0).packetAct 1) =
      some (some (.toggle 0)) := by decide +kernel
  rw [hg] at hacts
  exact nomatch hsecond.symm.trans (Option.some.inj hacts)

end WinDOS
