import WinDOS.Gui.MainLoop

/-!
# What is typed at the login

The login input keeps a buffer and a length; the bytes behind the length are those of earlier
keys. `Editor` is the same input as a line of text with two Shift keys and Caps Lock, and the
main loop follows it scancode by scancode until Enter leaves the loop.
-/

set_option autoImplicit false

namespace WinDOS

/-- The modifier keys, and the text typed so far. -/
structure Editor where
  left : Bool
  right : Bool
  caps : Bool
  text : List Nat

namespace Editor

def start : Editor := ⟨false, false, false, []⟩

def shift (e : Editor) : Bool := e.left || e.right

/-- The character of a make code, 0 where the table has none. -/
def typed (e : Editor) (d : Nat) : Nat :=
  let c := (if e.shift then keytable1 else keytable0).getD d 0
  if (0x41 ≤ c ∧ c ≤ 0x5A) ∧ (e.shift ^^ e.caps) = false then c + 0x20 else c

def edit (text : List Nat) (c : Nat) : List Nat :=
  if c = 0x08 then text.dropLast
  else if 0x20 ≤ c ∧ text.length < 31 then text ++ [c]
  else text

/-- A scancode; the character is looked up before the modifiers change. -/
def press (e : Editor) (d : Nat) : Editor where
  left := if d = 0x2A then true else if d = 0xAA then false else e.left
  right := if d = 0x36 then true else if d = 0xB6 then false else e.right
  caps := if d = 0x3A then !e.caps else e.caps
  text := if d < 0x80 then edit e.text (e.typed d) else e.text

theorem press_f1 (e : Editor) : e.press 0x3B = e := by
  have htyped : e.typed 0x3B = 0 := by
    unfold typed
    cases e.shift <;> rfl
  unfold press
  rw [htyped]
  rfl

/-- Of the state only shift and caps lock matter. -/
theorem typed_eq_modifiers (e : Editor) (d : Nat) :
    e.typed d = (⟨e.shift, false, e.caps, []⟩ : Editor).typed d := by
  unfold typed
  rw [show (⟨e.shift, false, e.caps, []⟩ : Editor).shift = e.shift from Bool.or_false _]

theorem typed_eq_enter {e : Editor} {d : Nat} (hd : d < 0x80) :
    e.typed d = 0x0A ↔ d = 0x1C := by
  have hall : ∀ s b : Bool, ∀ d < 0x80, (⟨s, false, b, []⟩ : Editor).typed d = 0x0A ↔ d = 0x1C := by
    decide +kernel
  rw [typed_eq_modifiers]
  exact hall e.shift e.caps d hd

theorem typed_lt (e : Editor) {d : Nat} (hd : d < 0x80) : e.typed d < 0x80 := by
  have hall : ∀ s b : Bool, ∀ d < 0x80, (⟨s, false, b, []⟩ : Editor).typed d < 0x80 := by
    decide +kernel
  rw [typed_eq_modifiers]
  exact hall e.shift e.caps d hd

theorem press_text_lt {e : Editor} (h : ∀ c ∈ e.text, c < 0x80) (d : Nat) :
    ∀ c ∈ (e.press d).text, c < 0x80 := by
  intro c hc
  unfold press edit at hc
  dsimp only at hc
  split at hc
  · rename_i hd
    split at hc
    · exact h c (List.mem_of_mem_dropLast hc)
    · split at hc
      · rcases List.mem_append.mp hc with hc | hc
        · exact h c hc
        · rw [List.mem_singleton.mp hc]
          exact e.typed_lt hd
      · exact h c hc
  · exact h c hc

theorem foldl_text_lt (ds : List Nat) :
    ∀ c ∈ (ds.foldl Editor.press .start).text, c < 0x80 := by
  induction ds using List.reverseRecOn with
  | nil => exact fun c hc => absurd hc List.not_mem_nil
  | append_singleton ds d ih =>
    rw [List.foldl_append]
    exact press_text_lt ih d

end Editor

def SYSDEBUG : List Nat := [0x53, 0x79, 0x73, 0x64, 0x65, 0x62, 0x75, 0x67]

/-- A byte written behind the text does not change it. -/
theorem map_range_update (buf : Nat → Nat) (n c : Nat) :
    (List.range n).map (Function.update buf n c) = (List.range n).map buf := by
  refine List.map_congr_left fun i hi => ?_
  have := List.mem_range.mp hi
  exact Function.update_of_ne (by omega) _ _

/-- `key_shift` with one bit for each Shift key. -/
def shiftBits (left right : Bool) : BitVec 32 :=
  (if left then 1 else 0) ||| (if right then 2 else 0)

theorem shiftBits_changed : ∀ l r : Bool, shiftBits l r ||| 1 = shiftBits true r ∧
    shiftBits l r ||| 2 = shiftBits l true ∧ shiftBits l r &&& ~~~1 = shiftBits false r ∧
    shiftBits l r &&& ~~~2 = shiftBits l false := by
  decide

/-- The loop has the editor's text in the first `login_len` bytes and its modifiers. -/
structure Shows (e : Editor) (st : LoopState) : Prop where
  shift : st.keyShift = shiftBits e.left e.right
  leds : st.keyLeds = if e.caps then 4 else 0
  length : st.loginLen = e.text.length
  short : e.text.length ≤ 31
  buffer : (List.range e.text.length).map st.loginBuf = e.text
  printable : ∀ c ∈ e.text, 0x20 ≤ c
  loggedIn : st.loggedIn = false

namespace Shows

variable {e : Editor} {st : LoopState}

theorem shift_iff (h : Shows e st) : st.keyShift = 0 ↔ e.shift = false := by
  have hzero : ∀ l r : Bool, shiftBits l r = 0 ↔ (l || r) = false := by decide
  rw [h.shift, Editor.shift, hzero]

theorem caps_iff (h : Shows e st) : st.keyLeds &&& 4 = 0 ↔ e.caps = false := by
  rw [h.leds]
  cases e.caps <;> decide

theorem keyChar (h : Shows e st) (d : Nat) : WinDOS.keyChar st d = e.typed d := by
  have hcase : (st.keyLeds &&& 4 = 0 ∧ st.keyShift = 0 ∨ st.keyLeds &&& 4 ≠ 0 ∧ st.keyShift ≠ 0) ↔
      (e.shift ^^ e.caps) = false := by
    rw [h.caps_iff, ne_eq, h.caps_iff, ne_eq, h.shift_iff]
    cases e.shift <;> cases e.caps <;> decide
  have htable : (if st.keyShift = 0 then keytable0 else keytable1) =
      if e.shift then keytable1 else keytable0 := by
    rw [if_congr h.shift_iff rfl rfl]
    cases e.shift <;> rfl
  unfold WinDOS.keyChar Editor.typed
  rw [htable]
  simp only [hcase, and_assoc]

theorem edit_right (h : Shows e st) (desk : Desk) {c : Nat} (hc : c ≠ 0x0A) :
    ∃ st', (loginKey desk st c).2 = some st' ∧
      Shows { e with text := Editor.edit e.text c } st' := by
  unfold loginKey Editor.edit
  rw [if_neg hc]
  refine ⟨_, rfl, ?_⟩
  by_cases hback : c = 0x08
  · rw [if_pos hback, if_pos hback]
    refine ⟨h.shift, h.leds, ?_, ?_, ?_, fun x hx => ?_, h.loggedIn⟩
    · rw [List.length_dropLast, ← h.length]
    · rw [List.length_dropLast]
      have := h.short
      omega
    · rw [List.length_dropLast]
      refine Eq.trans ?_ (congrArg List.dropLast h.buffer)
      rw [List.dropLast_eq_take, ← List.map_take, List.take_range, List.length_map,
        List.length_range, min_eq_left (Nat.sub_le _ _)]
    · exact h.printable x (List.mem_of_mem_dropLast hx)
  · rw [if_neg hback, if_neg hback, h.length]
    by_cases hadd : 0x20 ≤ c ∧ e.text.length < 31
    · rw [if_pos hadd, if_pos hadd]
      refine ⟨h.shift, h.leds, ?_, ?_, ?_, fun x hx => ?_, h.loggedIn⟩
      · rw [List.length_append, List.length_singleton]
      · rw [List.length_append, List.length_singleton]
        omega
      · rw [List.length_append, List.length_singleton, List.range_succ, List.map_append,
          map_range_update, h.buffer]
        exact congrArg (fun x => e.text ++ [x]) (Function.update_self _ _ _)
      · rcases List.mem_append.mp hx with hx | hx
        · exact h.printable x hx
        · rw [List.mem_singleton.mp hx]
          exact hadd.1
    · rw [if_neg hadd, if_neg hadd]
      exact h

theorem tracked_shift (h : Shows e st) (d : Nat) :
    (keyTracked st d).keyShift = shiftBits (e.press d).left (e.press d).right := by
  obtain ⟨hl, hr, hl', hr'⟩ := shiftBits_changed e.left e.right
  unfold keyTracked Editor.press
  dsimp only
  rw [h.shift]
  by_cases h1 : d = 0x2A
  · subst h1
    simpa using hl
  by_cases h2 : d = 0x36
  · subst h2
    simpa using hr
  by_cases h3 : d = 0xAA
  · subst h3
    simpa using hl'
  by_cases h4 : d = 0xB6
  · subst h4
    simpa using hr'
  rw [if_neg h1, if_neg h2, if_neg h3, if_neg h4, if_neg h1, if_neg h3, if_neg h2, if_neg h4]

theorem tracked_leds (h : Shows e st) (d : Nat) :
    (keyTracked st d).keyLeds = if (e.press d).caps then 4 else 0 := by
  unfold keyTracked Editor.press
  dsimp only
  rw [h.leds]
  by_cases hd : d = 0x3A
  · rw [if_pos hd, if_pos hd]
    cases e.caps <;> rfl
  · rw [if_neg hd, if_neg hd]

theorem tracked {d : Nat} (h : Shows { e with text := (e.press d).text } st) :
    Shows (e.press d) (keyTracked st d) :=
  ⟨h.tracked_shift d, h.tracked_leds d, h.length, h.short, h.buffer, h.printable, h.loggedIn⟩

theorem trackKey_right {d : Nat} (h : Shows { e with text := (e.press d).text } st)
    {st' : LoopState} (hst : (trackKey st d).2 = some st') : Shows (e.press d) st' := by
  unfold trackKey at hst
  dsimp only at hst
  split at hst
  · contradiction
  · rw [← Option.some.inj hst]
    exact h.tracked

theorem keyOps_right (h : Shows e st) (desk : Desk) {d : Nat} {st' : LoopState}
    (hst : (keyOps desk st d).2 = some st') : Shows (e.press d) st' := by
  unfold keyOps at hst
  by_cases hd : d < 0x80
  · rw [if_pos hd] at hst
    have htext : (e.press d).text = Editor.edit e.text (e.typed d) := if_pos hd
    by_cases hf : d = 0x3B
    · subst hf
      rw [if_pos rfl] at hst
      rw [← Option.some.inj hst, e.press_f1]
      exact h
    · rw [if_neg hf, if_neg (by simp [h.loggedIn]), h.keyChar] at hst
      by_cases hc : e.typed d = 0x0A
      · rw [hc] at hst
        contradiction
      · obtain ⟨s, hs, hshow⟩ := h.edit_right desk hc
        rw [← htext] at hshow
        cases hkey : loginKey desk st (e.typed d) with
        | mk ops r =>
          rw [hkey] at hs hst
          obtain rfl := hs
          exact trackKey_right hshow hst
  · rw [if_neg hd] at hst
    refine trackKey_right ?_ hst
    rw [show (e.press d).text = e.text from if_neg hd]
    exact h

theorem ticked (h : Shows e st) (ticks : Nat) : Shows e (clockTicked st ticks) := by
  unfold clockTicked
  split
  · exact ⟨h.shift, h.leds, h.length, h.short, h.buffer, h.printable, h.loggedIn⟩
  · exact h

theorem iteration_right (h : Shows e st) (desk : Desk) {p : Poll} {st' : LoopState}
    (hst : (iteration desk st p).2 = some st') : Shows (p.key.toList.foldl Editor.press e) st' := by
  unfold iteration at hst
  dsimp only at hst
  cases hkey : p.key with
  | none =>
    rw [hkey] at hst
    rw [← Option.some.inj hst]
    exact h.ticked p.ticks
  | some d =>
    rw [hkey] at hst
    exact (h.ticked p.ticks).keyOps_right desk hst

/-- With the NUL written by Enter the nine bytes compared are those of the text alone. -/
theorem ring_iff (h : Shows e st) :
    loginRing (Function.update st.loginBuf st.loginLen 0) = if e.text = SYSDEBUG then 1 else 3 := by
  generalize hbuf : Function.update st.loginBuf st.loginLen 0 = buf
  have hnul : buf e.text.length = 0 := by
    rw [← hbuf, h.length]
    exact Function.update_self _ _ _
  have htext : (List.range e.text.length).map buf = e.text := by
    rw [← hbuf, h.length, map_range_update, h.buffer]
  refine if_congr ⟨fun heq => ?_, fun heq => ?_⟩ rfl rfl
  · have hget : ∀ i < 9, buf i = (SYSDEBUG ++ [0]).getD i 0 := by
      intro i hi
      have := congrArg (fun l => l.getD i 0) heq
      simpa [List.getD_eq_getElem?_getD, hi, SYSDEBUG] using this
    have hends : ∀ i < 9, (SYSDEBUG ++ [0]).getD i 0 = 0 → i = 8 := by decide
    have hlen : e.text.length = 8 := by
      by_contra hne
      rcases Nat.lt_or_ge e.text.length 9 with hlt | hge
      · exact hne (hends _ hlt ((hget _ hlt).symm.trans hnul))
      · have hmem : buf 8 ∈ e.text := by
          rw [← htext]
          exact List.mem_map_of_mem (List.mem_range.mpr hge)
        have := h.printable _ hmem
        rw [hget 8 (by decide)] at this
        exact absurd this (by decide)
    rw [← htext, hlen]
    exact @List.append_inj_left' _ _ [buf 8] _ [0] heq rfl
  · have hlen : e.text.length = 8 := congrArg List.length heq
    rw [hlen] at htext hnul
    rw [List.range_succ, List.map_append, htext, heq, List.map_singleton, hnul]
    rfl

theorem enter_right (h : Shows e st) (desk : Desk) (ticks ring : Nat) :
    Op.jumpUser ring ∈ (iteration desk st ⟨ticks, some 0x1C⟩).1 ↔
      ring = if e.text = SYSDEBUG then 1 else 3 := by
  have ht := h.ticked ticks
  have hops : (keyOps desk (clockTicked st ticks) 0x1C).1 =
      (loginKey desk (clockTicked st ticks) 0x0A).1 := by
    unfold keyOps
    rw [if_pos (by decide), if_neg (by decide), if_neg (by simp [ht.loggedIn]), ht.keyChar,
      (Editor.typed_eq_enter (by decide)).mpr rfl]
    rfl
  have hclock : Op.jumpUser ring ∉ clockOps desk st ticks := by
    unfold clockOps
    split_ifs <;> simp
  unfold iteration
  dsimp only
  rw [hops, ← ht.ring_iff]
  simp [hclock, loginKey]

theorem leaves (h : Shows e st) (desk : Desk) {p : Poll} (hst : (iteration desk st p).2 = none) :
    p.key = some 0x1C ∨ Op.panic ∈ (iteration desk st p).1 := by
  have ht := h.ticked p.ticks
  have htrack : ∀ {s d}, (trackKey s d).2 = none → Op.panic ∈ (trackKey s d).1 := by
    intro s d hs
    unfold trackKey at hs ⊢
    dsimp only at hs ⊢
    split at hs
    · rename_i hhot
      rw [if_pos hhot]
      exact List.mem_append_right _ List.mem_cons_self
    · contradiction
  unfold iteration at hst ⊢
  dsimp only at hst ⊢
  cases hkey : p.key with
  | none =>
    rw [hkey] at hst
    contradiction
  | some d =>
    rw [hkey] at hst
    have hpanic : d = 0x1C ∨ Op.panic ∈ (keyOps desk (clockTicked st p.ticks) d).1 := by
      unfold keyOps at hst ⊢
      dsimp only at hst ⊢
      by_cases hd : d < 0x80
      · rw [if_pos hd] at hst ⊢
        by_cases hf : d = 0x3B
        · rw [if_pos hf] at hst
          contradiction
        · rw [if_neg hf, if_neg (by simp [ht.loggedIn]), ht.keyChar] at hst ⊢
          by_cases hc : e.typed d = 0x0A
          · exact .inl ((Editor.typed_eq_enter hd).mp hc)
          · obtain ⟨s, hs, -⟩ := ht.edit_right desk hc
            cases hlogin : loginKey desk (clockTicked st p.ticks) (e.typed d) with
            | mk ops r =>
              rw [hlogin] at hs hst
              obtain rfl := hs
              exact .inr (List.mem_append_right _ (htrack hst))
      · rw [if_neg hd] at hst ⊢
        exact .inr (htrack hst)
    refine hpanic.imp (fun h => congrArg some h) fun h => ?_
    exact List.mem_append_right _ (List.mem_cons_of_mem _ h)

end Shows

/-- The editor after the scancodes of the polls. -/
def Editor.after (polls : List Poll) : Editor :=
  (polls.flatMap fun p => p.key.toList).foldl Editor.press .start

theorem shows_start (buf : Nat → Nat) : Shows .start { loopStart with loginBuf := buf } where
  shift := rfl
  leds := rfl
  length := rfl
  short := Nat.zero_le 31
  buffer := rfl
  printable _ hc := absurd hc List.not_mem_nil
  loggedIn := rfl

section Login

variable {desk : Desk} {buf : Nat → Nat} {polls : List Poll} {ops : List Op} {st : LoopState}

theorem LoopRun.shows (h : LoopRun desk { loopStart with loginBuf := buf } polls ops (some st)) :
    Shows (Editor.after polls) st := by
  generalize hr : some st = r at h
  induction h generalizing st with
  | enter =>
    obtain rfl := Option.some.inj hr
    exact shows_start buf
  | @iterate polls ops st0 h p ih =>
    unfold Editor.after at ih ⊢
    rw [List.flatMap_append, List.foldl_append, List.flatMap_singleton]
    exact (ih rfl).iteration_right desk hr.symm

/-- Whatever the buffer holds at the start, the text is the one typed, and the ring is its. -/
theorem login_edits_text
    (h : LoopRun desk { loopStart with loginBuf := buf } polls ops (some st)) :
    (st.loginLen ≤ 31 ∧
      (List.range st.loginLen).map st.loginBuf = (Editor.after polls).text) ∧
    (∀ ticks ring, Op.jumpUser ring ∈ (iteration desk st ⟨ticks, some 0x1C⟩).1 ↔
      ring = if (Editor.after polls).text = SYSDEBUG then 1 else 3) ∧
    ∀ p, (iteration desk st p).2 = none →
      p.key = some 0x1C ∨ Op.panic ∈ (iteration desk st p).1 := by
  have hshow := h.shows
  refine ⟨?_, hshow.enter_right desk, fun p => hshow.leaves desk⟩
  rw [hshow.length]
  exact ⟨hshow.short, hshow.buffer⟩

end Login

theorem exists_loopRun {desk : Desk} {st0 st : LoopState} {polls : List Poll}
    (h : polls.foldlM (fun st p => (iteration desk st p).2) st0 = some st) :
    ∃ ops, LoopRun desk st0 polls ops (some st) := by
  induction polls using List.reverseRecOn generalizing st with
  | nil =>
    obtain rfl := Option.some.inj h
    exact ⟨[], .enter⟩
  | append_singleton polls p ih =>
    rw [List.foldlM_append] at h
    obtain ⟨st1, h1, h2⟩ := Option.bind_eq_some_iff.mp h
    obtain ⟨ops, hrun⟩ := ih h1
    have hlast : (iteration desk st1 p).2 = some st := by simpa using h2
    exact ⟨_, hlast ▸ hrun.iterate p⟩

/-- Shift, S and Backspace over a buffer that already holds the name. -/
theorem login_edits_text_stale : ∃ ops st, LoopRun startDesk
      { loopStart with loginBuf := fun i => SYSDEBUG.getD i 0 }
      [⟨0, some 0x2A⟩, ⟨0, some 0x1F⟩, ⟨0, some 0x0E⟩] ops (some st) ∧
    ∀ ring, Op.jumpUser ring ∈ (iteration startDesk st ⟨0, some 0x1C⟩).1 ↔ ring = 3 := by
  obtain ⟨st, hst⟩ : ∃ st, [⟨0, some 0x2A⟩, ⟨0, some 0x1F⟩, ⟨0, some 0x0E⟩].foldlM
      (fun st p => (iteration startDesk st p).2)
      { loopStart with loginBuf := fun i => SYSDEBUG.getD i 0 } = some st := ⟨_, rfl⟩
  obtain ⟨ops, hrun⟩ := exists_loopRun hst
  obtain ⟨-, hring, -⟩ := login_edits_text hrun
  exact ⟨ops, st, hrun, fun ring => hring 0 ring⟩

end WinDOS
