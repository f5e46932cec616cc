import WinDOS.Boot.Formats
import WinDOS.Boot.Start
import WinDOS.Fs.Store
import WinDOS.Gui.Keyboard

/-!
# The file that a login leaves on the volume

Enter formats the text of the login input and writes it to `Login.lgi`. From the bytes of the
keyboard to the file: the file holds what was typed, unless an earlier login has left one.
-/

set_option autoImplicit false

namespace WinDOS

open Bytes BoundedQueue WriteOnce

/-- The format of the login file. -/
def loginFormat : Text := ascii "\x7busername:%s\x7d"

/-- What the login file of a user holds. -/
def loginContent (name : List Nat) : Text :=
  ascii "\x7busername:" ++ name.map (BitVec.ofNat 8) ++ ascii "\x7d"

theorem loginName_ne_zero : ∀ c ∈ Exfat.loginName, c ≠ 0 := by decide

/-- `ksprintf((char*)un, "{username:%s}", login_buf)` and
`exfat_write_file("Login.lgi", un, (u64)len)`; `un` is the array before. -/
def loginWrite (un : Buf) (name : List Nat) : Exfat.WriteCall :=
  let r := ksprintfBuf un loginFormat [.str (name.map (BitVec.ofNat 8))]
  { fname := Exfat.loginName
    data := r.2
    size := (BitVec.ofInt 64 r.1).toNat
    name := loginName_ne_zero }

/-- The calls of `exfat_write_file` that the operations of the loop make. -/
def loginWrites (un : Buf) (ops : List Op) : List Exfat.WriteCall :=
  ops.filterMap fun | .writeLogin name => some (loginWrite un name) | _ => none

/-! ### The call of the file system -/

theorem ksprintf_login {name : List Nat} (h : ∀ c ∈ name, 0x20 ≤ c ∧ c < 0x80) :
    ksprintf loginFormat [.str (name.map (BitVec.ofNat 8))] = loginContent name := by
  have hname : cstr (name.map (BitVec.ofNat 8)) = name.map (BitVec.ofNat 8) := by
    unfold cstr
    rw [List.takeWhile_eq_self_iff]
    intro b hb
    obtain ⟨c, hc, rfl⟩ := List.mem_map.mp hb
    obtain ⟨h0, h1⟩ := h c hc
    refine decide_eq_true fun hz => ?_
    have := congrArg BitVec.toNat hz
    rw [BitVec.toNat_ofNat] at this
    have : c % 2 ^ 8 = 0 := this
    omega
  have hformat : loginFormat = ascii "\x7busername:" ++ (0x25 :: 0x73 :: ascii "\x7d") := by decide
  have htail : ksprintf (ascii "\x7d") [] = ascii "\x7d" := by decide
  rw [hformat, ksprintf_plain (by decide), ksprintf_str, hname, htail, loginContent,
    List.append_assoc]

theorem loginContent_length (name : List Nat) : (loginContent name).length = name.length + 11 := by
  unfold loginContent
  rw [List.length_append, List.length_append, List.length_map,
    show (ascii "\x7busername:").length = 10 by decide, show (ascii "\x7d").length = 1 by decide]
  omega

theorem loginWrite_eq (un : Buf) {name : List Nat} (h : ∀ c ∈ name, 0x20 ≤ c ∧ c < 0x80)
    (hshort : name.length ≤ 31) :
    (loginWrite un name).size = name.length + 11 ∧
      ∀ buf, blit buf 0 (loginWrite un name).data (loginWrite un name).size =
        blit buf 0 (textBuf (loginContent name)) (loginContent name).length := by
  obtain ⟨hlen, hdata, -, -⟩ := ksprintfBuf_eq un loginFormat [.str (name.map (BitVec.ofNat 8))]
  rw [ksprintf_login h, loginContent_length] at hlen hdata
  rw [toInt_length (by omega)] at hlen
  have hsize : (loginWrite un name).size = name.length + 11 := by
    change (BitVec.ofInt 64 (ksprintfBuf un loginFormat _).1).toNat = _
    rw [hlen]
    simp only [BitVec.ofInt_natCast, BitVec.toNat_ofNat]
    omega
  refine ⟨hsize, fun buf => ?_⟩
  rw [hsize, loginContent_length]
  exact blit_congr hdata

/-- The write of a login whose name fits: it is made exactly if there is a clear cluster and room
in the directory, and it enters the formatted name unless the file is there already. -/
theorem loginWrite_step {fs : Exfat} (hv : Exfat.RootVolume fs) (hfew : fs.rootFiles.length < 64)
    (un : Buf) {name : List Nat} (h : ∀ c ∈ name, 0x20 ≤ c ∧ c < 0x80)
    (hshort : name.length ≤ 31) :
    (((loginWrite un name).run fs).code = 0 ↔ (∃ cc, fs.FirstClear cc) ∧ fs.Room) ∧
      ((loginWrite un name).run fs).fs.lookup =
        if ((loginWrite un name).run fs).code = 0 then
          put fs.lookup (loginWrite un name).key fun buf =>
            some (0, blit buf 0 (textBuf (loginContent name)) (loginContent name).length)
        else fs.lookup := by
  obtain ⟨hsize, hdata⟩ := loginWrite_eq un h hshort
  obtain ⟨-, -, hstep⟩ := hv.store_step (c := loginWrite un name)
    (show Exfat.loginName.length ≤ 15 by decide) hfew
  have hbpc : 512 ≤ fs.bpc := by
    have := hv.bpc
    have := hv.spc
    omega
  constructor
  · refine (hv.outcome _ _ _).1.trans ?_
    unfold Exfat.Enters
    rw [hsize]
    refine ⟨fun ⟨_, _, hclear, hroom⟩ => ⟨hclear, hroom⟩, fun ⟨hclear, hroom⟩ =>
      ⟨show Exfat.nameLen Exfat.loginName ≠ 0 by decide, by omega, hclear, hroom⟩⟩
  · rw [hstep]
    have hreader : (loginWrite un name).reader = fun buf =>
        some (0, blit buf 0 (textBuf (loginContent name)) (loginContent name).length) :=
      funext fun buf => congrArg (fun b => some ((0 : Int), b)) (hdata buf)
    rw [hreader]

/-! ### From the keyboard to the file -/

theorem loginWrites_append (un : Buf) (ops ops' : List Op) :
    loginWrites un (ops ++ ops') = loginWrites un ops ++ loginWrites un ops' :=
  List.filterMap_append

theorem loginWrites_clock (un : Buf) (desk : Desk) (st : LoopState) (ticks : Nat) :
    loginWrites un (clockOps desk st ticks) = [] := by
  unfold clockOps
  split_ifs <;> rfl

theorem loginWrites_track (un : Buf) (st : LoopState) (d : Nat) :
    loginWrites un (trackKey st d).1 = [] := by
  unfold trackKey
  dsimp only
  split_ifs <;> rfl

theorem loginWrites_loginKey (un : Buf) (desk : Desk) (st : LoopState) {c : Nat} (hc : c ≠ 0x0A) :
    loginWrites un (loginKey desk st c).1 = [] := by
  unfold loginKey
  rw [if_neg hc]
  rfl

/-- A key that does not leave the loop writes nothing. -/
theorem loginWrites_key (un : Buf) {desk : Desk} {st st' : LoopState} {d : Nat}
    (hst : (keyOps desk st d).2 = some st') : loginWrites un (keyOps desk st d).1 = [] := by
  unfold keyOps at hst ⊢
  by_cases hd : d < 0x80
  · rw [if_pos hd] at hst ⊢
    by_cases hf : d = 0x3B
    · rw [if_pos hf]
      rfl
    rw [if_neg hf] at hst ⊢
    by_cases hin : st.loggedIn = true
    · rw [if_pos hin]
      exact loginWrites_track un st d
    rw [if_neg hin] at hst ⊢
    by_cases hc : keyChar st d = 0x0A
    · rw [hc] at hst
      contradiction
    · have hnone := loginWrites_loginKey un desk st hc
      cases hkey : loginKey desk st (keyChar st d) with
      | mk ops r =>
        rw [hkey] at hnone hst
        cases r with
        | none => exact hnone
        | some s =>
          refine (loginWrites_append un ops _).trans ?_
          rw [hnone, loginWrites_track]
          rfl
  · rw [if_neg hd]
    exact loginWrites_track un st d

theorem loginWrites_iteration (un : Buf) {desk : Desk} {st st' : LoopState} {p : Poll}
    (hst : (iteration desk st p).2 = some st') : loginWrites un (iteration desk st p).1 = [] := by
  unfold iteration at hst ⊢
  dsimp only at hst ⊢
  have hhead := loginWrites_clock un desk st p.ticks
  cases hkey : p.key with
  | none =>
    dsimp only
    rw [List.cons_append]
    exact (loginWrites_append un (clockOps desk st p.ticks) [.ioStihlt]).trans (by rw [hhead]; rfl)
  | some d =>
    rw [hkey] at hst
    dsimp only at hst ⊢
    rw [List.cons_append]
    refine (loginWrites_append un (clockOps desk st p.ticks) _).trans ?_
    rw [hhead]
    exact loginWrites_key un hst

/-- Without Enter nothing is written. -/
theorem LoopRun.no_login {desk : Desk} {st0 st : LoopState} {polls : List Poll} {ops : List Op}
    (h : LoopRun desk st0 polls ops (some st)) (un : Buf) : loginWrites un ops = [] := by
  generalize hr : some st = r at h
  induction h generalizing st with
  | enter => rfl
  | iterate h p ih => rw [loginWrites_append, ih rfl, loginWrites_iteration un hr.symm]; rfl

/-- Enter writes the text of the input once. -/
theorem Shows.enter_writes {e : Editor} {st : LoopState} (h : Shows e st) (desk : Desk)
    (ticks : Nat) (un : Buf) :
    loginWrites un (iteration desk st ⟨ticks, some 0x1C⟩).1 = [loginWrite un e.text] := by
  have ht := h.ticked ticks
  have hops : (keyOps desk (clockTicked st ticks) 0x1C).1 =
      (loginKey desk (clockTicked st ticks) 0x0A).1 := by
    unfold keyOps
    rw [if_pos (by decide), if_neg (by decide), if_neg (by simp [ht.loggedIn]), ht.keyChar,
      (Editor.typed_eq_enter (by decide)).mpr rfl]
    rfl
  have htext : (List.range (clockTicked st ticks).loginLen).map
      (Function.update (clockTicked st ticks).loginBuf (clockTicked st ticks).loginLen 0) =
        e.text := by
    rw [ht.length, map_range_update, ht.buffer]
  unfold iteration
  dsimp only
  rw [hops, List.cons_append]
  refine (loginWrites_append un (clockOps desk st ticks) _).trans ?_
  rw [loginWrites_clock, List.nil_append]
  unfold loginKey
  rw [if_pos rfl]
  dsimp only
  rw [htext]
  rfl

/-- From the bytes of the keyboard to the volume: Enter makes the only call of the run. If there
is a clear cluster and room in the directory, `Login.lgi` then holds the user name typed, unless it
was there already, and every other name has the file it had; otherwise no file changes. -/
theorem login_file_kept {desk : Desk} {buf : Nat → Nat} {f0 f : Fifo} {calls : List FifoCall}
    {polls : List Poll} {ops : List Op} {st : LoopState}
    (h : KeyRun desk { loopStart with loginBuf := buf } f0 calls polls ops f (some st))
    (h0 : f0.Empty) {ticks : Nat} {d : Byte} (henter : (fgPoll f ticks d).key = some 0x1C)
    (un : Buf) {fs : Exfat} (hv : Exfat.RootVolume fs) (hfew : fs.rootFiles.length < 64) :
    ∃ c : Exfat.WriteCall,
      loginWrites un (ops ++ (iteration desk st (fgPoll f ticks d)).1) = [c] ∧
      c.key = ⟨Exfat.loginName, loginName_ne_zero⟩ ∧
      ((c.run fs).code = 0 ↔ (∃ cc, fs.FirstClear cc) ∧ fs.Room) ∧
      (c.run fs).fs.lookup =
        if (c.run fs).code = 0 then
          let user := (((fifo.given f0 calls).map BitVec.toNat).foldl Editor.press .start).text
          put fs.lookup c.key fun buf =>
            some (0, blit buf 0 (textBuf (loginContent user)) (loginContent user).length)
        else fs.lookup := by
  obtain ⟨hshows, -⟩ := h.shows_given h0
  have hbound : ∀ c ∈ (((fifo.given f0 calls).map BitVec.toNat).foldl Editor.press .start).text,
      0x20 ≤ c ∧ c < 0x80 := fun c hc => ⟨hshows.printable c hc, Editor.foldl_text_lt _ c hc⟩
  have hpoll : fgPoll f ticks d = ⟨ticks, some 0x1C⟩ := by rw [← henter]; rfl
  obtain ⟨hcode, hlookup⟩ := loginWrite_step hv hfew un hbound hshows.short
  refine ⟨loginWrite un _, ?_, rfl, hcode, hlookup⟩
  rw [loginWrites_append, h.loopRun.no_login, hpoll, hshows.enter_writes, List.nil_append]

/-- A and Enter on a volume with one file. -/
theorem login_file_kept_oneFile : ∃ ops st c,
    LoopRun startDesk { loopStart with loginBuf := fun _ => 0 } [⟨0, some 0x1E⟩] ops (some st) ∧
      loginWrites (fun _ => 0) (ops ++ (iteration startDesk st ⟨0, some 0x1C⟩).1) = [c] ∧
      ((c.run Exfat.oneFile).code = 0 ↔
        (∃ cc, Exfat.oneFile.FirstClear cc) ∧ Exfat.oneFile.Room) := by
  have hrun := ((@KeyRun.enter startDesk { loopStart with loginBuf := fun _ => 0 } Fifo.zero).isr21 1
    0x1E).isr21 1 0x1C
  obtain ⟨st, hst⟩ : ∃ st, (iteration startDesk { loopStart with loginBuf := fun _ => 0 }
      ⟨0, some 0x1E⟩).2 = some st := ⟨_, rfl⟩
  have hone := hrun.iterate 0 0
  have hpoll : fgPoll (fifo.run (fifo.run Fifo.zero (isr21Calls 1 0x1E)) (isr21Calls 1 0x1C)) 0 0 =
      ⟨0, some 0x1E⟩ := congrArg (Poll.mk 0) (by decide)
  rw [hpoll, hst] at hone
  have hfew : Exfat.oneFile.rootFiles.length < 64 := by decide +kernel
  obtain ⟨c, hwrites, -, hcode, -⟩ := login_file_kept hone ⟨by decide, rfl, rfl⟩
    (show (fgPoll _ 0 0).key = some 0x1C by decide) (fun _ => 0)
    Exfat.oneFile_fileVolume.toRootVolume hfew
  exact ⟨_, st, c, hone.loopRun, hwrites, hcode⟩

end WinDOS
