import WinDOS.Boot.Ksprintf
import WinDOS.Boot.Start
import WinDOS.Fs.ListSafe

/-!
# The files shown during start-up (`kernel.cpp`)

After a successful mount `_start` lists the root directory, prints the first file, writes
`TEST.TXT` and prints what it then finds under that name. The lines are made in `dbg`, the files
are read into `fbuf` and `rbuf`; nothing that fills these arrays is told their sizes. A run is the
list of its writes to them and the kernel after it.
-/

set_option autoImplicit false

namespace WinDOS

open Bytes

/-! ### The local arrays -/

inductive Local where
  | dbg
  | fbuf
  | rbuf
deriving DecidableEq, Repr

def Local.size : Local → Nat
  | dbg => 80
  | fbuf => 64
  | rbuf => 64

/-- `len` bytes written to `buf` from `off` on. -/
structure Store where
  buf : Local
  off : Nat
  len : Nat
deriving DecidableEq, Repr

def Store.Inside (w : Store) : Prop := w.off + w.len ≤ w.buf.size

instance (w : Store) : Decidable w.Inside := inferInstanceAs (Decidable (_ ≤ _))

namespace Exfat

/-- The loop of `exfat_read_file` with its copies to the array `b`. -/
def readLoopInto (b : Local) :
    Nat → Exfat → Nat → Nat → Nat → Buf → List Store × Option (Int × Buf × Exfat)
  | fuel, fs, cluster, remaining, pos, buf =>
    if remaining = 0 then ([], some (0, buf, fs))
    else
      match fuel with
      | 0 => ([], none)
      | fuel + 1 =>
        if cluster < 2 ∨ cluster = CHAIN_END then ([], some (-1, buf, fs))
        else
          match fs.readCluster cluster fs.tmp with
          | (false, tmp, fs) => ([], some (-1, buf, { fs with tmp := tmp }))
          | (true, tmp, fs) =>
            let fs := { fs with tmp := tmp }
            let chunk := if remaining < fs.bpc then remaining else fs.bpc
            let (next, fs) := fs.nextCluster cluster
            let (stores, res) := readLoopInto b fuel fs next (remaining - chunk) (pos + chunk)
              (blit buf pos tmp chunk)
            (⟨b, pos, chunk⟩ :: stores, res)

def readFileInto (b : Local) (fs : Exfat) (firstCluster size : Nat) (buf : Buf) :
    List Store × Option (Int × Buf × Exfat) :=
  if fs.ok then readLoopInto b size fs firstCluster size 0 buf else ([], some (-1, buf, fs))

end Exfat

/-! ### The run -/

/-- The writes of a part of `_start`, and the kernel after it; `none` if it does not end. -/
abbrev Part := List Store × Option Kernel

def Part.andThen (a : Part) (f : Kernel → Part) : Part :=
  match a.2 with
  | none => a
  | some k => (a.1 ++ (f k).1, (f k).2)

namespace Kernel

/-- `out_file_str`, as far as the log disk sees it. -/
def outFileStr (k : Kernel) (s : Text) : Kernel := k.logdiskSink s

/-- `ksprintf(dbg, fmt, ..); out_file_str(dbg);` -/
def report (fmt : Text) (args : List PrintArg) (k : Kernel) : Part :=
  let s := ksprintf fmt args
  ([⟨.dbg, 0, s.length + 1⟩], some (k.outFileStr s))

/-- `(u32)data_len` as the `int` that `%d` takes. -/
def sizeArg (fi : ExfatFileInfo) : Int := (BitVec.ofNat 32 fi.dataLen).toInt

def dirMark (fi : ExfatFileInfo) : Text := if fi.isDir then ascii "[DIR]" else []

def reportFiles : List ExfatFileInfo → Kernel → Part
  | [], k => ([], some k)
  | fi :: infos, k =>
    (report (ascii "[KERNEL/FS]   %s  size=%d %s\n")
      [.str fi.name, .int (sizeArg fi), .str (dirMark fi)] k).andThen (reportFiles infos)

/-- A file is read into `b`, closed with a NUL and printed. -/
def showFile (b : Local) (fmt : Text) (fi : ExfatFileInfo) (fail : Kernel → Kernel) (k : Kernel) :
    Part :=
  match k.fs.readFileInto b fi.firstCluster fi.dataLen k.fs.stack with
  | (stores, none) => (stores, none)
  | (stores, some (code, buf, fs)) =>
    let k := { k with fs := fs }
    if code = 0 then
      let buf := Function.update buf fi.dataLen 0
      Part.andThen (stores ++ [⟨b, fi.dataLen, 1⟩], some k)
        (report fmt [.str ((List.range (fi.dataLen + 1)).map buf)])
    else (stores, some (fail k))

/-- `get_root_dir_cluster("KERNEL")`, which logs the call. -/
def getRootDirCluster (k : Kernel) : Nat × Kernel :=
  let k := ((k.outFileStr (ascii "[EXFAT/API CALL] API call from ")).outFileStr
    (ascii "KERNEL")).outFileStr (ascii "\n")
  (k.fs.boot.rootDirCluster, k)

def listRoot (k : Kernel) : List ExfatFileInfo × Kernel :=
  let (root, k) := k.getRootDirCluster
  let (infos, fs) := k.fs.exfatListDir root 32
  (infos, { k with fs := fs })

def showFirst (infos : List ExfatFileInfo) (k : Kernel) : Part :=
  match infos with
  | [] => ([], some k)
  | fi :: _ =>
    showFile .fbuf (ascii "[KERNEL/FS] content: %s\n") fi
      (fun k => k.outFileStr (ascii "[KERNEL/FS] read FAIL\n")) k

def testTxt : Text := ascii "TEST.TXT"

def writeTest (k : Kernel) : Int × Kernel :=
  let w := k.fs.exfatWriteFile testTxt (textBuf (ascii "exFAT read/write")) 14
  (w.code, { k with fs := w.fs })

def findTest (k : Kernel) : Option ExfatFileInfo × Kernel :=
  let (root, k) := k.getRootDirCluster
  let (fi, fs) := k.fs.exfatFind root testTxt
  (fi, { k with fs := fs })

def showTest (k : Kernel) : Part :=
  match k.writeTest with
  | (code, k) =>
    if code = 0 then
      match (k.outFileStr (ascii "[KERNEL/FS] write OK\n")).findTest with
      | (none, k) => ([], some k)
      | (some fi, k) => showFile .rbuf (ascii "[KERNEL/FS] readback: %s\n") fi (fun k => k) k
    else report (ascii "[KERNEL/FS] write FAIL r=%d\n") [.int code] k

/-- The entries, after the kernel has announced the volume. -/
def rootList (k : Kernel) : List ExfatFileInfo × Kernel :=
  (k.outFileStr (ascii "[KERNEL/FS] exFAT init OK\n")).listRoot

def listing (k : Kernel) : Part :=
  (report (ascii "[KERNEL/FS] root entries: %d\n") [.int k.rootList.1.length] k.rootList.2).andThen
    (reportFiles k.rootList.1)

/-- The branch of `_start` after `exfat_init` has returned 0. -/
def bootFiles (k : Kernel) : Part :=
  (k.listing.andThen (showFirst k.rootList.1)).andThen showTest

/-! ### The lines -/

/-- Name, size and mark of an entry leave room for the rest of its line. -/
def LineFits (fi : ExfatFileInfo) : Prop :=
  (cstr fi.name).length + (pkd (sizeArg fi)).length + (dirMark fi).length ≤ 56

end Kernel

theorem Part.andThen_inside {a : Part} {f : Kernel → Part} :
    (∀ w ∈ (a.andThen f).1, w.Inside) ↔
      (∀ w ∈ a.1, w.Inside) ∧ ∀ k, a.2 = some k → ∀ w ∈ (f k).1, w.Inside := by
  obtain ⟨stores, next⟩ := a
  cases next with
  | none => exact ⟨fun h => ⟨h, fun k hk => by cases hk⟩, fun h => h.1⟩
  | some k =>
    refine List.forall_mem_append.trans (and_congr_right fun _ => ⟨?_, fun h => h k rfl⟩)
    rintro h k' hk' w
    obtain rfl := Option.some.inj hk'
    exact h w

namespace Kernel

theorem report_inside {fmt : Text} {args : List PrintArg} {k : Kernel} :
    (∀ w ∈ (report fmt args k).1, w.Inside) ↔ (ksprintf fmt args).length + 1 ≤ 80 := by
  refine ⟨fun h => ?_, fun h w hw => ?_⟩
  · have := h _ (List.mem_singleton_self _)
    simpa [Store.Inside, Local.size] using this
  · obtain rfl := List.mem_singleton.mp hw
    simpa [Store.Inside, Local.size] using h

theorem length_line (fi : ExfatFileInfo) :
    (ksprintf (ascii "[KERNEL/FS]   %s  size=%d %s\n")
      [.str fi.name, .int (sizeArg fi), .str (dirMark fi)]).length =
      (cstr fi.name).length + (pkd (sizeArg fi)).length + (cstr (dirMark fi)).length + 23 := by
  have hfmt : ascii "[KERNEL/FS]   %s  size=%d %s\n" =
      ascii "[KERNEL/FS]   " ++ (0x25 :: 0x73 :: (ascii "  size=" ++ (0x25 :: 0x64 ::
        (ascii " " ++ (0x25 :: 0x73 :: (ascii "\n" ++ [])))))) := by decide +kernel
  rw [hfmt, ksprintf_plain (by simp [ascii]), ksprintf_str, ksprintf_plain (by simp [ascii]),
    ksprintf_int, ksprintf_plain (by simp [ascii]), ksprintf_str, ksprintf_plain (by simp [ascii])]
  simp only [List.length_append, show (ascii "[KERNEL/FS]   ").length = 14 from rfl,
    show (ascii "  size=").length = 7 from rfl, show (ascii " ").length = 1 from rfl,
    show (ascii "\n").length = 1 from rfl, ksprintf, List.length_nil]
  omega

end Kernel

/-! ### Reading into an array -/

namespace Exfat

/-- One cluster of a chain is read: its bytes, the next cluster and the state after both. -/
def chainStep (fs : Exfat) (cluster : Nat) : Option (Buf × Nat × Exfat) :=
  if cluster < 2 ∨ cluster = CHAIN_END then none
  else
    match fs.readCluster cluster fs.tmp with
    | (false, _, _) => none
    | (true, tmp, fs) =>
      let fs := { fs with tmp := tmp }
      some (tmp, fs.nextCluster cluster)

/-- The first `k` clusters of the chain from `cluster` on can be read. -/
def ChainReads : Nat → Exfat → Nat → Prop
  | 0, _, _ => True
  | k + 1, fs, cluster =>
    ∃ tmp next gs, fs.chainStep cluster = some (tmp, next, gs) ∧ gs.ChainReads k next

theorem chainStep_bpc {fs gs : Exfat} {cluster next : Nat} {tmp : Buf}
    (h : fs.chainStep cluster = some (tmp, next, gs)) : gs.bpc = fs.bpc := by
  unfold chainStep at h
  split at h
  · cases h
  obtain ⟨ok, tmp', m, log, hread, -⟩ := @readCluster_asks (fun _ => True) fs cluster fs.tmp
  rw [hread] at h
  cases ok with
  | false => cases h
  | true =>
    obtain ⟨v, m', log', hnext, -⟩ :=
      @nextCluster_asks (fun _ => True) (fs.after m tmp' log) cluster
    obtain ⟨-, hgs⟩ := Prod.mk.inj (Option.some.inj h)
    change (fs.after m tmp' log).nextCluster cluster = _ at hgs
    rw [hnext] at hgs
    obtain ⟨-, rfl⟩ := Prod.mk.inj hgs
    rfl

theorem chainReads_succ {fs gs : Exfat} {cluster next : Nat} {tmp : Buf}
    (h : fs.chainStep cluster = some (tmp, next, gs)) (k : Nat) :
    fs.ChainReads (k + 1) cluster ↔ gs.ChainReads k next := by
  refine ⟨?_, fun hreads => ⟨tmp, next, gs, h, hreads⟩⟩
  rintro ⟨tmp', next', gs', hsome, hreads⟩
  rw [h] at hsome
  cases hsome
  exact hreads

theorem not_chainReads_succ {fs : Exfat} {cluster : Nat} (h : fs.chainStep cluster = none)
    (k : Nat) : ¬ fs.ChainReads (k + 1) cluster := by
  rintro ⟨tmp, next, gs, hsome, -⟩
  rw [h] at hsome
  cases hsome

section ReadLoop

variable {b : Local} {fuel : Nat} {fs : Exfat} {cluster remaining pos : Nat} {buf : Buf}

theorem readLoopInto_stops (h0 : remaining ≠ 0) (h : fs.chainStep cluster = none) :
    ∃ gs, readLoopInto b (fuel + 1) fs cluster remaining pos buf = ([], some (-1, buf, gs)) := by
  rw [readLoopInto, if_neg h0]
  dsimp only
  unfold chainStep at h
  split
  · exact ⟨_, rfl⟩
  · rename_i hc
    rw [if_neg hc] at h
    obtain ⟨⟨ok, tmp, gs⟩, hread⟩ : ∃ r, fs.readCluster cluster fs.tmp = r := ⟨_, rfl⟩
    rw [hread] at h ⊢
    cases ok with
    | false => exact ⟨_, rfl⟩
    | true => cases h

theorem readLoopInto_reads (h0 : remaining ≠ 0) {tmp : Buf} {next : Nat} {gs : Exfat}
    (h : fs.chainStep cluster = some (tmp, next, gs)) :
    readLoopInto b (fuel + 1) fs cluster remaining pos buf =
      (⟨b, pos, min remaining fs.bpc⟩ ::
          (readLoopInto b fuel gs next (remaining - min remaining fs.bpc)
            (pos + min remaining fs.bpc) (blit buf pos tmp (min remaining fs.bpc))).1,
        (readLoopInto b fuel gs next (remaining - min remaining fs.bpc)
          (pos + min remaining fs.bpc) (blit buf pos tmp (min remaining fs.bpc))).2) := by
  rw [readLoopInto, if_neg h0]
  dsimp only
  unfold chainStep at h
  split at h
  · cases h
  rename_i hc
  rw [if_neg hc]
  obtain ⟨ok, tmp', m, log, hread, -⟩ := @readCluster_asks (fun _ => True) fs cluster fs.tmp
  rw [hread] at h ⊢
  cases ok with
  | false => cases h
  | true =>
    have hchunk : (if remaining < fs.bpc then remaining else fs.bpc) = min remaining fs.bpc := by
      split <;> omega
    obtain ⟨rfl, hnext⟩ := Prod.mk.inj (Option.some.inj h)
    dsimp only at hnext ⊢
    rw [hnext, show (fs.after m fs.tmp log).bpc = fs.bpc from rfl, hchunk]

/-- The copies aside, it is the loop of `exfat_read_file`. -/
theorem readLoopInto_snd :
    (readLoopInto b fuel fs cluster remaining pos buf).2 =
      readLoop fuel fs cluster remaining pos buf := by
  induction fuel generalizing fs cluster remaining pos buf with
  | zero =>
    rw [readLoopInto, readLoop]
    split <;> rfl
  | succ fuel ih =>
    rw [readLoopInto, readLoop]
    split
    · rfl
    dsimp only
    split
    · rfl
    obtain ⟨⟨ok, tmp, gs⟩, hread⟩ : ∃ r, fs.readCluster cluster fs.tmp = r := ⟨_, rfl⟩
    rw [hread]
    cases ok with
    | false => rfl
    | true => exact ih

theorem readFileInto_snd (first size : Nat) :
    (fs.readFileInto b first size buf).2 = fs.exfatReadFile first size buf := by
  unfold readFileInto exfatReadFile
  split
  · exact readLoopInto_snd
  · rfl

/-- The loop writes `remaining` bytes from `pos` on, or fewer. -/
theorem readLoopInto_within {w : Store}
    (hw : w ∈ (readLoopInto b fuel fs cluster remaining pos buf).1) :
    w.buf = b ∧ w.off + w.len ≤ pos + remaining := by
  induction fuel generalizing fs cluster remaining pos buf with
  | zero =>
    rw [readLoopInto] at hw
    split at hw <;> cases hw
  | succ fuel ih =>
    by_cases h0 : remaining = 0
    · rw [readLoopInto, if_pos h0] at hw
      cases hw
    cases hstep : fs.chainStep cluster with
    | none =>
      obtain ⟨gs, hrun⟩ := @readLoopInto_stops b fuel fs cluster remaining pos buf h0 hstep
      rw [hrun] at hw
      cases hw
    | some r =>
      obtain ⟨tmp, next, gs⟩ := r
      rw [readLoopInto_reads h0 hstep] at hw
      rcases List.mem_cons.mp hw with rfl | hw
      · exact ⟨rfl, by dsimp only; omega⟩
      · obtain ⟨hb, hle⟩ := ih hw
        exact ⟨hb, by omega⟩

/-- The loop of a read of 64 bytes or more stays inside an array of 64 bytes, and the file with
its NUL does if it is read to its end: exactly if the clusters of the first 65 bytes cannot all
be read. -/
theorem readLoopInto_inside (hb : b.size = 64) (hpos : pos ≤ 64) (hlong : 64 ≤ pos + remaining)
    (hfuel : remaining ≤ fuel ∨ fs.bpc = 0) :
    ((∀ w ∈ (readLoopInto b fuel fs cluster remaining pos buf).1, w.Inside) ∧
        ∀ buf' gs, (readLoopInto b fuel fs cluster remaining pos buf).2 ≠ some (0, buf', gs)) ↔
      ∀ k, min (pos + remaining) 65 ≤ pos + k * fs.bpc → ¬ fs.ChainReads k cluster := by
  induction fuel generalizing fs cluster remaining pos buf with
  | zero =>
    by_cases h0 : remaining = 0
    · rw [readLoopInto, if_pos h0]
      exact iff_of_false (fun h => h.2 _ _ rfl) fun h => h 0 (by omega) trivial
    · rw [readLoopInto, if_neg h0]
      have hbpc : fs.bpc = 0 := by omega
      refine iff_of_true ⟨?_, ?_⟩ ?_
      · exact fun w hw => absurd hw List.not_mem_nil
      · exact fun _ _ h => nomatch h
      · intro k hk
        rw [hbpc] at hk
        omega
  | succ fuel ih =>
    by_cases h0 : remaining = 0
    · rw [readLoopInto, if_pos h0]
      exact iff_of_false (fun h => h.2 _ _ rfl) fun h => h 0 (by omega) trivial
    cases hstep : fs.chainStep cluster with
    | none =>
      obtain ⟨gs, hrun⟩ := @readLoopInto_stops b fuel fs cluster remaining pos buf h0 hstep
      rw [hrun]
      refine iff_of_true ⟨?_, ?_⟩ ?_
      · exact fun w hw => absurd hw List.not_mem_nil
      · exact fun _ _ h => absurd (Prod.mk.inj (Option.some.inj h)).1 (by decide)
      · intro k hk hreads
        cases k with
        | zero => omega
        | succ k => exact not_chainReads_succ hstep k hreads
    | some r =>
      obtain ⟨tmp, next, gs⟩ := r
      have hbpc := chainStep_bpc hstep
      have hone : fs.ChainReads 1 cluster := (chainReads_succ hstep 0).mpr trivial
      rw [readLoopInto_reads h0 hstep]
      by_cases hover : pos + min remaining fs.bpc ≤ 64
      · have hinside : Store.Inside ⟨b, pos, min remaining fs.bpc⟩ := by
          rw [Store.Inside, hb]
          exact hover
        rw [List.forall_mem_cons, and_assoc, and_iff_right hinside,
          ih hover (by omega) (by omega), hbpc]
        by_cases hlast : remaining ≤ fs.bpc
        · -- the last round: the file ends at byte 64
          refine iff_of_false (fun h => h 0 (by omega) trivial) fun h => h 1 (by omega) hone
        · have hmin : min remaining fs.bpc = fs.bpc := by omega
          rw [hmin]
          refine ⟨fun h k hk hreads => ?_, fun h k hk hreads => ?_⟩
          · cases k with
            | zero => omega
            | succ k =>
              rw [Nat.add_mul, Nat.one_mul] at hk
              exact h k (by omega) ((chainReads_succ hstep k).mp hreads)
          · refine h (k + 1) ?_ ((chainReads_succ hstep k).mpr hreads)
            rw [Nat.add_mul, Nat.one_mul]
            omega
      · refine iff_of_false (fun h => hover ?_) fun h => h 1 (by omega) hone
        have := h.1 _ List.mem_cons_self
        rwa [Store.Inside, hb] at this

end ReadLoop

/-- A file of at most 63 bytes, or one whose first 65 bytes cannot all be read. -/
def ReadFits (fs : Exfat) (fi : ExfatFileInfo) : Prop :=
  fs.ok = true → fi.dataLen < 64 ∨
    ∀ k, min fi.dataLen 65 ≤ k * fs.bpc → ¬ fs.ChainReads k fi.firstCluster

/-- What is read of a file has at most `room` characters before a NUL. -/
def TextFits (fs : Exfat) (fi : ExfatFileInfo) (room : Nat) : Prop :=
  ∀ buf gs, fs.exfatReadFile fi.firstCluster fi.dataLen fs.stack = some (0, buf, gs) →
    (cstr ((List.range fi.dataLen).map buf)).length ≤ room

/-- `exfat_read_file` and the NUL behind what it has read stay inside the array. -/
theorem readFileInto_inside {b : Local} (hb : b.size = 64) (fs : Exfat) (fi : ExfatFileInfo) :
    ((∀ w ∈ (fs.readFileInto b fi.firstCluster fi.dataLen fs.stack).1, w.Inside) ∧
        ∀ buf gs, fs.exfatReadFile fi.firstCluster fi.dataLen fs.stack = some (0, buf, gs) →
          Store.Inside ⟨b, fi.dataLen, 1⟩) ↔ fs.ReadFits fi := by
  have hnul : Store.Inside ⟨b, fi.dataLen, 1⟩ ↔ fi.dataLen < 64 := by
    rw [Store.Inside, hb]
    exact Nat.lt_iff_add_one_le.symm
  unfold ReadFits
  by_cases hok : fs.ok = true
  · rw [imp_iff_right hok, hnul, ← readFileInto_snd (b := b)]
    unfold readFileInto
    rw [if_pos hok]
    by_cases hshort : fi.dataLen < 64
    · refine iff_of_true ⟨fun w hw => ?_, fun _ _ _ => hshort⟩ (.inl hshort)
      obtain ⟨hbuf, hle⟩ := readLoopInto_within hw
      rw [Store.Inside, hbuf, hb]
      omega
    · have h := @readLoopInto_inside b fi.dataLen fs fi.firstCluster fi.dataLen 0 fs.stack hb
        (by omega) (by omega) (.inl (Nat.le_refl _))
      rw [Nat.zero_add] at h
      simp only [Nat.zero_add] at h
      simp only [hshort, false_or, imp_false]
      exact h
  · unfold readFileInto exfatReadFile
    rw [if_neg hok, if_neg hok]
    refine iff_of_true ⟨fun w hw => absurd hw List.not_mem_nil, fun _ _ h => ?_⟩
      fun h => absurd h hok
    exact absurd (Prod.mk.inj (Option.some.inj h)).1 (by decide)

end Exfat

theorem cstr_append_nul (s : Text) : cstr (s ++ [0]) = cstr s := by
  induction s with
  | nil => rfl
  | cons c s ih =>
    unfold cstr at ih ⊢
    rw [List.cons_append, List.takeWhile_cons, List.takeWhile_cons, ih]

/-- The array closed with a NUL reads as the bytes before it. -/
theorem cstr_closed (buf : Buf) (len : Nat) :
    cstr ((List.range (len + 1)).map (Function.update buf len 0)) =
      cstr ((List.range len).map buf) := by
  rw [List.range_succ, List.map_append, List.map_singleton, Function.update_self, cstr_append_nul]
  congr 1
  refine List.map_congr_left fun i hi => Function.update_of_ne ?_ ..
  exact Nat.ne_of_lt (List.mem_range.mp hi)

namespace Kernel

def ShowFits (k : Kernel) (fi : ExfatFileInfo) (room : Nat) : Prop :=
  k.fs.ReadFits fi ∧ k.fs.TextFits fi room

theorem showFile_inside {b : Local} (hb : b.size = 64) {fmt : Text} {room : Nat}
    (hfmt : ∀ s, (ksprintf fmt [.str s]).length + 1 ≤ 80 ↔ (cstr s).length ≤ room)
    (fi : ExfatFileInfo) (fail : Kernel → Kernel) (k : Kernel) :
    (∀ w ∈ (showFile b fmt fi fail k).1, w.Inside) ↔ k.ShowFits fi room := by
  unfold ShowFits showFile
  rw [← Exfat.readFileInto_inside hb]
  unfold Exfat.TextFits
  rw [← Exfat.readFileInto_snd (b := b)]
  obtain ⟨stores, res⟩ := k.fs.readFileInto b fi.firstCluster fi.dataLen k.fs.stack
  rcases res with _ | ⟨code, buf, gs⟩
  · exact ⟨fun h => ⟨⟨h, fun _ _ h => nomatch h⟩, fun _ _ h => nomatch h⟩, fun h => h.1.1⟩
  dsimp only
  by_cases h0 : code = 0
  · subst h0
    rw [if_pos rfl, Part.andThen_inside, List.forall_mem_append]
    constructor
    · rintro ⟨⟨hstores, hnul⟩, hline⟩
      have hline := (hfmt _).mp (report_inside.mp (hline _ rfl))
      rw [cstr_closed] at hline
      refine ⟨⟨hstores, fun _ _ _ => hnul _ (List.mem_singleton_self _)⟩, fun _ _ h => ?_⟩
      cases h
      exact hline
    · rintro ⟨⟨hstores, hnul⟩, htext⟩
      refine ⟨⟨hstores, fun w hw => ?_⟩, fun k' _ => report_inside.mpr ((hfmt _).mpr ?_)⟩
      · obtain rfl := List.mem_singleton.mp hw
        exact hnul _ _ rfl
      · rw [cstr_closed]
        exact htext _ _ rfl
  · rw [if_neg h0]
    refine ⟨fun h => ⟨⟨h, fun _ _ h => ?_⟩, fun _ _ h => ?_⟩, fun h => h.1.1⟩
    all_goals
      cases h
      exact absurd rfl h0

/-! ### The parts of the run -/

theorem cstr_dirMark (fi : ExfatFileInfo) : cstr (dirMark fi) = dirMark fi := by
  unfold dirMark
  cases fi.isDir <;> decide

theorem reportFiles_inside (infos : List ExfatFileInfo) (k : Kernel) :
    (∀ w ∈ (reportFiles infos k).1, w.Inside) ↔ ∀ fi ∈ infos, LineFits fi := by
  induction infos generalizing k with
  | nil => exact iff_of_true (fun w hw => absurd hw List.not_mem_nil) fun fi hfi => by cases hfi
  | cons fi infos ih =>
    rw [reportFiles, Part.andThen_inside, report_inside, length_line, cstr_dirMark,
      List.forall_mem_cons]
    refine and_congr ?_ ?_
    · unfold LineFits
      omega
    · exact ⟨fun h => (ih _).mp (h _ rfl), fun h k' _ => (ih k').mpr h⟩

theorem report_int_inside {pre post : Text} (hpre : ∀ c ∈ pre, c ≠ 0x25 ∧ c ≠ 0)
    (hpost : ∀ c ∈ post, c ≠ 0x25 ∧ c ≠ 0) (hlen : pre.length + post.length ≤ 68) (v : Int)
    (k : Kernel) : ∀ w ∈ (report (pre ++ 0x25 :: 0x64 :: (post ++ [])) [.int v] k).1, w.Inside := by
  rw [report_inside, ksprintf_plain hpre, ksprintf_int, ksprintf_plain hpost]
  have := pkd_length_le v
  simp only [List.length_append, ksprintf, List.length_nil]
  omega

theorem length_str {pre post : Text} (hpre : ∀ c ∈ pre, c ≠ 0x25 ∧ c ≠ 0)
    (hpost : ∀ c ∈ post, c ≠ 0x25 ∧ c ≠ 0) (s : Text) :
    (ksprintf (pre ++ 0x25 :: 0x73 :: (post ++ [])) [.str s]).length =
      pre.length + (cstr s).length + post.length := by
  rw [ksprintf_plain hpre, ksprintf_str, ksprintf_plain hpost]
  simp only [List.length_append, ksprintf, List.length_nil]
  omega

theorem listing_inside (k : Kernel) :
    (∀ w ∈ k.listing.1, w.Inside) ↔ ∀ fi ∈ k.rootList.1, LineFits fi := by
  have hfmt : ascii "[KERNEL/FS] root entries: %d\n" =
      ascii "[KERNEL/FS] root entries: " ++ 0x25 :: 0x64 :: (ascii "\n" ++ []) := by decide +kernel
  unfold listing
  rw [Part.andThen_inside, hfmt]
  refine (and_iff_right ?_).trans ⟨fun h => ?_, fun h k' _ => ?_⟩
  · exact report_int_inside (by simp [ascii]) (by simp [ascii]) (by simp [ascii]) _ _
  · exact (reportFiles_inside _ _).mp (h _ rfl)
  · exact (reportFiles_inside _ k').mpr h

/-- The first file, when `k` is about to show it. -/
def FirstFits (infos : List ExfatFileInfo) (k : Kernel) : Prop :=
  ∀ fi, infos.head? = some fi → k.ShowFits fi 57

theorem showFirst_inside (infos : List ExfatFileInfo) (k : Kernel) :
    (∀ w ∈ (showFirst infos k).1, w.Inside) ↔ k.FirstFits infos := by
  cases infos with
  | nil => exact iff_of_true (fun w hw => absurd hw List.not_mem_nil) fun fi h => nomatch h
  | cons fi infos =>
    have hfmt : ascii "[KERNEL/FS] content: %s\n" =
        ascii "[KERNEL/FS] content: " ++ 0x25 :: 0x73 :: (ascii "\n" ++ []) := by decide +kernel
    refine (@showFile_inside .fbuf rfl _ 57 (fun s => ?_) fi _ k).trans ⟨?_, fun h => h fi rfl⟩
    · rw [hfmt, length_str (by simp [ascii]) (by simp [ascii]),
        show (ascii "[KERNEL/FS] content: ").length = 21 from rfl,
        show (ascii "\n").length = 1 from rfl]
      omega
    · rintro h fi' hfi'
      obtain rfl := Option.some.inj hfi'
      exact h

/-- What is found under `TEST.TXT` after it has been written. -/
def TestFits (k : Kernel) : Prop :=
  k.writeTest.1 = 0 → ∀ fi k',
    (k.writeTest.2.outFileStr (ascii "[KERNEL/FS] write OK\n")).findTest = (some fi, k') →
      k'.ShowFits fi 56

theorem showTest_inside (k : Kernel) : (∀ w ∈ k.showTest.1, w.Inside) ↔ k.TestFits := by
  unfold showTest TestFits
  obtain ⟨code, k1⟩ := k.writeTest
  dsimp only
  by_cases h0 : code = 0
  · rw [if_pos h0, imp_iff_right h0]
    obtain ⟨found, k2⟩ := (k1.outFileStr (ascii "[KERNEL/FS] write OK\n")).findTest
    cases found with
    | none => exact iff_of_true (fun w hw => absurd hw List.not_mem_nil) fun fi k' h => nomatch h
    | some fi =>
      have hfmt : ascii "[KERNEL/FS] readback: %s\n" =
          ascii "[KERNEL/FS] readback: " ++ 0x25 :: 0x73 :: (ascii "\n" ++ []) := by decide +kernel
      refine (@showFile_inside .rbuf rfl _ 56 (fun s => ?_) fi _ k2).trans
        ⟨?_, fun h => h fi k2 rfl⟩
      · rw [hfmt, length_str (by simp [ascii]) (by simp [ascii]),
          show (ascii "[KERNEL/FS] readback: ").length = 22 from rfl,
          show (ascii "\n").length = 1 from rfl]
        omega
      · rintro h fi' k' heq
        cases heq
        exact h
  · have hfmt : ascii "[KERNEL/FS] write FAIL r=%d\n" =
        ascii "[KERNEL/FS] write FAIL r=" ++ 0x25 :: 0x64 :: (ascii "\n" ++ []) := by decide +kernel
    rw [if_neg h0, hfmt]
    exact iff_of_true (report_int_inside (by simp [ascii]) (by simp [ascii]) (by simp [ascii]) _ _)
      fun h => absurd h h0

/-- The names, sizes and contents on the volume for which the arrays of `_start` are enough. -/
structure BootFits (k : Kernel) : Prop where
  lines : ∀ fi ∈ k.rootList.1, LineFits fi
  first : ∀ k1, k.listing.2 = some k1 → k1.FirstFits k.rootList.1
  test : ∀ k2, (k.listing.andThen (showFirst k.rootList.1)).2 = some k2 → k2.TestFits

/-- The listing and the read-back write inside their arrays only, exactly if names, sizes and
contents fit. -/
theorem boot_files_inside_iff (k : Kernel) :
    (∀ w ∈ k.bootFiles.1, w.Inside) ↔ k.BootFits := by
  unfold bootFiles
  rw [Part.andThen_inside, Part.andThen_inside, listing_inside]
  simp only [showFirst_inside, showTest_inside]
  exact ⟨fun h => ⟨h.1.1, h.1.2, h.2⟩, fun h => ⟨⟨h.lines, h.first⟩, h.test⟩⟩

/-- An ATA disk with a volume at sector 64. Its root directory, cluster 5, holds a file `A` of 100
bytes in cluster 6. -/
def hundredBytes : Exfat :=
  .unmounted fun _ i =>
    match i with
    | 454 => 64
    | 510 => 0x55
    | 511 => 0xAA
    | 32771 => 0x45
    | 32772 => 0x58
    | 32773 => 0x46
    | 32774 => 0x41
    | 32775 => 0x54
    | 32848 => 1
    | 32852 => 1
    | 32856 => 10
    | 32860 => 8
    | 32864 => 5
    | 32876 => 9
    | 32878 => 1
    | 33278 => 0x55
    | 33279 => 0xAA
    | 39424 => 0x85
    | 39456 => 0xC0
    | 39459 => 1
    | 39476 => 6
    | 39480 => 100
    | 39488 => 0xC1
    | 39490 => 0x41
    | _ => 0

/-- The kernel after `exfat_init`, without a log disk. -/
def mountedHundred : Kernel where
  fs := hundredBytes.exfatInit.2
  exfatOnNvme := false
  logbuf := fun _ => 0
  loglen := 0
  logsect := 0
  logdiskOk := false
  rawWrites := []

/-- The first file is read behind the end of `fbuf`. -/
theorem first_file_past_fbuf :
    hundredBytes.exfatInit.1 = 0 ∧ ⟨.fbuf, 0, 100⟩ ∈ mountedHundred.bootFiles.1 ∧
      ¬ ∀ w ∈ mountedHundred.bootFiles.1, w.Inside := by
  decide +kernel

end Kernel

end WinDOS
