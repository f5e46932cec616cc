import WinDOS.Boot.LogStream

/-!
# The log area

A write of the log that fails leaves the counter of written sectors, so the next flush targets
the same sectors again; one that succeeds moves the counter past them.
-/

set_option autoImplicit false

namespace WinDOS

open Bytes

namespace RawWrite

/-- One to eight sectors inside the log area. -/
def InArea (w : RawWrite) : Prop :=
  1 ≤ w.nlb ∧ w.nlb ≤ 8 ∧ LOGDISK_LBA0 ≤ w.slba ∧ w.slba + w.nlb ≤ LOGDISK_LBA0 + LOGDISK_MAX_SECT

/-- The write targets sector `s`. -/
def Targets (w : RawWrite) (s : Nat) : Prop := w.slba ≤ s ∧ s < w.slba + w.nlb

/-- What was written is on the disk. -/
def StoredIn (w : RawWrite) (k : Kernel) : Prop :=
  ∀ i < w.nlb * 512, k.fs.disks.media.data .nvme (w.slba * 512 + i) = w.buf i

end RawWrite

namespace Kernel

/-- The `nvme_rw` call of a flush. -/
def flushWrite (k : Kernel) : RawWrite :=
  ⟨LOGDISK_LBA0 + k.logsect, k.flushSize, k.logbuf,
    (k.rawWrite (LOGDISK_LBA0 + k.logsect) k.flushSize k.logbuf).1⟩

/-- The `nvme_rw` calls of some flushes; a flush without room makes none. -/
def writesOf (fl : List Kernel) : List RawWrite :=
  (fl.filter fun f => f.logsect + f.flushSize ≤ LOGDISK_MAX_SECT).map flushWrite

def logWrites (k : Kernel) (calls : List LogCall) : List RawWrite := writesOf (logFlushes k calls)

/-- The states the character loop passes through, after each flush and each character. -/
def sinkStates : Kernel → List Byte → List Kernel
  | k, [] => [k]
  | k, c :: s =>
    let k' := if k.loglen ≥ LOGDISK_BUF_SZ then k.logdiskFlush else k
    k :: k' :: if k'.loglen ≥ LOGDISK_BUF_SZ then [] else sinkStates (k'.put c) s

def LogCall.states (k : Kernel) : LogCall → List Kernel
  | .sink s _ => if k.logdiskOk then sinkStates k s else [k]
  | .flush => [k, k.logdiskFlush]

def logStates : Kernel → List LogCall → List Kernel
  | k, [] => [k]
  | k, c :: calls => LogCall.states k c ++ logStates (LogCall.run k c) calls

/-- The driver accepts commands: otherwise `nvme_rw` fails before it makes one. -/
def online (k : Kernel) : Bool := k.fs.disks.ready && k.fs.disks.queues

/-! ### One flush -/

/-- A raw write, whether it succeeds or not, changes the bytes of its sectors only. -/
theorem rawWrite_frame (k : Kernel) (slba nlb : Nat) (buf : Buf) :
    (k.rawWrite slba nlb buf).2.rawWrites = k.rawWrites ++
        (if k.online then [⟨slba, nlb, buf, (k.rawWrite slba nlb buf).1⟩] else []) ∧
    (∀ i, ¬ (slba * 512 ≤ i ∧ i < (slba + nlb) * 512) →
      (k.rawWrite slba nlb buf).2.fs.disks.media.data .nvme i =
        k.fs.disks.media.data .nvme i) ∧
    (k.rawWrite slba nlb buf).2.logsect = k.logsect ∧
    (k.rawWrite slba nlb buf).2.logdiskOk = k.logdiskOk ∧
    (k.rawWrite slba nlb buf).2.online = k.online := by
  unfold rawWrite Disks.nvmeWrite Media.write online
  by_cases hq : (k.fs.disks.ready && k.fs.disks.queues) = true
  · simp only [if_pos hq]
    cases hf : k.fs.disks.media.faults .nvme (k.fs.disks.media.issued .nvme) with
    | none =>
      refine ⟨trivial, fun i hi => ?_, trivial, trivial, trivial⟩
      simp [Media.tick, Media.store, hi]
    | some kept =>
      refine ⟨trivial, fun i hi => ?_, trivial, trivial, trivial⟩
      simp only [Media.tick, Media.store, Function.update_self]
      exact if_neg fun h => hi ⟨h.1, h.2.1⟩
  · simp only [if_neg hq]
    exact ⟨(List.append_nil _).symm, fun _ _ => trivial, trivial, trivial, trivial⟩

/-- After the flushes `fl`, with the writes `before` made before the log was started. -/
structure AreaInv (before : List RawWrite) (fl : List Kernel) (k : Kernel) : Prop where
  on : k.logdiskOk = true
  len : k.loglen ≤ LOGDISK_BUF_SZ
  sect : k.logsect ≤ LOGDISK_MAX_SECT
  inside : ∀ w ∈ writesOf fl, w.InArea
  below : ∀ w ∈ writesOf fl, w.ok = true → w.slba + w.nlb ≤ LOGDISK_LBA0 + k.logsect
  apart : (writesOf fl).Pairwise fun a b => a.ok = true → ∀ s, a.Targets s → ¬ b.Targets s
  stored : ∀ w ∈ writesOf fl, w.ok = true → w.StoredIn k
  issued : k.rawWrites = before ++ if k.online then writesOf fl else []

theorem writesOf_append (fl gl : List Kernel) : writesOf (fl ++ gl) = writesOf fl ++ writesOf gl := by
  unfold writesOf
  rw [List.filter_append, List.map_append]

theorem writesOf_room {k : Kernel} (hfits : k.Fits) : writesOf [k] = [k.flushWrite] := by
  have hroom : k.logsect + k.flushSize ≤ LOGDISK_MAX_SECT := hfits
  unfold writesOf
  rw [List.filter_cons_of_pos (by simpa using hroom), List.filter_nil, List.map_singleton]

theorem writesOf_full {k : Kernel} (hfull : ¬ k.Fits) : writesOf [k] = [] := by
  have hroom : LOGDISK_MAX_SECT < k.logsect + k.flushSize := not_le.mp hfull
  unfold writesOf
  rw [List.filter_cons_of_neg (by simpa using hroom), List.filter_nil, List.map_nil]

/-- A flush with room: the buffer is dropped in any case, the counter moves if the write succeeds. -/
theorem logdiskFlush_room {k : Kernel} (hon : k.logdiskOk = true) (hlen : k.loglen ≠ 0)
    (hfits : k.Fits) :
    k.logdiskFlush =
      { (k.rawWrite (LOGDISK_LBA0 + k.logsect) k.flushSize k.logbuf).2 with
        logsect := if k.flushWrite.ok then k.logsect + k.flushSize else k.logsect
        loglen := 0 } := by
  obtain ⟨-, -, hsect, -, -⟩ :=
    rawWrite_frame k (LOGDISK_LBA0 + k.logsect) k.flushSize k.logbuf
  rw [logdiskFlush_write hon hlen hfits (Prod.eta _).symm, hsect]
  rfl

theorem flushWrite_inArea {k : Kernel} (hlen : k.loglen ≠ 0) (hle : k.loglen ≤ LOGDISK_BUF_SZ)
    (hfits : k.Fits) : k.flushWrite.InArea := by
  unfold Fits flushSize LOGDISK_MAX_SECT at hfits
  unfold LOGDISK_BUF_SZ at hle
  unfold RawWrite.InArea flushWrite flushSize LOGDISK_LBA0 LOGDISK_MAX_SECT
  dsimp only
  omega

theorem flushWrite_stored {k : Kernel} (hok : k.flushWrite.ok = true) :
    k.flushWrite.StoredIn (k.rawWrite (LOGDISK_LBA0 + k.logsect) k.flushSize k.logbuf).2 := by
  obtain ⟨-, hdata, -⟩ := rawWrite_spec hok
  intro i hi
  unfold flushWrite at hi ⊢
  dsimp only at hi ⊢
  rw [hdata, if_pos (by omega), Nat.add_sub_cancel_left]

theorem AreaInv.flush {before : List RawWrite} {fl : List Kernel} {k : Kernel}
    (h : AreaInv before fl k) (hlen : k.loglen ≠ 0) :
    AreaInv before (fl ++ [k]) k.logdiskFlush ∧ k.logdiskFlush.loglen = 0 := by
  by_cases hfits : k.Fits
  · obtain ⟨hissued, hframe, -, hon, honline⟩ :=
      rawWrite_frame k (LOGDISK_LBA0 + k.logsect) k.flushSize k.logbuf
    have hflush := logdiskFlush_room h.on hlen hfits
    have hws : writesOf (fl ++ [k]) = writesOf fl ++ [k.flushWrite] := by
      rw [writesOf_append, writesOf_room hfits]
    have hroom : k.logsect + k.flushSize ≤ LOGDISK_MAX_SECT := hfits
    have hnew : ∀ w ∈ writesOf fl, w.ok = true → ∀ s, w.Targets s → ¬ k.flushWrite.Targets s := by
      intro w hw hok s hs ht
      have hle := (h.below w hw hok).trans ht.1
      exact absurd hs.2 (not_lt.mpr hle)
    rw [hflush]
    refine ⟨⟨hon.trans h.on, Nat.zero_le _, ?_, ?_, ?_, ?_, ?_, ?_⟩, rfl⟩
    · dsimp only
      split
      · exact hroom
      · exact h.sect
    · rw [hws, List.forall_mem_append, List.forall_mem_singleton]
      exact ⟨h.inside, flushWrite_inArea hlen h.len hfits⟩
    · rw [hws, List.forall_mem_append, List.forall_mem_singleton]
      refine ⟨fun w hw hok => (h.below w hw hok).trans ?_, fun hok => ?_⟩
      · dsimp only
        split <;> omega
      · rw [if_pos hok]
        exact (Nat.add_assoc _ _ _).le
    · rw [hws, List.pairwise_append]
      refine ⟨h.apart, List.pairwise_singleton _ _, fun w hw b hb => ?_⟩
      rw [List.mem_singleton.mp hb]
      exact hnew w hw
    · rw [hws, List.forall_mem_append, List.forall_mem_singleton]
      refine ⟨fun w hw hok i hi => ?_, fun hok => flushWrite_stored hok⟩
      have hbelow := h.below w hw hok
      refine (hframe _ ?_).trans (h.stored w hw hok i hi)
      rintro ⟨hle, -⟩
      omega
    · change (k.rawWrite _ _ _).2.rawWrites =
        before ++ if (k.rawWrite _ _ _).2.online then _ else _
      rw [hissued, h.issued, honline, hws, List.append_assoc]
      cases k.online <;> rfl
  · rw [logdiskFlush_full h.on hlen hfits]
    have hws : writesOf (fl ++ [k]) = writesOf fl := by
      rw [writesOf_append, writesOf_full hfits, List.append_nil]
    refine ⟨⟨h.on, Nat.zero_le _, h.sect, ?_, ?_, ?_, ?_, ?_⟩, rfl⟩ <;> rw [hws]
    · exact h.inside
    · exact h.below
    · exact h.apart
    · exact h.stored
    · exact h.issued

theorem AreaInv.put {before : List RawWrite} {fl : List Kernel} {k : Kernel}
    (h : AreaInv before fl k) (c : Byte) (hlen : k.loglen < LOGDISK_BUF_SZ) :
    AreaInv before fl (k.put c) :=
  ⟨h.on, hlen, h.sect, h.inside, h.below, h.apart, h.stored, h.issued⟩

/-! ### Runs -/

/-- The counters are within their bounds. -/
def Bounded (k : Kernel) : Prop := k.loglen ≤ LOGDISK_BUF_SZ ∧ k.logsect ≤ LOGDISK_MAX_SECT

theorem AreaInv.bounded {before : List RawWrite} {fl : List Kernel} {k : Kernel}
    (h : AreaInv before fl k) : k.Bounded := ⟨h.len, h.sect⟩

theorem AreaInv.sinkChars {before : List RawWrite} {fl : List Kernel} {k : Kernel}
    (h : AreaInv before fl k) (s : List Byte) :
    AreaInv before (fl ++ sinkFlushes k s) (k.sinkChars s) ∧
      ∀ u ∈ sinkStates k s, u.Bounded := by
  induction s generalizing k fl with
  | nil =>
    rw [sinkFlushes, Kernel.sinkChars, sinkStates, List.append_nil, List.forall_mem_singleton]
    exact ⟨h, h.bounded⟩
  | cons c s ih =>
    by_cases hfull : LOGDISK_BUF_SZ ≤ k.loglen
    · have hne : k.loglen ≠ 0 := fun h0 => absurd (h0 ▸ hfull) (by decide)
      obtain ⟨hflush, hzero⟩ := h.flush hne
      obtain ⟨hchars, hfl⟩ := sink_full hfull hzero c s
      have hroom : ¬ LOGDISK_BUF_SZ ≤ k.logdiskFlush.loglen := by
        rw [hzero]
        decide
      obtain ⟨hinv, hstates⟩ := ih (hflush.put c (not_le.mp hroom))
      rw [List.append_assoc, List.singleton_append] at hinv
      rw [hchars, hfl]
      refine ⟨hinv, ?_⟩
      rw [sinkStates]
      simp only [ge_iff_le, if_pos hfull, if_neg hroom, List.forall_mem_cons]
      exact ⟨h.bounded, hflush.bounded, hstates⟩
    · obtain ⟨hchars, hfl⟩ := sink_room (not_le.mp hfull) c s
      obtain ⟨hinv, hstates⟩ := ih (h.put c (not_le.mp hfull))
      rw [hchars, hfl]
      refine ⟨hinv, ?_⟩
      rw [sinkStates]
      simp only [ge_iff_le, if_neg hfull, List.forall_mem_cons]
      exact ⟨h.bounded, h.bounded, hstates⟩

theorem AreaInv.call {before : List RawWrite} {fl : List Kernel} {k : Kernel}
    (h : AreaInv before fl k) (c : LogCall) :
    AreaInv before (fl ++ LogCall.flushes k c) (LogCall.run k c) ∧
      ∀ u ∈ LogCall.states k c, u.Bounded := by
  cases c with
  | sink s hs =>
    unfold LogCall.flushes LogCall.run LogCall.states logdiskSink
    dsimp only
    rw [if_pos h.on, if_pos h.on, if_pos h.on]
    exact h.sinkChars s
  | flush =>
    unfold LogCall.flushes LogCall.run LogCall.states
    dsimp only
    simp only [List.forall_mem_cons, List.not_mem_nil, false_implies, implies_true, and_true]
    by_cases hlen : k.logdiskOk = false ∨ k.loglen = 0
    · rw [if_pos hlen, logdiskFlush_idle hlen, List.append_nil]
      exact ⟨h, h.bounded, h.bounded⟩
    · rw [if_neg hlen]
      have hflush := (h.flush (not_or.mp hlen).2).1
      exact ⟨hflush, h.bounded, hflush.bounded⟩

theorem AreaInv.run {before : List RawWrite} {fl : List Kernel} {k : Kernel}
    (h : AreaInv before fl k) (calls : List LogCall) :
    AreaInv before (fl ++ logFlushes k calls) (logRun k calls) ∧
      ∀ u ∈ logStates k calls, u.Bounded := by
  induction calls generalizing k fl with
  | nil =>
    rw [logFlushes, logStates, List.append_nil, List.forall_mem_singleton]
    exact ⟨h, h.bounded⟩
  | cons c calls ih =>
    obtain ⟨hcall, hstates⟩ := h.call c
    obtain ⟨hrun, hrest⟩ := ih hcall
    rw [logFlushes, ← List.append_assoc, logStates, List.forall_mem_append]
    exact ⟨hrun, hstates, hrest⟩

theorem areaInv_init {k : Kernel} (hready : k.logdiskInit.1 = 0) :
    AreaInv k.rawWrites [] k.logdiskInit.2 := by
  unfold logdiskInit at hready ⊢
  by_cases hr : k.fs.disks.ready = true
  · rw [if_pos hr]
    refine ⟨rfl, Nat.zero_le _, Nat.zero_le _, ?_, ?_, List.Pairwise.nil, ?_, ?_⟩
    · exact fun w hw => absurd hw List.not_mem_nil
    · exact fun w hw => absurd hw List.not_mem_nil
    · exact fun w hw => absurd hw List.not_mem_nil
    · change k.rawWrites = k.rawWrites ++ if _ then [] else []
      rw [ite_self, List.append_nil]
  · rw [if_neg hr] at hready
    exact absurd hready (show ¬ (-1 : Int) = 0 by decide)

end Kernel

open Kernel

/-- The writes of the log stay in its area, none targets a sector written before, and at the end
each of them that has succeeded is on the disk. -/
theorem log_writes_in_area {k : Kernel} (hready : k.logdiskInit.1 = 0) (calls : List LogCall) :
    (∀ w ∈ logWrites k.logdiskInit.2 calls, 1 ≤ w.nlb ∧ w.nlb ≤ 8 ∧
      2048 ≤ w.slba ∧ w.slba + w.nlb ≤ 3072) ∧
    (logWrites k.logdiskInit.2 calls).Pairwise
      (fun a b => a.ok = true → ∀ s, a.Targets s → ¬ b.Targets s) ∧
    (∀ w ∈ logWrites k.logdiskInit.2 calls, w.ok = true →
      w.StoredIn (logRun k.logdiskInit.2 calls)) ∧
    (∀ u ∈ logStates k.logdiskInit.2 calls, u.loglen ≤ 4096 ∧ u.logsect ≤ 1024) ∧
    (logRun k.logdiskInit.2 calls).rawWrites = k.rawWrites ++
      if (logRun k.logdiskInit.2 calls).online then logWrites k.logdiskInit.2 calls else [] := by
  obtain ⟨hrun, hstates⟩ := (areaInv_init hready).run calls
  rw [List.nil_append] at hrun
  exact ⟨hrun.inside, hrun.apart, hrun.stored, hstates, hrun.issued⟩

theorem log_writes_in_area_short :
    (logRun blankLog.logdiskInit.2 [.sink [0x41, 0x42] (by decide), .flush]).rawWrites.length = 1 ∧
      ∀ w ∈ logWrites blankLog.logdiskInit.2 [.sink [0x41, 0x42] (by decide), .flush],
        w.StoredIn (logRun blankLog.logdiskInit.2 [.sink [0x41, 0x42] (by decide), .flush]) :=
  ⟨rfl, fun w hw => (log_writes_in_area rfl _).2.2.1 w hw (by
    obtain rfl : w = flushWrite ((blankLog.logdiskInit.2.put 0x41).put 0x42) :=
      List.mem_singleton.mp hw
    rfl)⟩

end WinDOS
