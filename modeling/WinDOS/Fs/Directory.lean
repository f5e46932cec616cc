import WinDOS.Fs.Exfat
import Mathlib.Data.List.TakeWhile

/-!
# A directory cluster with a new entry set

What the parser makes of a cluster after `exfat_write_file` has put an entry set at its end: the
files it found before and the new one.
-/

set_option autoImplicit false

namespace WinDOS

open Bytes

/-! ### The end of a directory -/

/-- The end is the first entry, from `off` on, that is an end mark. -/
theorem dirEnd_cases (rd : Buf) {bpc fuel off : Nat} (hfuel : bpc ≤ off + fuel) (hoff : 32 ∣ off) :
    off ≤ Exfat.dirEnd rd bpc fuel off ∧ 32 ∣ Exfat.dirEnd rd bpc fuel off ∧
      (∀ o, off ≤ o → o < Exfat.dirEnd rd bpc fuel off → 32 ∣ o → rd o ≠ EXFAT_EOD) ∧
      (Exfat.dirEnd rd bpc fuel off < bpc → rd (Exfat.dirEnd rd bpc fuel off) = EXFAT_EOD) := by
  induction fuel generalizing off with
  | zero =>
    rw [Exfat.dirEnd]
    exact ⟨Nat.le_refl off, hoff, fun o h0 h1 => absurd h1 (by omega), fun h => absurd h (by omega)⟩
  | succ fuel ih =>
    rw [Exfat.dirEnd]
    by_cases hmore : rd off ≠ EXFAT_EOD ∧ off < bpc
    · rw [if_pos hmore]
      obtain ⟨hle, hdvd, hall, hend⟩ := @ih (off + 32) (by omega) (by omega)
      refine ⟨by omega, hdvd, fun o h0 h1 hdvd => ?_, hend⟩
      by_cases ho : o = off
      · rw [ho]
        exact hmore.1
      · exact hall o (by omega) h1 hdvd
    · rw [if_neg hmore]
      refine ⟨Nat.le_refl off, hoff, fun o h0 h1 => absurd h1 (by omega), fun hlt => ?_⟩
      by_contra hne
      exact hmore ⟨hne, hlt⟩

/-! ### Clusters that agree -/

theorem dirEnd_congr {rd rd' : Buf} {bpc : Nat} (h : ∀ i < bpc, rd' i = rd i) (fuel off : Nat) :
    Exfat.dirEnd rd' bpc fuel off = Exfat.dirEnd rd bpc fuel off := by
  induction fuel generalizing off with
  | zero => rfl
  | succ fuel ih =>
    rw [Exfat.dirEnd, Exfat.dirEnd, ih]
    by_cases hlt : off < bpc
    · rw [h off hlt]
    · rw [if_neg fun hmore => hlt hmore.2, if_neg fun hmore => hlt hmore.2]

theorem nameChars_congr {cb cb' : Buf} {p : Nat} (n i : Nat) (name : List Byte)
    (h : ∀ j, p + 2 + i * 2 ≤ j → j < p + 2 + (i + n) * 2 → cb' j = cb j) :
    nameChars cb' p n i name = nameChars cb p n i name := by
  induction n generalizing i name with
  | zero => rfl
  | succ n ih =>
    rw [nameChars, nameChars]
    dsimp only
    rw [h (p + 2 + i * 2) (by omega) (by omega), h (p + 2 + i * 2 + 1) (by omega) (by omega),
      ih (i + 1) _ fun j h0 h1 => h j (by omega) (by omega)]

section Agree

variable {rd rd' : Buf} {bpc B : Nat} (hbelow : ∀ i < B, rd' i = rd i)
include hbelow

/-- Up to a position where neither has a stream or name entry, the inner loop does the same. -/
theorem parseSet_congr (hB : 32 ∣ B)
    (hstop : B < bpc → rd B ≠ EXFAT_STREAM ∧ rd B ≠ EXFAT_NAME ∧ rd' B ≠ EXFAT_STREAM ∧
      rd' B ≠ EXFAT_NAME) (fuel : Nat) {p : Nat} (hp : 32 ∣ p) (hpB : p ≤ B) (fi : ExfatFileInfo) :
    parseSet rd' bpc fuel p fi = parseSet rd bpc fuel p fi ∧
      p ≤ (parseSet rd bpc fuel p fi).1 ∧ (parseSet rd bpc fuel p fi).1 ≤ B ∧
      32 ∣ (parseSet rd bpc fuel p fi).1 := by
  induction fuel generalizing p fi with
  | zero => exact ⟨rfl, Nat.le_refl p, hpB, hp⟩
  | succ fuel ih =>
    rw [parseSet, parseSet]
    by_cases hlt : p < bpc
    · rw [if_pos hlt, if_pos hlt]
      by_cases hat : p = B
      · obtain ⟨h0, h1, h2, h3⟩ := hstop (by omega)
        rw [hat, if_neg h0, if_neg h1, if_neg h2, if_neg h3]
        exact ⟨rfl, Nat.le_refl B, Nat.le_refl B, hB⟩
      · have hentry : ∀ i, p ≤ i → i < p + 32 → rd' i = rd i := fun i h0 h1 => hbelow i (by omega)
        rw [hentry p (by omega) (by omega), le_congr fun i h0 h1 => hentry i (by omega) (by omega),
          le_congr fun i h0 h1 => hentry i (by omega) (by omega),
          nameChars_congr 15 0 fi.name fun j h0 h1 => hentry j (by omega) (by omega)]
        by_cases hstream : rd p = EXFAT_STREAM
        · rw [if_pos hstream, if_pos hstream]
          obtain ⟨heq, h0, h1, h2⟩ := @ih (p + 32) (by omega) (by omega)
            { fi with firstCluster := le rd (p + 20) 4, dataLen := le rd (p + 24) 8 }
          exact ⟨heq, by omega, h1, h2⟩
        · rw [if_neg hstream, if_neg hstream]
          by_cases hname : rd p = EXFAT_NAME
          · rw [if_pos hname, if_pos hname]
            obtain ⟨heq, h0, h1, h2⟩ := @ih (p + 32) (by omega) (by omega)
              { fi with name := nameChars rd p 15 0 fi.name }
            exact ⟨heq, by omega, h1, h2⟩
          · rw [if_neg hname, if_neg hname]
            exact ⟨rfl, Nat.le_refl p, hpB, hp⟩
    · rw [if_neg hlt, if_neg hlt]
      exact ⟨rfl, Nat.le_refl p, hpB, hp⟩

theorem newFileInfo_congr {off : Nat} (hoff : off + 32 ≤ B) :
    newFileInfo rd' off = newFileInfo rd off := by
  unfold newFileInfo
  rw [hbelow (off + 2) (by omega)]

end Agree

/-- The parser looks at the cluster only. -/
theorem parseEntries_congr {rd rd' : Buf} {bpc : Nat} (h : ∀ i < bpc, rd' i = rd i)
    (hdvd : 32 ∣ bpc) (max fuel : Nat) {off : Nat} (hoff : 32 ∣ off) (out : List ExfatFileInfo) :
    parseEntries rd' bpc max fuel off out = parseEntries rd bpc max fuel off out := by
  induction fuel generalizing off out with
  | zero => rfl
  | succ fuel ih =>
    rw [parseEntries, parseEntries]
    by_cases hmore : off < bpc ∧ out.length < max
    · rw [if_pos hmore, if_pos hmore, h off hmore.1]
      obtain ⟨heq, -, -, hp⟩ := parseSet_congr h hdvd (fun hlt => absurd hlt (Nat.lt_irrefl bpc))
        bpc (p := off + 32) (by omega) (by omega) (newFileInfo rd off)
      have hnew : newFileInfo rd' off = newFileInfo rd off := newFileInfo_congr h (by omega)
      rw [hnew, heq, @ih (off + 32) (by omega)]
      dsimp only
      rw [ih hp]
    · rw [if_neg hmore, if_neg hmore]

theorem parseDirCluster_congr {rd rd' : Buf} {bpc : Nat} (h : ∀ i < bpc, rd' i = rd i)
    (hdvd : 32 ∣ bpc) (max : Nat) : parseDirCluster rd' bpc max = parseDirCluster rd bpc max :=
  parseEntries_congr h hdvd max bpc (Nat.dvd_zero 32) []

theorem length_le_parseEntries (rd : Buf) (bpc max fuel off : Nat) (out : List ExfatFileInfo) :
    out.length ≤ (parseEntries rd bpc max fuel off out).length := by
  induction fuel generalizing off out with
  | zero => exact Nat.le_refl _
  | succ fuel ih =>
    rw [parseEntries]
    by_cases hmore : off < bpc ∧ out.length < max
    · rw [if_pos hmore]
      by_cases heod : rd off = EXFAT_EOD
      · rw [if_pos heod]
      · rw [if_neg heod]
        by_cases hfile : rd off = EXFAT_FILE
        · rw [if_pos hfile]
          have := ih (parseSet rd bpc bpc (off + 32) (newFileInfo rd off)).1
            (out ++ [(parseSet rd bpc bpc (off + 32) (newFileInfo rd off)).2])
          rw [List.length_append] at this
          exact Nat.le_trans (Nat.le_add_right _ _) this
        · rw [if_neg hfile]
          exact ih _ _
    · rw [if_neg hmore]

/-- An entry set put at the end mark `E` adds one file at the end of the list. -/
theorem parseEntries_append {rd rd' : Buf} {bpc E : Nat} (hbelow : ∀ i < E, rd' i = rd i)
    (hE : 32 ∣ E) (hroom : E + 96 ≤ bpc) (hused : ∀ o < E, 32 ∣ o → rd o ≠ EXFAT_EOD)
    (hend : rd E = EXFAT_EOD) (hfile : rd' E = EXFAT_FILE) {fi : ExfatFileInfo}
    (hset : parseSet rd' bpc bpc (E + 32) (newFileInfo rd' E) = (E + 96, fi))
    (hlast : E + 96 < bpc → rd' (E + 96) = EXFAT_EOD) (max : Nat) {fuel off : Nat}
    (hfuel : bpc ≤ off + fuel) (hoff : 32 ∣ off) (hoffE : off ≤ E) (out : List ExfatFileInfo)
    (hmax : (parseEntries rd bpc max fuel off out).length < max) :
    parseEntries rd' bpc max fuel off out = parseEntries rd bpc max fuel off out ++ [fi] := by
  induction fuel generalizing off out with
  | zero => omega
  | succ fuel ih =>
    have hout : out.length < max :=
      Nat.lt_of_le_of_lt (length_le_parseEntries rd bpc max (fuel + 1) off out) hmax
    have hmore : off < bpc ∧ out.length < max := ⟨by omega, hout⟩
    rw [parseEntries, if_pos hmore] at hmax
    rw [parseEntries, parseEntries, if_pos hmore, if_pos hmore]
    by_cases hat : off = E
    · subst hat
      rw [hend, hfile, if_neg (by decide), if_pos rfl, if_pos rfl, hset]
      cases fuel with
      | zero => rfl
      | succ fuel =>
        dsimp only
        rw [parseEntries]
        by_cases hafter : off + 96 < bpc ∧ (out ++ [fi]).length < max
        · rw [if_pos hafter, if_pos (hlast hafter.1)]
        · rw [if_neg hafter]
    · have heod : rd off ≠ EXFAT_EOD := hused off (by omega) hoff
      rw [hbelow off (by omega), if_neg heod, if_neg heod]
      rw [if_neg heod] at hmax
      by_cases hentry : rd off = EXFAT_FILE
      · rw [if_pos hentry] at hmax
        rw [if_pos hentry, if_pos hentry]
        obtain ⟨heq, h0, h1, h2⟩ := parseSet_congr hbelow hE
          (fun _ => by rw [hend, hfile]; decide) bpc (p := off + 32) (by omega) (by omega)
          (newFileInfo rd off)
        rw [newFileInfo_congr hbelow (by omega), heq]
        exact ih (by omega) h2 h1 _ hmax
      · rw [if_neg hentry] at hmax
        rw [if_neg hentry, if_neg hentry]
        exact ih (by omega) (by omega) (by omega) out hmax

/-! ### The new entry set -/

theorem putName_out {p i j : Nat} {cs : List Byte} {rd : Buf}
    (h : j < p + 2 + i * 2 ∨ p + 2 + (i + cs.length) * 2 ≤ j) : Exfat.putName p cs i rd j = rd j := by
  induction cs generalizing i rd with
  | nil => rfl
  | cons c cs ih =>
    rw [List.length_cons] at h
    rw [Exfat.putName, ih (by omega), Function.update_of_ne (by omega),
      Function.update_of_ne (by omega)]

theorem putName_in {p m : Nat} {cs : List Byte} (i : Nat) (rd : Buf) {c : Byte}
    (h : cs[m]? = some c) : Exfat.putName p cs i rd (p + 2 + (i + m) * 2) = c ∧
      Exfat.putName p cs i rd (p + 2 + (i + m) * 2 + 1) = 0 := by
  induction cs generalizing i rd m with
  | nil => cases h
  | cons a cs ih =>
    rw [Exfat.putName]
    cases m with
    | zero =>
      obtain rfl : a = c := Option.some.inj h
      rw [putName_out (by omega), putName_out (by omega), show i + 0 = i from rfl,
        Function.update_of_ne (by omega), Function.update_self, Function.update_self]
      exact ⟨rfl, rfl⟩
    | succ m =>
      have := @ih m (i + 1) (Function.update (Function.update rd (p + 2 + i * 2) a)
        (p + 2 + i * 2 + 1) 0) h
      rwa [show i + 1 + m = i + (m + 1) by omega] at this

/-- The characters of a name entry, up to the 15 it holds. -/
theorem nameChars_spec {cb : Buf} {p n i : Nat} {cs : List Byte} (hlen : cs.length ≤ n)
    (hin : ∀ m c, cs[m]? = some c → cb (p + 2 + (i + m) * 2) = c ∧ c ≠ 0)
    (hend : cs.length < n → cb (p + 2 + (i + cs.length) * 2) = 0 ∧
      cb (p + 2 + (i + cs.length) * 2 + 1) = 0) {name : List Byte}
    (hname : name.length + cs.length < 255) : nameChars cb p n i name = name ++ cs := by
  induction cs generalizing n i name with
  | nil =>
    rw [List.append_nil]
    cases n with
    | zero => rfl
    | succ n =>
      obtain ⟨h0, h1⟩ := hend (Nat.zero_lt_succ n)
      rw [List.length_nil, Nat.add_zero] at h0 h1
      rw [nameChars, if_pos (by rw [List.length_nil] at hname; omega)]
      dsimp only
      rw [if_pos ⟨h0, h1⟩]
  | cons c cs ih =>
    rw [List.length_cons] at hlen hend hname
    obtain ⟨m, rfl⟩ : ∃ m, n = m + 1 := ⟨n - 1, by omega⟩
    obtain ⟨hc, hne⟩ := hin 0 c rfl
    change cb (p + 2 + i * 2) = c at hc
    rw [nameChars, if_pos (by omega)]
    dsimp only
    rw [hc, if_neg fun h => hne h.1, ih (by omega) (fun k b hk => ?_) (fun hlt => ?_)
      (by rw [List.length_append, List.length_singleton]; omega), List.append_assoc]
    · rfl
    · have := hin (k + 1) b hk
      rwa [show i + (k + 1) = i + 1 + k by omega] at this
    · have := hend (by omega)
      rwa [show i + (cs.length + 1) = i + 1 + cs.length by omega] at this

theorem nameLen_eq {fname : List Byte} (h0 : ∀ c ∈ fname, c ≠ 0) (hlen : fname.length ≤ 255) :
    Exfat.nameLen fname = fname.length := by
  unfold Exfat.nameLen
  rw [List.takeWhile_eq_self_iff.mpr fun c hc => decide_eq_true (h0 c hc), Nat.min_eq_right hlen]

/-- The entry set without the name and the new end mark. -/
def entryHead (rd : Buf) (off nlen size freeCluster : Nat) : Buf :=
  let rd := Function.update rd off EXFAT_FILE
  let rd := Function.update rd (off + 2) 0x20
  let rd := Function.update rd (off + 32) EXFAT_STREAM
  let rd := Function.update rd (off + 32 + 3) (BitVec.ofNat 8 nlen)
  let rd := blit rd (off + 32 + 8) (leBytes size) 8
  let rd := blit rd (off + 32 + 20) (leBytes freeCluster) 4
  let rd := blit rd (off + 32 + 24) (leBytes size) 8
  Function.update rd (off + 64) EXFAT_NAME

section EntryHead

variable (rd : Buf) (off nlen size cc : Nat) {i : Nat}

theorem entryHead_out (h : i < off ∨ off + 65 ≤ i) : entryHead rd off nlen size cc i = rd i := by
  unfold entryHead
  rcases h with h | h
  · simp (disch := omega) only [Function.update_of_ne, blit_below]
  · simp (disch := omega) only [Function.update_of_ne, blit_above]

theorem entryHead_file : entryHead rd off nlen size cc off = EXFAT_FILE := by
  unfold entryHead
  simp (disch := omega) only [Function.update_of_ne, blit_below, Function.update_self]

theorem entryHead_attributes : entryHead rd off nlen size cc (off + 2) = 0x20 := by
  unfold entryHead
  simp (disch := omega) only [Function.update_of_ne, blit_below, Function.update_self]

theorem entryHead_stream : entryHead rd off nlen size cc (off + 32) = EXFAT_STREAM := by
  unfold entryHead
  simp (disch := omega) only [Function.update_of_ne, blit_below, Function.update_self]

theorem entryHead_name : entryHead rd off nlen size cc (off + 64) = EXFAT_NAME := by
  unfold entryHead
  simp (disch := omega) only [Function.update_self]

theorem entryHead_firstCluster (hcc : cc < 2 ^ 32) :
    le (entryHead rd off nlen size cc) (off + 32 + 20) 4 = cc := by
  refine (le_congr fun i h0 h1 => ?_).trans (@le_blit_leBytes rd (off + 32 + 20) cc 4 hcc)
  unfold entryHead
  simp (disch := omega) only [Function.update_of_ne, blit_below]
  rw [blit_in (by omega) (by omega), blit_in (by omega) (by omega)]

theorem entryHead_dataLen (hsize : size < 2 ^ 64) :
    le (entryHead rd off nlen size cc) (off + 32 + 24) 8 = size := by
  refine (le_congr fun i h0 h1 => ?_).trans (@le_blit_leBytes rd (off + 32 + 24) size 8 hsize)
  unfold entryHead
  simp (disch := omega) only [Function.update_of_ne]
  rw [blit_in (by omega) (by omega), blit_in (by omega) (by omega)]

end EntryHead

/-- The file that `exfat_write_file` enters. -/
def enteredFile (fname : List Byte) (size freeCluster : Nat) : ExfatFileInfo where
  firstCluster := freeCluster
  dataLen := size
  name := fname
  isDir := false

section EntrySet

variable {rd : Buf} {bpc E size cc : Nat} {fname : List Byte} (hname : ∀ c ∈ fname, c ≠ 0)
  (hlen : fname.length ≤ 255)
include hname hlen

theorem putEntrySet_below {i : Nat} (hi : i < E + 66) :
    Exfat.putEntrySet rd E fname size cc i = entryHead rd E fname.length size cc i := by
  have hnlen := nameLen_eq hname hlen
  unfold Exfat.putEntrySet
  rw [hnlen, List.take_length, Function.update_of_ne (by omega), putName_out (by omega)]
  rfl

/-- The inner loop reads the new entry set back, with the characters that one entry holds. -/
theorem parseSet_new (hroom : E + 96 ≤ bpc)
    (hzero : fname.length < 15 → ∀ i, E ≤ i → i < bpc → rd i = 0)
    (hcc : cc < 2 ^ 32) (hsize : size < 2 ^ 64) :
    parseSet (Exfat.putEntrySet rd E fname size cc) bpc bpc (E + 32)
        (newFileInfo (Exfat.putEntrySet rd E fname size cc) E) =
      (E + 96, enteredFile (fname.take 15) size cc) := by
  have hhead : ∀ i < E + 66, Exfat.putEntrySet rd E fname size cc i =
      entryHead rd E fname.length size cc i := fun i hi =>
    putEntrySet_below hname hlen hi
  have hend : E + 96 < bpc → Exfat.putEntrySet rd E fname size cc (E + 96) = EXFAT_EOD := fun _ =>
    Function.update_self ..
  have hchars : nameChars (Exfat.putEntrySet rd E fname size cc) (E + 64) 15 0 [] = fname.take 15 := by
    have hnlen := nameLen_eq hname hlen
    have hcut : (fname.take 15).length = min 15 fname.length := List.length_take
    have hput : ∀ i < E + 96, Exfat.putEntrySet rd E fname size cc i =
        Exfat.putName (E + 64) fname 0 (entryHead rd E fname.length size cc) i := fun i hi => by
      unfold Exfat.putEntrySet
      rw [hnlen, List.take_length, Function.update_of_ne (by omega)]
      rfl
    refine (@nameChars_spec _ _ 15 0 (fname.take 15) (by omega) (fun m c hc => ?_) (fun hlt => ?_) []
      (by rw [List.length_nil]; omega)).trans (List.nil_append _)
    · have hm := (List.getElem?_eq_some_iff.mp hc).1
      rw [List.getElem?_take_of_lt (by omega)] at hc
      rw [hput _ (by omega)]
      exact ⟨(putName_in 0 _ hc).1, hname c (List.mem_of_getElem? hc)⟩
    · rw [hput _ (by omega), hput _ (by omega), putName_out (by omega), putName_out (by omega),
        entryHead_out _ _ _ _ _ (by omega), entryHead_out _ _ _ _ _ (by omega)]
      exact ⟨hzero (by omega) _ (by omega) (by omega), hzero (by omega) _ (by omega) (by omega)⟩
  have hnew : newFileInfo (Exfat.putEntrySet rd E fname size cc) E = ⟨0, 0, [], false⟩ := by
    unfold newFileInfo
    rw [hhead _ (by omega), entryHead_attributes]
    rfl
  have hrun : ∀ fuel, parseSet (Exfat.putEntrySet rd E fname size cc) bpc (fuel + 3) (E + 32)
      ⟨0, 0, [], false⟩ = (E + 96, enteredFile (fname.take 15) size cc) := fun fuel => by
    rw [parseSet, if_pos (by omega), if_pos (by rw [hhead _ (by omega), entryHead_stream]),
      le_congr fun i _ h1 => hhead i (by omega), entryHead_firstCluster _ _ _ _ _ hcc,
      le_congr fun i _ h1 => hhead i (by omega), entryHead_dataLen _ _ _ _ _ hsize,
      parseSet, if_pos (by omega),
      if_neg (by rw [hhead _ (by omega), entryHead_name]; decide),
      if_pos (by rw [hhead _ (by omega), entryHead_name]), hchars, parseSet]
    by_cases hlast : E + 96 < bpc
    · rw [if_pos hlast, if_neg (by rw [hend hlast]; decide), if_neg (by rw [hend hlast]; decide)]
      rfl
    · rw [if_neg hlast]
      rfl
  have := hrun (bpc - 3)
  rwa [show bpc - 3 + 3 = bpc by omega, ← hnew] at this

end EntrySet

/-- A directory with room lists the new file after the others. Where the name does not fill its entry,
the directory is zero after its end. -/
theorem parseDirCluster_put {rd : Buf} {bpc size cc max : Nat} {fname : List Byte}
    (hdvd : 32 ∣ bpc) (hroom : Exfat.dirEnd rd bpc bpc 0 + 96 ≤ bpc)
    (hzero : fname.length < 15 → ∀ i, Exfat.dirEnd rd bpc bpc 0 ≤ i → i < bpc → rd i = 0)
    (hname : ∀ c ∈ fname, c ≠ 0) (hlen : fname.length ≤ 255) (hcc : cc < 2 ^ 32)
    (hsize : size < 2 ^ 64) (hmax : (parseDirCluster rd bpc max).length < max) :
    parseDirCluster (Exfat.putEntrySet rd (Exfat.dirEnd rd bpc bpc 0) fname size cc) bpc max =
      parseDirCluster rd bpc max ++ [enteredFile (fname.take 15) size cc] := by
  obtain ⟨-, hE, hused, hend⟩ := dirEnd_cases rd (Nat.le_add_left bpc 0)
    (Nat.dvd_zero 32)
  generalize Exfat.dirEnd rd bpc bpc 0 = E at *
  have hhead : ∀ i < E + 66, Exfat.putEntrySet rd E fname size cc i =
      entryHead rd E fname.length size cc i := fun i hi =>
    putEntrySet_below hname hlen hi
  refine parseEntries_append (fun i hi => ?_) hE hroom (fun o ho hdvd => hused o (Nat.zero_le o) ho hdvd)
    (hend (by omega)) ?_ (parseSet_new hname hlen hroom hzero hcc hsize)
    (fun _ => Function.update_self ..) max (by omega) (Nat.dvd_zero 32) (Nat.zero_le E) [] hmax
  · rw [hhead i (by omega), entryHead_out _ _ _ _ _ (.inl hi)]
  · rw [hhead E (by omega), entryHead_file]

theorem xstrcmp_self (name : List Byte) : xstrcmp name name = 0 := by
  induction name with
  | nil => rfl
  | cons c cs ih =>
    rw [xstrcmp]
    by_cases hc : c ≠ 0 ∧ c = c
    · rw [if_pos hc, ih]
    · rw [if_neg hc, Int.sub_self]

end WinDOS
