import WinDOS.Fs.Directory

/-!
# Directories as the format lays them out

A directory is a sequence of entries of 32 bytes. A file takes an entry set: a file entry, a stream
entry and an entry for every 15 characters of its name. What the parser makes of a window of such
a sequence depends on whether a set lies in it whole.
-/

set_option autoImplicit false

namespace WinDOS

open Bytes

/-- A file as its entry set describes it. The name is in units of UTF-16, low byte first. -/
structure FileRec where
  firstCluster : Nat
  dataLen : Nat
  name : List (Byte × Byte)
  isDir : Bool
deriving DecidableEq

/-- An entry set, or another entry: a deleted one, a label, the bitmap and so on. -/
inductive DirItem where
  | file (r : FileRec)
  | other

def nameEntries (len : Nat) : Nat := (len + 14) / 15

namespace FileRec

/-- The bytes of an entry set up to the end of the name. -/
def setBytes (r : FileRec) : Nat := 64 + 32 * nameEntries r.name.length

/-- The record of a file: the characters of a name are kept as their low bytes. -/
def info (r : FileRec) : ExfatFileInfo where
  firstCluster := r.firstCluster
  dataLen := r.dataLen
  name := r.name.map Prod.fst
  isDir := r.isDir

theorem setBytes_pos (r : FileRec) : 64 ≤ r.setBytes := Nat.le_add_right 64 _

theorem dvd_setBytes (r : FileRec) : 32 ∣ r.setBytes := by
  unfold setBytes
  omega

end FileRec

/-- The checksum of the first `n` bytes of an entry set, without the two of the checksum. -/
def setChecksum (cb : Buf) (off : Nat) : Nat → BitVec 16
  | 0 => 0
  | n + 1 =>
    if n = 2 ∨ n = 3 then setChecksum cb off n
    else (setChecksum cb off n).rotateRight 1 + (cb (off + n)).setWidth 16

/-- The name entries of `units` from `p` on. Unused characters are 0. -/
def NameAt (cb : Buf) (p : Nat) (units : List (Byte × Byte)) : Prop :=
  ∀ t < nameEntries units.length, cb (p + 32 * t) = EXFAT_NAME ∧ ∀ m < 15,
    (cb (p + 32 * t + 2 + m * 2), cb (p + 32 * t + 2 + m * 2 + 1)) = units.getD (15 * t + m) (0, 0)

/-- The entry set of a file at `off`. Entries after the name, which a vendor may add to a set, are
in its count and its checksum only. -/
structure SetAt (cb : Buf) (off : Nat) (r : FileRec) : Prop where
  file : cb off = EXFAT_FILE
  secondaryCount : 1 + nameEntries r.name.length ≤ (cb (off + 1)).toNat
  checksum : le cb (off + 2) 2 = (setChecksum cb off (32 * ((cb (off + 1)).toNat + 1))).toNat
  attributes : decide (cb (off + 4) &&& 0x10 ≠ 0) = r.isDir
  stream : cb (off + 32) = EXFAT_STREAM
  nameLength : (cb (off + 32 + 3)).toNat = r.name.length
  firstCluster : le cb (off + 32 + 20) 4 = r.firstCluster
  dataLen : le cb (off + 32 + 24) 8 = r.dataLen
  name : NameAt cb (off + 64) r.name
  named : r.name ≠ []
  units : ∀ u ∈ r.name, u ≠ (0, 0)

/-- The directory `items` in the bytes from `off` to `total`. It ends with the first entry of type
0, or fills its clusters. -/
def Laid (cb : Buf) (total : Nat) : Nat → List DirItem → Prop
  | off, [] => off = total ∨ off < total ∧ cb off = EXFAT_EOD
  | off, .other :: items => off < total ∧
      (cb off ≠ EXFAT_EOD ∧ cb off ≠ EXFAT_FILE ∧ cb off ≠ EXFAT_STREAM ∧ cb off ≠ EXFAT_NAME) ∧
      Laid cb total (off + 32) items
  | off, .file r :: items => off + r.setBytes ≤ total ∧ SetAt cb off r ∧
      Laid cb total (off + r.setBytes) items

theorem laid_others {cb : Buf} {total off k : Nat} {items : List DirItem}
    (hother : ∀ j < k, cb (off + 32 * j) ≠ EXFAT_EOD ∧ cb (off + 32 * j) ≠ EXFAT_FILE ∧
      cb (off + 32 * j) ≠ EXFAT_STREAM ∧ cb (off + 32 * j) ≠ EXFAT_NAME)
    (hlt : off + 32 * k ≤ total) (h : Laid cb total (off + 32 * k) items) :
    Laid cb total off (List.replicate k .other ++ items) := by
  induction k generalizing off with
  | zero => exact h
  | succ k ih =>
    rw [List.replicate_succ, List.cons_append]
    refine ⟨by omega, hother 0 (Nat.succ_pos k), ih (fun j hj => ?_) (by omega) ?_⟩
    · rw [show off + 32 + 32 * j = off + 32 * (j + 1) by omega]
      exact hother (j + 1) (by omega)
    · rwa [show off + 32 + 32 * k = off + 32 * (k + 1) by omega]

/-- The files of a directory with the offsets of their sets. -/
def filesAt : Nat → List DirItem → List (Nat × FileRec)
  | _, [] => []
  | off, .other :: items => filesAt (off + 32) items
  | off, .file r :: items => (off, r) :: filesAt (off + r.setBytes) items

def endAt : Nat → List DirItem → Nat
  | off, [] => off
  | off, .other :: items => endAt (off + 32) items
  | off, .file r :: items => endAt (off + r.setBytes) items

/-! ### The name of a set -/

/-- The characters of a name entry, up to the 15 it holds. -/
theorem nameChars_units {cb : Buf} {p n i : Nat} {units : List (Byte × Byte)}
    (hlen : units.length ≤ n)
    (hin : ∀ m < n, (cb (p + 2 + (i + m) * 2), cb (p + 2 + (i + m) * 2 + 1)) = units.getD m (0, 0))
    (hne : ∀ u ∈ units, u ≠ (0, 0)) {name : List Byte} (hname : name.length + units.length ≤ 255) :
    nameChars cb p n i name = name ++ units.map Prod.fst := by
  induction n generalizing i units name with
  | zero =>
    rw [List.length_eq_zero_iff.mp (by omega : units.length = 0), List.map_nil, List.append_nil]
    rfl
  | succ n ih =>
    have hfirst : (cb (p + 2 + i * 2), cb (p + 2 + i * 2 + 1)) = units.getD 0 (0, 0) :=
      hin 0 (by omega)
    rw [nameChars]
    dsimp only
    cases units with
    | nil =>
      obtain ⟨hlo, hhi⟩ := Prod.mk.inj hfirst
      rw [List.map_nil, List.append_nil]
      by_cases hlt : name.length < 255
      · rw [if_pos hlt, if_pos ⟨hlo, hhi⟩]
      · rw [if_neg hlt]
    | cons u units =>
      rw [List.length_cons] at hlen hname
      rw [List.getD_cons_zero] at hfirst
      have hu : u ≠ (0, 0) := hne u List.mem_cons_self
      have hlo : cb (p + 2 + i * 2) = u.1 := congrArg Prod.fst hfirst
      have hhi : cb (p + 2 + i * 2 + 1) = u.2 := congrArg Prod.snd hfirst
      rw [if_pos (by omega), hlo, hhi, if_neg fun h => hu (Prod.ext h.1 h.2),
        @ih (i + 1) units (by omega) (fun m hm => ?_)
          (fun v hv => hne v (List.mem_cons_of_mem u hv)) _
          (by rw [List.length_append, List.length_singleton]; omega), List.append_assoc]
      · rfl
      · have := hin (m + 1) (by omega)
        rwa [List.getD_cons_succ, show i + (m + 1) = i + 1 + m by omega] at this

theorem NameAt.head {cb : Buf} {p : Nat} {units : List (Byte × Byte)} (h : NameAt cb p units)
    (hne : units ≠ []) (hunits : ∀ u ∈ units, u ≠ (0, 0)) {name : List Byte}
    (hname : name.length + units.length ≤ 255) :
    cb p = EXFAT_NAME ∧ nameChars cb p 15 0 name = name ++ (units.take 15).map Prod.fst ∧
      NameAt cb (p + 32) (units.drop 15) ∧
      nameEntries units.length = nameEntries (units.drop 15).length + 1 := by
  have hlen : 0 < units.length := List.length_pos_iff.mpr hne
  have hentries : nameEntries units.length = nameEntries (units.drop 15).length + 1 := by
    rw [List.length_drop]
    unfold nameEntries
    omega
  obtain ⟨htype, hchars⟩ := h 0 (by omega)
  rw [Nat.mul_zero, Nat.add_zero] at htype hchars
  refine ⟨htype, ?_, fun t ht => ?_, hentries⟩
  · refine nameChars_units (by rw [List.length_take]; omega) (fun m hm => ?_)
      (fun u hu => hunits u (List.mem_of_mem_take hu)) (by rw [List.length_take]; omega)
    rw [Nat.zero_add, hchars m hm, Nat.zero_add]
    unfold List.getD
    rw [List.getElem?_take, if_pos hm]
  · have hnext := h (t + 1) (by omega)
    rw [show p + 32 * (t + 1) = p + 32 + 32 * t by omega] at hnext
    refine ⟨hnext.1, fun m hm => ?_⟩
    rw [hnext.2 m hm]
    unfold List.getD
    rw [List.getElem?_drop, show 15 * (t + 1) + m = 15 + (15 * t + m) by omega]

/-! ### One set -/

/-- The record that the driver makes of a set that it sees whole. -/
def seen (cb : Buf) (a : Nat × FileRec) : ExfatFileInfo :=
  { a.2.info with isDir := cb (a.1 + 2) &&& 0x10 ≠ 0 }

/-- The inner loop reads all name entries of a set that ends before `hi`. -/
theorem parseSet_name {cb : Buf} {hi fuel p : Nat} {units : List (Byte × Byte)}
    (hname : NameAt cb p units) (hunits : ∀ u ∈ units, u ≠ (0, 0))
    (hin : p + 32 * nameEntries units.length ≤ hi) (hfuel : hi ≤ p + fuel)
    (hstop : p + 32 * nameEntries units.length < hi →
      cb (p + 32 * nameEntries units.length) ≠ EXFAT_STREAM ∧
        cb (p + 32 * nameEntries units.length) ≠ EXFAT_NAME)
    {fi : ExfatFileInfo} (hlen : fi.name.length + units.length ≤ 255) :
    parseSet cb hi fuel p fi = (p + 32 * nameEntries units.length,
      { fi with name := fi.name ++ units.map Prod.fst }) := by
  induction fuel generalizing p units fi with
  | zero =>
    have h0 : nameEntries units.length = 0 := by omega
    have hnil : units = [] := List.length_eq_zero_iff.mp (by unfold nameEntries at h0; omega)
    rw [h0, hnil, List.map_nil, List.append_nil]
    rfl
  | succ fuel ih =>
    rw [parseSet]
    by_cases hne : units = []
    · subst hne
      have h0 : nameEntries ([] : List (Byte × Byte)).length = 0 := rfl
      rw [h0, Nat.mul_zero, Nat.add_zero] at hstop
      rw [h0, Nat.mul_zero, Nat.add_zero, List.map_nil, List.append_nil]
      by_cases hlt : p < hi
      · rw [if_pos hlt, if_neg (hstop hlt).1, if_neg (hstop hlt).2]
        rfl
      · rw [if_neg hlt]
        rfl
    · obtain ⟨htype, hchars, hrest, hentries⟩ := hname.head hne hunits hlen
      have hsplit : p + 32 * nameEntries units.length =
          p + 32 + 32 * nameEntries (units.drop 15).length := by omega
      rw [hsplit] at hin hstop
      rw [if_pos (by omega), if_neg (by rw [htype]; decide), if_pos htype, hchars, hsplit,
        ih hrest (fun u hu => hunits u (List.mem_of_mem_drop hu)) hin (by omega) hstop
          (by rw [List.length_append, List.length_map, List.length_take, List.length_drop]; omega)]
      rw [List.append_assoc, ← List.map_append, List.take_append_drop]

/-- A set that does not end before `hi` loses characters of its name. -/
theorem parseSet_cut {cb : Buf} {hi fuel p : Nat} {units : List (Byte × Byte)}
    (hname : NameAt cb p units) (hunits : ∀ u ∈ units, u ≠ (0, 0)) (hp : p ≤ hi)
    (hdvd : 32 ∣ hi - p) (hcut : hi < p + 32 * nameEntries units.length) (hfuel : hi ≤ p + fuel)
    {fi : ExfatFileInfo} (hlen : fi.name.length + units.length ≤ 255) :
    (parseSet cb hi fuel p fi).2.name.length < fi.name.length + units.length := by
  have hpos : 0 < units.length := by
    unfold nameEntries at hcut
    omega
  induction fuel generalizing p units fi with
  | zero =>
    change fi.name.length < _
    omega
  | succ fuel ih =>
    rw [parseSet]
    by_cases hlt : p < hi
    · obtain ⟨htype, hchars, hrest, hentries⟩ :=
        hname.head (List.length_pos_iff.mp hpos) hunits hlen
      have hleft : 0 < nameEntries (units.drop 15).length := by omega
      have hdrop : 0 < (units.drop 15).length := by
        unfold nameEntries at hleft
        omega
      rw [if_pos hlt, if_neg (by rw [htype]; decide), if_pos htype, hchars]
      have hshort := @ih (p + 32) (units.drop 15) hrest
        (fun u hu => hunits u (List.mem_of_mem_drop hu)) (by omega) (by omega) (by omega) (by omega)
        { fi with name := fi.name ++ (units.take 15).map Prod.fst }
        (by rw [List.length_append, List.length_map, List.length_take, List.length_drop]; omega)
        hdrop
      rw [List.length_append, List.length_map, List.length_take, List.length_drop] at hshort
      rw [List.length_drop] at hdrop
      omega
    · rw [if_neg hlt]
      change fi.name.length < _
      omega

section Set

variable {cb : Buf} {off hi inner : Nat} {r : FileRec} (h : SetAt cb off r)
include h

theorem SetAt.short : r.name.length ≤ 255 := by
  have := h.nameLength
  have := (cb (off + 32 + 3)).isLt
  omega

theorem SetAt.parse_whole (hin : off + r.setBytes ≤ hi) (hinner : hi ≤ off + 32 + inner)
    (hstop : off + r.setBytes < hi →
      cb (off + r.setBytes) ≠ EXFAT_STREAM ∧ cb (off + r.setBytes) ≠ EXFAT_NAME) :
    parseSet cb hi inner (off + 32) (newFileInfo cb off) =
      (off + r.setBytes, seen cb (off, r)) := by
  have hend : off + r.setBytes = off + 64 + 32 * nameEntries r.name.length := by
    unfold FileRec.setBytes
    omega
  have hpos := r.setBytes_pos
  rw [hend] at hin hstop ⊢
  obtain ⟨n, rfl⟩ : ∃ n, inner = n + 1 := ⟨inner - 1, by omega⟩
  rw [parseSet, if_pos (by omega), if_pos h.stream, h.firstCluster, h.dataLen,
    parseSet_name h.name h.units hin (by omega) hstop]
  · rfl
  · have := h.short
    change 0 + r.name.length ≤ 255
    omega

theorem SetAt.parse_cut (hdvd : 32 ∣ hi - off) (hcut : hi < off + r.setBytes)
    (hinner : hi ≤ off + 32 + inner) :
    (parseSet cb hi inner (off + 32) (newFileInfo cb off)).2.name.length < r.name.length := by
  have hpos : 0 < r.name.length := List.length_pos_iff.mpr h.named
  have hshort := h.short
  by_cases hstream : off + 32 < hi
  · obtain ⟨n, rfl⟩ : ∃ n, inner = n + 1 := ⟨inner - 1, by omega⟩
    unfold FileRec.setBytes at hcut
    rw [parseSet, if_pos hstream, if_pos h.stream]
    refine Nat.lt_of_lt_of_eq (parseSet_cut h.name h.units (by omega) (by omega) (by omega)
      (by omega) ?_) (Nat.zero_add _)
    change 0 + r.name.length ≤ 255
    omega
  · cases inner with
    | zero => exact hpos
    | succ n =>
      rw [parseSet, if_neg hstream]
      exact hpos

end Set

/-! ### One window -/

/-- The outer loop of `parse_dir_cluster` without its bound, on the bytes before `hi`. -/
def windowFiles (cb : Buf) (hi inner : Nat) : Nat → Nat → List ExfatFileInfo
  | 0, _ => []
  | fuel + 1, off =>
    if off < hi then
      if cb off = EXFAT_EOD then []
      else if cb off = EXFAT_FILE then
        let s := parseSet cb hi inner (off + 32) (newFileInfo cb off)
        s.2 :: windowFiles cb hi inner fuel s.1
      else windowFiles cb hi inner fuel (off + 32)
    else []

theorem Laid.next {cb : Buf} {total off : Nat} {items : List DirItem} (h : Laid cb total off items)
    (hlt : off < total) : cb off ≠ EXFAT_STREAM ∧ cb off ≠ EXFAT_NAME := by
  match items with
  | [] =>
    rcases h with rfl | ⟨-, heod⟩
    · exact absurd hlt (Nat.lt_irrefl _)
    · rw [heod]
      decide
  | .other :: _ => exact h.2.1.2.2
  | .file _ :: _ =>
    rw [h.2.1.file]
    decide

/-- What the parser makes of a window of a directory: it comes to the end of the directory, or to
the end of the window between two items, or to a set that the end of the window cuts. -/
theorem windowFiles_cases {cb : Buf} {total hi inner fuel off : Nat} {items : List DirItem}
    (h : Laid cb total off items) (hle : off ≤ hi) (htotal : hi ≤ total) (hdvd : 32 ∣ hi - off)
    (hfuel : hi ≤ off + fuel) (hinner : hi ≤ off + inner) :
    (endAt off items < hi ∧ (∀ a ∈ filesAt off items, off ≤ a.1 ∧ a.1 + a.2.setBytes ≤ hi) ∧
      windowFiles cb hi inner fuel off = (filesAt off items).map (seen cb)) ∨
    (∃ (inside : List (Nat × FileRec)) (rest : List DirItem),
      filesAt off items = inside ++ filesAt hi rest ∧ Laid cb total hi rest ∧
      endAt off items = endAt hi rest ∧ (∀ a ∈ inside, off ≤ a.1 ∧ a.1 + a.2.setBytes ≤ hi) ∧
      windowFiles cb hi inner fuel off = inside.map (seen cb)) ∨
    ∃ (inside : List (Nat × FileRec)) (a : Nat × FileRec) (rest : List (Nat × FileRec)),
      filesAt off items = inside ++ a :: rest ∧
      (off ≤ a.1 ∧ a.1 < hi ∧ hi < a.1 + a.2.setBytes) ∧
      ∃ (fi : ExfatFileInfo) (more : List ExfatFileInfo),
        windowFiles cb hi inner fuel off = inside.map (seen cb) ++ fi :: more ∧
        fi.name.length < a.2.name.length := by
  induction items generalizing off fuel with
  | nil =>
    by_cases hat : off = hi
    · subst hat
      refine .inr (.inl ⟨[], [], rfl, h, rfl, fun a ha => absurd ha List.not_mem_nil, ?_⟩)
      cases fuel with
      | zero => rfl
      | succ fuel => exact if_neg (Nat.lt_irrefl off)
    · rcases h with rfl | ⟨-, heod⟩
      · omega
      · refine .inl ⟨by change off < hi; omega, fun a ha => absurd ha List.not_mem_nil, ?_⟩
        cases fuel with
        | zero => rfl
        | succ fuel => rw [windowFiles, if_pos (by omega), if_pos heod]; rfl
  | cons item items ih =>
    by_cases hat : off = hi
    · subst hat
      refine .inr (.inl ⟨[], item :: items, rfl, h, rfl,
        fun a ha => absurd ha List.not_mem_nil, ?_⟩)
      cases fuel with
      | zero => rfl
      | succ fuel => exact if_neg (Nat.lt_irrefl off)
    obtain ⟨fuel, rfl⟩ : ∃ k, fuel = k + 1 := ⟨fuel - 1, by omega⟩
    have hlt : off < hi := by omega
    rw [windowFiles, if_pos hlt]
    cases item with
    | other =>
      obtain ⟨-, ⟨heod, hfile, -, -⟩, hrest⟩ := h
      rw [if_neg heod, if_neg hfile]
      rcases @ih fuel (off + 32) hrest (by omega) (by omega) (by omega) (by omega) with
        ⟨hend, hin, hseen⟩ | ⟨inside, rest, hfiles, hlaid, hend, hin, hseen⟩ |
        ⟨inside, a, rest, hfiles, hcut, hseen⟩
      · exact .inl ⟨hend, fun a ha => ⟨by have := (hin a ha).1; omega, (hin a ha).2⟩, hseen⟩
      · exact .inr (.inl ⟨inside, rest, hfiles, hlaid, hend,
          fun a ha => ⟨by have := (hin a ha).1; omega, (hin a ha).2⟩, hseen⟩)
      · exact .inr (.inr ⟨inside, a, rest, hfiles, ⟨by omega, hcut.2⟩, hseen⟩)
    | file r =>
      obtain ⟨hfits, hset, hrest⟩ := h
      have hpos := r.setBytes_pos
      have hdvd' := r.dvd_setBytes
      rw [if_neg (by rw [hset.file]; decide), if_pos hset.file]
      by_cases hcut : hi < off + r.setBytes
      · exact .inr (.inr ⟨[], (off, r), filesAt (off + r.setBytes) items, rfl,
          ⟨Nat.le_refl off, hlt, hcut⟩, _, _, rfl, hset.parse_cut hdvd hcut (by omega)⟩)
      · have hparse := @SetAt.parse_whole cb off hi inner r hset (by omega) (by omega)
          fun hlast => hrest.next (by omega)
        dsimp only
        rw [hparse]
        rcases @ih fuel (off + r.setBytes) hrest (by omega) (by omega) (by omega) (by omega) with
          ⟨hend, hin, hseen⟩ | ⟨inside, rest, hfiles, hlaid, hend, hin, hseen⟩ |
          ⟨inside, a, rest, hfiles, hcut', fi, more, hseen, hshort⟩
        · refine .inl ⟨hend, fun a ha => ?_, congrArg _ hseen⟩
          rcases List.mem_cons.mp ha with rfl | ha
          · exact ⟨Nat.le_refl off, by change off + r.setBytes ≤ hi; omega⟩
          · exact ⟨by have := (hin a ha).1; omega, (hin a ha).2⟩
        · refine .inr (.inl ⟨(off, r) :: inside, rest, congrArg _ hfiles, hlaid, hend,
            fun a ha => ?_, congrArg _ hseen⟩)
          rcases List.mem_cons.mp ha with rfl | ha
          · exact ⟨Nat.le_refl off, by change off + r.setBytes ≤ hi; omega⟩
          · exact ⟨by have := (hin a ha).1; omega, (hin a ha).2⟩
        · exact .inr (.inr ⟨(off, r) :: inside, a, rest, congrArg _ hfiles, ⟨by omega, hcut'.2⟩, fi,
            more, congrArg _ hseen, hshort⟩)

/-- A window without a file: no file entry comes before the first entry of type 0. -/
def NoFile (cb : Buf) (off hi : Nat) : Prop :=
  ∀ p, off ≤ p → p < hi → 32 ∣ p - off → cb p = EXFAT_FILE →
    ∃ q, off ≤ q ∧ q < p ∧ 32 ∣ q - off ∧ cb q = EXFAT_EOD

theorem windowFiles_eq_nil_iff {cb : Buf} {hi inner fuel off : Nat} (hfuel : hi ≤ off + fuel) :
    windowFiles cb hi inner fuel off = [] ↔ NoFile cb off hi := by
  induction fuel generalizing off with
  | zero => exact iff_of_true rfl fun p h0 h1 => absurd h1 (by omega)
  | succ fuel ih =>
    rw [windowFiles]
    by_cases hlt : off < hi
    · rw [if_pos hlt]
      by_cases heod : cb off = EXFAT_EOD
      · rw [if_pos heod]
        refine iff_of_true rfl fun p h0 _ _ hfile => ?_
        have hne : p ≠ off := fun h => by
          rw [h, heod] at hfile
          exact absurd hfile (by decide)
        exact ⟨off, Nat.le_refl off, by omega, by omega, heod⟩
      · rw [if_neg heod]
        by_cases hfile : cb off = EXFAT_FILE
        · rw [if_pos hfile]
          refine iff_of_false (List.cons_ne_nil _ _) fun h => ?_
          obtain ⟨q, h0, h1, -⟩ := h off (Nat.le_refl off) hlt (by omega) hfile
          omega
        · rw [if_neg hfile, ih (by omega)]
          constructor
          · intro h p h0 h1 hdvd hp
            have hne : p ≠ off := fun h => hfile (h ▸ hp)
            obtain ⟨q, hq0, hq1, hq2, hq⟩ := h p (by omega) h1 (by omega) hp
            exact ⟨q, by omega, hq1, by omega, hq⟩
          · intro h p h0 h1 hdvd hp
            obtain ⟨q, hq0, hq1, hq2, hq⟩ := h p (by omega) h1 (by omega) hp
            have hne : q ≠ off := fun h => heod (h ▸ hq)
            exact ⟨q, by omega, hq1, by omega, hq⟩
    · rw [if_neg hlt]
      exact iff_of_true rfl fun p h0 h1 => absurd h1 (by omega)

end WinDOS
