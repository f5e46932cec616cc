import WinDOS.Fs.Listing

/-!
# Entry sets in one cluster

What `parse_dir_cluster` gives back of files that have been laid out in one cluster: name, first
cluster and length as they are, the directory flag from the wrong byte.
-/

set_option autoImplicit false

namespace WinDOS

open Bytes

/-- The characters of an ASCII name as units of UTF-16. -/
def asciiUnits (name : List Byte) : List (Byte × Byte) := name.map fun c => (c, 0)

theorem info_asciiUnits (firstCluster dataLen : Nat) (name : List Byte) (isDir : Bool) :
    (FileRec.mk firstCluster dataLen (asciiUnits name) isDir).info =
      ⟨firstCluster, dataLen, name, isDir⟩ := by
  rw [FileRec.info, asciiUnits, List.map_map]
  congr 1
  exact List.map_id name

section Cluster

variable {cb : Buf} {total off fuel inner : Nat} {items : List DirItem}

/-- In a cluster that holds all items whole, the parser comes to every file. -/
theorem windowFiles_whole (h : Laid cb total off items) (hfuel : total ≤ off + fuel)
    (hinner : total ≤ off + inner) :
    windowFiles cb total inner fuel off = (filesAt off items).map (seen cb) := by
  induction items generalizing off fuel with
  | nil =>
    cases fuel with
    | zero => rfl
    | succ fuel =>
      rw [windowFiles]
      rcases h with rfl | ⟨hlt, heod⟩
      · rw [if_neg (Nat.lt_irrefl _)]
        rfl
      · rw [if_pos hlt, if_pos heod]
        rfl
  | cons item items ih =>
    cases item with
    | other =>
      obtain ⟨hlt, ⟨heod, hfile, -, -⟩, hrest⟩ := h
      obtain ⟨fuel, rfl⟩ : ∃ k, fuel = k + 1 := ⟨fuel - 1, by omega⟩
      rw [windowFiles, if_pos hlt, if_neg heod, if_neg hfile]
      exact ih hrest (by omega) (by omega)
    | file r =>
      obtain ⟨hfits, hset, hrest⟩ := h
      have hpos := r.setBytes_pos
      obtain ⟨fuel, rfl⟩ : ∃ k, fuel = k + 1 := ⟨fuel - 1, by omega⟩
      have hparse := @SetAt.parse_whole cb off total inner r hset hfits (by omega)
        fun hlast => hrest.next hlast
      rw [windowFiles, if_pos (by omega), if_neg (by rw [hset.file]; decide), if_pos hset.file]
      dsimp only
      rw [hparse]
      exact congrArg _ (ih hrest (by omega) (by omega))

/-- The first `max` files come back in order, all but the directory flag as encoded. -/
theorem parse_dir_cluster_seen (h : Laid cb total 0 items) (max : Nat) :
    parseDirCluster cb total max = ((filesAt 0 items).take max).map (seen cb) := by
  rw [parseDirCluster, parseEntries_eq_windowFiles _ _ _ _ (Nat.zero_le max),
    windowFiles_whole h (by omega) (by omega), List.map_take]
  rfl

/-- The first `max` files come back as encoded exactly if for each of them the byte that the parser
looks at, the low byte of the checksum, agrees with the directory attribute. -/
theorem parse_dir_cluster_iff (h : Laid cb total 0 items) (max : Nat) :
    parseDirCluster cb total max = ((filesAt 0 items).take max).map (fun a => a.2.info) ↔
      ∀ a ∈ (filesAt 0 items).take max, decide (cb (a.1 + 2) &&& 0x10 ≠ 0) = a.2.isDir := by
  rw [parse_dir_cluster_seen h]
  exact map_seen_iff cb _

end Cluster

/-- A cluster of 512 bytes with the entry set of a file `C` of 5 bytes. -/
def fileCluster : Buf := fun i =>
  match i with
  | 0 => 0x85
  | 1 => 2
  | 2 => 0x56
  | 3 => 0x22
  | 4 => 0x20
  | 32 => 0xC0
  | 33 => 1
  | 35 => 1
  | 40 => 5
  | 52 => 7
  | 56 => 5
  | 64 => 0xC1
  | 66 => 0x43
  | _ => 0

theorem fileCluster_laid : Laid fileCluster 512 0 [.file ⟨7, 5, asciiUnits [0x43], false⟩] :=
  ⟨by decide,
    { file := rfl
      secondaryCount := by decide
      checksum := by decide +kernel
      attributes := by decide
      stream := rfl
      nameLength := rfl
      firstCluster := by decide +kernel
      dataLen := by decide +kernel
      name := by unfold NameAt; decide +kernel
      named := by decide
      units := fun u hu => by rw [List.mem_singleton.mp hu]; decide },
    .inr ⟨by decide, rfl⟩⟩

theorem parse_dir_cluster_iff_fileCluster :
    parseDirCluster fileCluster 512 8 = [⟨7, 5, [0x43], false⟩] ↔
      ∀ a ∈ [((0 : Nat), FileRec.mk 7 5 (asciiUnits [0x43]) false)],
        decide (fileCluster (a.1 + 2) &&& 0x10 ≠ 0) = a.2.isDir :=
  parse_dir_cluster_iff fileCluster_laid 8

/-- A file that comes back as a directory. -/
theorem file_parsed_as_directory :
    Laid fileCluster 512 0 [.file ⟨7, 5, asciiUnits [0x43], false⟩] ∧
      (⟨7, 5, asciiUnits [0x43], false⟩ : FileRec).info = ⟨7, 5, [0x43], false⟩ ∧
      parseDirCluster fileCluster 512 8 = [⟨7, 5, [0x43], true⟩] :=
  ⟨fileCluster_laid, info_asciiUnits 7 5 [0x43] false, by decide +kernel⟩

end WinDOS
