import WinDOS.Fs.Listing

/-!
# Searching a directory

`exfat_find` looks at the first 64 files that `exfat_list_dir` gives. When this tells whether the
directory has a file, for directories of any size on any disk.
-/

set_option autoImplicit false

namespace WinDOS

open Bytes

namespace Exfat

/-! ### The files of a directory -/

/-- The files in the first `n` clusters of the directory from cluster `c` on, as far as the driver
follows it. -/
def dirFiles : Nat → Exfat → Nat → List ExfatFileInfo
  | 0, _, _ => []
  | n + 1, fs, c =>
    if 2 ≤ c ∧ c ≠ CHAIN_END then
      match fs.readCluster c fs.tmp with
      | (false, _, _) => []
      | (true, tmp, fs) =>
        let found := windowFiles tmp fs.bpc fs.bpc fs.bpc 0
        if found.length = 0 then []
        else
          let (next, fs) := { fs with tmp := tmp }.nextCluster c
          found ++ dirFiles n fs next
    else []

theorem dirFiles_prefix (n k : Nat) (fs : Exfat) (c : Nat) :
    fs.dirFiles n c <+: fs.dirFiles (n + k) c := by
  induction n generalizing fs c with
  | zero => exact List.nil_prefix
  | succ n ih =>
    rw [Nat.succ_add, dirFiles, dirFiles]
    by_cases hc : 2 ≤ c ∧ c ≠ CHAIN_END
    · rw [if_pos hc, if_pos hc]
      rcases fs.readCluster c fs.tmp with ⟨ok, tmp, gs⟩
      cases ok with
      | false => exact List.prefix_refl _
      | true =>
        dsimp only
        by_cases hnone : (windowFiles tmp gs.bpc gs.bpc gs.bpc 0).length = 0
        · simp [hnone]
        · rw [if_neg hnone, if_neg hnone]
          exact (List.prefix_append_right_inj _).mpr (ih _ _)
    · simp [hc]

theorem parseDirCluster_eq_take (cb : Buf) (bpc max : Nat) :
    parseDirCluster cb bpc max = (windowFiles cb bpc bpc bpc 0).take max :=
  parseEntries_eq_windowFiles cb bpc bpc 0 (Nat.zero_le max)

/-- The loop with room for `max` files adds the first files of the directory. -/
theorem listLoop_eq {max fuel n : Nat} {fs : Exfat} {c : Nat} {out : List ExfatFileInfo}
    (hout : out.length ≤ max) (hfuel : max < out.length + fuel) (hn : max < out.length + n) :
    (listLoop max fuel fs c out).1 = out ++ (fs.dirFiles n c).take (max - out.length) := by
  induction fuel generalizing fs c out n with
  | zero => omega
  | succ fuel ih =>
    obtain ⟨n, rfl⟩ : ∃ m, n = m + 1 := ⟨n - 1, by omega⟩
    rw [listLoop, dirFiles]
    by_cases hc : 2 ≤ c ∧ c ≠ CHAIN_END
    · rw [if_pos hc, if_pos hc]
      rcases fs.readCluster c fs.tmp with ⟨ok, tmp, gs⟩
      cases ok with
      | false => rw [List.take_nil, List.append_nil]
      | true =>
        dsimp only
        rw [parseDirCluster_eq_take]
        by_cases hnone : (windowFiles tmp gs.bpc gs.bpc gs.bpc 0).length = 0
        · rw [if_pos hnone, if_pos (by rw [List.length_take, hnone]; exact Nat.min_zero _),
            List.take_nil, List.append_nil]
        · rw [if_neg hnone, List.length_take]
          by_cases hfull : max - out.length = 0
          · rw [if_pos (by omega), hfull, List.take_zero, List.append_nil]
          · have hlen : (out ++ (windowFiles tmp gs.bpc gs.bpc gs.bpc 0).take
                (max - out.length)).length =
                out.length + min (max - out.length) (windowFiles tmp gs.bpc gs.bpc gs.bpc 0).length :=
              by rw [List.length_append, List.length_take]
            rw [if_neg (by omega), ih (n := n) (by omega) (by omega) (by omega), hlen,
              List.append_assoc, List.take_append]
            congr 3
            omega
    · rw [if_neg hc, if_neg hc, List.take_nil, List.append_nil]

theorem list_dir_eq_take {fs : Exfat} (hok : fs.ok = true) (c : Nat) {max n : Nat} (hn : max < n) :
    (fs.exfatListDir c max).1 = (fs.dirFiles n c).take max := by
  rw [exfatListDir, if_pos hok, listLoop_eq (n := n) (Nat.zero_le max)
    (by rw [List.length_nil]; omega) (by rw [List.length_nil]; omega)]
  rfl

/-! ### The search -/

def named (fname : List Byte) (fi : ExfatFileInfo) : Bool := xstrcmp fi.name fname = 0

/-- `exfat_find` gives a file exactly if it is the first of its name in the list that
`exfat_list_dir` makes with some room, and nothing otherwise. -/
def FindRight (fs : Exfat) (dirCluster : Nat) (fname : List Byte) : Prop :=
  ∀ fi, (fs.exfatFind dirCluster fname).1 = some fi ↔
    ∃ max, (fs.exfatListDir dirCluster max).1.find? (named fname) = some fi

/-- If the directory has a file of the name, then one of its first 64 files has it. -/
def FoundEarly (fs : Exfat) (dirCluster : Nat) (fname : List Byte) : Prop :=
  ∀ n, ∀ fi ∈ fs.dirFiles n dirCluster, named fname fi = true →
    ∃ fi' ∈ (fs.dirFiles 65 dirCluster).take 64, named fname fi' = true

theorem exfatFind_listDir {fs : Exfat} (hok : fs.ok = true) (c : Nat) (fname : List Byte) :
    (fs.exfatFind c fname).1 = (fs.exfatListDir c 64).1.find? (named fname) := by
  rw [exfatFind_eq hok rfl]
  rfl

theorem list_dir_mono {fs : Exfat} (hok : fs.ok = true) (c : Nat) {max max' : Nat}
    (h : max ≤ max') : (fs.exfatListDir c max).1 <+: (fs.exfatListDir c max').1 := by
  rw [list_dir_eq_take hok c (Nat.lt_succ_of_le h), list_dir_eq_take hok c (Nat.lt_succ_self max')]
  exact List.take_prefix_take_left h

/-- The search is right exactly if it need not look beyond the 64th file. -/
theorem find_right_iff (fs : Exfat) (dirCluster : Nat) (fname : List Byte) :
    fs.FindRight dirCluster fname ↔ (fs.ok = true → fs.FoundEarly dirCluster fname) := by
  by_cases hok : fs.ok = true
  · rw [forall_prop_of_true hok]
    constructor
    · intro h n fi hfi hname
      -- a list with room for all files of the first `n` clusters
      have hlist := @list_dir_eq_take fs hok dirCluster (n + (fs.dirFiles n dirCluster).length)
        _ (Nat.lt_succ_self _)
      obtain ⟨rest, hrest⟩ :=
        fs.dirFiles_prefix n ((fs.dirFiles n dirCluster).length + 1) dirCluster
      rw [Nat.succ_eq_add_one, Nat.add_assoc n _ 1, ← hrest] at hlist
      have hmem : fi ∈ (fs.exfatListDir dirCluster (n + (fs.dirFiles n dirCluster).length)).1 := by
        rw [hlist, List.take_append]
        refine List.mem_append_left _ ?_
        rwa [List.take_of_length_le (Nat.le_add_left _ n)]
      obtain ⟨fi', hfi'⟩ := Option.isSome_iff_exists.mp (List.find?_isSome.mpr
        ⟨fi, hmem, hname⟩)
      have hfind := (h fi').mpr ⟨_, hfi'⟩
      rw [exfatFind_listDir hok, list_dir_eq_take hok dirCluster (Nat.lt_succ_self 64)] at hfind
      exact ⟨fi', List.mem_of_find?_eq_some hfind, List.find?_some hfind⟩
    · intro h fi
      rw [exfatFind_listDir hok]
      constructor
      · exact fun hfind => ⟨64, hfind⟩
      · rintro ⟨max, hfind⟩
        have hmem := List.mem_of_find?_eq_some hfind
        rw [list_dir_eq_take hok dirCluster (Nat.lt_succ_self max)] at hmem
        obtain ⟨fi', hmem', hname'⟩ := h _ fi (List.mem_of_mem_take hmem)
          (List.find?_some hfind)
        rw [← list_dir_eq_take hok dirCluster (Nat.lt_succ_self 64)] at hmem'
        obtain ⟨fi'', hfind'⟩ := Option.isSome_iff_exists.mp (List.find?_isSome.mpr
          ⟨fi', hmem', hname'⟩)
        have heq : fi'' = fi := by
          rcases Nat.le_total max 64 with hle | hle
          · exact Option.some.inj (hfind'.symm.trans
              ((list_dir_mono hok dirCluster hle).find?_eq_some hfind))
          · exact Option.some.inj
              (((list_dir_mono hok dirCluster hle).find?_eq_some hfind').symm.trans hfind)
        rw [hfind', heq]
  · refine iff_of_true (fun fi => ?_) fun h => absurd h hok
    rw [exfatFind, if_neg hok]
    refine iff_of_false (fun h => by cases h) ?_
    rintro ⟨max, hfind⟩
    rw [exfatListDir, if_neg hok] at hfind
    cases hfind

/-- A volume with clusters of 16 sectors, mounted from an ATA disk at sector 64, with a directory
in cluster 5: 64 files of the name "A" and one of the name "B". -/
def manyFiles : Exfat :=
  mounted 4 4 fun i =>
    if 62464 ≤ i ∧ i < 62464 + 65 * 96 then
      match (i - 62464) % 96 with
      | 0 => 0x85
      | 1 => 2
      | 32 => 0xC0
      | 35 => 1
      | 64 => 0xC1
      | 66 => if (i - 62464) / 96 < 64 then 0x41 else 0x42
      | _ => 0
    else if 33300 ≤ i ∧ i < 33304 then 0xFF
    else 0

/-- The 65th file is listed, and not found. -/
theorem file_not_found : (manyFiles.exfatFind 5 [0x42]).1 = none ∧
    ((manyFiles.exfatListDir 5 65).1.find? (named [0x42])).isSome = true ∧
    ¬ manyFiles.FindRight 5 [0x42] := by
  have hfind : (manyFiles.exfatFind 5 [0x42]).1 = none := by decide +kernel
  have hlist : ((manyFiles.exfatListDir 5 65).1.find? (named [0x42])).isSome = true := by
    decide +kernel
  refine ⟨hfind, hlist, fun h => ?_⟩
  obtain ⟨fi, hfi⟩ := Option.isSome_iff_exists.mp hlist
  cases hfind.symm.trans ((h fi).mpr ⟨65, hfi⟩)

end Exfat

end WinDOS
