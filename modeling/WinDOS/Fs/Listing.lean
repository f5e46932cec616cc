import WinDOS.Fs.Layout
import WinDOS.Fs.NoFatChain

/-!
# Listing a directory of several clusters

`exfat_list_dir` parses each cluster on its own and takes a cluster without a file for the end of
the directory. When this gives the files of the directory.
-/

set_option autoImplicit false

namespace WinDOS

open Bytes

/-! ### The parser on a window -/

theorem parseEntries_eq_windowFiles (cb : Buf) (bpc : Nat) {max : Nat} (fuel off : Nat)
    {out : List ExfatFileInfo} (hout : out.length ≤ max) :
    parseEntries cb bpc max fuel off out =
      out ++ (windowFiles cb bpc bpc fuel off).take (max - out.length) := by
  induction fuel generalizing off out with
  | zero =>
    rw [windowFiles, List.take_nil, List.append_nil]
    rfl
  | succ fuel ih =>
    rw [parseEntries, windowFiles]
    by_cases hfull : out.length < max
    · by_cases hlt : off < bpc
      · rw [if_pos ⟨hlt, hfull⟩, if_pos hlt]
        by_cases heod : cb off = EXFAT_EOD
        · rw [if_pos heod, if_pos heod, List.take_nil, List.append_nil]
        · rw [if_neg heod, if_neg heod]
          by_cases hfile : cb off = EXFAT_FILE
          · rw [if_pos hfile, if_pos hfile]
            dsimp only
            rw [ih _ (by rw [List.length_append, List.length_singleton]; omega),
              List.append_assoc, List.length_append, List.length_singleton,
              show max - out.length = max - (out.length + 1) + 1 by omega, List.take_succ_cons]
            rfl
          · rw [if_neg hfile, if_neg hfile]
            exact ih _ hout
      · rw [if_neg fun h => hlt h.1, if_neg hlt, List.take_nil, List.append_nil]
    · rw [if_neg fun h => hfull h.2, show max - out.length = 0 by omega, List.take_zero,
        List.append_nil]

theorem nameChars_from (cb : Buf) (base p n i : Nat) (name : List Byte) :
    nameChars (from_ cb base) p n i name = nameChars cb (base + p) n i name := by
  induction n generalizing i name with
  | zero => rfl
  | succ n ih =>
    rw [nameChars, nameChars]
    dsimp only
    rw [ih, show base + p + 2 + i * 2 = base + (p + 2 + i * 2) by omega]
    rfl

theorem parseSet_from (cb : Buf) (base hi fuel p : Nat) (fi : ExfatFileInfo) :
    parseSet cb (base + hi) fuel (base + p) fi =
      (base + (parseSet (from_ cb base) hi fuel p fi).1,
        (parseSet (from_ cb base) hi fuel p fi).2) := by
  induction fuel generalizing p fi with
  | zero => rfl
  | succ fuel ih =>
    rw [parseSet, parseSet]
    by_cases hlt : p < hi
    · rw [if_pos hlt, if_pos (by omega), show from_ cb base p = cb (base + p) from rfl]
      by_cases hstream : cb (base + p) = EXFAT_STREAM
      · rw [if_pos hstream, if_pos hstream, le_from, le_from, Nat.add_assoc base p 32, ih]
        rfl
      · rw [if_neg hstream, if_neg hstream]
        by_cases hname : cb (base + p) = EXFAT_NAME
        · rw [if_pos hname, if_pos hname, nameChars_from, Nat.add_assoc base p 32, ih]
        · rw [if_neg hname, if_neg hname]
    · rw [if_neg hlt, if_neg (by omega)]

theorem windowFiles_from (cb : Buf) (base hi inner fuel off : Nat) :
    windowFiles (from_ cb base) hi inner fuel off =
      windowFiles cb (base + hi) inner fuel (base + off) := by
  induction fuel generalizing off with
  | zero => rfl
  | succ fuel ih =>
    rw [windowFiles, windowFiles]
    by_cases hlt : off < hi
    · rw [if_pos hlt, if_pos (show base + off < base + hi by omega),
        show from_ cb base off = cb (base + off) from rfl]
      by_cases heod : cb (base + off) = EXFAT_EOD
      · rw [if_pos heod, if_pos heod]
      · rw [if_neg heod, if_neg heod]
        by_cases hfile : cb (base + off) = EXFAT_FILE
        · rw [if_pos hfile, if_pos hfile]
          dsimp only
          rw [Nat.add_assoc base off 32, parseSet_from, ih]
          rfl
        · rw [if_neg hfile, if_neg hfile, ih]
          rfl
    · rw [if_neg hlt, if_neg (show ¬ base + off < base + hi by omega)]

/-- What the parser makes of cluster number `t` of the directory `dir`. -/
def clusterFiles (dir : Buf) (bpc t : Nat) : List ExfatFileInfo :=
  windowFiles dir (t * bpc + bpc) bpc bpc (t * bpc)

theorem parseDirCluster_eq (dir : Buf) {cb : Buf} {bpc t : Nat} (hdvd : 32 ∣ bpc)
    (h : ∀ i < bpc, cb i = dir (t * bpc + i)) (max : Nat) :
    parseDirCluster cb bpc max = (clusterFiles dir bpc t).take max := by
  rw [show parseDirCluster cb bpc max = parseDirCluster (from_ dir (t * bpc)) bpc max from
    parseDirCluster_congr h hdvd max]
  unfold parseDirCluster clusterFiles
  rw [parseEntries_eq_windowFiles _ _ _ _ (Nat.zero_le max), windowFiles_from]
  rfl

/-! ### The chain -/

/-- The lists from number `t` on, `k` of them, up to the first that is empty. -/
def untilNone {α : Type} (P : Nat → List α) : Nat → Nat → List α
  | 0, _ => []
  | k + 1, t => if (P t).length = 0 then [] else P t ++ untilNone P k (t + 1)

/-! ### The files of a directory -/

theorem le_of_mem_filesAt {off : Nat} {items : List DirItem} {a : Nat × FileRec}
    (ha : a ∈ filesAt off items) : off ≤ a.1 := by
  induction items generalizing off with
  | nil => cases ha
  | cons item items ih =>
    cases item with
    | other => exact Nat.le_trans (Nat.le_add_right off 32) (ih ha)
    | file r =>
      rcases List.mem_cons.mp ha with rfl | ha
      · exact Nat.le_refl off
      · exact Nat.le_trans (Nat.le_add_right off r.setBytes) (ih ha)

theorem le_endAt (off : Nat) (items : List DirItem) : off ≤ endAt off items := by
  induction items generalizing off with
  | nil => exact Nat.le_refl off
  | cons item items ih =>
    cases item with
    | other => exact Nat.le_trans (Nat.le_add_right off 32) (ih _)
    | file r => exact Nat.le_trans (Nat.le_add_right off r.setBytes) (ih _)

/-- The files and the end of a directory of `n` clusters lie so that the clusters from number
`first` on can be parsed one by one. -/
structure Readable (dir : Buf) (bpc n max first : Nat) (files : List (Nat × FileRec)) (fin : Nat) :
    Prop where
  /-- Every entry set lies in one cluster. -/
  whole : ∀ a ∈ files, a.1 / bpc = (a.1 + a.2.setBytes - 1) / bpc
  /-- The byte the driver looks at has the directory bit. -/
  flags : ∀ a ∈ files, decide (dir (a.1 + 2) &&& 0x10 ≠ 0) = a.2.isDir
  /-- No cluster before a file is without a file. -/
  filled : ∀ a ∈ files, ∀ t, first ≤ t → t < a.1 / bpc → ∃ b ∈ files, b.1 / bpc = t
  /-- If there is room and the cluster with the end has a file, the next one has none. -/
  stops : files.length < max → fin < n * bpc → (∃ a ∈ files, a.1 / bpc = fin / bpc) →
    fin / bpc + 1 < n → NoFile dir ((fin / bpc + 1) * bpc) ((fin / bpc + 1) * bpc + bpc)

theorem readable_nil (dir : Buf) (bpc n max first fin : Nat) :
    Readable dir bpc n max first [] fin :=
  ⟨fun _ ha => absurd ha List.not_mem_nil, fun _ ha => absurd ha List.not_mem_nil,
    fun _ ha => absurd ha List.not_mem_nil, fun _ _ ⟨_, ha, _⟩ => absurd ha List.not_mem_nil⟩

theorem seen_eq_info_iff (dir : Buf) (a : Nat × FileRec) :
    seen dir a = a.2.info ↔ decide (dir (a.1 + 2) &&& 0x10 ≠ 0) = a.2.isDir :=
  ⟨fun h => congrArg ExfatFileInfo.isDir h, fun h => by unfold seen; rw [h]; rfl⟩

theorem map_seen_iff (dir : Buf) (files : List (Nat × FileRec)) :
    files.map (seen dir) = files.map (fun a => a.2.info) ↔
      ∀ a ∈ files, decide (dir (a.1 + 2) &&& 0x10 ≠ 0) = a.2.isDir := by
  rw [List.map_inj_left]
  exact forall₂_congr fun a _ => seen_eq_info_iff dir a

theorem div_of_window {o t bpc : Nat} (h0 : t * bpc ≤ o) (h1 : o < t * bpc + bpc) : o / bpc = t :=
  Nat.div_eq_of_lt_le h0 (by rwa [Nat.succ_mul])

theorem le_div_of_le {o t bpc : Nat} (hbpc : 0 < bpc) (h : t * bpc ≤ o) : t ≤ o / bpc :=
  (Nat.le_div_iff_mul_le hbpc).mpr h

theorem untilNone_eq_nil_iff {α : Type} (P : Nat → List α) (k t : Nat) :
    untilNone P k t = [] ↔ k = 0 ∨ P t = [] := by
  cases k with
  | zero => exact iff_of_true rfl (.inl rfl)
  | succ k =>
    rw [untilNone, or_iff_right (Nat.succ_ne_zero k)]
    by_cases hnone : (P t).length = 0
    · rw [if_pos hnone]
      exact iff_of_true rfl (List.length_eq_zero_iff.mp hnone)
    · rw [if_neg hnone]
      exact iff_of_false (fun h => hnone (by rw [(List.append_eq_nil_iff.mp h).1]; rfl))
        fun h => hnone (by rw [h]; rfl)

theorem take_append_eq_iff {α : Type} {l l' more : List α} {m : Nat} (hlen : l.length = l'.length)
    (hm : l.length ≤ m) {rest : List α} :
    (l ++ more).take m = l' ++ rest ↔ l = l' ∧ more.take (m - l.length) = rest := by
  rw [List.take_append, List.take_of_length_le hm]
  exact ⟨fun h => List.append_inj h hlen, fun h => by rw [h.2, h.1]⟩

section Listed

variable {dir : Buf} {bpc n : Nat}

/-- The files of cluster number `t` in front of those of the clusters after it. -/
theorem readable_append {t m fin : Nat} {inside files : List (Nat × FileRec)} (hne : inside ≠ [])
    (hinside : ∀ a ∈ inside, a.1 / bpc = t ∧ (a.1 + a.2.setBytes - 1) / bpc = t)
    (hfin : t + 1 ≤ fin / bpc) :
    Readable dir bpc n m t (inside ++ files) fin ↔
      (∀ a ∈ inside, decide (dir (a.1 + 2) &&& 0x10 ≠ 0) = a.2.isDir) ∧
        Readable dir bpc n (m - inside.length) (t + 1) files fin := by
  constructor
  · intro h
    refine ⟨fun a ha => h.flags a (List.mem_append_left files ha),
      fun a ha => h.whole a (List.mem_append_right inside ha),
      fun a ha => h.flags a (List.mem_append_right inside ha), fun a ha t' h0 h1 => ?_,
      fun hroom hend hlast hnext => ?_⟩
    · obtain ⟨b, hb, hbt⟩ := h.filled a (List.mem_append_right inside ha) t' (by omega) h1
      rcases List.mem_append.mp hb with hb | hb
      · have := (hinside b hb).1
        omega
      · exact ⟨b, hb, hbt⟩
    · obtain ⟨a, ha, hat⟩ := hlast
      exact h.stops (by rw [List.length_append]; omega) hend
        ⟨a, List.mem_append_right inside ha, hat⟩ hnext
  · rintro ⟨hflags, h⟩
    refine ⟨fun a ha => ?_, fun a ha => ?_, fun a ha t' h0 h1 => ?_,
      fun hroom hend hlast hnext => ?_⟩
    · rcases List.mem_append.mp ha with ha | ha
      · rw [(hinside a ha).1, (hinside a ha).2]
      · exact h.whole a ha
    · rcases List.mem_append.mp ha with ha | ha
      · exact hflags a ha
      · exact h.flags a ha
    · rcases List.mem_append.mp ha with ha | ha
      · have := (hinside a ha).1
        omega
      · by_cases hat : t' = t
        · obtain ⟨b, hb⟩ := List.exists_mem_of_ne_nil inside hne
          exact ⟨b, List.mem_append_left files hb, (hinside b hb).1.trans hat.symm⟩
        · obtain ⟨b, hb, hbt⟩ := h.filled a ha t' (by omega) h1
          exact ⟨b, List.mem_append_right inside hb, hbt⟩
    · obtain ⟨a, ha, hat⟩ := hlast
      rw [List.length_append] at hroom
      rcases List.mem_append.mp ha with ha | ha
      · have := (hinside a ha).1
        omega
      · exact h.stops (by omega) hend ⟨a, ha, hat⟩ hnext

theorem clusterFiles_eq_nil_iff (t : Nat) :
    clusterFiles dir bpc t = [] ↔ NoFile dir (t * bpc) (t * bpc + bpc) :=
  windowFiles_eq_nil_iff (Nat.le_refl _)

theorem listed_of_end {k t m fin : Nat} {files : List (Nat × FileRec)} (hk : t + (k + 1) = n)
    (hm : files.length ≤ m) (hP : clusterFiles dir bpc t = files.map (seen dir))
    (hin : ∀ a ∈ files, a.1 / bpc = t ∧ (a.1 + a.2.setBytes - 1) / bpc = t)
    (hfin : fin / bpc = t) (hend : fin < n * bpc) :
    (untilNone (clusterFiles dir bpc) (k + 1) t).take m = files.map (fun a => a.2.info) ↔
      Readable dir bpc n m t files fin := by
  rw [untilNone, hP, List.length_map]
  by_cases hnone : files.length = 0
  · rw [if_pos hnone, List.take_nil, List.length_eq_zero_iff.mp hnone]
    exact iff_of_true rfl (readable_nil ..)
  · rw [if_neg hnone, ← List.append_nil (files.map fun a => a.2.info),
      take_append_eq_iff (by rw [List.length_map, List.length_map]) (by rwa [List.length_map]),
      map_seen_iff, List.length_map, List.take_eq_nil_iff, untilNone_eq_nil_iff,
      clusterFiles_eq_nil_iff]
    constructor
    · rintro ⟨hflags, hstop⟩
      refine ⟨fun a ha => by rw [(hin a ha).1, (hin a ha).2], hflags,
        fun a ha t' h0 h1 => ?_, fun hroom _ _ hmore => ?_⟩
      · have := (hin a ha).1
        omega
      · rw [hfin] at hmore ⊢
        rcases hstop with hfull | hlast | hnofile
        · omega
        · omega
        · exact hnofile
    · intro hr
      refine ⟨hr.flags, ?_⟩
      by_cases hfull : m - files.length = 0
      · exact .inl hfull
      by_cases hlast : k = 0
      · exact .inr (.inl hlast)
      obtain ⟨a, ha⟩ := List.exists_mem_of_length_pos (Nat.pos_of_ne_zero hnone)
      have hstops := hr.stops (by omega) hend ⟨a, ha, (hin a ha).1.trans hfin.symm⟩
        (by rw [hfin]; omega)
      rw [hfin] at hstops
      exact .inr (.inr hstops)

/-- Cluster number `t` ends between two items, and the clusters after it give their files exactly
if they can be read. -/
theorem listed_of_between {k t m fin : Nat} {inside files : List (Nat × FileRec)}
    (hm : inside.length + files.length ≤ m) (hP : clusterFiles dir bpc t = inside.map (seen dir))
    (hin : ∀ a ∈ inside, a.1 / bpc = t ∧ (a.1 + a.2.setBytes - 1) / bpc = t)
    (hlater : ∀ a ∈ files, t + 1 ≤ a.1 / bpc) (hfin : t + 1 ≤ fin / bpc)
    (hrest : ∀ m', files.length ≤ m' →
      ((untilNone (clusterFiles dir bpc) k (t + 1)).take m' = files.map (fun a => a.2.info) ↔
        Readable dir bpc n m' (t + 1) files fin)) :
    (untilNone (clusterFiles dir bpc) (k + 1) t).take m =
        (inside ++ files).map (fun a => a.2.info) ↔
      Readable dir bpc n m t (inside ++ files) fin := by
  rw [untilNone, hP, List.length_map]
  by_cases hnone : inside.length = 0
  · rw [if_pos hnone, List.take_nil, List.length_eq_zero_iff.mp hnone, List.nil_append]
    constructor
    · intro hnil
      rw [List.map_eq_nil_iff.mp hnil.symm]
      exact readable_nil ..
    · intro hr
      by_contra hsome
      obtain ⟨a, ha⟩ := List.exists_mem_of_ne_nil files fun hnil => hsome (by rw [hnil]; rfl)
      -- cluster `t` has no file, but stands before one
      obtain ⟨b, hb, hbt⟩ := hr.filled a ha t (Nat.le_refl t) (hlater a ha)
      have := hlater b hb
      omega
  · rw [if_neg hnone, List.map_append,
      take_append_eq_iff (by rw [List.length_map, List.length_map])
        (by rw [List.length_map]; omega),
      map_seen_iff, List.length_map, hrest _ (by omega),
      readable_append (fun hnil => hnone (by rw [hnil]; rfl)) hin hfin]

/-- The end of cluster number `t` cuts the entry set of `a`: its name comes out too short. -/
theorem not_listed_of_cut {k t m : Nat} {inside rest : List (Nat × FileRec)} {a : Nat × FileRec}
    {fi : ExfatFileInfo} {more : List ExfatFileInfo} (hm : inside.length + (rest.length + 1) ≤ m)
    (hP : clusterFiles dir bpc t = inside.map (seen dir) ++ fi :: more)
    (hshort : fi.name.length < a.2.name.length) :
    (untilNone (clusterFiles dir bpc) (k + 1) t).take m ≠
      (inside ++ a :: rest).map (fun a => a.2.info) := by
  intro heq
  rw [untilNone, hP, if_neg (by rw [List.length_append, List.length_cons]; omega),
    List.append_assoc, List.map_append,
    take_append_eq_iff (by rw [List.length_map, List.length_map]) (by rw [List.length_map]; omega),
    List.length_map] at heq
  obtain ⟨j, hj⟩ : ∃ j, m - inside.length = j + 1 := ⟨m - inside.length - 1, by omega⟩
  have hrest := heq.2
  rw [hj, List.cons_append, List.take_succ_cons, List.map_cons] at hrest
  have hname := congrArg (fun fi => fi.name.length) (List.cons.inj hrest).1
  change fi.name.length = a.2.info.name.length at hname
  have hinfo : a.2.info.name.length = a.2.name.length := List.length_map ..
  omega

variable (hbpc : 0 < bpc) (hdvd : 32 ∣ bpc)
include hbpc

theorem index_of_window {t : Nat} {a : Nat × FileRec} (h0 : t * bpc ≤ a.1)
    (h1 : a.1 + a.2.setBytes ≤ t * bpc + bpc) :
    a.1 / bpc = t ∧ (a.1 + a.2.setBytes - 1) / bpc = t := by
  have := a.2.setBytes_pos
  exact ⟨div_of_window h0 (by omega), div_of_window (by omega) (by omega)⟩

theorem not_readable_of_cut {t m first fin : Nat} {files : List (Nat × FileRec)}
    {a : Nat × FileRec} (ha : a ∈ files) (h0 : t * bpc ≤ a.1) (h1 : a.1 < t * bpc + bpc)
    (hcut : t * bpc + bpc < a.1 + a.2.setBytes) : ¬ Readable dir bpc n m first files fin := by
  intro hr
  have hwhole := hr.whole a ha
  rw [div_of_window h0 h1] at hwhole
  have hlate : t + 1 ≤ (a.1 + a.2.setBytes - 1) / bpc :=
    le_div_of_le hbpc (by rw [Nat.add_one_mul]; omega)
  omega

include hdvd

/-- The clusters from number `t` on give the files from there on exactly if these can be read. -/
theorem listed_iff {k t m : Nat} {items : List DirItem} (hk : t + k = n)
    (h : Laid dir (n * bpc) (t * bpc) items) (hm : (filesAt (t * bpc) items).length ≤ m) :
    (untilNone (clusterFiles dir bpc) k t).take m =
        (filesAt (t * bpc) items).map (fun a => a.2.info) ↔
      Readable dir bpc n m t (filesAt (t * bpc) items) (endAt (t * bpc) items) := by
  induction k generalizing t m items with
  | zero =>
    obtain rfl : t = n := hk
    match items with
    | [] => exact iff_of_true (by rw [untilNone, List.take_nil]; rfl) (readable_nil ..)
    | .other :: _ => exact absurd h.1 (Nat.lt_irrefl _)
    | .file r :: _ =>
      have := h.1
      have := r.setBytes_pos
      omega
  | succ k ih =>
    have htotal : t * bpc + bpc ≤ n * bpc := by
      rw [← Nat.add_one_mul]
      exact Nat.mul_le_mul_right bpc (by omega)
    have hstart := le_endAt (t * bpc) items
    rcases @windowFiles_cases dir (n * bpc) (t * bpc + bpc) bpc bpc (t * bpc) items h (by omega)
      htotal (by rwa [Nat.add_sub_cancel_left]) (Nat.le_refl _) (Nat.le_refl _) with
      ⟨hend, hin, hseen⟩ | ⟨inside, rest, hfiles, hlaid, hend, hin, hseen⟩ |
      ⟨inside, a, rest, hfiles, hcut, fi, more, hseen, hshort⟩
    · exact listed_of_end hk hm hseen (fun a ha => index_of_window hbpc (hin a ha).1 (hin a ha).2)
        (div_of_window hstart hend) (by omega)
    · rw [← Nat.add_one_mul] at hfiles hlaid hend
      rw [hfiles, List.length_append] at hm
      rw [hfiles, hend]
      exact listed_of_between hm hseen
        (fun a ha => index_of_window hbpc (hin a ha).1 (hin a ha).2)
        (fun a ha => le_div_of_le hbpc (le_of_mem_filesAt ha)) (le_div_of_le hbpc (le_endAt _ _))
        fun m' hm' => ih (by omega) hlaid hm'
    · rw [hfiles, List.length_append, List.length_cons] at hm
      rw [hfiles]
      exact iff_of_false (not_listed_of_cut hm hseen hshort)
        (not_readable_of_cut hbpc (List.mem_append_right inside List.mem_cons_self) hcut.1 hcut.2.1
          hcut.2.2)

end Listed

namespace Exfat

/-- The clusters `at_ 0` to `at_ (n - 1)` are a chain in the FAT. -/
structure DirChain (fs : Exfat) (at_ : Nat → Nat) (n : Nat) : Prop where
  pos : 0 < n
  valid : ∀ k < n, 2 ≤ at_ k ∧ at_ k ≠ CHAIN_END
  next : ∀ k, k + 1 < n → fs.fatEntry (at_ k) = at_ (k + 1)
  last : fs.fatEntry (at_ (n - 1)) = CHAIN_END

theorem listLoop_chain {fs : Exfat} (hv : ReadVolume fs) {at_ : Nat → Nat} {n : Nat}
    (hchain : DirChain fs at_ n) {dir : Buf}
    (hdir : ∀ t < n, ∀ i < fs.bpc, fs.clusterBytes (at_ t) i = dir (t * fs.bpc + i))
    {max fuel k t : Nat} {out : List ExfatFileInfo} (hk : t + k = n) (hout : out.length ≤ max)
    (hfuel : max < out.length + fuel) :
    (listLoop max fuel fs (if k = 0 then CHAIN_END else at_ t) out).1 =
      out ++ (untilNone (clusterFiles dir fs.bpc) k t).take (max - out.length) := by
  obtain ⟨fuel, rfl⟩ : ∃ f, fuel = f + 1 := ⟨fuel - 1, by omega⟩
  induction k generalizing fs fuel t out with
  | zero =>
    rw [if_pos rfl, listLoop, if_neg fun h => h.2 rfl, untilNone, List.take_nil, List.append_nil]
  | succ k ih =>
    obtain ⟨gs, hread, hbpc, hnext⟩ := hv.readCluster_next (at_ t) fs.tmp
    obtain ⟨m, log, m', log', hset, hnext⟩ :=
      hnext (blit fs.tmp 0 (fs.clusterBytes (at_ t)) (fs.spc * 512))
    have hparse : parseDirCluster (blit fs.tmp 0 (fs.clusterBytes (at_ t)) (fs.spc * 512)) fs.bpc
        (max - out.length) = (clusterFiles dir fs.bpc t).take (max - out.length) :=
      parseDirCluster_eq dir hv.dvd (fun i hi => by
        have := hv.bpc
        rw [blit_in (by omega) (by omega), Nat.sub_zero]
        exact hdir t (by omega) i hi) _
    have hentry : fs.fatEntry (at_ t) = if k = 0 then CHAIN_END else at_ (t + 1) := by
      by_cases h0 : k = 0
      · rw [if_pos h0, show t = n - 1 by omega]
        exact hchain.last
      · rw [if_neg h0]
        exact hchain.next t (by omega)
    rw [if_neg (Nat.succ_ne_zero k), listLoop, if_pos (hchain.valid t (by omega)), hread]
    simp only [hset]
    rw [hbpc, hparse, hnext, hentry, untilNone]
    by_cases hnone : (clusterFiles dir fs.bpc t).length = 0
    · rw [if_pos hnone, if_pos (by rw [List.length_take]; omega), List.take_nil, List.append_nil]
    · rw [if_neg hnone]
      by_cases hfull : max - out.length = 0
      · rw [if_pos (by rw [List.length_take]; omega), hfull, List.take_zero, List.append_nil]
      · have hlen : (out ++ (clusterFiles dir fs.bpc t).take (max - out.length)).length =
            out.length + min (max - out.length) (clusterFiles dir fs.bpc t).length := by
          rw [List.length_append, List.length_take]
        rw [if_neg (by rw [List.length_take]; omega)]
        obtain ⟨fuel, rfl⟩ : ∃ f, fuel = f + 1 := ⟨fuel - 1, by omega⟩
        refine (@ih (fs.after m' (blit fs.tmp 0 (fs.clusterBytes (at_ t)) (fs.spc * 512)) log')
          (after_readVolume hv _ _ _) ⟨hchain.pos, hchain.valid, hchain.next, hchain.last⟩ hdir
          (t + 1) (out ++ (clusterFiles dir fs.bpc t).take (max - out.length)) (by omega)
          (by omega) fuel (by omega)).trans ?_
        rw [hlen, List.append_assoc, List.take_append]
        congr 3
        omega

/-- A directory on a chain of clusters is listed as it is laid out exactly if it is readable cluster
by cluster. -/
theorem list_dir_iff {fs : Exfat} (hv : ReadVolume fs) {at_ : Nat → Nat} {n : Nat}
    (hchain : DirChain fs at_ n) {items : List DirItem}
    (hlaid : Laid (fs.chainBytes at_) (n * fs.bpc) 0 items) {max : Nat}
    (hmax : (filesAt 0 items).length ≤ max) :
    (fs.exfatListDir (at_ 0) max).1 = (filesAt 0 items).map (fun a => a.2.info) ↔
      Readable (fs.chainBytes at_) fs.bpc n max 0 (filesAt 0 items) (endAt 0 items) := by
  have hbpc := hv.bpc_pos
  have hdir : ∀ t < n, ∀ i < fs.bpc,
      fs.clusterBytes (at_ t) i = fs.chainBytes at_ (t * fs.bpc + i) := fun t _ i hi => by
    unfold chainBytes
    rw [Nat.mul_comm, Nat.mul_add_div hbpc, Nat.div_eq_of_lt hi, Nat.add_zero, Nat.mul_add_mod,
      Nat.mod_eq_of_lt hi]
  have hloop := @listLoop_chain fs hv at_ n hchain _ hdir max (max + 1) n 0 [] (Nat.zero_add n)
    (Nat.zero_le max) (by rw [List.length_nil]; omega)
  rw [if_neg (Nat.pos_iff_ne_zero.mp hchain.pos), List.nil_append, List.length_nil,
    Nat.sub_zero] at hloop
  have hlisted := @listed_iff (fs.chainBytes at_) fs.bpc n hbpc hv.dvd n 0 max items
    (Nat.zero_add n)
  rw [Nat.zero_mul] at hlisted
  rw [exfatListDir, if_pos hv.ok, hloop]
  exact hlisted hlaid hmax

/-- A volume of eight clusters of one sector, mounted from an ATA disk at sector 64, with a
directory in the clusters 5 and 6. The 16 entries of cluster 5 are deleted. In cluster 6 is the
entry set of a file of 5 bytes. -/
def deletedFirst : Exfat :=
  mounted 0 4 fun i =>
    match i with
    | 33300 => 6
    | 33304 | 33305 | 33306 | 33307 | 33308 | 33309 | 33310 | 33311 => 0xFF
    | 39936 => 0x85
    | 39937 => 2
    | 39938 => 0x4E
    | 39939 => 0x22
    | 39940 => 0x20
    | 39968 => 0xC0
    | 39969 => 1
    | 39971 => 1
    | 39976 => 5
    | 39988 => 7
    | 39992 => 5
    | 40000 => 0xC1
    | 40002 => 0x42
    | _ => if 39424 ≤ i ∧ i < 39936 ∧ i % 32 = 0 then 5 else 0

def deletedFirstItems : List DirItem :=
  List.replicate 16 .other ++ [.file ⟨7, 5, [(0x42, 0)], false⟩]

theorem deletedFirst_readVolume : ReadVolume deletedFirst :=
  ⟨⟨rfl, rfl, Nat.one_pos, rfl⟩, by decide, fun _ => ⟨rfl, rfl⟩⟩

theorem deletedFirst_dirChain : DirChain deletedFirst (fun k => 5 + k) 2 where
  pos := Nat.two_pos
  valid := by decide
  next := fun k hk => by
    obtain rfl : k = 0 := by omega
    decide +kernel
  last := by decide +kernel

theorem deletedFirst_laid :
    Laid (deletedFirst.chainBytes fun k => 5 + k) (2 * 512) 0 deletedFirstItems := by
  refine laid_others (by decide +kernel) (by decide) ⟨by decide, ?_, .inr ⟨by decide, ?_⟩⟩
  · exact
      { file := by decide +kernel
        secondaryCount := by decide +kernel
        checksum := by decide +kernel
        attributes := by decide +kernel
        stream := by decide +kernel
        nameLength := by decide +kernel
        firstCluster := by decide +kernel
        dataLen := by decide +kernel
        name := by unfold NameAt; decide +kernel
        named := by decide
        units := fun u hu => by rw [List.mem_singleton.mp hu]; decide }
  · decide +kernel

theorem list_dir_iff_deletedFirst :
    (deletedFirst.exfatListDir 5 8).1 = (filesAt 0 deletedFirstItems).map (fun a => a.2.info) ↔
      Readable (deletedFirst.chainBytes fun k => 5 + k) 512 2 8 0 (filesAt 0 deletedFirstItems)
        (endAt 0 deletedFirstItems) :=
  list_dir_iff deletedFirst_readVolume deletedFirst_dirChain deletedFirst_laid (by decide)

/-- The file after a cluster of deleted entries is not listed. -/
theorem deleted_first_not_listed :
    ReadVolume deletedFirst ∧ DirChain deletedFirst (fun k => 5 + k) 2 ∧
    Laid (deletedFirst.chainBytes fun k => 5 + k) (2 * deletedFirst.bpc) 0 deletedFirstItems ∧
    filesAt 0 deletedFirstItems = [(512, ⟨7, 5, [(0x42, 0)], false⟩)] ∧
    (deletedFirst.exfatListDir 5 8).1 = [] ∧
    (deletedFirst.exfatListDir 5 8).1 ≠ (filesAt 0 deletedFirstItems).map (fun a => a.2.info) := by
  have hnone : (deletedFirst.exfatListDir 5 8).1 = [] := by decide +kernel
  refine ⟨deletedFirst_readVolume, deletedFirst_dirChain, deletedFirst_laid, rfl, hnone, ?_⟩
  rw [hnone]
  decide

end Exfat

end WinDOS
