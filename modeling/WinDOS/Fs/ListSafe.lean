import WinDOS.Fs.Listing
import WinDOS.Fs.Requests

/-!
# The memory that listing a directory touches

`exfat_list_dir` with its memory: the cluster buffer that `parse_dir_cluster` reads, the caller's
array that it writes, and the names in it. Every access is checked, and a loop that does not come
to its end has no result, so a result says that the call ends without leaving its arrays.
-/

set_option autoImplicit false

namespace WinDOS

open Bytes

/-! ### Checked accesses -/

/-- The size of `name` in `struct EXFAT_FILE_INFO`. -/
def NAME_SIZE : Nat := 300

/-- `struct EXFAT_FILE_INFO` in memory. -/
structure FileSlot where
  firstCluster : Nat
  dataLen : Nat
  name : Buf
  isDir : Bool

/-- `cb[i]` of a buffer of `size` bytes. -/
def rdByte (cb : Buf) (size i : Nat) : Option Byte := if i < size then some (cb i) else none

/-- `memcpy` of `n` bytes from `cb + i` to a number. -/
def rdNum (cb : Buf) (size i n : Nat) : Option Nat := if i + n ≤ size then some (le cb i n) else none

/-- `fi.name[i] = b`. -/
def putByte (name : Buf) (i : Nat) (b : Byte) : Option Buf :=
  if i < NAME_SIZE then some (Function.update name i b) else none

/-- `out[i] = fi` of an array of `size` entries. -/
def putSlot (out : Nat → FileSlot) (size i : Nat) (fi : FileSlot) : Option (Nat → FileSlot) :=
  if i < size then some (Function.update out i fi) else none

/-! ### The loops -/

/-- The character loop; `written` is `name_written`. -/
def charLoop (cb : Buf) (bpc p : Nat) : Nat → Nat → Buf → Nat → Option (Buf × Nat)
  | 0, _, name, written => some (name, written)
  | n + 1, i, name, written =>
    if written < 255 then
      (rdByte cb bpc (p + 2 + i * 2)).bind fun lo =>
      (rdByte cb bpc (p + 2 + i * 2 + 1)).bind fun hi =>
      if lo = 0 ∧ hi = 0 then some (name, written)
      else (putByte name written lo).bind fun name =>
        charLoop cb bpc p n (i + 1) name (written + 1)
    else some (name, written)

/-- The inner loop, up to the terminating 0 of the name. -/
def setLoop (cb : Buf) (bpc : Nat) : Nat → Nat → FileSlot → Nat → Option (Nat × FileSlot)
  | 0, _, _, _ => none
  | fuel + 1, p, fi, written =>
    let close := (putByte fi.name written 0).bind fun name => some (p, { fi with name := name })
    if p < bpc then
      (rdByte cb bpc p).bind fun t2 =>
      if t2 = EXFAT_STREAM then
        (rdNum cb bpc (p + 20) 4).bind fun firstCluster =>
        (rdNum cb bpc (p + 24) 8).bind fun dataLen =>
        (rdByte cb bpc (p + 3)).bind fun _ =>
        setLoop cb bpc fuel (p + 32)
          { fi with firstCluster := firstCluster, dataLen := dataLen } written
      else if t2 = EXFAT_NAME then
        (charLoop cb bpc p 15 0 fi.name written).bind fun r =>
        setLoop cb bpc fuel (p + 32) { fi with name := r.1 } r.2
      else close
    else close

/-- `parse_dir_cluster(cb, out + base, max)` with `count` entries so far, `out` an array of `size`
entries. -/
def entriesLoop (cb : Buf) (bpc base max size : Nat) :
    Nat → Nat → Nat → (Nat → FileSlot) → Option (Nat × (Nat → FileSlot))
  | 0, _, _, _ => none
  | fuel + 1, off, count, out =>
    if off < bpc ∧ count < max then
      (rdByte cb bpc off).bind fun type =>
      if type = EXFAT_EOD then some (count, out)
      else if type = EXFAT_FILE then
        (rdByte cb bpc (off + 2)).bind fun attributes =>
        (setLoop cb bpc bpc (off + 32) ⟨0, 0, fun _ => 0, attributes &&& 0x10 ≠ 0⟩ 0).bind fun r =>
        (putSlot out size (base + count) r.2).bind fun out =>
        entriesLoop cb bpc base max size fuel r.1 (count + 1) out
      else entriesLoop cb bpc base max size fuel (off + 32) count out
    else some (count, out)

/-- A call of `exfat_list_dir`: its result, the array, the clusters read and the driver after it. -/
structure ListCall where
  count : Nat
  out : Nat → FileSlot
  reads : Nat
  fs : Exfat

namespace Exfat

/-- The loop of `exfat_list_dir`. -/
def listInto (max : Nat) : Nat → Exfat → Nat → Nat → (Nat → FileSlot) → Nat → Option ListCall
  | 0, _, _, _, _, _ => none
  | fuel + 1, fs, cluster, count, out, reads =>
    if 2 ≤ cluster ∧ cluster ≠ CHAIN_END then
      match fs.readCluster cluster fs.tmp with
      | (false, tmp, fs) => some ⟨count, out, reads + 1, { fs with tmp := tmp }⟩
      | (true, tmp, fs) =>
        let fs := { fs with tmp := tmp }
        (entriesLoop tmp fs.bpc count (max - count) max fs.bpc 0 0 out).bind fun r =>
        if r.1 = 0 then some ⟨count, r.2, reads + 1, fs⟩
        else
          let (next, fs) := fs.nextCluster cluster
          listInto max fuel fs next (count + r.1) r.2 (reads + 1)
    else some ⟨count, out, reads, fs⟩

def listDirInto (fs : Exfat) (dirCluster max : Nat) (out : Nat → FileSlot) : Option ListCall :=
  if fs.ok then listInto max (max + 1) fs dirCluster 0 out 0 else some ⟨0, out, 0, fs⟩

end Exfat

/-! ### What is in the memory -/

/-- An array of zeros that begins with `name`. -/
def chars (name : List Byte) : Buf := fun i => name.getD i 0

def slotOf (fi : ExfatFileInfo) : FileSlot := ⟨fi.firstCluster, fi.dataLen, chars fi.name, fi.isDir⟩

/-- The array `out` with the files from index `base` on. -/
def stored (out : Nat → FileSlot) (base : Nat) (files : List ExfatFileInfo) : Nat → FileSlot :=
  fun i => if i < base then out i else (files[i - base]?.map slotOf).getD (out i)

theorem chars_append (name : List Byte) (b : Byte) :
    Function.update (chars name) name.length b = chars (name ++ [b]) := by
  funext i
  unfold chars List.getD
  by_cases hi : i = name.length
  · rw [hi, Function.update_self, List.getElem?_append_right (Nat.le_refl _), Nat.sub_self]
    rfl
  · rw [Function.update_of_ne hi]
    rcases Nat.lt_or_gt_of_ne hi with hlt | hgt
    · rw [List.getElem?_append_left hlt]
    · rw [List.getElem?_eq_none (Nat.le_of_lt hgt), List.getElem?_eq_none
        (by rw [List.length_append, List.length_singleton]; omega)]

theorem chars_end (name : List Byte) : chars name name.length = 0 := by
  unfold chars List.getD
  rw [List.getElem?_eq_none (Nat.le_refl _)]
  rfl

/-- The terminating 0 is there already. -/
theorem chars_close (name : List Byte) : Function.update (chars name) name.length 0 = chars name :=
  Function.update_eq_self_iff.mpr (chars_end name).symm

theorem stored_nil (out : Nat → FileSlot) (base : Nat) : stored out base [] = out := by
  funext i
  unfold stored
  rw [List.getElem?_nil]
  exact ite_self _

theorem stored_append (out : Nat → FileSlot) (base : Nat) (files : List ExfatFileInfo)
    (fi : ExfatFileInfo) :
    Function.update (stored out base files) (base + files.length) (slotOf fi) =
      stored out base (files ++ [fi]) := by
  funext i
  unfold stored
  by_cases hi : i = base + files.length
  · rw [hi, Function.update_self, if_neg (by omega), Nat.add_sub_cancel_left,
      List.getElem?_append_right (Nat.le_refl _), Nat.sub_self]
    rfl
  · rw [Function.update_of_ne hi]
    by_cases hbase : i < base
    · rw [if_pos hbase, if_pos hbase]
    · rw [if_neg hbase, if_neg hbase]
      rcases Nat.lt_or_gt_of_ne hi with hlt | hgt
      · rw [List.getElem?_append_left (by omega)]
      · rw [List.getElem?_eq_none (by omega), List.getElem?_eq_none
          (by rw [List.length_append, List.length_singleton]; omega)]

theorem stored_stored (out : Nat → FileSlot) (base : Nat) (files more : List ExfatFileInfo) :
    stored (stored out base files) (base + files.length) more = stored out base (files ++ more) := by
  induction more using List.reverseRecOn with
  | nil => rw [stored_nil, List.append_nil]
  | append_singleton more fi ih =>
    rw [← stored_append, ih, ← List.append_assoc, ← stored_append, List.length_append, Nat.add_assoc]

/-! ### The loops stay in their memory -/

section Loops

variable {cb : Buf} {bpc : Nat}

theorem rdByte_ok {i : Nat} (h : i < bpc) : rdByte cb bpc i = some (cb i) := if_pos h

theorem rdNum_ok {i n : Nat} (h : i + n ≤ bpc) : rdNum cb bpc i n = some (le cb i n) := if_pos h

theorem putByte_ok {name : Buf} {i : Nat} (h : i ≤ 255) (b : Byte) :
    putByte name i b = some (Function.update name i b) :=
  if_pos (Nat.lt_of_le_of_lt h (by decide))

theorem length_nameChars_le {p n i : Nat} {name : List Byte} (h : name.length ≤ 255) :
    (nameChars cb p n i name).length ≤ 255 := by
  induction n generalizing i name with
  | zero => exact h
  | succ n ih =>
    rw [nameChars]
    split
    · dsimp only
      split
      · exact h
      · exact ih (by rw [List.length_append, List.length_singleton]; omega)
    · exact h

theorem charLoop_ok {p n i : Nat} {name : List Byte} (hin : p + 32 ≤ bpc) (hn : i + n ≤ 15) :
    charLoop cb bpc p n i (chars name) name.length =
      some (chars (nameChars cb p n i name), (nameChars cb p n i name).length) := by
  induction n generalizing i name with
  | zero => rfl
  | succ n ih =>
    rw [charLoop, nameChars]
    by_cases hlt : name.length < 255
    · rw [if_pos hlt, if_pos hlt, rdByte_ok (by omega), Option.bind_some, rdByte_ok (by omega),
        Option.bind_some]
      dsimp only
      by_cases hend : cb (p + 2 + i * 2) = 0 ∧ cb (p + 2 + i * 2 + 1) = 0
      · rw [if_pos hend, if_pos hend]
      · rw [if_neg hend, if_neg hend, putByte_ok (Nat.le_of_lt hlt), Option.bind_some, chars_append]
        have hlen : (name ++ [cb (p + 2 + i * 2)]).length = name.length + 1 := by
          rw [List.length_append, List.length_singleton]
        rw [← hlen]
        exact ih (by omega)
    · rw [if_neg hlt, if_neg hlt]

/-- `fi.name[name_written] = 0` behind the inner loop. -/
theorem close_ok (p : Nat) {fi : ExfatFileInfo} (hname : fi.name.length ≤ 255) :
    ((putByte (slotOf fi).name fi.name.length 0).bind fun name =>
      some (p, { slotOf fi with name := name })) = some (p, slotOf fi) := by
  rw [putByte_ok hname, Option.bind_some]
  exact congrArg (fun name => some (p, { slotOf fi with name := name })) (chars_close fi.name)

theorem setLoop_ok (hbpc : 32 ∣ bpc) {fuel p : Nat} {fi : ExfatFileInfo} (hp : 32 ∣ p)
    (hle : p ≤ bpc) (hfuel : bpc < p + 32 * fuel) (hname : fi.name.length ≤ 255) :
    setLoop cb bpc fuel p (slotOf fi) fi.name.length =
        some ((parseSet cb bpc fuel p fi).1, slotOf (parseSet cb bpc fuel p fi).2) ∧
      32 ∣ (parseSet cb bpc fuel p fi).1 ∧ p ≤ (parseSet cb bpc fuel p fi).1 ∧
      (parseSet cb bpc fuel p fi).1 ≤ bpc := by
  induction fuel generalizing p fi with
  | zero => omega
  | succ fuel ih =>
    rw [setLoop, parseSet, close_ok p hname]
    by_cases hlt : p < bpc
    · have hin : p + 32 ≤ bpc := by omega
      rw [if_pos hlt, if_pos hlt, rdByte_ok hlt, Option.bind_some]
      by_cases hstream : cb p = EXFAT_STREAM
      · rw [if_pos hstream, if_pos hstream, rdNum_ok (by omega), Option.bind_some,
          rdNum_ok (by omega), Option.bind_some, rdByte_ok (by omega), Option.bind_some]
        obtain ⟨hrun, hdvd, hge, hend⟩ := @ih (p + 32)
          { fi with firstCluster := le cb (p + 20) 4, dataLen := le cb (p + 24) 8 } (by omega) hin
          (by omega) hname
        exact ⟨hrun, hdvd, by omega, hend⟩
      · rw [if_neg hstream, if_neg hstream]
        by_cases hentry : cb p = EXFAT_NAME
        · rw [if_pos hentry, if_pos hentry, show (slotOf fi).name = chars fi.name from rfl,
            charLoop_ok hin (by omega), Option.bind_some]
          obtain ⟨hrun, hdvd, hge, hend⟩ := @ih (p + 32)
            { fi with name := nameChars cb p 15 0 fi.name } (by omega) hin (by omega)
            (length_nameChars_le hname)
          exact ⟨hrun, hdvd, by omega, hend⟩
        · rw [if_neg hentry, if_neg hentry]
          exact ⟨rfl, hp, Nat.le_refl p, hle⟩
    · rw [if_neg hlt, if_neg hlt]
      exact ⟨rfl, hp, Nat.le_refl p, hle⟩

theorem parseSet_name_le {fuel p : Nat} {fi : ExfatFileInfo} (hname : fi.name.length ≤ 255) :
    (parseSet cb bpc fuel p fi).2.name.length ≤ 255 := by
  induction fuel generalizing p fi with
  | zero => exact hname
  | succ fuel ih =>
    rw [parseSet]
    split
    · split
      · exact @ih _ _ hname
      · split
        · exact @ih _ _ (length_nameChars_le hname)
        · exact hname
    · exact hname

theorem parseEntries_names {max fuel off : Nat} {files : List ExfatFileInfo}
    (h : ∀ fi ∈ files, fi.name.length ≤ 255) :
    ∀ fi ∈ parseEntries cb bpc max fuel off files, fi.name.length ≤ 255 := by
  induction fuel generalizing off files with
  | zero => exact h
  | succ fuel ih =>
    rw [parseEntries]
    split
    · split
      · exact h
      · split
        · refine ih fun fi hfi => ?_
          rcases List.mem_append.mp hfi with hfi | hfi
          · exact h fi hfi
          · rw [List.mem_singleton.mp hfi]
            exact parseSet_name_le (Nat.zero_le 255)
        · exact ih h
    · exact h

/-- The array gets the files that `parse_dir_cluster` adds to those before. -/
theorem entriesLoop_ok (hbpc : 32 ∣ bpc) (hpos : 0 < bpc) {base max size fuel off : Nat}
    {files : List ExfatFileInfo} (out : Nat → FileSlot) (hoff : 32 ∣ off) (hle : off ≤ bpc)
    (hfuel : bpc < off + 32 * fuel) (hsize : base + max ≤ size) :
    entriesLoop cb bpc base max size fuel off files.length (stored out base files) =
      some ((parseEntries cb bpc max fuel off files).length,
        stored out base (parseEntries cb bpc max fuel off files)) := by
  induction fuel generalizing off files with
  | zero => omega
  | succ fuel ih =>
    rw [entriesLoop, parseEntries]
    by_cases hmore : off < bpc ∧ files.length < max
    · rw [if_pos hmore, if_pos hmore, rdByte_ok hmore.1, Option.bind_some]
      by_cases heod : cb off = EXFAT_EOD
      · rw [if_pos heod, if_pos heod]
      · rw [if_neg heod, if_neg heod]
        by_cases hfile : cb off = EXFAT_FILE
        · rw [if_pos hfile, if_pos hfile, rdByte_ok (by omega), Option.bind_some]
          obtain ⟨hrun, hdvd, hge, hend⟩ := @setLoop_ok cb bpc hbpc bpc (off + 32)
            (newFileInfo cb off) (by omega) (by omega) (by omega) (Nat.zero_le 255)
          have hslot : slotOf (newFileInfo cb off) =
              ⟨0, 0, fun _ => 0, cb (off + 2) &&& 0x10 ≠ 0⟩ := rfl
          rw [← hslot, show 0 = (newFileInfo cb off).name.length from rfl, hrun, Option.bind_some]
          dsimp only
          rw [putSlot, if_pos (by omega), Option.bind_some, stored_append,
            ← List.length_singleton (a := (parseSet cb bpc bpc (off + 32) (newFileInfo cb off)).2),
            ← List.length_append]
          exact ih hdvd hend (by omega)
        · rw [if_neg hfile, if_neg hfile]
          exact ih (by omega) (by omega) (by omega)
    · rw [if_neg hmore, if_neg hmore]

end Loops

namespace Exfat

theorem listInto_succ {max : Nat} {fs : Exfat} {c : Nat} (hc : 2 ≤ c ∧ c ≠ CHAIN_END)
    {m m' : Dev → Nat} {tmp : Buf} {log log' : List (Nat × Nat)} {v : Nat}
    (hread : fs.readCluster c fs.tmp = (true, tmp, fs.after m fs.tmp log))
    (hnext : (fs.after m tmp log).nextCluster c = (v, fs.after m' tmp log'))
    (fuel count : Nat) (out : Nat → FileSlot) (reads : Nat) :
    listInto max (fuel + 1) fs c count out reads =
      (entriesLoop tmp fs.bpc count (max - count) max fs.bpc 0 0 out).bind fun r =>
        if r.1 = 0 then some ⟨count, r.2, reads + 1, fs.after m tmp log⟩
        else listInto max fuel (fs.after m' tmp log') v (count + r.1) r.2 (reads + 1) := by
  rw [listInto, if_pos hc, hread]
  dsimp only
  change ((entriesLoop tmp fs.bpc count (max - count) max fs.bpc 0 0 out).bind fun r =>
    if r.1 = 0 then some (ListCall.mk count r.2 (reads + 1) (fs.after m tmp log))
    else match (fs.after m tmp log).nextCluster c with
      | (next, fs') => listInto max fuel fs' next (count + r.1) r.2 (reads + 1)) = _
  rw [hnext]

/-- Every round but the last adds a file, and reads one cluster. -/
theorem listInto_ok {max fuel : Nat} {fs : Exfat} (hbpc : 32 ∣ fs.bpc) (hpos : 0 < fs.bpc) {c : Nat}
    {files : List ExfatFileInfo} (out : Nat → FileSlot) (reads : Nat) (hlen : files.length ≤ max)
    (hfuel : max < files.length + fuel) : ∃ k ≤ fuel,
    listInto max fuel fs c files.length (stored out 0 files) reads =
      some ⟨(listLoop max fuel fs c files).1.length, stored out 0 (listLoop max fuel fs c files).1,
        reads + k, (listLoop max fuel fs c files).2⟩ := by
  induction fuel generalizing fs c files reads with
  | zero => omega
  | succ fuel ih =>
    by_cases hc : 2 ≤ c ∧ c ≠ CHAIN_END
    · obtain ⟨ok, tmp, m, log, hread, -⟩ := @readCluster_asks (fun _ => True) fs c fs.tmp
      cases ok with
      | false =>
        rw [listInto, listLoop, if_pos hc, if_pos hc, hread]
        exact ⟨1, Nat.le_add_left 1 fuel, rfl⟩
      | true =>
        obtain ⟨v, m', log', hnext, -⟩ :=
          @nextCluster_asks (fun _ => True) (fs.after m tmp log) c
        have hfound := length_parseDirCluster_le tmp fs.bpc (max - files.length)
        have hentries := @entriesLoop_ok tmp fs.bpc hbpc hpos files.length (max - files.length) max
          fs.bpc 0 [] (stored out 0 files) (Nat.dvd_zero 32) (Nat.zero_le _) (by omega) (by omega)
        rw [stored_nil, ← Nat.zero_add files.length, stored_stored, Nat.zero_add] at hentries
        rw [listInto_succ hc hread hnext, listLoop_succ hc hread hnext]
        change (entriesLoop tmp fs.bpc files.length (max - files.length) max fs.bpc 0 0
          (stored out 0 files)) = some ((parseDirCluster tmp fs.bpc (max - files.length)).length,
          stored out 0 (files ++ parseDirCluster tmp fs.bpc (max - files.length))) at hentries
        rw [hentries, Option.bind_some]
        dsimp only
        generalize parseDirCluster tmp fs.bpc (max - files.length) = found at hfound
        by_cases hnone : found.length = 0
        · rw [if_pos hnone, if_pos hnone, List.length_eq_zero_iff.mp hnone, List.append_nil]
          exact ⟨1, Nat.le_add_left 1 fuel, rfl⟩
        · rw [if_neg hnone, if_neg hnone, ← List.length_append]
          obtain ⟨k, hk, hrun⟩ := @ih (fs.after m' tmp log') hbpc hpos v (files ++ found) (reads + 1)
            (by rw [List.length_append]; omega) (by rw [List.length_append]; omega)
          rw [hrun, Nat.add_assoc]
          exact ⟨1 + k, by omega, rfl⟩
    · rw [listInto, listLoop, if_neg hc, if_neg hc]
      exact ⟨0, Nat.zero_le _, rfl⟩

theorem listLoop_names {max fuel : Nat} {fs : Exfat} {c : Nat} {files : List ExfatFileInfo}
    (h : ∀ fi ∈ files, fi.name.length ≤ 255) :
    ∀ fi ∈ (listLoop max fuel fs c files).1, fi.name.length ≤ 255 := by
  induction fuel generalizing fs c files with
  | zero => exact h
  | succ fuel ih =>
    rw [listLoop]
    split
    · split
      · exact h
      · dsimp only
        split
        · exact h
        · refine ih fun fi hfi => ?_
          rcases List.mem_append.mp hfi with hfi | hfi
          · exact h fi hfi
          · exact parseEntries_names (fun fi hfi => absurd hfi List.not_mem_nil) fi hfi
    · exact h

theorem length_listLoop_le {max fuel : Nat} {fs : Exfat} {c : Nat} {files : List ExfatFileInfo}
    (h : files.length ≤ max) : (listLoop max fuel fs c files).1.length ≤ max := by
  induction fuel generalizing fs c files with
  | zero => exact h
  | succ fuel ih =>
    rw [listLoop]
    split
    · split
      · exact h
      · dsimp only
        split
        · exact h
        · rename_i buf gs hread hsome
          have := length_parseDirCluster_le buf gs.bpc (max - files.length)
          exact ih (by rw [List.length_append]; omega)
    · exact h

/-- What a call of `exfat_list_dir` leaves behind. -/
structure ListedInto (fs : Exfat) (dirCluster max : Nat) (out : Nat → FileSlot) (r : ListCall) :
    Prop where
  count : r.count ≤ max
  reads : r.reads ≤ max + 1
  /-- Nothing is written behind the entries that are counted. -/
  frame : ∀ i, r.count ≤ i → r.out i = out i
  /-- The names end within 256 bytes. -/
  ended : ∀ i < r.count, ∃ j < 256, (r.out i).name j = 0
  files : (fs.exfatListDir dirCluster max).1.length = r.count ∧
    ∀ i fi, (fs.exfatListDir dirCluster max).1[i]? = some fi → r.out i = slotOf fi
  after : r.fs = (fs.exfatListDir dirCluster max).2

/-- Every call comes to its end without leaving its arrays, whatever is on the disk. -/
theorem list_dir_safe {fs : Exfat} (hbpc : 32 ∣ fs.bpc) (hpos : 0 < fs.bpc) (dirCluster max : Nat)
    (out : Nat → FileSlot) :
    ∃ r, fs.listDirInto dirCluster max out = some r ∧ ListedInto fs dirCluster max out r := by
  unfold listDirInto
  by_cases hok : fs.ok = true
  · rw [if_pos hok]
    obtain ⟨k, hk, hrun⟩ := @listInto_ok max (max + 1) fs hbpc hpos dirCluster [] out 0
      (Nat.zero_le max) (by rw [List.length_nil]; omega)
    rw [stored_nil] at hrun
    have hlist : fs.exfatListDir dirCluster max = listLoop max (max + 1) fs dirCluster [] :=
      if_pos hok
    rw [← hlist] at hrun
    have hnames : ∀ fi ∈ (fs.exfatListDir dirCluster max).1, fi.name.length ≤ 255 := by
      rw [hlist]
      exact listLoop_names fun fi hfi => absurd hfi List.not_mem_nil
    have hget : ∀ i fi, (fs.exfatListDir dirCluster max).1[i]? = some fi →
        stored out 0 (fs.exfatListDir dirCluster max).1 i = slotOf fi := fun i fi hfi => by
      rw [stored, if_neg (Nat.not_lt_zero i), Nat.sub_zero, hfi]
      rfl
    refine ⟨_, hrun, ?_, (Nat.zero_add k).symm ▸ hk, fun i hi => ?_, fun i hi => ?_,
      ⟨rfl, hget⟩, rfl⟩
    · dsimp only
      rw [hlist]
      exact length_listLoop_le (Nat.zero_le max)
    · dsimp only at hi ⊢
      rw [stored, if_neg (Nat.not_lt_zero i), Nat.sub_zero, List.getElem?_eq_none hi]
      rfl
    · have hfi := List.getElem?_eq_getElem hi
      refine ⟨_, Nat.lt_succ_of_le (hnames _ (List.getElem_mem hi)), ?_⟩
      dsimp only
      rw [hget i _ hfi]
      exact chars_end _
  · rw [if_neg hok]
    have hlist : fs.exfatListDir dirCluster max = ([], fs) := if_neg hok
    refine ⟨_, rfl, Nat.zero_le max, Nat.zero_le _, fun i _ => rfl, fun i hi => absurd hi
      (Nat.not_lt_zero i), ?_, ?_⟩
    · rw [hlist]
      exact ⟨rfl, fun i fi hfi => by cases hfi⟩
    · rw [hlist]

def emptySlots : Nat → FileSlot := fun _ => ⟨0, 0, fun _ => 0, false⟩

theorem list_dir_safe_deletedFirst : ∃ r, deletedFirst.listDirInto 5 8 emptySlots = some r ∧
    ListedInto deletedFirst 5 8 emptySlots r :=
  list_dir_safe (by decide) (by decide) 5 8 emptySlots

end Exfat

end WinDOS
