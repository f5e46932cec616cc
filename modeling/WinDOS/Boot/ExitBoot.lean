import WinDOS.Lib.Trace

/-!
# The hand-over from the firmware (`start_kernel` in `main.rs`)

The loop gets a memory map, allocates a buffer for it when it has none, and calls
ExitBootServices with the key of the map. The firmware answers as it likes. Arithmetic on
`usize` wraps, as in the release build.
-/

set_option autoImplicit false

namespace WinDOS

open Trace

/-- What GetMemoryMap returns and leaves in the variables it is given. -/
structure MapAnswer where
  ret : Nat
  size : Nat
  key : Nat
  descSz : Nat

/-- The answers of the firmware in one round; `buffer` is what AllocatePages leaves in
`map_buf`, and stays 0 if it fails. -/
structure FirmwareAnswers where
  map : MapAnswer
  buffer : Nat
  exit : Nat

inductive BootCall where
  | getMemoryMap (size ret key : Nat)
  | allocatePages (pages : Nat)
  | exitBootServices (key ret : Nat)
deriving DecidableEq, Repr

inductive HandOver where
  | loop | left | stopped
deriving DecidableEq, Repr

structure ExitLoop where
  mapSz : Nat
  mapKey : Nat
  descSz : Nat
  mapPages : Nat
  mapBuf : Nat
  tries : Nat
  phase : HandOver
  /-- The calls made so far. -/
  calls : List BootCall

def EFI_BUFFER_TOO_SMALL : Nat := 0x8000000000000005

def wrap64 (n : Nat) : Nat := n % 2 ^ 64

namespace ExitLoop

def start : ExitLoop := ⟨0, 0, 0, 0, 0, 0, .loop, []⟩

/-- A round without a buffer: the size is asked for and a buffer allocated. -/
def probe (s : ExitLoop) (a : FirmwareAnswers) : ExitLoop :=
  let pages := wrap64 (a.map.size + 8 * a.map.descSz + 0xFFF) / 4096
  let pages := if pages = 0 then 1 else pages
  { s with
    mapSz := a.map.size
    mapKey := a.map.key
    descSz := a.map.descSz
    mapPages := pages
    mapBuf := a.buffer
    phase := if a.buffer = 0 then .stopped else .loop
    calls := s.calls ++ [.getMemoryMap 0 a.map.ret a.map.key] ++ [.allocatePages pages] }

/-- GetMemoryMap with the buffer. -/
def getMap (s : ExitLoop) (a : FirmwareAnswers) : ExitLoop :=
  { s with
    mapSz := a.map.size
    mapKey := a.map.key
    descSz := a.map.descSz
    calls := s.calls ++ [.getMemoryMap (wrap64 (s.mapPages * 4096)) a.map.ret a.map.key] }

/-- ExitBootServices with the key of the map. -/
def exitBoot (s : ExitLoop) (a : FirmwareAnswers) : ExitLoop :=
  let s := { s with calls := s.calls ++ [BootCall.exitBootServices s.mapKey a.exit] }
  if a.exit = 0 then { s with phase := .left }
  else
    let s := { s with tries := s.tries + 1 }
    if s.tries > 8 then { s with phase := .stopped } else s

/-- A round with a buffer. -/
def fetch (s : ExitLoop) (a : FirmwareAnswers) : ExitLoop :=
  let s := s.getMap a
  if a.map.ret ≠ 0 then
    if a.map.ret = EFI_BUFFER_TOO_SMALL then
      { s with mapPages := wrap64 (s.mapSz + 0xFFF) / 4096, mapBuf := 0 }
    else { s with phase := .stopped }
  else s.exitBoot a

def round (s : ExitLoop) (a : FirmwareAnswers) : ExitLoop :=
  match s.phase with
  | .loop => if s.mapBuf = 0 then s.probe a else s.fetch a
  | _ => s

/-- The state after `n` rounds. -/
def after (answers : Nat → FirmwareAnswers) : Nat → ExitLoop
  | 0 => start
  | n + 1 => (after answers n).round (answers n)

end ExitLoop

/-! ### The order of the calls -/

def BootCall.isExit : BootCall → Bool
  | .exitBootServices .. => true
  | _ => false

/-- The key of the last successful GetMemoryMap, if nothing has been allocated since. -/
def currentKey (calls : List BootCall) : Option Nat :=
  calls.foldl (fun cur c =>
    match c with
    | .getMemoryMap _ ret key => if ret = 0 then some key else cur
    | .allocatePages _ => none
    | .exitBootServices .. => cur) none

/-- ExitBootServices takes the current key, and nothing is allocated after its first call. -/
def HandOverOrder (past : List BootCall) : BootCall → Prop
  | .getMemoryMap .. => True
  | .allocatePages _ => ∀ c ∈ past, c.isExit = false
  | .exitBootServices key _ => currentKey past = some key

/-- A call of GetMemoryMap with the buffer is answered BUFFER_TOO_SMALL only as long as no call
of ExitBootServices has been rejected. -/
def GrowsBeforeExit (s : ExitLoop) (a : FirmwareAnswers) : Prop :=
  s.phase = .loop → s.mapBuf ≠ 0 → a.map.ret = EFI_BUFFER_TOO_SMALL → s.tries = 0

theorem currentKey_concat (calls : List BootCall) (c : BootCall) :
    currentKey (calls ++ [c]) =
      match c with
      | .getMemoryMap _ ret key => if ret = 0 then some key else currentKey calls
      | .allocatePages _ => none
      | .exitBootServices .. => currentKey calls := by
  rw [currentKey, List.foldl_append]
  rfl

/-- What every state of a safe run satisfies. -/
structure ExitInv (s : ExitLoop) : Prop where
  order : Always HandOverOrder s.calls
  tries : s.phase = .loop → s.tries = 0 → ∀ c ∈ s.calls, c.isExit = false
  growing : s.phase = .loop → s.mapBuf = 0 → s.tries = 0

theorem ExitInv.start : ExitInv .start where
  order := always_nil
  tries _ _ _ hc := absurd hc List.not_mem_nil
  growing _ _ := rfl

section Round

variable {s : ExitLoop} (h : ExitInv s) (a : FirmwareAnswers)
include h

theorem ExitInv.probe (hloop : s.phase = .loop) (hbuf : s.mapBuf = 0) : ExitInv (s.probe a) := by
  have htries := h.growing hloop hbuf
  have hnone : ∀ c ∈ s.calls ++ [.getMemoryMap 0 a.map.ret a.map.key], c.isExit = false := by
    intro c hc
    rcases List.mem_append.mp hc with hc | hc
    · exact h.tries hloop htries c hc
    · rw [List.mem_singleton.mp hc]
      rfl
  refine ⟨?_, fun _ _ c hc => ?_, fun _ _ => htries⟩
  · exact always_concat.mpr ⟨always_concat.mpr ⟨h.order, trivial⟩, hnone⟩
  · rcases List.mem_append.mp hc with hc | hc
    · exact hnone c hc
    · rw [List.mem_singleton.mp hc]
      rfl

theorem ExitInv.getMap_order : Always HandOverOrder (s.getMap a).calls :=
  always_concat.mpr ⟨h.order, trivial⟩

theorem ExitInv.fetch (hloop : s.phase = .loop) (hbuf : s.mapBuf ≠ 0)
    (hsafe : GrowsBeforeExit s a) : ExitInv (s.fetch a) := by
  have hmap := h.getMap_order a
  have hnone : s.tries = 0 → ∀ c ∈ (s.getMap a).calls, c.isExit = false := by
    intro htries c hc
    rcases List.mem_append.mp hc with hc | hc
    · exact h.tries hloop htries c hc
    · rw [List.mem_singleton.mp hc]
      rfl
  unfold ExitLoop.fetch
  dsimp only
  by_cases hret : a.map.ret = 0
  · rw [if_neg (not_not.mpr hret)]
    have hkey : currentKey (s.getMap a).calls = some (s.getMap a).mapKey := by
      unfold ExitLoop.getMap
      rw [currentKey_concat]
      exact if_pos hret
    have horder : Always HandOverOrder
        ((s.getMap a).calls ++ [.exitBootServices (s.getMap a).mapKey a.exit]) :=
      always_concat.mpr ⟨hmap, hkey⟩
    unfold ExitLoop.exitBoot
    dsimp only
    split
    · exact ⟨horder, fun hc => absurd hc HandOver.noConfusion, fun hc => absurd hc HandOver.noConfusion⟩
    · split
      · exact ⟨horder, fun hc => absurd hc HandOver.noConfusion, fun hc => absurd hc HandOver.noConfusion⟩
      · exact ⟨horder, fun _ ht => absurd ht (Nat.succ_ne_zero _), fun _ hb => absurd hb hbuf⟩
  · rw [if_pos hret]
    split
    · rename_i hsmall
      have htries := hsafe hloop hbuf hsmall
      exact ⟨hmap, fun _ _ => hnone htries, fun _ _ => htries⟩
    · exact ⟨hmap, fun hc => absurd hc HandOver.noConfusion, fun hc => absurd hc HandOver.noConfusion⟩

theorem ExitInv.round (hsafe : GrowsBeforeExit s a) : ExitInv (s.round a) := by
  unfold ExitLoop.round
  cases hp : s.phase with
  | loop =>
    dsimp only
    by_cases hbuf : s.mapBuf = 0
    · rw [if_pos hbuf]
      exact h.probe a hp hbuf
    · rw [if_neg hbuf]
      exact h.fetch a hp hbuf hsafe
  | left => exact h
  | stopped => exact h

end Round

/-- A rejected ExitBootServices is among the calls. -/
def Tried (s : ExitLoop) : Prop := s.tries ≠ 0 → ∃ c ∈ s.calls, c.isExit = true

theorem Tried.getMap {s : ExitLoop} (h : Tried s) (a : FirmwareAnswers) : Tried (s.getMap a) :=
  fun ht => (h ht).imp fun _ hc => ⟨List.mem_append_left _ hc.1, hc.2⟩

theorem Tried.round {s : ExitLoop} (h : Tried s) (a : FirmwareAnswers) : Tried (s.round a) := by
  unfold ExitLoop.round
  cases s.phase with
  | loop =>
    dsimp only
    split
    · exact fun ht => (h ht).imp fun _ hc =>
        ⟨List.mem_append_left _ (List.mem_append_left _ hc.1), hc.2⟩
    · have hmap := h.getMap a
      unfold ExitLoop.fetch
      dsimp only
      split
      · split
        · exact hmap
        · exact hmap
      · have hlast : ∀ t : List BootCall, ∃ c ∈ t ++ [.exitBootServices (s.getMap a).mapKey a.exit],
            c.isExit = true := fun t => ⟨_, List.mem_append_right _ (List.mem_singleton_self _), rfl⟩
        unfold ExitLoop.exitBoot
        dsimp only
        split
        · exact fun _ => hlast _
        · split
          · exact fun _ => hlast _
          · exact fun _ => hlast _
  | left => exact h
  | stopped => exact h

theorem tried_after (answers : Nat → FirmwareAnswers) (n : Nat) :
    Tried (ExitLoop.after answers n) := by
  induction n with
  | zero => exact fun ht => absurd rfl ht
  | succ n ih => exact ih.round _

theorem exitInv_after {answers : Nat → FirmwareAnswers}
    (h : ∀ n, GrowsBeforeExit (ExitLoop.after answers n) (answers n)) (n : Nat) :
    ExitInv (ExitLoop.after answers n) := by
  induction n with
  | zero => exact ExitInv.start
  | succ n ih => exact ih.round _ (h n)

/-- In a run the calls keep their order exactly if the memory map outgrows its buffer only as
long as no ExitBootServices has been rejected. -/
theorem hand_over_order_iff (answers : Nat → FirmwareAnswers) :
    (∀ n, Always HandOverOrder (ExitLoop.after answers n).calls) ↔
      ∀ n, GrowsBeforeExit (ExitLoop.after answers n) (answers n) := by
  refine ⟨fun h n hloop hbuf hsmall => ?_, fun h n => (exitInv_after h n).order⟩
  by_contra htries
  have hgrow : (ExitLoop.after answers (n + 1)) = { (ExitLoop.after answers n).getMap (answers n) with
      mapPages := wrap64 ((answers n).map.size + 0xFFF) / 4096
      mapBuf := 0 } := by
    have hret : ¬ (answers n).map.ret = 0 := by
      rw [hsmall]
      decide
    rw [ExitLoop.after, ExitLoop.round, hloop]
    dsimp only
    rw [if_neg hbuf, ExitLoop.fetch, if_pos hret, if_pos hsmall]
    rfl
  have halloc : (ExitLoop.after answers (n + 2)).calls =
      (ExitLoop.after answers (n + 1)).calls ++ [.getMemoryMap 0 (answers (n + 1)).map.ret
        (answers (n + 1)).map.key] ++ [.allocatePages
        ((ExitLoop.after answers (n + 1)).probe (answers (n + 1))).mapPages] := by
    have hphase : (ExitLoop.after answers (n + 1)).phase = .loop := by
      rw [hgrow]
      exact hloop
    rw [ExitLoop.after, ExitLoop.round, hphase]
    dsimp only
    rw [if_pos (by rw [hgrow])]
    rfl
  have horder := h (n + 2)
  rw [halloc, always_concat] at horder
  obtain ⟨c, hc, hexit⟩ := tried_after answers n htries
  have hpast : c ∈ (ExitLoop.after answers (n + 1)).calls := by
    rw [hgrow]
    exact List.mem_append_left _ hc
  have hno := horder.2 c (List.mem_append_left _ hpast)
  rw [hexit] at hno
  cases hno

/-- The map outgrows its buffer right after a rejected ExitBootServices. -/
def growingFirmware (n : Nat) : FirmwareAnswers :=
  match n with
  | 0 => ⟨⟨EFI_BUFFER_TOO_SMALL, 4000, 1, 48⟩, 0x100000, 0⟩
  | 1 => ⟨⟨0, 4000, 1, 48⟩, 0, 0x8000000000000002⟩
  | 2 => ⟨⟨EFI_BUFFER_TOO_SMALL, 5000, 2, 48⟩, 0, 0⟩
  | _ => ⟨⟨0, 5000, 2, 48⟩, 0x200000, 0⟩

theorem allocates_after_exit :
    ¬ ∀ n, Always HandOverOrder (ExitLoop.after growingFirmware n).calls := by
  intro h
  have hcalls : (ExitLoop.after growingFirmware 4).calls =
      [.getMemoryMap 0 EFI_BUFFER_TOO_SMALL 1, .allocatePages 2, .getMemoryMap 8192 0 1,
        .exitBootServices 1 0x8000000000000002, .getMemoryMap 8192 EFI_BUFFER_TOO_SMALL 2,
        .getMemoryMap 0 0 2] ++ [.allocatePages 2] := by decide +kernel
  have horder := h 4
  rw [hcalls, always_concat] at horder
  exact absurd (horder.2 (.exitBootServices 1 0x8000000000000002) (by decide)) (by decide)

end WinDOS
