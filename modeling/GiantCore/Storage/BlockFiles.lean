import GiantCore.Foundation.Run
import Mathlib.Algebra.Ring.Nat
import Mathlib.Data.List.GetD
import Mathlib.Data.Nat.Basic
import Mathlib.Tactic.Common

/-! # Block and undo files

Where `main.cpp` puts blocks and undo data: running sizes in the vector of file information, the
roll-over to the next block file, and blocks that a reindexing node finds at known places.

Sizes and positions are 32-bit numbers as in the source. A file number is a natural number. Writing
to the files is left out.
-/

namespace GiantCore

open GiantCore.Foundation.Run

structure CBlockFileInfo where
  nBlocks : UInt32 := 0
  nSize : UInt32 := 0
  nUndoSize : UInt32 := 0
  nHeightFirst : UInt32 := 0
  nHeightLast : UInt32 := 0
  nTimeFirst : UInt64 := 0
  nTimeLast : UInt64 := 0
  deriving DecidableEq, Repr

namespace CBlockFileInfo

/-- Update the statistics. This does not update `nSize`. -/
def addBlock (info : CBlockFileInfo) (nHeightIn : UInt32) (nTimeIn : UInt64) : CBlockFileInfo :=
  { info with
    nHeightFirst :=
      if info.nBlocks = 0 ∨ info.nHeightFirst > nHeightIn then nHeightIn else info.nHeightFirst
    nTimeFirst := if info.nBlocks = 0 ∨ info.nTimeFirst > nTimeIn then nTimeIn else info.nTimeFirst
    nBlocks := info.nBlocks + 1
    nHeightLast := if nHeightIn > info.nHeightLast then nHeightIn else info.nHeightLast
    nTimeLast := if nTimeIn > info.nTimeLast then nTimeIn else info.nTimeLast }

/-- A block at the end of the file. -/
def appendBlock (nAddSize nHeight : UInt32) (nTime : UInt64) (info : CBlockFileInfo) :
    CBlockFileInfo :=
  { info.addBlock nHeight nTime with nSize := info.nSize + nAddSize }

/-- A block at a known place, whose end raises the size. -/
def placeBlock (nPos nAddSize nHeight : UInt32) (nTime : UInt64) (info : CBlockFileInfo) :
    CBlockFileInfo :=
  { info.addBlock nHeight nTime with
    nSize := if nPos + nAddSize < info.nSize then info.nSize else nPos + nAddSize }

end CBlockFileInfo

structure CDiskBlockPos where
  nFile : Nat
  nPos : UInt32
  deriving DecidableEq, Repr

/-- 128 MiB. -/
def MAX_BLOCKFILE_SIZE : UInt32 := 0x8000000

/-- 16 MiB. -/
def BLOCKFILE_CHUNK_SIZE : UInt32 := 0x1000000

/-- 1 MiB. -/
def UNDOFILE_CHUNK_SIZE : UInt32 := 0x100000

structure BlockFiles where
  vinfoBlockFile : List CBlockFileInfo := []
  nLastBlockFile : Nat := 0
  deriving DecidableEq, Repr

namespace BlockFiles

/-- What the vector has for a file, once it reaches that far. -/
def info (files : BlockFiles) (nFile : Nat) : CBlockFileInfo := files.vinfoBlockFile.getD nFile {}

def resize (files : BlockFiles) (size : Nat) : BlockFiles :=
  { files with vinfoBlockFile :=
      files.vinfoBlockFile ++ List.replicate (size - files.vinfoBlockFile.length) {} }

def modify (files : BlockFiles) (nFile : Nat) (change : CBlockFileInfo → CBlockFileInfo) :
    BlockFiles :=
  { files with vinfoBlockFile := files.vinfoBlockFile.modify nFile change }

/-- The loop that leaves full block files, for at most so many rounds. -/
def leaveFull (nAddSize : UInt32) : Nat → Nat → BlockFiles → Option (Nat × BlockFiles)
  | 0, _, _ => none
  | rounds + 1, nFile, files =>
      if (files.info nFile).nSize + nAddSize ≥ MAX_BLOCKFILE_SIZE then
        leaveFull nAddSize rounds (nFile + 1) (files.resize (nFile + 2))
      else some (nFile, files)

/-- Whether the files can grow to a size in whole chunks. -/
def preallocate (chunk nPos nNewSize : UInt32) (checkDiskSpace : UInt32 → Bool) : Bool :=
  let nOldChunks := (nPos + chunk - 1) / chunk
  let nNewChunks := (nNewSize + chunk - 1) / chunk
  if nNewChunks > nOldChunks then checkDiskSpace (nNewChunks * chunk - nPos) else true

/-- The new state, the position and whether the call succeeds. The value `none` is a loop that does
not end. The position is set also when the call then finds too little space on the disk. -/
def findBlockPos (files : BlockFiles) (pos : CDiskBlockPos) (nAddSize nHeight : UInt32)
    (nTime : UInt64) (fKnown : Bool) (checkDiskSpace : UInt32 → Bool) :
    Option (BlockFiles × CDiskBlockPos × Bool) :=
  if fKnown then
    let files := files.resize (pos.nFile + 1)
    let files := { files with nLastBlockFile := pos.nFile }
    some (files.modify pos.nFile (.placeBlock pos.nPos nAddSize nHeight nTime), pos, true)
  else
    let files := files.resize (files.nLastBlockFile + 1)
    (leaveFull nAddSize (files.vinfoBlockFile.length + 1) files.nLastBlockFile files).map
      fun (nFile, files) =>
        let pos : CDiskBlockPos := ⟨nFile, (files.info nFile).nSize⟩
        let files := { files with nLastBlockFile := nFile }
        let files := files.modify nFile (.appendBlock nAddSize nHeight nTime)
        (files, pos,
          preallocate BLOCKFILE_CHUNK_SIZE pos.nPos (files.info nFile).nSize checkDiskSpace)

/-- The value `none` is an access beyond the vector. -/
def findUndoPos (files : BlockFiles) (nFile : Nat) (nAddSize : UInt32)
    (checkDiskSpace : UInt32 → Bool) : Option (BlockFiles × CDiskBlockPos × Bool) :=
  if nFile < files.vinfoBlockFile.length then
    let pos : CDiskBlockPos := ⟨nFile, (files.info nFile).nUndoSize⟩
    let files := files.modify nFile fun info =>
      { info with nUndoSize := info.nUndoSize + nAddSize }
    some (files, pos,
      preallocate UNDOFILE_CHUNK_SIZE pos.nPos (files.info nFile).nUndoSize checkDiskSpace)
  else none

/-! ## What the operations change -/

theorem info_resize (files : BlockFiles) (size nFile : Nat) :
    (files.resize size).info nFile = files.info nFile := by
  unfold info resize
  dsimp only
  rw [List.getD_eq_getElem?_getD, List.getD_eq_getElem?_getD, List.getElem?_append]
  split
  · rfl
  · rename_i beyond
    rw [List.getElem?_eq_none (Nat.not_lt.mp beyond), List.getElem?_replicate]
    split <;> rfl

theorem lt_length_resize (files : BlockFiles) {size nFile : Nat} (small : nFile < size) :
    nFile < (files.resize size).vinfoBlockFile.length := by
  unfold resize
  rw [List.length_append, List.length_replicate]
  omega

theorem info_modify {files : BlockFiles} {nFile : Nat}
    (inside : nFile < files.vinfoBlockFile.length) (change : CBlockFileInfo → CBlockFileInfo) :
    (files.modify nFile change).info =
      Function.update files.info nFile (change (files.info nFile)) := by
  funext other
  unfold info modify
  dsimp only
  rw [List.getD_eq_getElem?_getD, List.getElem?_modify]
  by_cases same : other = nFile
  · subst same
    rw [Function.update_self, List.getElem?_eq_getElem inside, List.getD_eq_getElem _ _ inside]
    simp
  · rw [Function.update_of_ne same, List.getD_eq_getElem?_getD]
    simp only [if_neg (Ne.symm same), Option.map_eq_map, Option.map_id']

theorem info_of_length_le {files : BlockFiles} {nFile : Nat}
    (beyond : files.vinfoBlockFile.length ≤ nFile) : files.info nFile = {} := by
  rw [info, List.getD_eq_getElem?_getD, List.getElem?_eq_none beyond]
  rfl

/-- **The loop ends** at the first file that has room: a file beyond the vector is empty. -/
theorem leaveFull_spec {nAddSize : UInt32} (small : nAddSize < MAX_BLOCKFILE_SIZE) {bound : Nat}
    (rounds : Nat) {nFile : Nat} {files : BlockFiles}
    (inside : nFile < files.vinfoBlockFile.length)
    (empty : ∀ beyond, bound ≤ beyond → files.info beyond = {}) (enough : bound < nFile + rounds)
    (start : nFile ≤ bound) :
    ∃ found after, leaveFull nAddSize rounds nFile files = some (found, after) ∧
      nFile ≤ found ∧ found < after.vinfoBlockFile.length ∧ after.info = files.info ∧
      (∀ left, nFile ≤ left → left < found →
        MAX_BLOCKFILE_SIZE ≤ (files.info left).nSize + nAddSize) ∧
      (files.info found).nSize + nAddSize < MAX_BLOCKFILE_SIZE := by
  induction rounds generalizing nFile files with
  | zero => exact absurd enough (Nat.not_lt.mpr start)
  | succ rounds ih =>
      unfold leaveFull
      split
      · rename_i full
        have short : nFile < bound := by
          refine lt_of_le_of_ne start ?_
          rintro rfl
          rw [empty nFile (le_refl _)] at full
          exact absurd full (UInt32.not_le.mpr (by simpa using small))
        have same : (files.resize (nFile + 2)).info = files.info :=
          funext fun other => info_resize files _ other
        obtain ⟨found, after, result, later, within, infos, left, room⟩ :=
          ih (files.lt_length_resize (Nat.lt_succ_self (nFile + 1)))
            (fun beyond far => by rw [same, empty beyond far]) (by omega) short
        rw [same] at infos left room
        refine ⟨found, after, result, by omega, within, infos, fun other atLeast before => ?_, room⟩
        rcases Nat.eq_or_lt_of_le atLeast with rfl | above
        · exact full
        · exact left other above before
      · rename_i room
        exact ⟨nFile, files, rfl, le_refl _, inside, rfl, fun left atLeast before => by omega,
          UInt32.not_le.mp room⟩

/-- **A block that looks for a place** gets the end of the first file from the last one on that has
room, as far as 32-bit sums tell. -/
theorem findBlockPos_new (files : BlockFiles) (pos : CDiskBlockPos) {nAddSize : UInt32}
    (small : nAddSize < MAX_BLOCKFILE_SIZE) (nHeight : UInt32) (nTime : UInt64)
    (checkDiskSpace : UInt32 → Bool) :
    ∃ found after success entry,
      files.findBlockPos pos nAddSize nHeight nTime false checkDiskSpace =
        some (after, ⟨found, (files.info found).nSize⟩, success) ∧
      after.info = Function.update files.info found entry ∧
      entry.nSize = (files.info found).nSize + nAddSize ∧
      entry.nUndoSize = (files.info found).nUndoSize ∧
      files.nLastBlockFile ≤ found ∧
      (∀ left, files.nLastBlockFile ≤ left → left < found →
        MAX_BLOCKFILE_SIZE ≤ (files.info left).nSize + nAddSize) ∧
      (files.info found).nSize + nAddSize < MAX_BLOCKFILE_SIZE := by
  have same : (files.resize (files.nLastBlockFile + 1)).info = files.info :=
    funext fun other => info_resize files _ other
  have inside : files.nLastBlockFile <
      (files.resize (files.nLastBlockFile + 1)).vinfoBlockFile.length :=
    files.lt_length_resize (Nat.lt_succ_self _)
  obtain ⟨found, after, result, later, within, infos, left, room⟩ :=
    leaveFull_spec small ((files.resize (files.nLastBlockFile + 1)).vinfoBlockFile.length + 1)
      inside (fun beyond => info_of_length_le) (by omega) (Nat.le_of_lt inside)
  rw [same] at infos left room
  have place : (after.info found).nSize = (files.info found).nSize := by rw [infos]
  refine ⟨found, modify { after with nLastBlockFile := found } found
    (.appendBlock nAddSize nHeight nTime), ?success,
    (files.info found).appendBlock nAddSize nHeight nTime, ?result, ?infos, rfl, rfl, later, left,
    room⟩
  case result =>
    unfold findBlockPos
    rw [if_neg Bool.false_ne_true]
    dsimp only
    rw [show (files.resize (files.nLastBlockFile + 1)).nLastBlockFile = files.nLastBlockFile
      from rfl, result, Option.map_some, place]
  case infos =>
    rw [info_modify (by exact within)]
    change Function.update after.info found (.appendBlock _ _ _ (after.info found)) = _
    rw [infos]

/-- **A known block** raises the size of its file to its end, as far as 32-bit sums tell. -/
theorem findBlockPos_known (files : BlockFiles) (pos : CDiskBlockPos) (nAddSize nHeight : UInt32)
    (nTime : UInt64) (checkDiskSpace : UInt32 → Bool) :
    ∃ after success entry, files.findBlockPos pos nAddSize nHeight nTime true checkDiskSpace =
        some (after, pos, success) ∧
      after.info = Function.update files.info pos.nFile entry ∧
      entry.nSize.toNat =
        max (pos.nPos + nAddSize).toNat (files.info pos.nFile).nSize.toNat ∧
      entry.nUndoSize = (files.info pos.nFile).nUndoSize := by
  have same : (files.resize (pos.nFile + 1)).info = files.info :=
    funext fun other => info_resize files _ other
  have inside := files.lt_length_resize (Nat.lt_succ_self pos.nFile)
  refine ⟨_, true, (files.info pos.nFile).placeBlock pos.nPos nAddSize nHeight nTime, if_pos rfl,
    ?_, ?_, rfl⟩
  · rw [info_modify (by exact inside)]
    change Function.update (files.resize (pos.nFile + 1)).info pos.nFile
      (CBlockFileInfo.placeBlock _ _ _ _ ((files.resize (pos.nFile + 1)).info pos.nFile)) = _
    rw [same]
  · unfold CBlockFileInfo.placeBlock
    dsimp only
    split
    · rename_i lower
      rw [UInt32.lt_iff_toNat_lt] at lower
      omega
    · rename_i notLower
      rw [UInt32.lt_iff_toNat_lt] at notLower
      omega

end BlockFiles

/-! ## Ranges -/

/-- A byte range of a file. -/
structure StoredRange where
  nFile : Nat
  start : Nat
  stop : Nat
  fKnown : Bool
  deriving DecidableEq, Repr

/-- The highest end of the ranges in a file. -/
def highestEnd : List StoredRange → Nat → Nat
  | [], _ => 0
  | range :: rest, nFile =>
      if range.nFile = nFile then max range.stop (highestEnd rest nFile) else highestEnd rest nFile

/-- The sizes follow the ranges, latest first: a size is **the highest end** in its file, it is the
end of the last range if that was handed out, and **a range that is handed out starts at or after
the ends of all earlier ranges** of its file. -/
structure Follows (ranges : List StoredRange) (size : Nat → Nat) : Prop where
  ends : ∀ nFile, size nFile = highestEnd ranges nFile
  last : ∀ nFile range, ranges.find? (fun range => range.nFile = nFile) = some range →
    range.fKnown = false → size nFile = range.stop
  apart : ranges.Pairwise fun later earlier => later.fKnown = false → later.nFile = earlier.nFile →
    earlier.stop ≤ later.start

theorem stop_le_highestEnd {ranges : List StoredRange} {range : StoredRange}
    (member : range ∈ ranges) : range.stop ≤ highestEnd ranges range.nFile := by
  induction ranges with
  | nil => cases member
  | cons first rest ih =>
      unfold highestEnd
      rcases List.mem_cons.mp member with rfl | inside
      · rw [if_pos rfl]
        exact le_max_left _ _
      · split
        · exact le_trans (ih inside) (le_max_right _ _)
        · exact ih inside

namespace Follows

variable {ranges : List StoredRange} {size : Nat → Nat} {range : StoredRange}

theorem handOut (follows : Follows ranges size) (start : range.start = size range.nFile)
    (forwards : range.start ≤ range.stop) :
    Follows (range :: ranges) (Function.update size range.nFile range.stop) := by
  refine ⟨fun nFile => ?_, fun nFile latest found _ => ?_, ?_⟩
  · unfold highestEnd
    by_cases same : range.nFile = nFile
    · subst same
      rw [Function.update_self, if_pos rfl, ← follows.ends]
      omega
    · rw [Function.update_of_ne (Ne.symm same), if_neg same, follows.ends]
  · by_cases same : range.nFile = nFile
    · subst same
      rw [List.find?_cons_of_pos (by simp), Option.some.injEq] at found
      rw [Function.update_self, found]
    · rw [List.find?_cons_of_neg (by simpa using same)] at found
      rw [Function.update_of_ne (Ne.symm same)]
      exact follows.last nFile latest found ‹_›
  · refine List.pairwise_cons.mpr ⟨fun earlier member _ same => ?_, follows.apart⟩
    rw [start, same, follows.ends]
    exact stop_le_highestEnd member

theorem place (follows : Follows ranges size) (known : range.fKnown = true) :
    Follows (range :: ranges)
      (Function.update size range.nFile (max range.stop (size range.nFile))) := by
  refine ⟨fun nFile => ?_, fun nFile latest found new => ?_, ?_⟩
  · unfold highestEnd
    by_cases same : range.nFile = nFile
    · subst same
      rw [Function.update_self, if_pos rfl, ← follows.ends]
    · rw [Function.update_of_ne (Ne.symm same), if_neg same, follows.ends]
  · by_cases same : range.nFile = nFile
    · subst same
      rw [List.find?_cons_of_pos (by simp), Option.some.injEq] at found
      rw [← found, known] at new
      cases new
    · rw [List.find?_cons_of_neg (by simpa using same)] at found
      rw [Function.update_of_ne (Ne.symm same)]
      exact follows.last nFile latest found new
  · refine List.pairwise_cons.mpr ⟨fun earlier member new => ?_, follows.apart⟩
    rw [known] at new
    cases new

end Follows

/-! ## Runs -/

/-- The files with the ranges that blocks and undo data were given, latest first. -/
structure Storage where
  files : BlockFiles := {}
  blocks : List StoredRange := []
  undos : List StoredRange := []

inductive StorageCall where
  | newBlock (nAddSize nHeight : UInt32) (nTime : UInt64) (checkDiskSpace : UInt32 → Bool)
  | knownBlock (pos : CDiskBlockPos) (nAddSize nHeight : UInt32) (nTime : UInt64)
      (checkDiskSpace : UInt32 → Bool)
  | undo (nFile : Nat) (nAddSize : UInt32) (checkDiskSpace : UInt32 → Bool)

namespace Storage

variable (storage : Storage)

/-- What a call records about a position it set. -/
def range (pos : CDiskBlockPos) (nAddSize : UInt32) (fKnown : Bool) : StoredRange :=
  ⟨pos.nFile, pos.nPos.toNat, pos.nPos.toNat + nAddSize.toNat, fKnown⟩

def step (storage : Storage) : StorageCall → Storage
  | .newBlock nAddSize nHeight nTime checkDiskSpace =>
      match storage.files.findBlockPos ⟨0, 0⟩ nAddSize nHeight nTime false checkDiskSpace with
      | none => storage
      | some (files, pos, _) =>
          { storage with files, blocks := range pos nAddSize false :: storage.blocks }
  | .knownBlock pos nAddSize nHeight nTime checkDiskSpace =>
      match storage.files.findBlockPos pos nAddSize nHeight nTime true checkDiskSpace with
      | none => storage
      | some (files, pos, _) =>
          { storage with files, blocks := range pos nAddSize true :: storage.blocks }
  | .undo nFile nAddSize checkDiskSpace =>
      match storage.files.findUndoPos nFile nAddSize checkDiskSpace with
      | none => storage
      | some (files, pos, _) =>
          { storage with files, undos := range pos nAddSize false :: storage.undos }

def nSize (nFile : Nat) : Nat := (storage.files.info nFile).nSize.toNat

def nUndoSize (nFile : Nat) : Nat := (storage.files.info nFile).nUndoSize.toNat

/-- **The layout of the files.** -/
structure Laid (storage : Storage) : Prop where
  blocks : Follows storage.blocks storage.nSize
  below : ∀ block ∈ storage.blocks, block.fKnown = false →
    block.stop < MAX_BLOCKFILE_SIZE.toNat
  undos : Follows storage.undos storage.nUndoSize
  undosNew : ∀ undo ∈ storage.undos, undo.fKnown = false

/-- A block that looks for a place is smaller than a file. -/
def Fits : StorageCall → Prop
  | .newBlock nAddSize _ _ _ => nAddSize < MAX_BLOCKFILE_SIZE
  | _ => True

/-- **No 32-bit sum wraps around**: neither of a size that the loop over the block files looks at,
nor the end of a known block, nor the size of the undo file. -/
def NoWrap (storage : Storage) : StorageCall → Prop
  | .newBlock nAddSize _ _ _ => ∀ nFile, storage.files.nLastBlockFile ≤ nFile →
      (∀ left, storage.files.nLastBlockFile ≤ left → left < nFile →
        MAX_BLOCKFILE_SIZE.toNat ≤ storage.nSize left + nAddSize.toNat) →
      storage.nSize nFile + nAddSize.toNat < 2 ^ 32
  | .knownBlock pos nAddSize _ _ _ => pos.nPos.toNat + nAddSize.toNat < 2 ^ 32
  | .undo nFile nAddSize _ => nFile < storage.files.vinfoBlockFile.length →
      storage.nUndoSize nFile + nAddSize.toNat < 2 ^ 32

variable {storage}

theorem nSize_of_info {after : Storage} {nFile : Nat} {entry : CBlockFileInfo}
    (infos : after.files.info = Function.update storage.files.info nFile entry) :
    after.nSize = Function.update storage.nSize nFile entry.nSize.toNat := by
  change (fun info : CBlockFileInfo => info.nSize.toNat) ∘ after.files.info = _
  rw [infos, Function.comp_update]
  rfl

theorem nUndoSize_of_info {after : Storage} {nFile : Nat} {entry : CBlockFileInfo}
    (infos : after.files.info = Function.update storage.files.info nFile entry) :
    after.nUndoSize = Function.update storage.nUndoSize nFile entry.nUndoSize.toNat := by
  change (fun info : CBlockFileInfo => info.nUndoSize.toNat) ∘ after.files.info = _
  rw [infos, Function.comp_update]
  rfl

/-- The loop stops at a file with a wrapped sum at the latest, and the block then ends too high. -/
theorem Laid.newBlock_iff (laid : Laid storage) {nAddSize : UInt32}
    (small : nAddSize < MAX_BLOCKFILE_SIZE) (nHeight : UInt32) (nTime : UInt64)
    (checkDiskSpace : UInt32 → Bool) :
    Laid (storage.step (.newBlock nAddSize nHeight nTime checkDiskSpace)) ↔
      NoWrap storage (.newBlock nAddSize nHeight nTime checkDiskSpace) := by
  obtain ⟨found, after, success, entry, result, infos, size, undoSize, later, left, room⟩ :=
    storage.files.findBlockPos_new ⟨0, 0⟩ small nHeight nTime checkDiskSpace
  have stepped : storage.step (.newBlock nAddSize nHeight nTime checkDiskSpace) =
      { storage with
        files := after
        blocks := range ⟨found, (storage.files.info found).nSize⟩ nAddSize false ::
          storage.blocks } := by
    dsimp only [step]
    rw [result]
  rw [stepped]
  have limit : MAX_BLOCKFILE_SIZE.toNat = 2 ^ 27 := rfl
  rw [UInt32.lt_iff_toNat_lt, limit] at small
  rw [UInt32.lt_iff_toNat_lt, UInt32.toNat_add, limit] at room
  change (storage.nSize found + nAddSize.toNat) % 2 ^ 32 < 2 ^ 27 at room
  have full : ∀ other, storage.files.nLastBlockFile ≤ other → other < found →
      2 ^ 27 ≤ (storage.nSize other + nAddSize.toNat) % 2 ^ 32 := by
    intro other atLeast before
    have enough := left other atLeast before
    rwa [UInt32.le_iff_toNat_le, UInt32.toNat_add, limit] at enough
  have word : ∀ other, storage.nSize other < 2 ^ 32 := fun other => UInt32.toNat_lt _
  constructor
  · intro laidAfter nFile atLeast visited
    have end_ : storage.nSize found + nAddSize.toNat < 2 ^ 27 :=
      laidAfter.below _ List.mem_cons_self rfl
    rcases Nat.lt_trichotomy nFile found with before | rfl | beyond
    · have := full nFile atLeast before
      have := word nFile
      omega
    · omega
    · have := visited found later beyond
      omega
  · intro noWrap
    have fits : storage.nSize found + nAddSize.toNat < 2 ^ 32 :=
      noWrap found later fun other atLeast before => by
        have := full other atLeast before
        have := word other
        omega
    have newSize : entry.nSize.toNat = storage.nSize found + nAddSize.toNat := by
      rw [size, UInt32.toNat_add]
      exact Nat.mod_eq_of_lt fits
    refine ⟨?_, ?_, ?_, laid.undosNew⟩
    · rw [nSize_of_info infos, newSize]
      exact laid.blocks.handOut rfl (Nat.le_add_right _ _)
    · refine List.forall_mem_cons.mpr ⟨fun _ => ?_, laid.below⟩
      change storage.nSize found + nAddSize.toNat < 2 ^ 27
      omega
    · rw [nUndoSize_of_info infos, undoSize]
      change Follows _ (Function.update storage.nUndoSize found (storage.nUndoSize found))
      rw [Function.update_eq_self]
      exact laid.undos

theorem Laid.knownBlock_iff (laid : Laid storage) (pos : CDiskBlockPos) (nAddSize nHeight : UInt32)
    (nTime : UInt64) (checkDiskSpace : UInt32 → Bool) :
    Laid (storage.step (.knownBlock pos nAddSize nHeight nTime checkDiskSpace)) ↔
      NoWrap storage (.knownBlock pos nAddSize nHeight nTime checkDiskSpace) := by
  obtain ⟨after, success, entry, result, infos, size, undoSize⟩ :=
    storage.files.findBlockPos_known pos nAddSize nHeight nTime checkDiskSpace
  have stepped : storage.step (.knownBlock pos nAddSize nHeight nTime checkDiskSpace) =
      { storage with files := after, blocks := range pos nAddSize true :: storage.blocks } := by
    dsimp only [step]
    rw [result]
  rw [stepped]
  change _ ↔ pos.nPos.toNat + nAddSize.toNat < 2 ^ 32
  rw [UInt32.toNat_add] at size
  constructor
  · intro laidAfter
    have ends := laidAfter.blocks.ends pos.nFile
    rw [nSize_of_info infos, Function.update_self, highestEnd, if_pos (by rfl)] at ends
    have word := entry.nSize.toNat_lt
    have above := le_max_left (pos.nPos.toNat + nAddSize.toNat)
      (highestEnd storage.blocks pos.nFile)
    change entry.nSize.toNat = max (pos.nPos.toNat + nAddSize.toNat) _ at ends
    omega
  · intro fits
    rw [Nat.mod_eq_of_lt fits] at size
    refine ⟨?_, ?_, ?_, laid.undosNew⟩
    · rw [nSize_of_info infos, size]
      exact laid.blocks.place rfl
    · exact List.forall_mem_cons.mpr ⟨fun new => (nomatch new), laid.below⟩
    · rw [nUndoSize_of_info infos, undoSize]
      change Follows _ (Function.update storage.nUndoSize pos.nFile (storage.nUndoSize pos.nFile))
      rw [Function.update_eq_self]
      exact laid.undos

theorem Laid.undo_iff (laid : Laid storage) (nFile : Nat) (nAddSize : UInt32)
    (checkDiskSpace : UInt32 → Bool) :
    Laid (storage.step (.undo nFile nAddSize checkDiskSpace)) ↔
      NoWrap storage (.undo nFile nAddSize checkDiskSpace) := by
  change _ ↔ (nFile < storage.files.vinfoBlockFile.length →
    storage.nUndoSize nFile + nAddSize.toNat < 2 ^ 32)
  by_cases inside : nFile < storage.files.vinfoBlockFile.length
  · have stepped : storage.step (.undo nFile nAddSize checkDiskSpace) =
        { storage with
          files := storage.files.modify nFile fun info =>
            { info with nUndoSize := info.nUndoSize + nAddSize }
          undos := range ⟨nFile, (storage.files.info nFile).nUndoSize⟩ nAddSize false ::
            storage.undos } := by
      dsimp only [step, BlockFiles.findUndoPos]
      rw [if_pos inside]
    rw [stepped]
    have infos := storage.files.info_modify inside fun info =>
      { info with nUndoSize := info.nUndoSize + nAddSize }
    constructor
    · intro laidAfter _
      have last := laidAfter.undos.last nFile _ (List.find?_cons_of_pos (by simp [range])) rfl
      rw [nUndoSize_of_info infos, Function.update_self] at last
      have word := ((storage.files.info nFile).nUndoSize + nAddSize).toNat_lt
      change ((storage.files.info nFile).nUndoSize + nAddSize).toNat =
        storage.nUndoSize nFile + nAddSize.toNat at last
      omega
    · intro noWrap
      have newSize : ((storage.files.info nFile).nUndoSize + nAddSize).toNat =
          storage.nUndoSize nFile + nAddSize.toNat := by
        rw [UInt32.toNat_add]
        exact Nat.mod_eq_of_lt (noWrap inside)
      refine ⟨?_, laid.below, ?_, List.forall_mem_cons.mpr ⟨rfl, laid.undosNew⟩⟩
      · rw [nSize_of_info infos]
        change Follows _ (Function.update storage.nSize nFile (storage.nSize nFile))
        rw [Function.update_eq_self]
        exact laid.blocks
      · rw [nUndoSize_of_info infos]
        dsimp only
        rw [newSize]
        exact laid.undos.handOut rfl (Nat.le_add_right _ _)
  · have stays : storage.step (.undo nFile nAddSize checkDiskSpace) = storage := by
      dsimp only [step, BlockFiles.findUndoPos]
      rw [if_neg inside]
    rw [stays]
    exact ⟨fun _ here => absurd here inside, fun _ => laid⟩

theorem laid_initial : Laid {} := by
  refine ⟨⟨fun _ => rfl, fun _ _ none => (nomatch none), List.Pairwise.nil⟩, ?_,
    ⟨fun _ => rfl, fun _ _ none => (nomatch none), List.Pairwise.nil⟩, ?_⟩
  all_goals
    intro range none
    cases none

/-- **The files are laid out well in every state of a run** if and only if no 32-bit sum wraps
around on the way. -/
theorem laid_iff_noWrap (calls : List StorageCall) (small : ∀ call ∈ calls, Fits call) :
    (∀ storage ∈ states step {} calls, Laid storage) ↔ AllSteps step NoWrap {} calls := by
  refine forall_states_iff (fun _ => True) Laid (fun _ _ _ => trivial) ?_ trivial laid_initial small
  intro storage call fits _ laid
  cases call with
  | newBlock nAddSize nHeight nTime checkDiskSpace => exact laid.newBlock_iff fits _ _ _
  | knownBlock pos nAddSize nHeight nTime checkDiskSpace => exact laid.knownBlock_iff _ _ _ _ _
  | undo nFile nAddSize checkDiskSpace => exact laid.undo_iff _ _ _

/-- A block at the start of a fresh node, and one at a known place. -/
theorem laid_iff_noWrap_twoBlocks :
    (∀ storage ∈ states step {} [.newBlock 300 0 0 fun _ => true,
      .knownBlock ⟨0, 300⟩ 200 1 0 fun _ => true], Laid storage) ↔
      AllSteps step NoWrap {} [.newBlock 300 0 0 fun _ => true,
        .knownBlock ⟨0, 300⟩ 200 1 0 fun _ => true] := by
  refine laid_iff_noWrap _ fun call member => ?_
  rcases List.mem_cons.mp member with rfl | known
  · exact (by decide : (300 : UInt32) < MAX_BLOCKFILE_SIZE)
  · rw [List.mem_singleton.mp known]
    trivial

/-- Two pieces of undo data of 2 GiB each bring the size of the undo file back to zero. -/
theorem not_laid_wrapped :
    ¬ ∀ storage ∈ states step {} [.newBlock 300 0 0 fun _ => true, .undo 0 0x80000000 fun _ => true,
      .undo 0 0x80000000 fun _ => true, .undo 0 10 fun _ => true], Laid storage := by
  intro every
  have laid := every _ (foldl_mem_states _ _)
  have apart := (List.pairwise_cons.mp laid.undos.apart).1 ⟨0, 0, 0x80000000, false⟩ (by decide)
    rfl rfl
  exact absurd apart (by decide)

end Storage

end GiantCore
