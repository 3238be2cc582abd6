import IoCatcher.Lib.Run
import IoCatcher.Model.Backends
import Mathlib.Data.List.Chain

/-!
# IO Catcher — chunks of an NVDIMM file

`MemoryBackendNvdimm` maps its chunks one after the other from a file, and goes on with a
new file when the next chunk does not fit. A new file has twice the size of the one
before, with a limit of 32 GiB, rounded up to the request; the first one is 8 times the
request.

What the system calls answer is a parameter (`Host`). Their trace is replayed on a table
of files (`Syscall.apply`), which knows to what size a file was truncated and which ranges
of it were mapped.

* `nextSize_spec` — the growth rule;
* `mapped_of_run` — the chunks of every run are inside of their file and disjoint.
-/

namespace IoCatcher

/-- The fields of `MemoryBackendNvdimm`; the directory is only part of the file names. -/
structure MemoryBackendNvdimm where
  fileFD     : Int
  fileSize   : Nat
  chunks     : Nat
  fileOffset : Nat
  deriving DecidableEq

namespace MemoryBackendNvdimm

/-- `IOC_INITIAL_FACTOR`. -/
def initialFactor : Nat := 8

/-- `IOC_INCREASE_LIMIT`. -/
def increaseLimit : Nat := 32 * 1024 * 1024 * 1024

/-- Why a call stops. -/
inductive Fault where
  /-- An `assert` does not hold. -/
  | assertion
  /-- "Fail to create and open the nvdimm file '%1': %2". -/
  | mkstemp
  /-- "Fail to unlink file %1: %2". -/
  | unlink
  /-- "Failed to ftruncate the nvdimm file to size %1: %s". -/
  | ftruncate (size : Nat)
  /-- "Failed to memory map the nvdimm file new range : %1". -/
  | mmap
  deriving DecidableEq

/-- What the system calls of one call answer. -/
structure Host where
  mkstemp   : Int
  unlink    : Int
  ftruncate : Int
  mmap      : Option Addr
  deriving DecidableEq

/-- A system call that changes a file or maps it. -/
inductive Syscall where
  | close (fd : Int)
  | mkstemp (fd : Int)
  | ftruncate (fd : Int) (size : Nat)
  | mmap (fd : Int) (offset size : Nat)
  | munmap (addr : Addr) (size : Nat)
  deriving DecidableEq

/-- `MemoryBackendNvdimm::MemoryBackendNvdimm`. -/
def new : MemoryBackendNvdimm := ⟨0, 0, 0, 0⟩

/-- The size that `openNewFile` computes. -/
def nextSize (fileSize size : Nat) : Nat :=
  if fileSize = 0 then size * initialFactor % 2 ^ 64
  else
    let doubled := fileSize * 2 % 2 ^ 64
    let limited := if increaseLimit < doubled then increaseLimit else doubled
    if limited % size ≠ 0 then SizeT.add limited (SizeT.sub size (limited % size)) else limited

/-- `MemoryBackendNvdimm::openNewFile`. -/
def openNewFile (host : Host) (m : MemoryBackendNvdimm) (size : Nat) :
    Except Fault (MemoryBackendNvdimm × List Syscall) :=
  let closed := if m.fileFD ≠ 0 then [Syscall.close m.fileFD] else []
  let next := nextSize m.fileSize size
  if host.mkstemp ≤ 0 then .error .mkstemp
  else if host.unlink ≠ 0 then .error .unlink
  else if host.ftruncate ≠ 0 then .error (.ftruncate next)
  else .ok ({ m with fileFD := host.mkstemp, fileSize := next, fileOffset := 0 },
    closed ++ [.mkstemp host.mkstemp, .ftruncate host.mkstemp next])

/-- The end of `allocate`, once there is room in the file. -/
def mapChunk (host : Host) (m : MemoryBackendNvdimm) (size : Nat) :
    Except Fault (Addr × MemoryBackendNvdimm × List Syscall) :=
  let fileOffset := SizeT.add m.fileOffset size
  if m.fileSize < fileOffset then .error .assertion
  else
    match host.mmap with
    | none => .error .mmap
    | some ptr =>
      .ok (ptr, { m with fileOffset := fileOffset, chunks := SizeT.add m.chunks 1 },
        [.mmap m.fileFD m.fileOffset size])

/-- `MemoryBackendNvdimm::allocate`, with the system calls it makes. -/
def allocate (host : Host) (m : MemoryBackendNvdimm) (size : Nat) :
    Except Fault (Addr × MemoryBackendNvdimm × List Syscall) :=
  if size = 0 ∨ size % 4096 ≠ 0 then .error .assertion
  else if m.fileSize < SizeT.add m.fileOffset size then
    match m.openNewFile host size with
    | .error e => .error e
    | .ok (opened, calls) =>
      match opened.mapChunk host size with
      | .error e => .error e
      | .ok (ptr, m', mapped) => .ok (ptr, m', calls ++ mapped)
  else m.mapChunk host size

/-- `MemoryBackendNvdimm::deallocate`. -/
def deallocate (m : MemoryBackendNvdimm) (addr : Addr) (size : Nat) :
    Except Fault (MemoryBackendNvdimm × List Syscall) :=
  if size = 0 ∨ size % 4096 ≠ 0 ∨ m.chunks = 0 then .error .assertion
  else .ok ({ m with chunks := SizeT.sub m.chunks 1 }, [.munmap addr size])

-- ---------------------------------------------------------------------------
-- The growth rule
-- ---------------------------------------------------------------------------

variable {host : Host} {m m' : MemoryBackendNvdimm} {size fileSize : Nat}

theorem nextSize_first (hfit : 8 * size < 2 ^ 64) : nextSize 0 size = 8 * size := by
  unfold nextSize initialFactor
  rw [if_pos rfl]
  omega

/-- A later file is a multiple of the request, from the doubled and limited size on, and
the rounding adds less than the request. -/
theorem nextSize_spec (hsize : 0 < size) (hfit : 8 * size < 2 ^ 64) (hpos : 0 < fileSize)
    (hdouble : 2 * fileSize < 2 ^ 64) :
    size ∣ nextSize fileSize size ∧ min (2 * fileSize) increaseLimit ≤ nextSize fileSize size ∧
      nextSize fileSize size < min (2 * fileSize) increaseLimit + size := by
  have hlimited : (if increaseLimit < fileSize * 2 % 2 ^ 64 then increaseLimit
      else fileSize * 2 % 2 ^ 64) = min (2 * fileSize) increaseLimit := by
    rw [Nat.mod_eq_of_lt (by omega), Nat.mul_comm]
    split_ifs with hlt
    · exact (min_eq_right hlt.le).symm
    · exact (min_eq_left (not_lt.mp hlt)).symm
  have hlimit : min (2 * fileSize) increaseLimit ≤ 2 ^ 35 := min_le_right _ _
  have hmod := Nat.mod_lt (min (2 * fileSize) increaseLimit) hsize
  unfold nextSize
  rw [if_neg hpos.ne']
  simp only [hlimited]
  split_ifs with hround
  · rw [SizeT.sub_eq hmod.le (by omega), SizeT.add_eq (by omega)]
    refine ⟨?_, Nat.le_add_right _ _, by omega⟩
    -- the remainder and what is added make one more request
    have hsplit := Nat.div_add_mod (min (2 * fileSize) increaseLimit) size
    refine ⟨min (2 * fileSize) increaseLimit / size + 1, ?_⟩
    rw [Nat.mul_add, Nat.mul_one]
    omega
  · exact ⟨Nat.dvd_of_mod_eq_zero (not_not.mp hround), le_rfl, Nat.lt_add_of_pos_right hsize⟩

/-- There is room for the request in a file opened for it, and the file ends on a page. -/
theorem nextSize_room (hsize : 0 < size) (hfit : 8 * size < 2 ^ 64)
    (hdouble : 2 * fileSize < 2 ^ 64) :
    size ≤ nextSize fileSize size ∧ size ∣ nextSize fileSize size := by
  rcases Nat.eq_zero_or_pos fileSize with rfl | hpos
  · rw [nextSize_first hfit]
    exact ⟨by omega, Nat.dvd_mul_left size 8⟩
  · obtain ⟨hdvd, hlow, -⟩ := nextSize_spec hsize hfit hpos hdouble
    have hlimit : 0 < min (2 * fileSize) increaseLimit :=
      lt_min (by omega) (by decide)
    exact ⟨Nat.le_of_dvd (by omega) hdvd, hdvd⟩

theorem nextSize_lt (hsize : 0 < size) (hfit : 8 * size < 2 ^ 64)
    (hdouble : 2 * fileSize < 2 ^ 64) : nextSize fileSize size < 2 ^ 64 := by
  rcases Nat.eq_zero_or_pos fileSize with rfl | hpos
  · rw [nextSize_first hfit]
    exact hfit
  · obtain ⟨-, -, hhigh⟩ := nextSize_spec hsize hfit hpos hdouble
    have hlimit : min (2 * fileSize) increaseLimit ≤ 2 ^ 35 := min_le_right _ _
    omega

-- ---------------------------------------------------------------------------
-- Files
-- ---------------------------------------------------------------------------

/-- A range of a file that was mapped. -/
structure Chunk where
  offset : Nat
  size   : Nat
  deriving DecidableEq

/-- A file, the descriptor it was opened under, and its chunks, the first one first. -/
structure File where
  fd     : Int
  opened : Bool
  size   : Nat
  chunks : List Chunk
  deriving DecidableEq

/-- The files that are open under a descriptor are changed. -/
def File.update (fd : Int) (f : File → File) (file : File) : File :=
  if file.opened = true ∧ file.fd = fd then f file else file

/-- What a system call does to the files, the last one first. -/
def Syscall.apply (files : List File) : Syscall → List File
  | .close fd => files.map (File.update fd fun file => { file with opened := false })
  | .mkstemp fd => ⟨fd, true, 0, []⟩ :: files
  | .ftruncate fd size => files.map (File.update fd fun file => { file with size := size })
  | .mmap fd offset size =>
    files.map (File.update fd fun file => { file with chunks := file.chunks ++ [⟨offset, size⟩] })
  | .munmap _ _ => files

/-- Nothing happens to files that are closed. -/
theorem map_update_closed {files : List File} (h : ∀ file ∈ files, file.opened = false) (fd : Int)
    (f : File → File) : files.map (File.update fd f) = files := by
  refine (List.map_congr_left fun file hin => ?_).trans (List.map_id files)
  unfold File.update
  rw [if_neg (by rw [h file hin]; exact fun hno => Bool.noConfusion hno.1)]
  rfl

theorem update_open {file : File} (h : file.opened = true) (f : File → File) :
    file.update file.fd f = f file := if_pos ⟨h, rfl⟩

/-- The chunks of a file are whole pages inside of it, each after the one before. -/
structure File.Tiled (file : File) : Prop where
  pages   : ∀ c ∈ file.chunks, c.offset % 4096 = 0 ∧ c.size % 4096 = 0 ∧ 0 < c.size
  inside  : ∀ c ∈ file.chunks, c.offset + c.size ≤ file.size
  ordered : file.chunks.Pairwise fun c c' => c.offset + c.size ≤ c'.offset

/-- The size of a file that was opened after another one. The request it was opened for is
its first chunk. -/
def File.Grown (file older : File) : Prop :=
  ∃ request, file.chunks.head? = some request ∧ request.offset = 0 ∧
    0 < file.size ∧ request.size ∣ file.size ∧
    min (2 * older.size) increaseLimit ≤ file.size ∧
    file.size < min (2 * older.size) increaseLimit + request.size

/-- The file that the backend maps its chunks from. -/
structure Current (m : MemoryBackendNvdimm) (file : File) : Prop where
  opened : file.opened = true
  handle : file.fd = m.fileFD ∧ m.fileFD ≠ 0
  size   : file.size = m.fileSize ∧ 0 < m.fileSize
  offset : m.fileOffset ≤ m.fileSize ∧ m.fileOffset % 4096 = 0
  below  : ∀ c ∈ file.chunks, c.offset + c.size ≤ m.fileOffset

/-- The file with one more chunk at its end. -/
def File.append (file : File) (offset size : Nat) : File :=
  { file with chunks := file.chunks ++ [⟨offset, size⟩] }

/-- A file that is open no more. -/
def File.shut (file : File) : File := { file with opened := false }

theorem File.Tiled.append {file : File} (h : file.Tiled) (hcur : Current m file)
    (hsize : 0 < size) (hpage : size % 4096 = 0) (hroom : m.fileOffset + size ≤ m.fileSize) :
    (file.append m.fileOffset size).Tiled := by
  refine ⟨fun c hc => ?_, fun c hc => ?_, ?_⟩
  · rcases List.mem_append.mp hc with hc | hc
    · exact h.pages c hc
    · obtain rfl := List.mem_singleton.mp hc
      exact ⟨hcur.offset.2, hpage, hsize⟩
  · rcases List.mem_append.mp hc with hc | hc
    · exact h.inside c hc
    · obtain rfl := List.mem_singleton.mp hc
      exact hroom.trans hcur.size.1.ge
  · refine List.pairwise_append.mpr ⟨h.ordered, List.pairwise_singleton _ _, fun c hc c' hc' => ?_⟩
    obtain rfl := List.mem_singleton.mp hc'
    exact hcur.below c hc

theorem File.Grown.append {file older : File} (h : file.Grown older) (offset size : Nat) :
    (file.append offset size).Grown older := by
  obtain ⟨request, hhead, hrest⟩ := h
  refine ⟨request, ?_, hrest⟩
  show (file.chunks ++ _).head? = some request
  rw [List.head?_append, hhead]
  rfl

/-- The backend after one more chunk. -/
def advance (m : MemoryBackendNvdimm) (size : Nat) : MemoryBackendNvdimm :=
  { m with fileOffset := m.fileOffset + size, chunks := SizeT.add m.chunks 1 }

theorem Current.append {file : File} (h : Current m file) (hpage : size % 4096 = 0)
    (hroom : m.fileOffset + size ≤ m.fileSize) :
    Current (m.advance size) (file.append m.fileOffset size) := by
  have hoffset := h.offset.2
  refine ⟨h.opened, h.handle, h.size, ⟨hroom, ?_⟩, fun c hc => ?_⟩
  · show (m.fileOffset + size) % 4096 = 0
    omega
  · show c.offset + c.size ≤ m.fileOffset + size
    rcases List.mem_append.mp hc with hc | hc
    · exact (h.below c hc).trans (Nat.le_add_right _ _)
    · obtain rfl := List.mem_singleton.mp hc
      exact le_rfl

-- ---------------------------------------------------------------------------
-- One call
-- ---------------------------------------------------------------------------

/-- With room in the file, its assertion holds. -/
theorem mapChunk_eq (hfit : m.fileSize < 2 ^ 64) (hroom : m.fileOffset + size ≤ m.fileSize) :
    m.mapChunk host size =
      match host.mmap with
      | none => .error .mmap
      | some ptr => .ok (ptr, m.advance size, [.mmap m.fileFD m.fileOffset size]) := by
  unfold mapChunk
  rw [SizeT.add_eq (by omega)]
  simp only [if_neg (not_lt.mpr hroom)]
  rfl

/-- The backend and the file after `openNewFile`. -/
theorem openNewFile_cases {calls : List Syscall}
    (h : m.openNewFile host size = .ok (m', calls)) :
    0 < host.mkstemp ∧ m' = ⟨host.mkstemp, nextSize m.fileSize size, m.chunks, 0⟩ ∧
      calls = (if m.fileFD ≠ 0 then [Syscall.close m.fileFD] else []) ++
        [.mkstemp host.mkstemp, .ftruncate host.mkstemp (nextSize m.fileSize size)] := by
  unfold openNewFile at h
  by_cases hfd : host.mkstemp ≤ 0
  · rw [if_pos hfd] at h
    cases h
  · rw [if_neg hfd] at h
    by_cases hunlink : host.unlink ≠ 0
    · rw [if_pos hunlink] at h
      cases h
    · rw [if_neg hunlink] at h
      by_cases htruncate : host.ftruncate ≠ 0
      · rw [if_pos htruncate] at h
        cases h
      · rw [if_neg htruncate] at h
        obtain ⟨rfl, rfl⟩ := Prod.mk.inj (Except.ok.inj h)
        exact ⟨not_le.mp hfd, rfl, rfl⟩

theorem openNewFile_ne_assertion : m.openNewFile host size ≠ .error .assertion := by
  intro h
  unfold openNewFile at h
  simp only at h
  split_ifs at h <;> cases h

/-- What the callers keep to: whole pages, and sizes that can be multiplied. -/
structure Fits (m : MemoryBackendNvdimm) (size : Nat) : Prop where
  pos    : 0 < size
  page   : size % 4096 = 0
  factor : 8 * size < 2 ^ 64
  double : 2 * m.fileSize < 2 ^ 64

/-- The file has room, or a new one is opened. -/
theorem allocate_eq (h : m.Fits size) (hoffset : m.fileOffset ≤ m.fileSize) :
    m.allocate host size =
      if m.fileOffset + size ≤ m.fileSize then m.mapChunk host size
      else
        match m.openNewFile host size with
        | .error e => .error e
        | .ok (opened, calls) =>
          match opened.mapChunk host size with
          | .error e => .error e
          | .ok (ptr, m', mapped) => .ok (ptr, m', calls ++ mapped) := by
  have hsizes : ¬(size = 0 ∨ size % 4096 ≠ 0) := by
    rintro (hzero | hpage)
    · exact h.pos.ne' hzero
    · exact hpage h.page
  have hfactor := h.factor
  have hdouble := h.double
  unfold allocate
  rw [if_neg hsizes, SizeT.add_eq (by omega)]
  by_cases hroom : m.fileOffset + size ≤ m.fileSize
  · rw [if_pos hroom, if_neg (not_lt.mpr hroom)]
  · rw [if_neg hroom, if_pos (not_le.mp hroom)]

/-- What `openNewFile` leaves has room for the chunk. -/
theorem mapChunk_opened (h : m.Fits size) {calls : List Syscall}
    (hopen : m.openNewFile host size = .ok (m', calls)) : m'.mapChunk host size =
      match host.mmap with
      | none => .error .mmap
      | some ptr => .ok (ptr, m'.advance size, [.mmap m'.fileFD m'.fileOffset size]) := by
  obtain ⟨-, rfl, -⟩ := openNewFile_cases hopen
  obtain ⟨hroom, -⟩ := nextSize_room h.pos h.factor h.double
  refine mapChunk_eq ?_ ((Nat.zero_add size).le.trans hroom)
  exact nextSize_lt h.pos h.factor h.double

/-- The assertions of `allocate` hold. -/
theorem allocate_ne_assertion (h : m.Fits size) (hoffset : m.fileOffset ≤ m.fileSize) :
    m.allocate host size ≠ .error .assertion := by
  have hdouble := h.double
  rw [allocate_eq h hoffset]
  split_ifs with hroom
  · rw [mapChunk_eq (by omega) hroom]
    cases host.mmap <;> exact fun hno => nomatch hno
  · cases hopen : m.openNewFile host size with
    | error e =>
      intro heq
      obtain rfl := Except.error.inj heq
      exact openNewFile_ne_assertion hopen
    | ok r =>
      simp only [mapChunk_opened h hopen]
      cases host.mmap <;> exact fun hno => nomatch hno

/-- A chunk is taken from the current file, or from the start of a new one. -/
theorem allocate_cases (h : m.Fits size) (hoffset : m.fileOffset ≤ m.fileSize) {ptr : Addr}
    {calls : List Syscall} (hok : m.allocate host size = .ok (ptr, m', calls)) :
    (m.fileOffset + size ≤ m.fileSize ∧ m' = m.advance size ∧
        calls = [.mmap m.fileFD m.fileOffset size]) ∨
      (0 < host.mkstemp ∧
        m' = ⟨host.mkstemp, nextSize m.fileSize size, SizeT.add m.chunks 1, size⟩ ∧
        calls = (if m.fileFD ≠ 0 then [Syscall.close m.fileFD] else []) ++
          [.mkstemp host.mkstemp, .ftruncate host.mkstemp (nextSize m.fileSize size),
            .mmap host.mkstemp 0 size]) := by
  have hdouble := h.double
  rw [allocate_eq h hoffset] at hok
  by_cases hroom : m.fileOffset + size ≤ m.fileSize
  · rw [if_pos hroom, mapChunk_eq (by omega) hroom] at hok
    cases hmmap : host.mmap with
    | none =>
      rw [hmmap] at hok
      cases hok
    | some a =>
      rw [hmmap] at hok
      cases hok
      exact Or.inl ⟨hroom, rfl, rfl⟩
  · rw [if_neg hroom] at hok
    cases hopen : m.openNewFile host size with
    | error e =>
      rw [hopen] at hok
      cases hok
    | ok r =>
      obtain ⟨opened, before⟩ := r
      rw [hopen] at hok
      simp only [mapChunk_opened h hopen] at hok
      obtain ⟨hfd, rfl, rfl⟩ := openNewFile_cases hopen
      cases hmmap : host.mmap with
      | none =>
        rw [hmmap] at hok
        cases hok
      | some a =>
        rw [hmmap] at hok
        cases hok
        refine Or.inr ⟨hfd, ?_, ?_⟩
        · unfold advance
          rw [Nat.zero_add]
        · rw [List.append_assoc]
          rfl

/-- The backend and the file table that a run has reached. -/
structure Mapped where
  backend : MemoryBackendNvdimm
  files   : List File
  deriving DecidableEq

namespace Mapped

variable {s s' : Mapped}

/-- What every run keeps: the last file is the one in use, and the others are closed. -/
structure Inv (s : Mapped) : Prop where
  current : (s.files = [] ∧ s.backend.fileFD = 0 ∧ s.backend.fileSize = 0 ∧
      s.backend.fileOffset = 0) ∨
    ∃ file rest, s.files = file :: rest ∧ Current s.backend file ∧
      ∀ f ∈ rest, f.opened = false
  tiled   : ∀ file ∈ s.files, file.Tiled
  grown   : s.files.IsChain File.Grown

/-- The files once the current one is closed. -/
theorem Inv.close (h : Inv s) :
    (if s.backend.fileFD ≠ 0 then [Syscall.close s.backend.fileFD] else []).foldl Syscall.apply
      s.files = s.files.map File.shut := by
  rcases h.current with ⟨hfiles, hfd, -, -⟩ | ⟨file, rest, hfiles, hcur, hclosed⟩
  · rw [if_neg (not_not.mpr hfd), hfiles]
    rfl
  · have hrest : rest.map File.shut = rest := by
      refine (List.map_congr_left fun f hf => ?_).trans (List.map_id rest)
      unfold File.shut
      rw [← hclosed f hf]
      rfl
    rw [if_pos hcur.handle.2, hfiles, List.map_cons, hrest, ← hcur.handle.1]
    show List.map _ (file :: rest) = _
    rw [List.map_cons, map_update_closed hclosed, update_open hcur.opened]
    rfl

theorem apply_mmap {file : File} {rest : List File} (hcur : Current m file)
    (hclosed : ∀ f ∈ rest, f.opened = false) (offset size : Nat) :
    Syscall.apply (file :: rest) (.mmap m.fileFD offset size) =
      file.append offset size :: rest := by
  rw [← hcur.handle.1]
  show List.map _ (file :: rest) = _
  rw [List.map_cons, map_update_closed hclosed, update_open hcur.opened]
  rfl

theorem shut_closed {files : List File} : ∀ f ∈ files.map File.shut, f.opened = false := by
  intro f hf
  obtain ⟨old, -, rfl⟩ := List.mem_map.mp hf
  rfl

/-- A file that is opened, truncated and mapped, after the others are closed. -/
theorem apply_open (files : List File) (fd : Int) (fileSize size : Nat) :
    [Syscall.mkstemp fd, .ftruncate fd fileSize, .mmap fd 0 size].foldl Syscall.apply
      (files.map File.shut) = ⟨fd, true, fileSize, [⟨0, size⟩]⟩ :: files.map File.shut := by
  show List.map _ (List.map _ (_ :: files.map File.shut)) = _
  rw [List.map_cons, List.map_cons, map_update_closed shut_closed, map_update_closed shut_closed]
  unfold File.update
  simp

/-- A chunk is mapped from the current file. -/
theorem Inv.map {file : File} {rest : List File} (h : Inv s) (hfiles : s.files = file :: rest)
    (hcur : Current s.backend file) (hclosed : ∀ f ∈ rest, f.opened = false)
    (hsize : 0 < size) (hpage : size % 4096 = 0)
    (hroom : s.backend.fileOffset + size ≤ s.backend.fileSize) :
    Inv ⟨s.backend.advance size, file.append s.backend.fileOffset size :: rest⟩ := by
  have htiled := h.tiled
  have hgrown := h.grown
  rw [hfiles] at htiled hgrown
  refine ⟨Or.inr ⟨_, rest, rfl, hcur.append hpage hroom, hclosed⟩, fun f hf => ?_, ?_⟩
  · rcases List.mem_cons.mp hf with rfl | hf
    · exact (htiled file List.mem_cons_self).append hcur hsize hpage hroom
    · exact htiled f (List.mem_cons_of_mem _ hf)
  · cases rest with
    | nil => exact List.IsChain.singleton _
    | cons older rest =>
      rw [List.isChain_cons_cons] at hgrown ⊢
      exact ⟨hgrown.1.append _ _, hgrown.2⟩

/-- A new file, with the chunk it was opened for. -/
theorem Inv.open {fd : Int} {n : Nat} (h : Inv s) (hfd : 0 < fd) (hsize : 0 < size)
    (hpage : size % 4096 = 0) (hfit : 8 * size < 2 ^ 64)
    (hdouble : 2 * s.backend.fileSize < 2 ^ 64) :
    Inv ⟨⟨fd, nextSize s.backend.fileSize size, n, size⟩,
      ⟨fd, true, nextSize s.backend.fileSize size, [⟨0, size⟩]⟩ :: s.files.map File.shut⟩ := by
  obtain ⟨hroom, -⟩ := nextSize_room hsize hfit hdouble
  refine ⟨Or.inr ⟨_, _, rfl, ⟨rfl, ⟨rfl, hfd.ne'⟩, ⟨rfl, hsize.trans_le hroom⟩, ⟨hroom, hpage⟩,
    fun c hc => ?_⟩, fun f hf => ?_⟩, fun f hf => ?_, ?_⟩
  · obtain rfl := List.mem_singleton.mp hc
    exact (Nat.zero_add size).le
  · exact shut_closed f hf
  · rcases List.mem_cons.mp hf with rfl | hf
    · refine ⟨fun c hc => ?_, fun c hc => ?_, List.pairwise_singleton _ _⟩
      · obtain rfl := List.mem_singleton.mp hc
        exact ⟨Nat.zero_mod _, hpage, hsize⟩
      · obtain rfl := List.mem_singleton.mp hc
        exact (Nat.zero_add size).le.trans hroom
    · obtain ⟨old, hold, rfl⟩ := List.mem_map.mp hf
      have htiled := h.tiled old hold
      exact ⟨htiled.pages, htiled.inside, htiled.ordered⟩
  · have hshut : (s.files.map File.shut).IsChain File.Grown := (List.isChain_map _).mpr h.grown
    rcases h.current with ⟨hfiles, -⟩ | ⟨file, rest, hfiles, hcur, -⟩
    · rw [hfiles]
      exact List.IsChain.singleton _
    · rw [hfiles] at hshut ⊢
      obtain ⟨hdvd, hlow, hhigh⟩ := nextSize_spec hsize hfit hcur.size.2 hdouble
      rw [← hcur.size.1] at hlow hhigh hdvd
      refine List.isChain_cons_cons.mpr ⟨⟨_, rfl, rfl, hsize.trans_le hroom, ?_⟩, hshut⟩
      rw [← hcur.size.1]
      exact ⟨hdvd, hlow, hhigh⟩

-- ---------------------------------------------------------------------------
-- Runs
-- ---------------------------------------------------------------------------

/-- A call of the callers. -/
inductive Call where
  | allocate (host : Host) (size : Nat)
  | deallocate (addr : Addr) (size : Nat)
  deriving DecidableEq

/-- One call that returns; its system calls change the files. -/
inductive Step (s : Mapped) : Call → Mapped → Prop where
  | allocate {host : Host} {size : Nat} {ptr : Addr} {m : MemoryBackendNvdimm}
      {calls : List Syscall} (hok : s.backend.allocate host size = .ok (ptr, m, calls)) :
      Step s (.allocate host size) ⟨m, calls.foldl Syscall.apply s.files⟩
  | deallocate {addr : Addr} {size : Nat} {m : MemoryBackendNvdimm} {calls : List Syscall}
      (hok : s.backend.deallocate addr size = .ok (m, calls)) :
      Step s (.deallocate addr size) ⟨m, calls.foldl Syscall.apply s.files⟩

/-- The sizes of the requests. -/
def Scope (s : Mapped) : Call → Prop
  | .allocate _ size => s.backend.Fits size
  | .deallocate _ _ => True

/-- A server before its first request. -/
def new : Mapped := ⟨.new, []⟩

theorem inv_new : Inv new :=
  ⟨Or.inl ⟨rfl, rfl, rfl, rfl⟩, fun _ hf => absurd hf List.not_mem_nil, List.IsChain.nil⟩

theorem Inv.offset (h : Inv s) : s.backend.fileOffset ≤ s.backend.fileSize := by
  rcases h.current with ⟨-, -, hsize, hoffset⟩ | ⟨file, rest, -, hcur, -⟩
  · rw [hsize, hoffset]
  · exact hcur.offset.1

theorem inv_allocate {ptr : Addr} {calls : List Syscall} (h : Inv s)
    (hfits : s.backend.Fits size) (hok : s.backend.allocate host size = .ok (ptr, m, calls)) :
    Inv ⟨m, calls.foldl Syscall.apply s.files⟩ := by
  rcases allocate_cases hfits h.offset hok with ⟨hroom, rfl, rfl⟩ | ⟨hfd, rfl, rfl⟩
  · rcases h.current with ⟨-, -, hsize, -⟩ | ⟨file, rest, hfiles, hcur, hclosed⟩
    · rw [hsize] at hroom
      exact absurd hfits.pos (by omega)
    · rw [List.foldl_cons, List.foldl_nil, hfiles, apply_mmap hcur hclosed]
      exact h.map hfiles hcur hclosed hfits.pos hfits.page hroom
  · rw [List.foldl_append, h.close, apply_open]
    exact h.open hfd hfits.pos hfits.page hfits.factor hfits.double

/-- The count of the chunks in use plays no part. -/
theorem Inv.counted (h : Inv s) (n : Nat) : Inv ⟨{ s.backend with chunks := n }, s.files⟩ := by
  refine ⟨?_, h.tiled, h.grown⟩
  rcases h.current with hnone | ⟨file, rest, hfiles, hcur, hclosed⟩
  · exact Or.inl hnone
  · exact Or.inr ⟨file, rest, hfiles, ⟨hcur.opened, hcur.handle, hcur.size, hcur.offset,
      hcur.below⟩, hclosed⟩

theorem inv_deallocate {addr : Addr} {calls : List Syscall} (h : Inv s)
    (hok : s.backend.deallocate addr size = .ok (m, calls)) :
    Inv ⟨m, calls.foldl Syscall.apply s.files⟩ := by
  unfold deallocate at hok
  split_ifs at hok
  obtain ⟨rfl, rfl⟩ := Prod.mk.inj (Except.ok.inj hok)
  rw [List.foldl_cons, List.foldl_nil]
  exact h.counted _

theorem inv_step {call : Call} (h : Inv s) (hscope : Scope s call) (hstep : Step s call s') :
    Inv s' := by
  cases hstep with
  | allocate hok => exact inv_allocate h hscope hok
  | deallocate hok => exact inv_deallocate h hok

/-- The chunks are disjoint and inside of their file. -/
structure Sound (s : Mapped) : Prop where
  /-- The assertions of `allocate` hold. -/
  asserted : ∀ host size, s.backend.Fits size →
    s.backend.allocate host size ≠ .error .assertion
  /-- Every chunk is made of whole pages below the size its file was truncated to. -/
  inside   : ∀ file ∈ s.files, ∀ c ∈ file.chunks,
    c.offset % 4096 = 0 ∧ c.size % 4096 = 0 ∧ 0 < c.size ∧ c.offset + c.size ≤ file.size
  /-- Every chunk of a file starts after the end of those before. -/
  disjoint : ∀ file ∈ s.files, file.chunks.Pairwise fun c c' => c.offset + c.size ≤ c'.offset
  /-- Every file but the first follows the growth rule; they are listed from the last one. -/
  grown    : s.files.IsChain File.Grown

/-- **The chunks of the NVDIMM files are sound**, in every run. -/
theorem mapped_of_run (hrun : Run Step Scope new s) : Sound s := by
  have hinv : Inv s := hrun.invariant inv_new fun h hscope hstep => inv_step h hscope hstep
  refine ⟨fun host size hfits => allocate_ne_assertion hfits hinv.offset, fun file hfile c hc => ?_,
    fun file hfile => (hinv.tiled file hfile).ordered, hinv.grown⟩
  obtain ⟨hoffset, hsize, hpos⟩ := (hinv.tiled file hfile).pages c hc
  exact ⟨hoffset, hsize, hpos, (hinv.tiled file hfile).inside c hc⟩

/-- A small request, and one that needs a file of its own. -/
theorem mapped_of_two : ∃ s, Run Step Scope new s ∧
    s.files = [⟨4, true, 81920, [⟨0, 81920⟩]⟩, ⟨3, false, 32768, [⟨0, 4096⟩]⟩] ∧ Sound s := by
  have hfirst : MemoryBackendNvdimm.new.allocate ⟨3, 0, 0, some 1⟩ 4096 = .ok (1,
      ⟨3, 32768, 1, 4096⟩, [.mkstemp 3, .ftruncate 3 32768, .mmap 3 0 4096]) := by decide
  have hsecond : (MemoryBackendNvdimm.mk 3 32768 1 4096).allocate ⟨4, 0, 0, some 2⟩ 81920 = .ok (2,
      ⟨4, 81920, 2, 81920⟩, [.close 3, .mkstemp 4, .ftruncate 4 81920, .mmap 4 0 81920]) := by
    decide
  have hfits : Fits .new 4096 := ⟨by decide, by decide, by decide, by decide⟩
  have hfits' : Fits ⟨3, 32768, 1, 4096⟩ 81920 := ⟨by decide, by decide, by decide, by decide⟩
  have hone : Run Step Scope new ⟨⟨3, 32768, 1, 4096⟩, _⟩ :=
    .next .start (e := .allocate ⟨3, 0, 0, some 1⟩ 4096) hfits (Step.allocate (s := new) hfirst)
  have hrun : Run Step Scope new ⟨⟨4, 81920, 2, 81920⟩, _⟩ :=
    .next hone (e := .allocate ⟨4, 0, 0, some 2⟩ 81920) hfits'
      (Step.allocate (s := ⟨⟨3, 32768, 1, 4096⟩, _⟩) hsecond)
  exact ⟨_, hrun, by decide, mapped_of_run hrun⟩

end Mapped

end MemoryBackendNvdimm

end IoCatcher
