import HereEmu.Board
import HereEmu.Decoder
import HereEmu.Lib.Run

/-!
# Loading an image

What should happen is easily said: an image that has a place in RAM is laid there,
and one that has none is refused with an error. The further images of the
configuration are treated like that. The first one is not: `load_to_ram` and
`load_bin` do not ask before they add, subtract, slice and insert, and whatever
they should have refused is a panic.

So the two statements needed of a segment are that it is laid if it is
`Loadable`, and that it stops the host otherwise, whatever RAM holds. Both
carry over to the loop.
-/

namespace HereEmu

open Lib VirtBoard List

/-! ## Sections in RAM -/

namespace Ram

variable {ram : Ram} {data : List (BitVec 8)} {addr : WordType}

/-- RAM with sections laid over it. -/
def lay (ram : Ram) (sections : List (Section (BitVec 8))) : Ram :=
  { ram with data := Section.overlay ram.data sections }

theorem lay_append (ram : Ram) (first second : List (Section (BitVec 8))) :
    ram.lay (first ++ second) = (ram.lay first).lay second := by
  unfold lay
  rw [Section.overlay_append]

/-- A loop that lays some sections every round. -/
theorem foldl_lay {ι : Type} (f : ι → List (Section (BitVec 8))) (items : List ι) (ram : Ram) :
    items.foldl (fun ram i => ram.lay (f i)) ram = ram.lay (items.flatMap f) := by
  induction items generalizing ram with
  | nil => rfl
  | cons i items ih => rw [foldl_cons, ih, flatMap_cons, lay_append]

theorem tryInsertSection_eq_ok (h : addr.toNat + data.length ≤ SIZE) :
    ram.tryInsertSection data addr = .ok (ram.lay [⟨addr.toNat, data⟩]) := by
  have hoverflow : ¬ 2 ^ 64 ≤ addr.toNat + data.length := by unfold SIZE at h; omega
  unfold tryInsertSection lay
  rw [if_neg hoverflow, if_neg (Nat.not_lt.mpr h), Section.write_eq]

theorem tryInsertSection_eq_error (h : SIZE < addr.toNat + data.length) (ram : Ram) :
    ∃ e, ram.tryInsertSection data addr = .error e := by
  unfold tryInsertSection
  dsimp only
  split
  · exact ⟨_, rfl⟩
  · exact ⟨_, rfl⟩

theorem insertSection_eq_ok (h : addr.toNat + data.length ≤ SIZE) :
    ram.insertSection data addr = .ok (ram.lay [⟨addr.toNat, data⟩]) := by
  unfold insertSection
  rw [tryInsertSection_eq_ok h]
  rfl

theorem insertSection_eq_error (h : SIZE < addr.toNat + data.length) (ram : Ram) :
    ∃ p, ram.insertSection data addr = .error p := by
  obtain ⟨e, he⟩ := tryInsertSection_eq_error h ram
  unfold insertSection
  rw [he]
  exact ⟨_, rfl⟩

theorem le_of_insertSection {ram' : Ram} (h : ram.insertSection data addr = .ok ram') :
    addr.toNat + data.length ≤ SIZE := by
  by_contra hout
  obtain ⟨p, hp⟩ := insertSection_eq_error (Nat.lt_of_not_le hout) ram
  cases hp.symm.trans h

end Ram

theorem toNat_sub_BASE_ADDR {addr : WordType} (h : BASE_ADDR ≤ addr) :
    (addr - BASE_ADDR).toNat = addr.toNat - BASE_ADDR.toNat :=
  BitVec.toNat_sub_of_le h

theorem sliceOf_eq_ok {input data : List (BitVec 8)} {first last : Nat}
    (h : sliceOf input first last = .ok data) :
    (first ≤ last ∧ last ≤ input.length) ∧ data = (input.take last).drop first := by
  unfold sliceOf at h
  split at h
  · next hrange => exact ⟨hrange, (Except.ok.inj h).symm⟩
  · cases h

/-! ## Segments -/

namespace ProgramHeader

variable {input : List (BitVec 8)} {ph : ProgramHeader} {ram : Ram}

/-- The bytes of the segment, at its place in RAM. -/
def segment (input : List (BitVec 8)) (ph : ProgramHeader) : Section (BitVec 8) where
  start := ph.virtualAddr.toNat - BASE_ADDR.toNat
  data := (input.drop ph.offset.toNat).take ph.fileSize.toNat

/-- The segment of a header, if it is to be loaded. -/
def segments (input : List (BitVec 8)) (ph : ProgramHeader) : List (Section (BitVec 8)) :=
  match ph.getType with
  | .ok .load => [ph.segment input]
  | _ => []

/-- The segment is in the file, and there is room for it in RAM. -/
structure InRange (input : List (BitVec 8)) (ph : ProgramHeader) : Prop where
  file : ph.offset.toNat + ph.fileSize.toNat ≤ input.length
  above : BASE_ADDR ≤ ph.virtualAddr
  below : ph.virtualAddr.toNat + ph.fileSize.toNat ≤ BASE_ADDR.toNat + SIZE

/-- The header has a type that the parser knows, and if it is to be loaded it is in
range. -/
def Loadable (input : List (BitVec 8)) (ph : ProgramHeader) : Prop :=
  ∃ type, ph.getType = .ok type ∧ (type = .load → ph.InRange input)

theorem fileEnd_eq_ok {last : Nat} (h : ph.fileEnd = .ok last) :
    last = ph.offset.toNat + ph.fileSize.toNat := by
  unfold fileEnd at h
  split at h
  · exact (Except.ok.inj h).symm
  · cases h

theorem ramAddr_eq_ok {addr : WordType} (h : ph.ramAddr = .ok addr) :
    BASE_ADDR ≤ ph.virtualAddr ∧ addr = ph.virtualAddr - BASE_ADDR := by
  unfold ramAddr at h
  split at h
  · next habove => exact ⟨habove, (Except.ok.inj h).symm⟩
  · cases h

theorem sliceOf_segment (h : ph.offset.toNat + ph.fileSize.toNat ≤ input.length) :
    sliceOf input ph.offset.toNat (ph.offset.toNat + ph.fileSize.toNat) =
      .ok (ph.segment input).data := by
  unfold sliceOf
  rw [if_pos ⟨Nat.le_add_right _ _, h⟩, drop_take, Nat.add_sub_cancel_left]
  rfl

theorem InRange.length_segment (h : ph.InRange input) :
    (ph.segment input).data.length = ph.fileSize.toNat := by
  have hfile := h.file
  unfold segment
  rw [length_take, length_drop]
  omega

end ProgramHeader

namespace ELFLoader

variable {input : List (BitVec 8)} {ph : ProgramHeader} {type : ProgramType}

theorem loadSegment_load (h : ph.getType = .ok .load) (ram : Ram) : loadSegment input ram ph = (do
      let sectionData ← sliceOf input ph.offset.toNat (← ph.fileEnd)
      ram.insertSection sectionData (← ph.ramAddr)) := by
  unfold loadSegment
  rw [h]
  rfl

theorem loadSegment_other (h : ph.getType = .ok type) (hother : type ≠ .load) (ram : Ram) :
    loadSegment input ram ph = .ok ram := by
  unfold loadSegment
  rw [h]
  exact if_neg hother

/-- The part of the file is cut out before the address is looked at. -/
theorem loadSegment_cut (hlen : input.length < 2 ^ 63) (htype : ph.getType = .ok .load)
    (hfile : ph.offset.toNat + ph.fileSize.toNat ≤ input.length) (ram : Ram) :
    loadSegment input ram ph = ph.ramAddr >>= ram.insertSection (ph.segment input).data := by
  have hend : ph.fileEnd = .ok (ph.offset.toNat + ph.fileSize.toNat) := if_pos (by omega)
  rw [loadSegment_load htype, hend]
  show (sliceOf input ph.offset.toNat _ >>= _) = _
  rw [ProgramHeader.sliceOf_segment hfile]
  rfl

theorem loadSegment_eq_ok (hlen : input.length < 2 ^ 63) (h : ph.Loadable input) (ram : Ram) :
    loadSegment input ram ph = .ok (ram.lay (ph.segments input)) := by
  obtain ⟨type, htype, hrange⟩ := h
  unfold ProgramHeader.segments
  by_cases hload : type = .load
  · subst hload
    have hin := hrange rfl
    have haddr : ph.ramAddr = .ok (ph.virtualAddr - BASE_ADDR) := if_pos hin.above
    have hfits : (ph.virtualAddr - BASE_ADDR).toNat + (ph.segment input).data.length ≤ SIZE := by
      rw [toNat_sub_BASE_ADDR hin.above, hin.length_segment]
      have := hin.below
      have := BitVec.le_def.mp hin.above
      omega
    rw [loadSegment_cut hlen htype hin.file, haddr, htype]
    refine (Ram.insertSection_eq_ok hfits).trans ?_
    rw [toNat_sub_BASE_ADDR hin.above]
    rfl
  · rw [loadSegment_other htype hload, htype]
    cases type with
    | load => exact absurd rfl hload
    | _ => rfl

/-- A segment that was loaded had a place. -/
theorem loadable_of_loadSegment {ram ram' : Ram} (h : loadSegment input ram ph = .ok ram') :
    ph.Loadable input := by
  cases htype : ph.getType with
  | error e =>
    unfold loadSegment at h
    rw [htype] at h
    cases h
  | ok type =>
    refine ⟨type, htype, ?_⟩
    rintro rfl
    rw [loadSegment_load htype] at h
    obtain ⟨last, hend, h⟩ := exists_of_bind_ok h
    obtain ⟨data, hslice, h⟩ := exists_of_bind_ok h
    obtain ⟨addr, haddr, h⟩ := exists_of_bind_ok h
    obtain rfl := ProgramHeader.fileEnd_eq_ok hend
    obtain ⟨hfile, rfl⟩ := sliceOf_eq_ok hslice
    obtain ⟨habove, rfl⟩ := ProgramHeader.ramAddr_eq_ok haddr
    have hfits := Ram.le_of_insertSection h
    rw [toNat_sub_BASE_ADDR habove, length_drop, length_take] at hfits
    refine ⟨hfile.2, habove, ?_⟩
    have := BitVec.le_def.mp habove
    omega

/-- Whatever RAM holds, the host stops at a segment that has no place. -/
theorem loadSegment_eq_error (h : ¬ ph.Loadable input) (ram : Ram) :
    ∃ p, loadSegment input ram ph = .error p := by
  cases hrun : loadSegment input ram ph with
  | error p => exact ⟨p, rfl⟩
  | ok ram' => exact absurd (loadable_of_loadSegment hrun) h

variable {parse : ElfParser} (loader : ELFLoader) {headers : List ProgramHeader}

theorem loadToRam_eq (hparse : parse loader.elfData.data = some headers) (ram : Ram) :
    loader.loadToRam parse ram = headers.foldlM (loadSegment loader.elfData.data) ram := by
  unfold loadToRam elf
  rw [hparse]
  rfl

theorem loadToRam_eq_ok (hparse : parse loader.elfData.data = some headers)
    (h : ∀ ph ∈ headers, ph.Loadable loader.elfData.data) (ram : Ram) :
    loader.loadToRam parse ram =
      .ok (ram.lay (headers.flatMap (·.segments loader.elfData.data))) := by
  rw [loadToRam_eq loader hparse, ← Ram.foldl_lay]
  exact foldlM_eq_ok (fun ph hph => loadSegment_eq_ok loader.elfData.length_lt (h ph hph)) ram

theorem loadToRam_eq_error (hparse : parse loader.elfData.data = some headers)
    {ph : ProgramHeader} (hph : ph ∈ headers) (h : ¬ ph.Loadable loader.elfData.data) (ram : Ram) :
    ∃ p, loader.loadToRam parse ram = .error p := by
  rw [loadToRam_eq loader hparse]
  exact foldlM_eq_error hph (loadSegment_eq_error h) ram

end ELFLoader

/-! ## The rest of the configuration -/

def MemoryImage.placed (image : MemoryImage) : Section (BitVec 8) where
  start := image.address.toNat - BASE_ADDR.toNat
  data := image.data.data

structure MemoryImage.InRange (image : MemoryImage) : Prop where
  above : BASE_ADDR ≤ image.address
  below : image.address.toNat + image.data.data.length ≤ BASE_ADDR.toNat + SIZE

theorem loadImage_eq_ok {image : MemoryImage} (h : image.InRange) (ram : Ram) :
    loadImage ram image = .ok (ram.lay [image.placed]) := by
  have hle := BitVec.le_def.mp h.above
  have hbase : ¬ image.address < BASE_ADDR := by
    rw [BitVec.lt_def]
    omega
  have hfits : (image.address - BASE_ADDR).toNat + image.data.data.length ≤ SIZE := by
    rw [toNat_sub_BASE_ADDR h.above]
    have := h.below
    omega
  unfold loadImage
  rw [if_neg hbase, Ram.tryInsertSection_eq_ok hfits, toNat_sub_BASE_ADDR h.above]
  rfl

namespace VirtBoardConfig

/-- The further images, in the order they are loaded. -/
def sections (config : VirtBoardConfig) : List (Section (BitVec 8)) :=
  config.memoryImages.flatMap fun image => [image.placed]

def ImagesInRange (config : VirtBoardConfig) : Prop := ∀ image ∈ config.memoryImages, image.InRange

/-- Every register that is preset is one of the 32. -/
def RegistersValid (config : VirtBoardConfig) : Prop :=
  ∀ r ∈ config.initialRegisters, r.1.toNat < 32

end VirtBoardConfig

theorem writeRegister_eq_ok {r : BitVec 8 × WordType} (h : r.1.toNat < 32)
    (regFile : RegIdx → WordType) : writeRegister regFile r =
      .ok (if r.1 = 0 then regFile else Function.update regFile (r.1.setWidth 5) r.2) := by
  unfold writeRegister
  split <;> rfl

theorem writeRegister_eq_error {r : BitVec 8 × WordType} (h : ¬ r.1.toNat < 32)
    (regFile : RegIdx → WordType) : ∃ p, writeRegister regFile r = .error p := by
  have hne : r.1 ≠ 0 := by
    intro h0
    rw [h0] at h
    exact h (by decide)
  unfold writeRegister
  rw [if_neg hne, if_neg h]
  exact ⟨_, rfl⟩

namespace VirtBoard

variable {P : Platform} {config : VirtBoardConfig}

/-- The further images are laid over the first, and the registers decide. -/
theorem fromRamWith_ends (devices : P.bus.Dev) (himages : config.ImagesInRange) (ram : Ram) :
    (config.RegistersValid ∧ ∃ board, fromRamWith devices ram config = .ok (.ok board) ∧
      board.ram = ram.lay config.sections) ∨
    ¬ config.RegistersValid ∧ ∃ p, fromRamWith devices ram config = .error p := by
  have hloads := foldlM_eq_ok (fun image h => loadImage_eq_ok (himages image h)) ram
  unfold fromRamWith VirtBoardConfig.sections build
  rw [hloads, Ram.foldl_lay]
  by_cases hregs : config.RegistersValid
  · rw [foldlM_eq_ok (fun r hr => writeRegister_eq_ok (hregs r hr)) fun _ => 0]
    exact .inl ⟨hregs, _, rfl, rfl⟩
  · obtain ⟨r, hr, hlarge⟩ : ∃ r ∈ config.initialRegisters, ¬ r.1.toNat < 32 := by
      unfold VirtBoardConfig.RegistersValid at hregs
      push Not at hregs ⊢
      exact hregs
    obtain ⟨p, hp⟩ := foldlM_eq_error hr (writeRegister_eq_error hlarge) fun _ => 0
    rw [hp]
    exact .inr ⟨hregs, p, rfl⟩

end VirtBoard

/-! ## What loading should do -/

section Spec

variable {P : Platform}

/-- An image that fits is in RAM, over zeroes, and one that does not fit is refused. -/
structure LoadsSafely (result : Except LoadPanic (Except String (VirtBoard P))) (fits : Prop)
    (sections : List (Section (BitVec 8))) : Prop where
  returns : ∃ r, result = .ok r
  refuses : ¬ fits → ∃ message, result = .ok (.error message)
  loads : fits → ∃ board, result = .ok (.ok board) ∧
    ∀ a, board.ram.data a = Section.overlay (fun _ => 0) sections a

/-- The part of the file is in the file, and the part of memory in RAM. -/
structure ProgramHeader.Fits (input : List (BitVec 8)) (ph : ProgramHeader) : Prop where
  file : ∀ i, ph.offset.toNat ≤ i → i < ph.offset.toNat + ph.fileSize.toNat → i < input.length
  ram : ∀ a, ph.virtualAddr.toNat ≤ a → a < ph.virtualAddr.toNat + ph.fileSize.toNat →
    BASE_ADDR.toNat ≤ a ∧ a < BASE_ADDR.toNat + SIZE

/-- A file that is refused has no segments; all that is asked is that the call returns. -/
def ElfLoadsSafely (devices : P.bus.Dev) (parse : ElfParser) (bytes : ByteVec)
    (config : VirtBoardConfig) : Prop :=
  (∃ r, fromElfWith devices parse bytes config = .ok r) ∧
  ∀ headers, parse bytes.data = some headers →
    LoadsSafely (fromElfWith devices parse bytes config)
      (∀ ph ∈ headers, ph.getType = .ok .load → ph.Fits bytes.data)
      (headers.flatMap (·.segments bytes.data) ++ config.sections)

def BinaryLoadsSafely (devices : P.bus.Dev) (bytes : ByteVec) (config : VirtBoardConfig) : Prop :=
  LoadsSafely (fromBinaryWith devices bytes config) (bytes.data.length ≤ SIZE)
    (⟨0, bytes.data⟩ :: config.sections)

/-- The files that are loaded or refused as they should be. -/
def ElfHarmless (parse : ElfParser) (bytes : ByteVec) (config : VirtBoardConfig) : Prop :=
  ∀ headers, parse bytes.data = some headers →
    (∀ ph ∈ headers, ph.Loadable bytes.data) ∧ config.RegistersValid

theorem ProgramHeader.Loadable.fits {input : List (BitVec 8)} {ph : ProgramHeader}
    (h : ph.Loadable input) (hload : ph.getType = .ok .load) : ph.Fits input := by
  obtain ⟨type, htype, hrange⟩ := h
  have hin := hrange (Except.ok.inj (htype.symm.trans hload))
  refine ⟨fun i _ hi => Nat.lt_of_lt_of_le hi hin.file, fun a hfirst hlast => ?_⟩
  have := BitVec.le_def.mp hin.above
  have := hin.below
  omega

theorem LoadsSafely.not_of_panic {result : Except LoadPanic (Except String (VirtBoard P))}
    {fits : Prop} {sections : List (Section (BitVec 8))} (hpanic : ∃ p, result = .error p) :
    ¬ LoadsSafely result fits sections := by
  intro h
  obtain ⟨p, hp⟩ := hpanic
  obtain ⟨r, hr⟩ := h.returns
  cases hp.symm.trans hr

variable {devices : P.bus.Dev} {parse : ElfParser} {bytes : ByteVec} {config : VirtBoardConfig}
  {headers : List ProgramHeader}

theorem fromElfWith_refused (h : parse bytes.data = none) :
    fromElfWith devices parse bytes config = .ok (.error "Invalid ELF file") := by
  unfold fromElfWith ELFLoader.tryNew
  rw [h]
  rfl

theorem fromElfWith_accepted (h : parse bytes.data = some headers) :
    fromElfWith devices parse bytes config = (do
      let board ← VirtBoard.fromRamWith devices
        (← ELFLoader.loadToRam parse ⟨bytes⟩ .new) config
      return board.map fun board => { board with loader := some ⟨bytes⟩ }) := by
  unfold fromElfWith ELFLoader.tryNew
  rw [h]
  rfl

/-- A first image that is laid if it has a place, and stops the host otherwise. -/
theorem loadsSafely_iff {loaded : Except LoadPanic Ram} {finish : VirtBoard P → VirtBoard P}
    {place fits : Prop} {sections : List (Section (BitVec 8))} (himages : config.ImagesInRange)
    (hfinish : ∀ board, (finish board).ram = board.ram) (hfits : place → fits)
    (hok : place → loaded = .ok (Ram.new.lay sections))
    (hpanic : ¬ place → ∃ p, loaded = .error p) :
    LoadsSafely (do
      let board ← VirtBoard.fromRamWith devices (← loaded) config
      return board.map finish) fits (sections ++ config.sections) ↔
      place ∧ config.RegistersValid := by
  by_cases hplace : place
  · rw [hok hplace]
    show LoadsSafely (VirtBoard.fromRamWith devices _ config >>= _) _ _ ↔ _
    rcases VirtBoard.fromRamWith_ends devices himages (Ram.new.lay sections) with
      ⟨hregs, board, hboard, hram⟩ | ⟨hregs, p, hp⟩
    · rw [hboard]
      refine iff_of_true ⟨⟨_, rfl⟩, absurd (hfits hplace), fun _ => ⟨_, rfl, fun a => ?_⟩⟩
        ⟨hplace, hregs⟩
      rw [hfinish, hram, ← Ram.lay_append]
      rfl
    · rw [hp]
      exact iff_of_false (LoadsSafely.not_of_panic ⟨p, rfl⟩) fun h => hregs h.2
  · obtain ⟨p, hp⟩ := hpanic hplace
    rw [hp]
    exact iff_of_false (LoadsSafely.not_of_panic ⟨p, rfl⟩) fun h => hplace h.1

theorem elfLoadsSafely_iff (himages : config.ImagesInRange) :
    ElfLoadsSafely devices parse bytes config ↔ ElfHarmless parse bytes config := by
  have hiff : ∀ headers, parse bytes.data = some headers →
      (LoadsSafely (fromElfWith devices parse bytes config)
        (∀ ph ∈ headers, ph.getType = .ok .load → ph.Fits bytes.data)
        (headers.flatMap (·.segments bytes.data) ++ config.sections) ↔
        (∀ ph ∈ headers, ph.Loadable bytes.data) ∧ config.RegistersValid) := by
    intro headers hparse
    rw [fromElfWith_accepted hparse]
    refine loadsSafely_iff himages (fun _ => rfl) (fun hload ph hph hl => (hload ph hph).fits hl)
      (fun hload => ELFLoader.loadToRam_eq_ok ⟨bytes⟩ hparse hload .new) fun hload => ?_
    push Not at hload
    obtain ⟨ph, hph, hout⟩ := hload
    exact ELFLoader.loadToRam_eq_error ⟨bytes⟩ hparse hph hout .new
  constructor
  · exact fun h headers hparse => (hiff headers hparse).mp (h.2 headers hparse)
  · intro h
    have hsafe := fun headers hparse => (hiff headers hparse).mpr (h headers hparse)
    refine ⟨?_, hsafe⟩
    cases hparse : parse bytes.data with
    | none => exact ⟨_, fromElfWith_refused hparse⟩
    | some headers => exact (hsafe headers hparse).returns

theorem binaryLoadsSafely_iff (himages : config.ImagesInRange) :
    BinaryLoadsSafely devices bytes config ↔ bytes.data.length ≤ SIZE ∧ config.RegistersValid := by
  have hzero : (0 : WordType).toNat + bytes.data.length = bytes.data.length := Nat.zero_add _
  have hrun : fromBinaryWith devices bytes config = (do
      let board ← VirtBoard.fromRamWith devices (← loadBin .new bytes.data) config
      return board.map id) := by
    refine congrArg _ (funext fun ram => ?_)
    rcases VirtBoard.fromRamWith devices ram config with p | m | board <;> rfl
  unfold BinaryLoadsSafely
  rw [hrun, ← singleton_append]
  exact loadsSafely_iff himages (fun _ => rfl) id
    (fun h => Ram.insertSection_eq_ok (hzero.trans_le h))
    fun h => Ram.insertSection_eq_error (hzero.symm ▸ Nat.lt_of_not_le h) Ram.new

/-- The host survives the images that have a place in RAM, and those that are no ELF
file. Everything else that should be refused is a panic. -/
theorem image_loading_iff (devices : P.bus.Dev) (parse : ElfParser) (bytes : ByteVec)
    (config : VirtBoardConfig) (himages : config.ImagesInRange) :
    (ElfLoadsSafely devices parse bytes config ↔ ElfHarmless parse bytes config) ∧
    (BinaryLoadsSafely devices bytes config ↔ bytes.data.length ≤ SIZE ∧ config.RegistersValid) :=
  ⟨elfLoadsSafely_iff himages, binaryLoadsSafely_iff himages⟩

/-- The header of an ELF file for RV64 with one program header behind it. -/
def elfFileHeader : List (BitVec 8) :=
  [0x7f, 0x45, 0x4c, 0x46, 2, 1, 1, 0, 0, 0, 0, 0, 0, 0, 0, 0, 2, 0, 0xf3, 0, 1, 0, 0, 0,
    0, 0, 0, 0x80, 0, 0, 0, 0, 0x40, 0, 0, 0, 0, 0, 0, 0, 0, 0, 0, 0, 0, 0, 0, 0,
    0, 0, 0, 0, 0x40, 0, 0x38, 0, 1, 0, 0, 0, 0, 0, 0, 0]

/-- A file with one `nop`, to be loaded at an address given by its third and fourth byte. -/
def nopElf (b2 b3 : BitVec 8) : List (BitVec 8) :=
  elfFileHeader ++ [1, 0, 0, 0, 5, 0, 0, 0, 0x78, 0, 0, 0, 0, 0, 0, 0,
    0, 0, b2, b3, 0, 0, 0, 0, 0, 0, b2, b3, 0, 0, 0, 0, 4, 0, 0, 0, 0, 0, 0, 0,
    4, 0, 0, 0, 0, 0, 0, 0, 4, 0, 0, 0, 0, 0, 0, 0, 0x13, 0, 0, 0]

theorem length_nopElf (b2 b3 : BitVec 8) : (nopElf b2 b3).length = 124 := rfl

def nopBytes (b2 b3 : BitVec 8) : ByteVec where
  data := nopElf b2 b3
  length_lt := by rw [length_nopElf]; decide

/-- What the parser makes of the file. -/
def nopHeader (b2 b3 : BitVec 8) : ProgramHeader where
  getType := .ok .load
  virtualAddr := b2.setWidth 64 <<< 16 ||| b3.setWidth 64 <<< 24
  offset := 0x78
  fileSize := 4

/-- The parser, on these files. -/
def nopParse (b2 b3 : BitVec 8) : ElfParser := fun input =>
  if input = nopElf b2 b3 then some [nopHeader b2 b3] else none

theorem nopParse_self (b2 b3 : BitVec 8) :
    nopParse b2 b3 (nopBytes b2 b3).data = some [nopHeader b2 b3] :=
  if_pos rfl

/-- No further images and no preset registers. -/
def VirtBoardConfig.new : VirtBoardConfig := ⟨[], []⟩

theorem nopHeader_loadable : (nopHeader 0 0x80).Loadable (nopElf 0 0x80) :=
  ⟨.load, rfl, fun _ => ⟨by rw [length_nopElf]; decide, by decide, by decide⟩⟩

theorem image_loading_nop :
    ElfLoadsSafely (P := .program) () (nopParse 0 0x80) (nopBytes 0 0x80) .new ∧
    BinaryLoadsSafely (P := .program) () ⟨[0x13, 0, 0, 0], by decide⟩ .new := by
  have himages : VirtBoardConfig.new.ImagesInRange := fun image h => by cases h
  have hregs : VirtBoardConfig.new.RegistersValid := fun r h => by cases h
  constructor
  · refine (image_loading_iff _ _ _ _ himages).1.mpr fun headers hparse => ⟨fun ph hph => ?_, hregs⟩
    obtain rfl := Option.some.inj ((nopParse_self 0 0x80).symm.trans hparse)
    obtain rfl := mem_singleton.mp hph
    exact nopHeader_loadable
  · exact (image_loading_iff _ (nopParse 0 0x80) _ _ himages).2.mpr ⟨by decide, hregs⟩

/-- A program linked for address `0x10000`, and a binary that is a byte too long. -/
theorem image_loading_panics :
    fromElfWith (P := .program) () (nopParse 1 0) (nopBytes 1 0) .new = .error .addressUnderflow ∧
    ¬ ElfLoadsSafely (P := .program) () (nopParse 1 0) (nopBytes 1 0) .new ∧
    ¬ BinaryLoadsSafely (P := .program) ()
      ⟨replicate (SIZE + 1) 0, by rw [length_replicate]; decide⟩ .new := by
  have himages : VirtBoardConfig.new.ImagesInRange := fun image h => by cases h
  have hpanic : fromElfWith (P := .program) () (nopParse 1 0)
      (nopBytes 1 0) .new = .error .addressUnderflow := by
    have hsegment : ELFLoader.loadSegment (nopElf 1 0) .new (nopHeader 1 0) =
        .error .addressUnderflow := by
      rw [ELFLoader.loadSegment_cut (by rw [length_nopElf]; decide) rfl
        (by rw [length_nopElf]; decide)]
      rfl
    have hloop : ELFLoader.loadToRam (nopParse 1 0) ⟨nopBytes 1 0⟩ .new =
        .error .addressUnderflow := by
      rw [ELFLoader.loadToRam_eq ⟨nopBytes 1 0⟩ (nopParse_self 1 0), foldlM_cons]
      exact congrArg (· >>= _) hsegment
    refine (fromElfWith_accepted (nopParse_self 1 0)).trans ?_
    rw [hloop]
    rfl
  refine ⟨hpanic, fun h => ?_, fun h => ?_⟩
  · obtain ⟨r, hr⟩ := h.1
    cases hpanic.symm.trans hr
  · have hle := ((binaryLoadsSafely_iff himages).mp h).1
    rw [length_replicate] at hle
    exact Nat.not_succ_le_self SIZE hle

end Spec

end HereEmu
