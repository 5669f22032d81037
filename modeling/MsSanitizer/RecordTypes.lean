import Mathlib.Tactic

/-!
# Record types and the structures behind them

The types of the records a kernel can dump, with their codes, and the two tables that say which
structure stands behind a type: the one the recorder is checked against when it is compiled,
`RecordTypeMap`, and the one the host parses with, `RECORD_TYPE_FUNC_MAP`. They name the same
structure for all types but one.
-/

namespace MsSanitizer.KernelRecords

/-- The `RecordType`s of the table of the recorder. -/
inductive RecordType
  | load | store | ld | ldIo | st | stIo | stp | sti | stiIo | ldp | stAtomic | stiAtomic | stDev
  | ldDev | dcci | dmaMov | movAlign | movAlignV2 | vecDup | load2d | loadL12d | loadL1Mx2d
  | loadL12dTranspose | loadB2 | loadAWinograd | loadBWinograd | load3d | set2d | setL12d
  | dmaMovNd2nz | movBt | loadImage | movFp | load2dSparse | load2dTranspose | decompressHeader
  | dmaMovConvRelu | loadSmask | broadcast | dmaMovDepthWise | ndDmaOutToUb | dcPreload
  | dmaMovNd2nzD | dmaMovDn2nzD | scalarRed | scalarAtom | ldva | movL1ToUb | movUbToL1
  | movUbToUb | movCbufToBt | movCbufToFb | vmrgsort4OpC220 | vmrgsort4OpM200 | vmrgsort4OpC310
  | fixL0cToL1 | fixL0cToUb | load3dV2 | unaryOp | vgather | element | binaryOp | ternaryOp
  | reduceOp | matrixMulOp | mmadA5 | vecRegpropcoorOp | cmpmaskOp | vcopyOp | vreducev2Unary
  | vreducev2Binary | vreducev2 | vconvDstS4Op | vconvSrcS4Op | vselOp | setFlag | waitFlag
  | hsetFlag | hwaitFlag | pipeBarrier | fftsSync | waitFlagDev | setAtomic | ibSetStub
  | ibWaitStub | syncAllStub | waitFlagDevPipe | waitFlagDeviPipe | setIntraBlock
  | waitIntraBlock | setIntraBlocki | waitIntraBlocki | mstxStub | scattervnchwconv
  | scattervnchwconvA5 | vbs32A5 | getBuf | getBufi | rlsBuf | rlsBufi | setFlagi | waitFlagi
  | hsetFlagi | hwaitFlagi | setFlagV | setFlagiV | waitFlagV | waitFlagiV | fftsSyncV
  | waitFlagDevPipeV | waitFlagDeviPipeV | setIntraBlockV | setIntraBlockiV | waitIntraBlockV
  | waitIntraBlockiV | getBufV | getBufiV | rlsBufV | rlsBufiV | dsb | simtStart | simtLdg
  | simtStg | simtLds | simtSts | simtLdk | simtStk | simtLd | simtSt | simtAtom | simtRed
  | threadBlockBarrier | simtEnd | simtCall | setVectorMask0 | setVectorMask1 | setCtrl
  | setFftsBaseAddr | setFpc | setQuantPre | setQuantPost | setLreluAlpha
  deriving DecidableEq, Repr

def RecordType.code : RecordType → ℕ
  | .load => 0 | .store => 1 | .ld => 2 | .ldIo => 3 | .st => 4 | .stIo => 5 | .stp => 6
  | .sti => 7 | .stiIo => 8 | .ldp => 9 | .stAtomic => 10 | .stiAtomic => 11 | .stDev => 12
  | .ldDev => 13 | .dcci => 14 | .dmaMov => 100 | .movAlign => 101 | .movAlignV2 => 102
  | .vecDup => 103 | .load2d => 104 | .loadL12d => 105 | .loadL1Mx2d => 106
  | .loadL12dTranspose => 107 | .loadB2 => 108 | .loadAWinograd => 109 | .loadBWinograd => 110
  | .load3d => 111 | .set2d => 112 | .setL12d => 113 | .dmaMovNd2nz => 114 | .movBt => 115
  | .loadImage => 116 | .movFp => 117 | .load2dSparse => 118 | .load2dTranspose => 119
  | .decompressHeader => 120 | .dmaMovConvRelu => 121 | .loadSmask => 122 | .broadcast => 123
  | .dmaMovDepthWise => 124 | .ndDmaOutToUb => 125 | .dcPreload => 126 | .dmaMovNd2nzD => 127
  | .dmaMovDn2nzD => 128 | .scalarRed => 129 | .scalarAtom => 130 | .ldva => 131
  | .movL1ToUb => 132 | .movUbToL1 => 133 | .movUbToUb => 134 | .movCbufToBt => 135
  | .movCbufToFb => 136 | .vmrgsort4OpC220 => 137 | .vmrgsort4OpM200 => 138
  | .vmrgsort4OpC310 => 139 | .fixL0cToL1 => 140 | .fixL0cToUb => 141 | .load3dV2 => 142
  | .unaryOp => 10000 | .vgather => 10001 | .element => 10002 | .binaryOp => 10003
  | .ternaryOp => 10004 | .reduceOp => 10005 | .matrixMulOp => 10006 | .mmadA5 => 10007
  | .vecRegpropcoorOp => 10008 | .cmpmaskOp => 10009 | .vcopyOp => 10010
  | .vreducev2Unary => 10011 | .vreducev2Binary => 10012 | .vreducev2 => 10013
  | .vconvDstS4Op => 10014 | .vconvSrcS4Op => 10015 | .vselOp => 10016 | .setFlag => 20000
  | .waitFlag => 20001 | .hsetFlag => 20002 | .hwaitFlag => 20003 | .pipeBarrier => 20004
  | .fftsSync => 20005 | .waitFlagDev => 20006 | .setAtomic => 20007 | .ibSetStub => 20008
  | .ibWaitStub => 20009 | .syncAllStub => 20010 | .waitFlagDevPipe => 20011
  | .waitFlagDeviPipe => 20012 | .setIntraBlock => 20013 | .waitIntraBlock => 20014
  | .setIntraBlocki => 20015 | .waitIntraBlocki => 20016 | .mstxStub => 20017
  | .scattervnchwconv => 20018 | .scattervnchwconvA5 => 20019 | .vbs32A5 => 20020
  | .getBuf => 20021 | .getBufi => 20022 | .rlsBuf => 20023 | .rlsBufi => 20024
  | .setFlagi => 20025 | .waitFlagi => 20026 | .hsetFlagi => 20027 | .hwaitFlagi => 20028
  | .setFlagV => 20029 | .setFlagiV => 20030 | .waitFlagV => 20031 | .waitFlagiV => 20032
  | .fftsSyncV => 20033 | .waitFlagDevPipeV => 20034 | .waitFlagDeviPipeV => 20035
  | .setIntraBlockV => 20036 | .setIntraBlockiV => 20037 | .waitIntraBlockV => 20038
  | .waitIntraBlockiV => 20039 | .getBufV => 20040 | .getBufiV => 20041 | .rlsBufV => 20042
  | .rlsBufiV => 20043 | .dsb => 20044 | .simtStart => 39999 | .simtLdg => 40000
  | .simtStg => 40001 | .simtLds => 40002 | .simtSts => 40003 | .simtLdk => 40004
  | .simtStk => 40005 | .simtLd => 40006 | .simtSt => 40007 | .simtAtom => 40008
  | .simtRed => 40009 | .threadBlockBarrier => 40010 | .simtEnd => 50000 | .simtCall => 51001
  | .setVectorMask0 => 70001 | .setVectorMask1 => 70002 | .setCtrl => 70003
  | .setFftsBaseAddr => 70004 | .setFpc => 70005 | .setQuantPre => 70006 | .setQuantPost => 70007
  | .setLreluAlpha => 70008

def RecordType.all : List RecordType :=
  [.load, .store, .ld, .ldIo, .st, .stIo, .stp, .sti, .stiIo, .ldp, .stAtomic, .stiAtomic,
  .stDev, .ldDev, .dcci, .dmaMov, .movAlign, .movAlignV2, .vecDup, .load2d, .loadL12d,
  .loadL1Mx2d, .loadL12dTranspose, .loadB2, .loadAWinograd, .loadBWinograd, .load3d, .set2d,
  .setL12d, .dmaMovNd2nz, .movBt, .loadImage, .movFp, .load2dSparse, .load2dTranspose,
  .decompressHeader, .dmaMovConvRelu, .loadSmask, .broadcast, .dmaMovDepthWise, .ndDmaOutToUb,
  .dcPreload, .dmaMovNd2nzD, .dmaMovDn2nzD, .scalarRed, .scalarAtom, .ldva, .movL1ToUb,
  .movUbToL1, .movUbToUb, .movCbufToBt, .movCbufToFb, .vmrgsort4OpC220, .vmrgsort4OpM200,
  .vmrgsort4OpC310, .fixL0cToL1, .fixL0cToUb, .load3dV2, .unaryOp, .vgather, .element, .binaryOp,
  .ternaryOp, .reduceOp, .matrixMulOp, .mmadA5, .vecRegpropcoorOp, .cmpmaskOp, .vcopyOp,
  .vreducev2Unary, .vreducev2Binary, .vreducev2, .vconvDstS4Op, .vconvSrcS4Op, .vselOp, .setFlag,
  .waitFlag, .hsetFlag, .hwaitFlag, .pipeBarrier, .fftsSync, .waitFlagDev, .setAtomic,
  .ibSetStub, .ibWaitStub, .syncAllStub, .waitFlagDevPipe, .waitFlagDeviPipe, .setIntraBlock,
  .waitIntraBlock, .setIntraBlocki, .waitIntraBlocki, .mstxStub, .scattervnchwconv,
  .scattervnchwconvA5, .vbs32A5, .getBuf, .getBufi, .rlsBuf, .rlsBufi, .setFlagi, .waitFlagi,
  .hsetFlagi, .hwaitFlagi, .setFlagV, .setFlagiV, .waitFlagV, .waitFlagiV, .fftsSyncV,
  .waitFlagDevPipeV, .waitFlagDeviPipeV, .setIntraBlockV, .setIntraBlockiV, .waitIntraBlockV,
  .waitIntraBlockiV, .getBufV, .getBufiV, .rlsBufV, .rlsBufiV, .dsb, .simtStart, .simtLdg,
  .simtStg, .simtLds, .simtSts, .simtLdk, .simtStk, .simtLd, .simtSt, .simtAtom, .simtRed,
  .threadBlockBarrier, .simtEnd, .simtCall, .setVectorMask0, .setVectorMask1, .setCtrl,
  .setFftsBaseAddr, .setFpc, .setQuantPre, .setQuantPost, .setLreluAlpha]

def RecordType.ofCode (code : ℕ) : Option RecordType :=
  RecordType.all.find? fun t => t.code == code

/-- The structures of the records. -/
inductive RecordStruct
  | loadStoreRecord | dcciRecord | dmaMovRecord | movAlignRecord | movAlignRecordV2
  | vecDupRecord | load2DRecord | loadL12DRecord | loadL1Mx2DRecord | loadL12DTransposeRecord
  | load2DTransposeRecord | loadB2Record | loadAWinogradRecord | loadBWinogradRecord
  | load3DRecord | set2DRecord | setL12DRecord | dmaMovNd2nzRecord | movBtRecord
  | loadImageRecord | movFpRecord | load2DSparseRecord | decompressHeaderRecord
  | dmaMovConvReluRecord | loadSmaskRecord | broadcastRecord | ndDMAOut2UbRecord
  | dcPreloadRecord | dmaMovNd2nzDavRecord | redRecord | movL1UBRecord | movL1BtRecord
  | movL1FbRecord | unaryOpRecord | vms4v2RecordA5 | load3DV2Record | vgatherRecord
  | elementRecord | binaryOpRecord | reduceOpRecord | marixMulOpRecord | mmadA5Record
  | vecRegPropCoordOpRecord | cmpMaskRecord | reduceV2Record | syncRecord | hardSyncRecord
  | pipeBarrierRecord | fftsSyncRecord | waitFlagDevRecord | atomicModeRecord | softSyncRecord
  | waitFlagDevPipeRecord | intraBlockSyncRecord | mstxRecord | scatterVnchwconvRecord
  | vbs32Record | bufRecord | dsbRecord | simtEmptyRecord | simtLoadStoreRecord | simtAtomRecord
  | mainScalarEmptyRecord | registerSetRecord
  deriving DecidableEq, Repr

/-- `RecordTypeMap`: what the recorder writes for a type. -/
def recordTypeMap : RecordType → RecordStruct
  | .load | .store | .ld | .ldIo | .st | .stIo | .stp | .sti | .stiIo | .ldp | .stAtomic
  | .stiAtomic | .stDev | .ldDev | .ldva => .loadStoreRecord
  | .dcci => .dcciRecord
  | .dmaMov => .dmaMovRecord
  | .movAlign => .movAlignRecord
  | .movAlignV2 => .movAlignRecordV2
  | .vecDup => .vecDupRecord
  | .load2d => .load2DRecord
  | .loadL12d => .loadL12DRecord
  | .loadL1Mx2d => .loadL1Mx2DRecord
  | .loadL12dTranspose => .loadL12DTransposeRecord
  | .loadB2 => .loadB2Record
  | .loadAWinograd => .loadAWinogradRecord
  | .loadBWinograd => .loadBWinogradRecord
  | .load3d => .load3DRecord
  | .set2d => .set2DRecord
  | .setL12d => .setL12DRecord
  | .dmaMovNd2nz => .dmaMovNd2nzRecord
  | .movBt => .movBtRecord
  | .loadImage => .loadImageRecord
  | .movFp | .fixL0cToL1 | .fixL0cToUb => .movFpRecord
  | .load2dSparse => .load2DSparseRecord
  | .load2dTranspose => .load2DTransposeRecord
  | .decompressHeader => .decompressHeaderRecord
  | .dmaMovConvRelu | .dmaMovDepthWise => .dmaMovConvReluRecord
  | .loadSmask => .loadSmaskRecord
  | .broadcast => .broadcastRecord
  | .ndDmaOutToUb => .ndDMAOut2UbRecord
  | .dcPreload => .dcPreloadRecord
  | .dmaMovNd2nzD | .dmaMovDn2nzD => .dmaMovNd2nzDavRecord
  | .scalarRed | .scalarAtom => .redRecord
  | .movL1ToUb | .movUbToL1 | .movUbToUb => .movL1UBRecord
  | .movCbufToBt => .movL1BtRecord
  | .movCbufToFb => .movL1FbRecord
  | .vmrgsort4OpC220 | .vmrgsort4OpM200 | .unaryOp | .vcopyOp | .vreducev2Unary | .vconvDstS4Op
  | .vconvSrcS4Op => .unaryOpRecord
  | .vmrgsort4OpC310 => .vms4v2RecordA5
  | .load3dV2 => .load3DV2Record
  | .vgather => .vgatherRecord
  | .element => .elementRecord
  | .binaryOp | .ternaryOp | .vreducev2Binary | .vselOp => .binaryOpRecord
  | .reduceOp => .reduceOpRecord
  | .matrixMulOp => .marixMulOpRecord
  | .mmadA5 => .mmadA5Record
  | .vecRegpropcoorOp => .vecRegPropCoordOpRecord
  | .cmpmaskOp => .cmpMaskRecord
  | .vreducev2 => .reduceV2Record
  | .setFlag | .waitFlag | .setFlagi | .waitFlagi | .setFlagV | .setFlagiV | .waitFlagV
  | .waitFlagiV => .syncRecord
  | .hsetFlag | .hwaitFlag | .hsetFlagi | .hwaitFlagi => .hardSyncRecord
  | .pipeBarrier => .pipeBarrierRecord
  | .fftsSync | .fftsSyncV => .fftsSyncRecord
  | .waitFlagDev => .waitFlagDevRecord
  | .setAtomic => .atomicModeRecord
  | .ibSetStub | .ibWaitStub | .syncAllStub => .softSyncRecord
  | .waitFlagDevPipe | .waitFlagDeviPipe | .waitFlagDevPipeV | .waitFlagDeviPipeV =>
    .waitFlagDevPipeRecord
  | .setIntraBlock | .waitIntraBlock | .setIntraBlocki | .waitIntraBlocki | .setIntraBlockV
  | .setIntraBlockiV | .waitIntraBlockV | .waitIntraBlockiV => .intraBlockSyncRecord
  | .mstxStub => .mstxRecord
  | .scattervnchwconv | .scattervnchwconvA5 => .scatterVnchwconvRecord
  | .vbs32A5 => .vbs32Record
  | .getBuf | .getBufi | .rlsBuf | .rlsBufi | .getBufV | .getBufiV | .rlsBufV | .rlsBufiV =>
    .bufRecord
  | .dsb => .dsbRecord
  | .simtStart | .threadBlockBarrier | .simtEnd => .simtEmptyRecord
  | .simtLdg | .simtStg | .simtLds | .simtSts | .simtLdk | .simtStk | .simtLd | .simtSt =>
    .simtLoadStoreRecord
  | .simtAtom | .simtRed => .simtAtomRecord
  | .simtCall => .mainScalarEmptyRecord
  | .setVectorMask0 | .setVectorMask1 | .setCtrl | .setFftsBaseAddr | .setFpc | .setQuantPre
  | .setQuantPost | .setLreluAlpha => .registerSetRecord

/-- `RECORD_TYPE_FUNC_MAP`: what the host reads for a type. -/
def recordTypeFuncMap : RecordType → RecordStruct
  | .load | .store | .ld | .ldIo | .st | .stIo | .stp | .sti | .stiIo | .ldp | .stAtomic
  | .stiAtomic | .stDev | .ldDev | .ldva => .loadStoreRecord
  | .dcci => .dcciRecord
  | .dmaMov => .dmaMovRecord
  | .movAlign => .movAlignRecord
  | .movAlignV2 => .movAlignRecordV2
  | .vecDup => .vecDupRecord
  | .load2d => .load2DRecord
  | .loadL12d => .loadL12DRecord
  | .loadL1Mx2d => .loadL1Mx2DRecord
  | .loadL12dTranspose | .load2dTranspose => .load2DTransposeRecord
  | .loadB2 => .loadB2Record
  | .loadAWinograd => .loadAWinogradRecord
  | .loadBWinograd => .loadBWinogradRecord
  | .load3d => .load3DRecord
  | .set2d => .set2DRecord
  | .setL12d => .setL12DRecord
  | .dmaMovNd2nz => .dmaMovNd2nzRecord
  | .movBt => .movBtRecord
  | .loadImage => .loadImageRecord
  | .movFp | .fixL0cToL1 | .fixL0cToUb => .movFpRecord
  | .load2dSparse => .load2DSparseRecord
  | .decompressHeader => .decompressHeaderRecord
  | .dmaMovConvRelu | .dmaMovDepthWise => .dmaMovConvReluRecord
  | .loadSmask => .loadSmaskRecord
  | .broadcast => .broadcastRecord
  | .ndDmaOutToUb => .ndDMAOut2UbRecord
  | .dcPreload => .dcPreloadRecord
  | .dmaMovNd2nzD | .dmaMovDn2nzD => .dmaMovNd2nzDavRecord
  | .scalarRed | .scalarAtom => .redRecord
  | .movL1ToUb | .movUbToL1 | .movUbToUb => .movL1UBRecord
  | .movCbufToBt => .movL1BtRecord
  | .movCbufToFb => .movL1FbRecord
  | .vmrgsort4OpC220 | .vmrgsort4OpM200 | .unaryOp | .vcopyOp | .vreducev2Unary | .vconvDstS4Op
  | .vconvSrcS4Op => .unaryOpRecord
  | .vmrgsort4OpC310 => .vms4v2RecordA5
  | .load3dV2 => .load3DV2Record
  | .vgather => .vgatherRecord
  | .element => .elementRecord
  | .binaryOp | .ternaryOp | .vreducev2Binary | .vselOp => .binaryOpRecord
  | .reduceOp => .reduceOpRecord
  | .matrixMulOp => .marixMulOpRecord
  | .mmadA5 => .mmadA5Record
  | .vecRegpropcoorOp => .vecRegPropCoordOpRecord
  | .cmpmaskOp => .cmpMaskRecord
  | .vreducev2 => .reduceV2Record
  | .setFlag | .waitFlag | .setFlagi | .waitFlagi | .setFlagV | .setFlagiV | .waitFlagV
  | .waitFlagiV => .syncRecord
  | .hsetFlag | .hwaitFlag | .hsetFlagi | .hwaitFlagi => .hardSyncRecord
  | .pipeBarrier => .pipeBarrierRecord
  | .fftsSync | .fftsSyncV => .fftsSyncRecord
  | .waitFlagDev => .waitFlagDevRecord
  | .setAtomic => .atomicModeRecord
  | .ibSetStub | .ibWaitStub | .syncAllStub => .softSyncRecord
  | .waitFlagDevPipe | .waitFlagDeviPipe | .waitFlagDevPipeV | .waitFlagDeviPipeV =>
    .waitFlagDevPipeRecord
  | .setIntraBlock | .waitIntraBlock | .setIntraBlocki | .waitIntraBlocki | .setIntraBlockV
  | .setIntraBlockiV | .waitIntraBlockV | .waitIntraBlockiV => .intraBlockSyncRecord
  | .mstxStub => .mstxRecord
  | .scattervnchwconv | .scattervnchwconvA5 => .scatterVnchwconvRecord
  | .vbs32A5 => .vbs32Record
  | .getBuf | .getBufi | .rlsBuf | .rlsBufi | .getBufV | .getBufiV | .rlsBufV | .rlsBufiV =>
    .bufRecord
  | .dsb => .dsbRecord
  | .simtStart | .threadBlockBarrier | .simtEnd => .simtEmptyRecord
  | .simtLdg | .simtStg | .simtLds | .simtSts | .simtLdk | .simtStk | .simtLd | .simtSt =>
    .simtLoadStoreRecord
  | .simtAtom | .simtRed => .simtAtomRecord
  | .simtCall => .mainScalarEmptyRecord
  | .setVectorMask0 | .setVectorMask1 | .setCtrl | .setFftsBaseAddr | .setFpc | .setQuantPre
  | .setQuantPost | .setLreluAlpha => .registerSetRecord

lemma ofCode_code (t : RecordType) : RecordType.ofCode t.code = some t := by
  cases t <;> rfl

lemma code_lt (t : RecordType) : t.code < 256 ^ 4 := by
  cases t <;> decide

/-- `LOAD_L1_2D_TRANSPOSE` is written as one structure and read as another. -/
lemma recordTypeFuncMap_eq (t : RecordType) (h : t ≠ .loadL12dTranspose) :
    recordTypeFuncMap t = recordTypeMap t := by
  cases t <;> first | rfl | exact absurd rfl h

/-! ### The layout of a structure -/

/-- A member of a structure: its size and its alignment. -/
structure Member where
  size : ℕ
  align : ℕ

def roundUp (n align : ℕ) : ℕ := (n + align - 1) / align * align

/-- The size of a structure with given members, each of them as far behind the one before as its
alignment asks. -/
def structSize (members : List Member) : ℕ :=
  roundUp (members.foldl (fun offset m => roundUp offset m.align + m.size) 0)
    (members.foldl (fun a m => max a m.align) 1)

def u8 : Member := ⟨1, 1⟩

def u16 : Member := ⟨2, 2⟩

def u64 : Member := ⟨8, 8⟩

/-- `Location`: `fileNo`, `lineNo`, `pc` and `blockId`. -/
def location : Member := ⟨structSize [u64, u64, u64, u16], 8⟩

/-- `LoadL12DTransposeRecord`. -/
def loadL12DTransposeSize : ℕ :=
  structSize [location, u64, u64, u16, u16, u16, u16, u16, u8]

/-- `Load2DTransposeRecord`. -/
def load2DTransposeSize : ℕ :=
  structSize [location, u64, u64, u16, u16, u16, u16, u8, u8, u8, u8, u8]

/-- What the compiler makes of the other structures: their sizes, where `location` and
`vecSubBlockDim` are in them, and the sizes of the heads and of an error description. -/
structure Abi where
  size : RecordStruct → ℕ
  locationAt : RecordStruct → ℕ
  vecSubBlockDimAt : RecordStruct → ℕ
  headSize : ℕ
  kernelErrorDescSize : ℕ

def Abi.sizeof (abi : Abi) : RecordStruct → ℕ
  | .loadL12DTransposeRecord => loadL12DTransposeSize
  | .load2DTransposeRecord => load2DTransposeSize
  | s => abi.size s

/-- The recorder and the host agree on the size of every record. -/
lemma sizeof_agree (abi : Abi) (t : RecordType) :
    abi.sizeof (recordTypeFuncMap t) = abi.sizeof (recordTypeMap t) := by
  by_cases h : t = .loadL12dTranspose
  · subst h
    exact (by decide : load2DTransposeSize = loadL12DTransposeSize)
  · rw [recordTypeFuncMap_eq t h]

def invalidPcOffset : ℕ := 2 ^ 64 - 1

def calRecordPc (pcStartAddr pc : ℕ) : ℕ :=
  if pcStartAddr = 0 then invalidPcOffset else if pcStartAddr ≤ pc then pc - pcStartAddr else pc

end MsSanitizer.KernelRecords
