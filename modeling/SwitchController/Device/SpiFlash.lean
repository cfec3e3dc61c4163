import SwitchController.Device.Dispatch

/-! # Flash emulation

`spi_flash.c`: a read copies the overlap of the requested range with each mapped
region, and what no region covers reads as `0xff`. The interval ends are
computed in 32-bit arithmetic. An access outside its buffer is the value `none`.
-/

namespace SwitchController.Device

open Memory

/-- A mapped range, `endAddr` included, of which `dataLen` bytes are programmed. -/
structure SpiRegion where
  start : UInt32
  endAddr : UInt32
  data : Bytes
  dataLen : Nat
  /-- A counter that runs up to the region's end does not wrap. -/
  ends : endAddr < 0xffffffff
  stored : dataLen ≤ data.length

def spiSerial : Bytes :=
  ascii "XAW00000000000" ++ [0x00, 0x00]

def spiImuFactoryCal : Bytes :=
  [0x00, 0x00, 0x00, 0x00, 0x00, 0x00,
    0x00, 0x40, 0x00, 0x40, 0x00, 0x40,
    0x00, 0x00, 0x00, 0x00, 0x00, 0x00,
    0xe0, 0x3b, 0xe0, 0x3b, 0xe0, 0x3b]

def spiStickCalLeft : Bytes :=
  [0x00, 0x07, 0x70, 0x00, 0x08, 0x80, 0x00, 0x07, 0x70]

def spiStickCalRight : Bytes :=
  [0x00, 0x07, 0x70, 0x00, 0x08, 0x80, 0x00, 0x07, 0x70]

def spiColors : Bytes :=
  [0x32, 0x32, 0x32, 0xff, 0xff, 0xff, 0x32, 0x32, 0x32, 0x32, 0x32, 0x32]

def spiUserCalFf : Bytes := List.replicate 26 0xff

def spiRegions : List SpiRegion :=
  [⟨0x6000, 0x600f, spiSerial, spiSerial.length, by decide, by decide⟩,
    ⟨0x6020, 0x6037, spiImuFactoryCal, spiImuFactoryCal.length, by decide, by decide⟩,
    ⟨0x603d, 0x6045, spiStickCalLeft, spiStickCalLeft.length, by decide, by decide⟩,
    ⟨0x6046, 0x604e, spiStickCalRight, spiStickCalRight.length, by decide, by decide⟩,
    ⟨0x6050, 0x605b, spiColors, spiColors.length, by decide, by decide⟩,
    ⟨0x8010, 0x8025, spiUserCalFf, 22, by decide, by decide⟩,
    ⟨0x8026, 0x8041, spiUserCalFf, 26, by decide, by decide⟩]

/-! ## Reading -/

/-- The two indices a turn of the inner loop computes. -/
structure SpiTurn where
  outIdx : Nat
  dataIdx : Nat
deriving DecidableEq, Repr

namespace SpiRegion

variable (reg : SpiRegion) (addr : UInt32) (len : UInt8)

def turn (byteAddr : UInt32) : SpiTurn where
  outIdx := (byteAddr - addr).toNat
  dataIdx := (byteAddr - reg.start).toNat

/-- The turns from `byteAddr` up to `intersectEnd`. -/
def turnsFrom (byteAddr intersectEnd : UInt32) (h : intersectEnd < 0xffffffff) : List SpiTurn :=
  if byteAddr ≤ intersectEnd then
    reg.turn addr byteAddr :: turnsFrom (byteAddr + 1) intersectEnd h
  else []
termination_by intersectEnd.toNat + 1 - byteAddr.toNat
decreasing_by
  rename_i hle
  rw [UInt32.le_iff_toNat_le] at hle
  rw [UInt32.lt_iff_toNat_lt] at h
  have hmax : (0xffffffff : UInt32).toNat = 4294967295 := rfl
  have hone : (1 : UInt32).toNat = 1 := rfl
  rw [UInt32.toNat_add]
  omega

def intersectStart : UInt32 := if addr > reg.start then addr else reg.start

def intersectEnd : UInt32 :=
  if addr + len.toUInt32 - 1 < reg.endAddr then addr + len.toUInt32 - 1 else reg.endAddr

theorem intersectEnd_lt : reg.intersectEnd addr len < 0xffffffff := by
  unfold intersectEnd
  split
  case isTrue h => exact UInt32.lt_trans h reg.ends
  case isFalse => exact reg.ends

/-- The turns a region costs: none without an overlap. -/
def turns : List SpiTurn :=
  if addr > reg.endAddr ∨ addr + len.toUInt32 - 1 < reg.start then []
  else
    reg.turnsFrom addr (reg.intersectStart addr) (reg.intersectEnd addr len)
      (reg.intersectEnd_lt addr len)

def copyByte (out : Bytes) (t : SpiTurn) : Option Bytes :=
  if t.dataIdx < reg.dataLen then do
    let b ← reg.data[t.dataIdx]?
    if t.outIdx < out.length then some (out.set t.outIdx b) else none
  else some out

def copy (out : Bytes) : Option Bytes := (reg.turns addr len).foldlM reg.copyByte out

end SpiRegion

/-- What `spi_flash_read` leaves in the `len` bytes it is given. -/
def spiFlashRead (addr : UInt32) (len : UInt8) : Option Bytes :=
  spiRegions.foldlM (fun out reg => reg.copy addr len out) (List.replicate len.toNat 0xff)


/-! ## Turns of a region -/

namespace SpiRegion

variable (reg : SpiRegion) (addr : UInt32) (len : UInt8)

theorem turnsFrom_length (byteAddr last : UInt32) (h : last < 0xffffffff) :
    (reg.turnsFrom addr byteAddr last h).length = last.toNat + 1 - byteAddr.toNat := by
  fun_induction turnsFrom reg addr byteAddr last h with
  | case1 byteAddr hle ih =>
      rw [UInt32.le_iff_toNat_le] at hle
      have hlast : last.toNat < 4294967295 := UInt32.lt_iff_toNat_lt.mp h
      have hnext : (byteAddr + 1).toNat = byteAddr.toNat + 1 := by
        have hone : (1 : UInt32).toNat = 1 := rfl
        rw [UInt32.toNat_add]
        omega
      rw [List.length_cons, ih, hnext]
      omega
  | case2 byteAddr hle =>
      rw [UInt32.le_iff_toNat_le] at hle
      simp only [List.length_nil]
      omega

theorem mem_turnsFrom {byteAddr last : UInt32} {h : last < 0xffffffff} {t : SpiTurn} :
    t ∈ reg.turnsFrom addr byteAddr last h ↔
      ∃ a, byteAddr ≤ a ∧ a ≤ last ∧ t = reg.turn addr a := by
  fun_induction turnsFrom reg addr byteAddr last h with
  | case1 byteAddr hle ih =>
      have hlast : last.toNat < 4294967295 := UInt32.lt_iff_toNat_lt.mp h
      have hnext : (byteAddr + 1).toNat = byteAddr.toNat + 1 := by
        rw [UInt32.le_iff_toNat_le] at hle
        have hone : (1 : UInt32).toNat = 1 := rfl
        rw [UInt32.toNat_add]
        omega
      rw [List.mem_cons, ih]
      constructor
      · intro hmem
        rcases hmem with rfl | ⟨a, ha, hal, rfl⟩
        · exact ⟨byteAddr, UInt32.le_refl _, hle, rfl⟩
        · refine ⟨a, ?_, hal, rfl⟩
          rw [UInt32.le_iff_toNat_le] at ha ⊢
          omega
      · intro hmem
        rcases hmem with ⟨a, ha, hal, rfl⟩
        by_cases heq : a = byteAddr
        · exact .inl (by rw [heq])
        · refine .inr ⟨a, ?_, hal, rfl⟩
          rw [UInt32.le_iff_toNat_le] at ha ⊢
          have hne : a.toNat ≠ byteAddr.toNat := fun hc => heq (UInt32.toNat_inj.mp hc)
          omega
  | case2 byteAddr hle =>
      rw [UInt32.le_iff_toNat_le] at hle
      constructor
      · intro hmem
        simp at hmem
      · intro hmem
        rcases hmem with ⟨a, ha, hal, -⟩
        rw [UInt32.le_iff_toNat_le] at ha hal
        omega

theorem lastAddr_toNat (hlow : addr.toNat ≤ 0xffff) (hreq : ¬ (addr = 0 ∧ len = 0)) :
    (addr + len.toUInt32 - 1).toNat = addr.toNat + len.toNat - 1 ∧
      0 < addr.toNat + len.toNat := by
  have hlen : len.toNat < 256 := UInt8.toNat_lt len
  have hone : (1 : UInt32).toNat = 1 := rfl
  have hpos : 0 < addr.toNat + len.toNat := by
    apply Nat.pos_of_ne_zero
    intro hzero
    apply hreq
    constructor
    · exact UInt32.toNat_inj.mp (show addr.toNat = 0 by omega)
    · exact UInt8.toNat_inj.mp (show len.toNat = 0 by omega)
  refine ⟨?_, hpos⟩
  rw [UInt32.toNat_sub, UInt32.toNat_add, UInt8.toNat_toUInt32]
  omega

theorem intersectStart_toNat :
    (reg.intersectStart addr).toNat = max addr.toNat reg.start.toNat := by
  unfold intersectStart
  split
  case isTrue h =>
      have hlt : reg.start.toNat < addr.toNat := UInt32.lt_iff_toNat_lt.mp h
      omega
  case isFalse h =>
      have hle : ¬ reg.start.toNat < addr.toNat := fun hc => h (UInt32.lt_iff_toNat_lt.mpr hc)
      omega

theorem intersectEnd_toNat (hlow : addr.toNat ≤ 0xffff) (hreq : ¬ (addr = 0 ∧ len = 0)) :
    (reg.intersectEnd addr len).toNat =
      min (addr.toNat + len.toNat - 1) reg.endAddr.toNat := by
  have hlast := (lastAddr_toNat addr len hlow hreq).1
  unfold intersectEnd
  split
  case isTrue h =>
      rw [UInt32.lt_iff_toNat_lt] at h
      omega
  case isFalse h =>
      rw [UInt32.lt_iff_toNat_lt] at h
      omega

theorem turn_at {a : UInt32} {i : Nat} (ha : a.toNat = addr.toNat + i)
    (hs : reg.start.toNat ≤ a.toNat) :
    reg.turn addr a = ⟨i, addr.toNat + i - reg.start.toNat⟩ := by
  have hstart := UInt32.toNat_sub_of_le a reg.start (UInt32.le_iff_toNat_le.mpr hs)
  have haddr := UInt32.toNat_sub_of_le a addr (UInt32.le_iff_toNat_le.mpr (by omega))
  simp only [turn, hstart, haddr, SpiTurn.mk.injEq]
  omega

/-- A region is read where it overlaps the requested range, and nowhere else. -/
theorem mem_turns (hend : reg.endAddr.toNat ≤ 0xffff) (hreq : ¬ (addr = 0 ∧ len = 0))
    {t : SpiTurn} :
    t ∈ reg.turns addr len ↔
      ∃ i < len.toNat, reg.start.toNat ≤ addr.toNat + i ∧
        addr.toNat + i ≤ reg.endAddr.toNat ∧
        t = ⟨i, addr.toNat + i - reg.start.toNat⟩ := by
  unfold turns
  by_cases hlow : addr.toNat ≤ 0xffff
  · have hlast := lastAddr_toNat addr len hlow hreq
    have hstart := intersectStart_toNat reg addr
    have hstop := intersectEnd_toNat reg addr len hlow hreq
    split
    case isTrue hno =>
        simp only [gt_iff_lt, UInt32.lt_iff_toNat_lt] at hno
        constructor
        · intro hmem
          simp at hmem
        · intro hmem
          rcases hmem with ⟨i, hi, hs, he, -⟩
          omega
    case isFalse hov =>
        rw [mem_turnsFrom]
        constructor
        · intro hmem
          rcases hmem with ⟨a, ha, hal, rfl⟩
          rw [UInt32.le_iff_toNat_le] at ha hal
          have hi : a.toNat = addr.toNat + (a.toNat - addr.toNat) := by omega
          refine ⟨a.toNat - addr.toNat, by omega, by omega, by omega, ?_⟩
          exact turn_at reg addr hi (by omega)
        · intro hmem
          rcases hmem with ⟨i, hi, hs, he, rfl⟩
          have ha : (UInt32.ofNat (addr.toNat + i)).toNat = addr.toNat + i :=
            UInt32.toNat_ofNat_of_lt' (show addr.toNat + i < 4294967296 by omega)
          refine ⟨UInt32.ofNat (addr.toNat + i), ?_, ?_, ?_⟩
          · rw [UInt32.le_iff_toNat_le]
            omega
          · rw [UInt32.le_iff_toNat_le]
            omega
          · exact (turn_at reg addr ha (by omega)).symm
  · have hpast : addr > reg.endAddr := UInt32.lt_iff_toNat_lt.mpr (by omega)
    rw [if_pos (.inl hpast)]
    constructor
    · intro hmem
      simp at hmem
    · intro hmem
      rcases hmem with ⟨i, hi, hs, he, -⟩
      omega

theorem turns_length_le (hend : reg.endAddr.toNat ≤ 0xffff) (hreq : ¬ (addr = 0 ∧ len = 0)) :
    (reg.turns addr len).length ≤ len.toNat := by
  unfold turns
  split
  case isTrue => simp
  case isFalse hov =>
      have hin : ¬ reg.endAddr.toNat < addr.toNat := by
        intro hlt
        exact hov (.inl (UInt32.lt_iff_toNat_lt.mpr hlt))
      have hstart := intersectStart_toNat reg addr
      have hstop := intersectEnd_toNat reg addr len (by omega) hreq
      have hpos := (lastAddr_toNat addr len (by omega) hreq).2
      rw [turnsFrom_length, hstart, hstop]
      omega

/-! ## What a read returns -/

/-- The programmed byte of an address, if the region has one. -/
def byteAt (a : Nat) : Option UInt8 :=
  if reg.start.toNat ≤ a ∧ a ≤ reg.endAddr.toNat ∧ a - reg.start.toNat < reg.dataLen then
    reg.data[a - reg.start.toNat]?
  else none

/-- Copying at most one byte to each index leaves the bytes copied last. -/
theorem foldlM_copyByte (dataIdx : Nat → Nat) (ts : List SpiTurn) (out : Bytes)
    (hat : ∀ t ∈ ts, t.outIdx < out.length ∧ t.dataIdx = dataIdx t.outIdx) :
    ∃ out', ts.foldlM reg.copyByte out = some out' ∧ out'.length = out.length ∧
      ∀ i < out.length, out'[i]? =
        if (∃ t ∈ ts, t.outIdx = i) ∧ dataIdx i < reg.dataLen then reg.data[dataIdx i]?
        else out[i]? := by
  induction ts generalizing out with
  | nil => exact ⟨out, rfl, rfl, fun i _ => by simp⟩
  | cons t ts ih =>
      have ht := hat t List.mem_cons_self
      have hstep : ∃ out₁, reg.copyByte out t = some out₁ ∧ out₁.length = out.length ∧
          ∀ i < out.length, out₁[i]? =
            if t.outIdx = i ∧ dataIdx i < reg.dataLen then reg.data[dataIdx i]?
            else out[i]? := by
        unfold copyByte
        by_cases hd : t.dataIdx < reg.dataLen
        · have hin : t.dataIdx < reg.data.length := Nat.lt_of_lt_of_le hd reg.stored
          refine ⟨out.set t.outIdx reg.data[t.dataIdx], ?_, by simp, ?_⟩
          · simp [hd, ht.1, List.getElem?_eq_getElem hin]
          · intro i hi
            by_cases heq : t.outIdx = i
            · have hidx : dataIdx i = t.dataIdx := by rw [← heq, ht.2]
              rw [if_pos ⟨heq, by omega⟩, hidx, List.getElem?_eq_getElem hin]
              simp [heq, hi]
            · simp [heq]
        · refine ⟨out, by simp [hd], rfl, ?_⟩
          intro i hi
          have hno : ¬ (t.outIdx = i ∧ dataIdx i < reg.dataLen) := by
            intro hc
            rw [← hc.1, ← ht.2] at hc
            exact hd hc.2
          rw [if_neg hno]
      rcases hstep with ⟨out₁, hrun, hlen, hget⟩
      have hrest : ∀ u ∈ ts, u.outIdx < out₁.length ∧ u.dataIdx = dataIdx u.outIdx := by
        intro u hu
        rw [hlen]
        exact hat u (List.mem_cons_of_mem _ hu)
      rcases ih out₁ hrest with ⟨out', hrun', hlen', hget'⟩
      refine ⟨out', by simp [hrun, hrun'], by omega, ?_⟩
      intro i hi
      rw [hget' i (by omega), hget i hi]
      by_cases hd : dataIdx i < reg.dataLen <;> by_cases heq : t.outIdx = i <;> simp [hd, heq]

/-- One region's turn over a buffer that holds `f` adds the bytes it stores. -/
theorem copy_map (hend : reg.endAddr.toNat ≤ 0xffff) (hreq : ¬ (addr = 0 ∧ len = 0))
    (f : Nat → UInt8) :
    reg.copy addr len ((List.range len.toNat).map f) =
      some ((List.range len.toNat).map fun i => (reg.byteAt (addr.toNat + i)).getD (f i)) := by
  have hat : ∀ t ∈ reg.turns addr len, t.outIdx < ((List.range len.toNat).map f).length ∧
      t.dataIdx = addr.toNat + t.outIdx - reg.start.toNat := by
    intro t ht
    rw [mem_turns reg addr len hend hreq] at ht
    rcases ht with ⟨i, hi, -, -, rfl⟩
    simpa using hi
  rcases foldlM_copyByte reg (fun i => addr.toNat + i - reg.start.toNat) _ _ hat with
    ⟨out, hrun, hlen, hget⟩
  unfold copy
  rw [hrun, Option.some_inj]
  apply List.ext_getElem?
  intro i
  by_cases hi : i < len.toNat
  · have hread : (∃ t ∈ reg.turns addr len, t.outIdx = i) ↔
        reg.start.toNat ≤ addr.toNat + i ∧ addr.toNat + i ≤ reg.endAddr.toNat := by
      constructor
      · intro hmem
        rcases hmem with ⟨t, ht, rfl⟩
        rw [mem_turns reg addr len hend hreq] at ht
        rcases ht with ⟨j, -, hs, he, rfl⟩
        exact ⟨hs, he⟩
      · intro hov
        exact ⟨_, (mem_turns reg addr len hend hreq).mpr ⟨i, hi, hov.1, hov.2, rfl⟩, rfl⟩
    rw [hget i (by simpa using hi)]
    simp only [hread]
    by_cases hd : (reg.start.toNat ≤ addr.toNat + i ∧ addr.toNat + i ≤ reg.endAddr.toNat) ∧
        addr.toNat + i - reg.start.toNat < reg.dataLen
    · have hin := Nat.lt_of_lt_of_le hd.2 reg.stored
      rw [if_pos hd]
      simp [byteAt, hd, hi, List.getElem?_eq_getElem hin]
    · rw [if_neg hd]
      rw [and_assoc] at hd
      simp [byteAt, hd, hi]
  · rw [List.getElem?_eq_none (by simpa [hlen] using hi)]
    simp [hi]

end SpiRegion

/-- The flash as the console sees it: erased outside the regions. -/
def flashByte (a : Nat) : UInt8 :=
  spiRegions.foldl (fun b reg => (reg.byteAt a).getD b) 0xff

theorem spiRegions_low : ∀ reg ∈ spiRegions, reg.endAddr.toNat ≤ 0xffff := by
  simp [spiRegions]

/-- Unless address and length are both 0, a read returns that range of the flash. -/
theorem spiFlashRead_eq (addr : UInt32) (len : UInt8) (hreq : ¬ (addr = 0 ∧ len = 0)) :
    spiFlashRead addr len =
      some ((List.range len.toNat).map fun i => flashByte (addr.toNat + i)) := by
  have hrun : ∀ (regs : List SpiRegion) (f : Nat → UInt8),
      (∀ reg ∈ regs, reg.endAddr.toNat ≤ 0xffff) →
      regs.foldlM (fun out reg => reg.copy addr len out) ((List.range len.toNat).map f) =
        some ((List.range len.toNat).map fun i =>
          regs.foldl (fun b reg => (reg.byteAt (addr.toNat + i)).getD b) (f i)) := by
    intro regs
    induction regs with
    | nil =>
        intro f _
        rfl
    | cons reg regs ih =>
        intro f hlow
        have hnext := ih (fun i => (reg.byteAt (addr.toNat + i)).getD (f i))
          (fun r hr => hlow r (List.mem_cons_of_mem _ hr))
        rw [List.foldlM_cons, SpiRegion.copy_map reg addr len (hlow _ List.mem_cons_self) hreq]
        exact hnext
  have hblank : List.replicate len.toNat (0xff : UInt8) =
      (List.range len.toNat).map fun _ => 0xff := by
    simp
  unfold spiFlashRead
  rw [hblank]
  exact hrun spiRegions (fun _ => 0xff) spiRegions_low

/-! ## Requests of the console -/

/-- No region costs more turns than bytes were asked for, and every access of a turn
lies in its buffer. -/
structure ReadInBounds (addr : UInt32) (len : UInt8) : Prop where
  turns : ∀ reg ∈ spiRegions, (reg.turns addr len).length ≤ len.toNat
  writes : ∀ reg ∈ spiRegions, ∀ t ∈ reg.turns addr len,
    t.dataIdx < reg.dataLen → t.outIdx < len.toNat
  reads : ∀ reg ∈ spiRegions, ∀ t ∈ reg.turns addr len,
    t.dataIdx < reg.dataLen → t.dataIdx < reg.data.length

/-- The request is answered by one reply as long as its cut length asks for. -/
def SpiReplyFits (p : Platform) (c : Core) (a0 a1 a2 a3 lenByte : UInt8) (rest : Bytes) : Prop :=
  ∃ c' payload report,
    dispatchSubcommand p 0x10 (a0 :: a1 :: a2 :: a3 :: lenByte :: rest) c =
      some (c', [.reply 0x10 payload report]) ∧
    payload.length = 5 + (spiLen lenByte).toNat ∧ payload.length ≤ 34

theorem dispatch_spiRead (p : Platform) (c : Core) (a0 a1 a2 a3 lenByte : UInt8)
    (rest : Bytes) :
    dispatchSubcommand p 0x10 (a0 :: a1 :: a2 :: a3 :: lenByte :: rest) c =
      handleSubcmd10SpiRead p (a0 :: a1 :: a2 :: a3 :: lenByte :: rest) c := by
  have hlen : (a0 :: a1 :: a2 :: a3 :: lenByte :: rest).length ≥ 5 := by
    simp only [List.length_cons]
    omega
  show (if (a0 :: a1 :: a2 :: a3 :: lenByte :: rest).length ≥ 5 then
    handleSubcmd10SpiRead p (a0 :: a1 :: a2 :: a3 :: lenByte :: rest) c
    else some (sendGenericAck 0x10 c)) = _
  rw [if_pos hlen]

theorem spiReplyFits (p : Platform) (c : Core) (a0 a1 a2 a3 lenByte : UInt8) (rest : Bytes) :
    SpiReplyFits p c a0 a1 a2 a3 lenByte rest := by
  have hmax := spiLen_le lenByte
  have hrun := spiRead_eq p a0 a1 a2 a3 lenByte rest c rfl
  have hlen (data : Bytes) (hdata : 29 ≤ data.length) :
      ([a0, a1, a2, a3, spiLen lenByte] ++ data.take (spiLen lenByte).toNat).length =
        5 + (spiLen lenByte).toNat := by
    simp only [List.length_append, List.length_take, List.length_cons, List.length_nil]
    omega
  rw [← dispatch_spiRead] at hrun
  refine ⟨_, _, _, hrun, ?_, ?_⟩
  · apply hlen
    simp only [List.length_append, List.length_replicate]
    omega
  · rw [hlen]
    · omega
    · simp only [List.length_append, List.length_replicate]
      omega

/-- The console reads the flash image, unless it asks for no bytes at address 0. -/
theorem spiRead_flash {p : Platform} (hp : ∀ addr len out, spiFlashRead addr len = some out →
      p.spiFlashRead addr len = out) (a0 a1 a2 a3 lenByte : UInt8) (rest : Bytes) (c : Core)
    (hreq : ¬ (spiAddr a0 a1 a2 a3 = 0 ∧ spiLen lenByte = 0)) :
    handleSubcmd10SpiRead p (a0 :: a1 :: a2 :: a3 :: lenByte :: rest) c =
      some (c.replied 0x10 ([a0, a1, a2, a3, spiLen lenByte] ++
        (List.range (spiLen lenByte).toNat).map
          fun i => flashByte ((spiAddr a0 a1 a2 a3).toNat + i))) := by
  have hread := hp _ _ _ (spiFlashRead_eq (spiAddr a0 a1 a2 a3) (spiLen lenByte) hreq)
  have hdata : (List.range (spiLen lenByte).toNat).map
      (fun i => flashByte ((spiAddr a0 a1 a2 a3).toNat + i)) =
      (p.spiFlashRead (spiAddr a0 a1 a2 a3) (spiLen lenByte)).take (spiLen lenByte).toNat := by
    rw [hread, List.take_of_length_le (by simp)]
  rw [spiRead_eq p a0 a1 a2 a3 lenByte rest c hdata]
  rw [List.take_append_of_le_length (by simp), List.take_of_length_le (by simp)]

theorem spiLen_eq_zero {lenByte : UInt8} : spiLen lenByte = 0 ↔ lenByte = 0 := by
  unfold spiLen
  split
  case isTrue hbig =>
      constructor
      · intro h
        simp [spiReadMax] at h
      · intro h
        rw [h] at hbig
        exact absurd hbig (by decide)
  case isFalse => rfl

theorem readInBounds {addr : UInt32} {len : UInt8} (hreq : ¬ (addr = 0 ∧ len = 0)) :
    ReadInBounds addr len where
  turns := by
    intro reg hreg
    exact SpiRegion.turns_length_le reg addr len (spiRegions_low reg hreg) hreq
  writes := by
    intro reg hreg t ht _
    rw [SpiRegion.mem_turns reg addr len (spiRegions_low reg hreg) hreq] at ht
    rcases ht with ⟨i, hi, -, -, rfl⟩
    exact hi
  reads := by
    intro reg _ t _ hd
    exact Nat.lt_of_lt_of_le hd reg.stored

/-- A read of nothing at address 0 overlaps the whole address space. -/
theorem emptyRead_turn {reg : SpiRegion} (hne : reg.start ≤ reg.endAddr) :
    ⟨reg.start.toNat, 0⟩ ∈ reg.turns 0 0 := by
  have hlast : (0 : UInt32) + (0 : UInt8).toUInt32 - 1 = 0xffffffff := by decide
  have hend := UInt32.lt_iff_toNat_lt.mp reg.ends
  have hmax : (0xffffffff : UInt32).toNat = 4294967295 := rfl
  have hzero : (0 : UInt32).toNat = 0 := rfl
  have hov : ¬ ((0 : UInt32) > reg.endAddr ∨
      (0 : UInt32) + (0 : UInt8).toUInt32 - 1 < reg.start) := by
    rw [hlast]
    simp only [gt_iff_lt, UInt32.lt_iff_toNat_lt]
    rw [UInt32.le_iff_toNat_le] at hne
    omega
  unfold SpiRegion.turns
  rw [if_neg hov, SpiRegion.mem_turnsFrom]
  refine ⟨reg.start, ?_, ?_, ?_⟩
  · rw [UInt32.le_iff_toNat_le, SpiRegion.intersectStart_toNat]
    omega
  · unfold SpiRegion.intersectEnd
    rw [hlast]
    split
    case isTrue h =>
        rw [UInt32.lt_iff_toNat_lt] at h
        omega
    case isFalse => exact hne
  · simp [SpiRegion.turn]

theorem not_readInBounds_empty : ¬ ReadInBounds 0 0 := by
  intro h
  have hmem := List.head_mem (l := spiRegions) (by simp [spiRegions])
  have hturn : ⟨0x6000, 0⟩ ∈ (spiRegions.head (by simp [spiRegions])).turns 0 0 :=
    emptyRead_turn (by decide)
  have hlt : 0x6000 < 0 := h.writes _ hmem _ hturn (by decide)
  omega

/-- No bytes at address 0: the first byte copied lands 24576 bytes past the buffer. -/
theorem emptyRead_out_of_bounds :
    ¬ (ReadInBounds (spiAddr 0 0 0 0) (spiLen 0) ∧
      SpiReplyFits blankPlatform Core.boot 0 0 0 0 0 []) := by
  intro h
  exact not_readInBounds_empty h.1

/-- A flash read stays in bounds unless it asks for no bytes at address 0. -/
theorem spi_read_in_bounds_iff (p : Platform) (c : Core) (a0 a1 a2 a3 lenByte : UInt8)
    (rest : Bytes) :
    (ReadInBounds (spiAddr a0 a1 a2 a3) (spiLen lenByte) ∧
      SpiReplyFits p c a0 a1 a2 a3 lenByte rest) ↔
      ¬ (spiAddr a0 a1 a2 a3 = 0 ∧ lenByte = 0) := by
  rw [← spiLen_eq_zero]
  constructor
  · intro h hreq
    rw [hreq.1, hreq.2] at h
    exact not_readInBounds_empty h.1
  · intro hreq
    exact ⟨readInBounds hreq, spiReplyFits p c a0 a1 a2 a3 lenByte rest⟩

end SwitchController.Device
