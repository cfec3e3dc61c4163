import SwitchController.Device.SpiFlash

/-! # One flash image

The emulated chip has one content, a byte for each of its 32-bit addresses. A read
that is not empty is a window on it, and windows that follow one another make up
the window over their whole range.
-/

namespace SwitchController.Device

open Memory

namespace SpiRegion

/-- The addresses of the region. -/
def Covers (reg : SpiRegion) (a : UInt32) : Prop := reg.start ≤ a ∧ a ≤ reg.endAddr

instance (reg : SpiRegion) (a : UInt32) : Decidable (reg.Covers a) :=
  inferInstanceAs (Decidable (_ ∧ _))

/-- What is programmed at an address of the region. -/
def programmed (reg : SpiRegion) (a : UInt32) : Option UInt8 :=
  (reg.data.take reg.dataLen)[(a - reg.start).toNat]?

end SpiRegion

/-- The byte at an address: that of the region it lies in, `0xff` where none is. -/
def flashImage (a : UInt32) : UInt8 :=
  ((spiRegions.find? fun reg => reg.Covers a).bind fun reg => reg.programmed a).getD 0xff

/-- `n` bytes of the image from an address on; the address wraps at 32 bits. -/
def flashWindow (a : UInt32) (n : Nat) : Bytes :=
  (List.range n).map fun i => flashImage (a + UInt32.ofNat i)

/-- Reads of the given lengths, each from where the one before it ended. -/
def spiReads (addr : UInt32) : List UInt8 → Option Bytes
  | [] => some []
  | len :: lens => do
      let part ← spiFlashRead addr len
      let parts ← spiReads (addr + len.toUInt32) lens
      some (part ++ parts)

/-! ## Regions and the image -/

/-- No address lies in two regions. -/
theorem spiRegions_disjoint :
    spiRegions.Pairwise fun left right => left.endAddr < right.start := by
  simp [spiRegions]

theorem spiRegions_high : ∀ reg ∈ spiRegions, 0x6000 ≤ reg.start.toNat := by
  simp [spiRegions]

theorem byteAt_covered {reg : SpiRegion} {a : UInt32} (h : reg.Covers a) :
    reg.byteAt a.toNat = reg.programmed a := by
  have hstart := UInt32.le_iff_toNat_le.mp h.1
  have hend := UInt32.le_iff_toNat_le.mp h.2
  unfold SpiRegion.byteAt SpiRegion.programmed
  rw [UInt32.toNat_sub_of_le _ _ h.1, List.getElem?_take]
  by_cases hdata : a.toNat - reg.start.toNat < reg.dataLen
  · rw [if_pos ⟨hstart, hend, hdata⟩, if_pos hdata]
  · rw [if_neg (fun hall => hdata hall.2.2), if_neg hdata]

theorem byteAt_uncovered {reg : SpiRegion} {a : UInt32} (h : ¬ reg.Covers a) :
    reg.byteAt a.toNat = none := by
  unfold SpiRegion.byteAt
  apply if_neg
  intro hall
  apply h
  exact ⟨UInt32.le_iff_toNat_le.mpr hall.1, UInt32.le_iff_toNat_le.mpr hall.2.1⟩

/-- A scan that finds no byte keeps the one it has. -/
theorem foldl_byteAt_none {regs : List SpiRegion} {n : Nat} (b : UInt8)
    (h : ∀ reg ∈ regs, reg.byteAt n = none) :
    regs.foldl (fun b reg => (reg.byteAt n).getD b) b = b := by
  induction regs with
  | nil => rfl
  | cons reg regs ih =>
      have hhead := h reg List.mem_cons_self
      rw [List.foldl_cons, hhead]
      exact ih fun r hr => h r (List.mem_cons_of_mem _ hr)

/-- Over disjoint regions the scan ends with the byte of the covering one. -/
theorem foldl_byteAt {regs : List SpiRegion} (a : UInt32)
    (hdis : regs.Pairwise fun left right => left.endAddr < right.start) :
    regs.foldl (fun b reg => (reg.byteAt a.toNat).getD b) 0xff =
      ((regs.find? fun reg => reg.Covers a).bind fun reg => reg.programmed a).getD 0xff := by
  induction regs with
  | nil => rfl
  | cons reg regs ih =>
      rw [List.pairwise_cons] at hdis
      rw [List.foldl_cons]
      by_cases hcov : reg.Covers a
      · have hfind : (reg :: regs).find? (fun r => r.Covers a) = some reg :=
          List.find?_cons_of_pos (decide_eq_true hcov)
        rw [hfind, byteAt_covered hcov, Option.bind_some]
        apply foldl_byteAt_none
        intro r hr
        apply byteAt_uncovered
        intro hboth
        have hlt := UInt32.lt_iff_toNat_lt.mp (hdis.1 r hr)
        have hle := UInt32.le_iff_toNat_le.mp hcov.2
        have hge := UInt32.le_iff_toNat_le.mp hboth.1
        omega
      · have hfind : (reg :: regs).find? (fun r => r.Covers a) =
            regs.find? fun r => r.Covers a := List.find?_cons_of_neg (by simpa using hcov)
        rw [hfind, byteAt_uncovered hcov, Option.getD_none]
        exact ih hdis.2

theorem flashByte_image (a : UInt32) : flashByte a.toNat = flashImage a :=
  foldl_byteAt a spiRegions_disjoint

theorem flashByte_outside {n : Nat} (h : n < 0x6000 ∨ 0xffff < n) : flashByte n = 0xff := by
  apply foldl_byteAt_none
  intro reg hreg
  have hlow := spiRegions_low reg hreg
  have hhigh := spiRegions_high reg hreg
  unfold SpiRegion.byteAt
  apply if_neg
  omega

/-- Behind the last address the image starts over, where no region is. -/
theorem flashByte_add (addr : UInt32) {i : Nat} (hi : i < 0x6000) :
    flashByte (addr.toNat + i) = flashImage (addr + UInt32.ofNat i) := by
  have hlt := addr.toNat_lt
  have hofNat : (UInt32.ofNat i).toNat = i := by
    rw [UInt32.toNat_ofNat', Nat.mod_eq_of_lt]
    omega
  rw [← flashByte_image, UInt32.toNat_add, hofNat]
  by_cases hwrap : addr.toNat + i < 2 ^ 32
  · rw [Nat.mod_eq_of_lt hwrap]
  · have hmod : (addr.toNat + i) % 2 ^ 32 = addr.toNat + i - 2 ^ 32 := by
      rw [Nat.mod_eq_sub_mod (by omega), Nat.mod_eq_of_lt (by omega)]
    rw [hmod, flashByte_outside (by omega), flashByte_outside (by omega)]

/-! ## Windows -/

@[simp] theorem flashWindow_length (a : UInt32) (n : Nat) : (flashWindow a n).length = n := by
  simp [flashWindow]

theorem flashWindow_succ (a : UInt32) (n : Nat) :
    flashWindow a (n + 1) = flashWindow a n ++ [flashImage (a + UInt32.ofNat n)] := by
  unfold flashWindow
  rw [List.range_succ, List.map_append, List.map_singleton]

theorem flashWindow_append (a : UInt32) (m n : Nat) :
    flashWindow a m ++ flashWindow (a + UInt32.ofNat m) n = flashWindow a (m + n) := by
  induction n with
  | zero => exact List.append_nil _
  | succ n ih =>
      have hlast : a + UInt32.ofNat m + UInt32.ofNat n = a + UInt32.ofNat (m + n) := by
        rw [UInt32.ofNat_add, UInt32.add_assoc]
      rw [flashWindow_succ, ← List.append_assoc, ih, hlast, ← Nat.add_assoc, flashWindow_succ]

theorem spiFlashRead_eq_window (addr : UInt32) {len : UInt8} (hlen : len ≠ 0) :
    spiFlashRead addr len = some (flashWindow addr len.toNat) := by
  have hbound := len.toNat_lt
  rw [spiFlashRead_eq addr len fun h => hlen h.2]
  congr 1
  apply List.map_congr_left
  intro i hi
  apply flashByte_add
  have hi := List.mem_range.mp hi
  omega

theorem spiReads_eq_window (addr : UInt32) (lens : List UInt8) (hlens : ∀ len ∈ lens, len ≠ 0) :
    spiReads addr lens = some (flashWindow addr (lens.map UInt8.toNat).sum) := by
  induction lens generalizing addr with
  | nil => rfl
  | cons len lens ih =>
      have hhead := spiFlashRead_eq_window addr (hlens len List.mem_cons_self)
      have htail := ih (addr + len.toUInt32) fun l hl => hlens l (List.mem_cons_of_mem _ hl)
      have hcast : len.toUInt32 = UInt32.ofNat len.toNat := by
        apply UInt32.toNat_inj.mp
        simp
      rw [hcast] at htail
      simp only [spiReads, hhead, hcast, htail, Option.bind_eq_bind, Option.bind_some,
        List.map_cons, List.sum_cons]
      rw [flashWindow_append]

/-- A read that is not empty is a window on the image, and cutting it into reads that are
not empty does not change what is read. -/
theorem spiFlashRead_window (addr : UInt32) (len : UInt8) (hlen : len ≠ 0) :
    spiFlashRead addr len = some (flashWindow addr len.toNat) ∧
      ∀ lens : List UInt8, (∀ part ∈ lens, part ≠ 0) → (lens.map UInt8.toNat).sum = len.toNat →
        spiReads addr lens = spiFlashRead addr len := by
  have hwhole := spiFlashRead_eq_window addr hlen
  constructor
  · exact hwhole
  · intro lens hparts hsum
    rw [hwhole, spiReads_eq_window addr lens hparts, hsum]

/-- The 25 bytes from `0x603d` on, in one read and in three. -/
theorem spiFlashRead_window_calibration :
    spiFlashRead 0x603d 25 = some (flashWindow 0x603d 25) ∧
      spiReads 0x603d [9, 9, 7] = spiFlashRead 0x603d 25 := by
  have hread := spiFlashRead_window 0x603d 25 (by decide)
  exact ⟨hread.1, hread.2 [9, 9, 7] (by simp) (by decide)⟩

end SwitchController.Device
