import MenableDriver.Controllers.Base
import MenableDriver.Data.Walk

/-!
# PCI capabilities

`pci_config_interface.c`: the capabilities of a device are a list in its configuration space, linked by
pointers that the device gives. What the configuration space has at an address is a parameter, also
whether it can be read there. A search gets a bound for the capabilities it looks at; it does not return
when it needs more than any bound allows.
-/

namespace MenableDriver

set_option autoImplicit false

open Walk (node search Stops IsFirst Loops)

def PCI_CAPS_PTR : Nat := 0x34
def PCIE_EXT_CAPS_PTR : BitVec 32 := 0x100#32

/-- `GEN_MASK_16` and `GEN_MASK_32`. -/
def genMask (w b e : Nat) : BitVec w := (BitVec.allOnes w >>> (w - (e + 1))) &&& (BitVec.allOnes w <<< b)

/-- `GET_BITS_16` and `GET_BITS_32`. -/
def getBits {w : Nat} (word : BitVec w) (b e : Nat) : BitVec w := (word &&& genMask w b e) >>> b

/-- The reading functions of `struct pci_config_interface`, with the results of their calls. -/
structure PciConfigInterface where
  read8 : Nat → Option (BitVec 8)
  read16 : Nat → Option (BitVec 16)
  read32 : Nat → Option (BitVec 32)

variable (cfg : PciConfigInterface) (id : Nat)

/-- The loop of `find_capability_address`. -/
def findCapabilityFrom : Nat → BitVec 8 → Option Int
  | 0, _ => none
  | fuel + 1, capAddr =>
    if capAddr ≠ 0 then
      match cfg.read16 capAddr.toNat with
      | none => some STATUS_ERR_DEV_IO
      | some capData =>
        let capId := (getBits capData 0 7).setWidth 8
        let capNext := (getBits capData 8 15).setWidth 8
        if capId.toNat = id then some capAddr.toNat else findCapabilityFrom fuel capNext
    else some STATUS_ERR_NOT_FOUND

def findCapabilityAddress (fuel : Nat) : Option Int :=
  match cfg.read8 PCI_CAPS_PTR with
  | none => some STATUS_ERR_DEV_IO
  | some capAddr => findCapabilityFrom cfg id fuel capAddr

/-- The loop of `find_extended_cap_address`; the pointer is looked at behind its body. -/
def findExtendedCapFrom : Nat → BitVec 32 → Option Int
  | 0, _ => none
  | fuel + 1, next =>
    match cfg.read32 next.toNat with
    | none => some STATUS_ERR_DEV_IO
    | some header =>
      let capId := (header &&& (BitVec.allOnes 32 >>> 16)).setWidth 16
      if capId.toNat = id then some next.toNat
      else
        let next := getBits header 20 31
        if next ≠ 0 then findExtendedCapFrom fuel next else some STATUS_ERR_NOT_FOUND

def findExtendedCapAddress (fuel : Nat) : Option Int := findExtendedCapFrom cfg id fuel PCIE_EXT_CAPS_PTR

/-! ### The lists -/

/-- A list of capabilities ends with a null pointer, or where it cannot be read. -/
inductive ListEnd
  | null | unreadable
deriving DecidableEq

def ListEnd.status : ListEnd → Int
  | .null => STATUS_ERR_NOT_FOUND
  | .unreadable => STATUS_ERR_DEV_IO

/-- A list whose nodes are the addresses of the capabilities. -/
structure CapabilityList (w : Nat) where
  start : ListEnd ⊕ BitVec w
  next : BitVec w → ListEnd ⊕ BitVec w
  hasId : BitVec w → Bool

/-- What a search returns. -/
def searchStatus {w : Nat} : ListEnd ⊕ BitVec w → Int
  | .inl e => e.status
  | .inr capAddr => capAddr.toNat

/-- A search has found the first capability with the identifier, or says that there is none; a list that
cannot be read on is reported as such. -/
structure Finds {w : Nat} (list : CapabilityList w) (r : Int) : Prop where
  found : ∀ capAddr, IsFirst list.start list.next list.hasId capAddr → r = capAddr.toNat
  notFound : (¬∃ capAddr, IsFirst list.start list.next list.hasId capAddr) →
    r = STATUS_ERR_NOT_FOUND ∨ r = STATUS_ERR_DEV_IO ∧ ∃ n, node list.start list.next n = .inl .unreadable

def CapabilityList.Loops {w : Nat} (list : CapabilityList w) : Prop :=
  Walk.Loops list.start list.next list.hasId

/-- The pointer leads to a capability that can be read. -/
def capabilityAt (capAddr : BitVec 8) : ListEnd ⊕ BitVec 8 :=
  if capAddr = 0 then .inl .null
  else if (cfg.read16 capAddr.toNat).isNone then .inl .unreadable
  else .inr capAddr

def capabilities : CapabilityList 8 where
  start := (cfg.read8 PCI_CAPS_PTR).elim (.inl .unreadable) (capabilityAt cfg)
  next capAddr := (cfg.read16 capAddr.toNat).elim (.inl .unreadable) fun capData =>
    capabilityAt cfg ((getBits capData 8 15).setWidth 8)
  hasId capAddr := (cfg.read16 capAddr.toNat).any fun capData => ((getBits capData 0 7).setWidth 8).toNat = id

/-- The first pointer is a fixed one, and not null. -/
def extendedCapabilityAt (next : BitVec 32) : ListEnd ⊕ BitVec 32 :=
  if (cfg.read32 next.toNat).isNone then .inl .unreadable else .inr next

def extendedCapabilities : CapabilityList 32 where
  start := extendedCapabilityAt cfg PCIE_EXT_CAPS_PTR
  next capAddr := (cfg.read32 capAddr.toNat).elim (.inl .unreadable) fun header =>
    if getBits header 20 31 = 0 then .inl .null else extendedCapabilityAt cfg (getBits header 20 31)
  hasId capAddr := (cfg.read32 capAddr.toNat).any fun header =>
    ((header &&& (BitVec.allOnes 32 >>> 16)).setWidth 16).toNat = id

variable {cfg id}

theorem findCapabilityFrom_eq (fuel : Nat) : ∀ capAddr, findCapabilityFrom cfg id fuel capAddr =
    (search (capabilities cfg id).next (capabilities cfg id).hasId fuel (capabilityAt cfg capAddr)).map
      searchStatus := by
  induction fuel with
  | zero => exact fun _ => rfl
  | succ fuel ih =>
    intro capAddr
    unfold findCapabilityFrom capabilityAt
    by_cases hnull : capAddr = 0
    · rw [if_neg (not_not.mpr hnull), if_pos hnull]
      rfl
    · rw [if_pos hnull, if_neg hnull]
      cases hread : cfg.read16 capAddr.toNat with
      | none => rfl
      | some capData =>
        have hid : (capabilities cfg id).hasId capAddr =
            decide (((getBits capData 0 7).setWidth 8).toNat = id) := by
          simp [capabilities, hread]
        have hnext : (capabilities cfg id).next capAddr =
            capabilityAt cfg ((getBits capData 8 15).setWidth 8) := by
          simp [capabilities, hread]
        rw [Option.isNone_some, if_neg Bool.false_ne_true, search, hid, hnext]
        dsimp only
        rw [ih]
        by_cases hfound : ((getBits capData 0 7).setWidth 8).toNat = id
        · rw [if_pos hfound, if_pos (decide_eq_true hfound)]
          rfl
        · rw [if_neg hfound, if_neg (by rw [decide_eq_false hfound]; exact Bool.false_ne_true)]

theorem extendedCapabilities_search {header : BitVec 32} {next : BitVec 32}
    (hread : cfg.read32 next.toNat = some header) (fuel : Nat) :
    search (extendedCapabilities cfg id).next (extendedCapabilities cfg id).hasId (fuel + 1)
        (extendedCapabilityAt cfg next) =
      if ((header &&& (BitVec.allOnes 32 >>> 16)).setWidth 16).toNat = id then some (.inr next)
      else search (extendedCapabilities cfg id).next (extendedCapabilities cfg id).hasId fuel
        (if getBits header 20 31 = 0 then .inl .null else extendedCapabilityAt cfg (getBits header 20 31)) := by
  have hid : (extendedCapabilities cfg id).hasId next =
      decide (((header &&& (BitVec.allOnes 32 >>> 16)).setWidth 16).toNat = id) := by
    simp only [extendedCapabilities, hread, Option.any_some]
  have hnext : (extendedCapabilities cfg id).next next = if getBits header 20 31 = 0 then .inl .null
      else extendedCapabilityAt cfg (getBits header 20 31) := by
    simp only [extendedCapabilities, hread, Option.elim_some]
  have hat : extendedCapabilityAt cfg next = .inr next := by
    rw [extendedCapabilityAt, hread, Option.isNone_some, if_neg Bool.false_ne_true]
  rw [hat, search, hid, hnext]
  by_cases hfound : ((header &&& (BitVec.allOnes 32 >>> 16)).setWidth 16).toNat = id
  · rw [if_pos hfound, if_pos (decide_eq_true hfound)]
  · rw [if_neg hfound, decide_eq_false hfound, if_neg Bool.false_ne_true]

/-- The search in the list looks at the null pointer too, for which the code needs no further turn. -/
theorem findExtendedCapFrom_of_search (fuel : Nat) : ∀ next x,
    search (extendedCapabilities cfg id).next (extendedCapabilities cfg id).hasId fuel
      (extendedCapabilityAt cfg next) = some x → findExtendedCapFrom cfg id fuel next =
        some (searchStatus x) := by
  induction fuel with
  | zero =>
    intro next x h
    exact absurd h (by simp [search])
  | succ fuel ih =>
    intro next x h
    unfold findExtendedCapFrom
    cases hread : cfg.read32 next.toNat with
    | none =>
      rw [extendedCapabilityAt, hread, Option.isNone_none, if_pos rfl, search, Option.some_inj] at h
      rw [← h]
      rfl
    | some header =>
      rw [extendedCapabilities_search hread] at h
      dsimp only
      by_cases hfound : ((header &&& (BitVec.allOnes 32 >>> 16)).setWidth 16).toNat = id
      · rw [if_pos hfound, Option.some_inj] at h
        rw [if_pos hfound, ← h]
        rfl
      · rw [if_neg hfound] at h ⊢
        by_cases hnull : getBits header 20 31 = 0
        · rw [if_pos hnull] at h
          rw [if_neg (not_not.mpr hnull)]
          cases fuel with
          | zero => exact absurd h (by simp [search])
          | succ fuel =>
            rw [search, Option.some_inj] at h
            rw [← h]
            rfl
        · rw [if_neg hnull] at h
          rw [if_pos hnull]
          exact ih _ x h

theorem search_of_findExtendedCapFrom (fuel : Nat) : ∀ next r,
    findExtendedCapFrom cfg id fuel next = some r →
    ∃ x, search (extendedCapabilities cfg id).next (extendedCapabilities cfg id).hasId (fuel + 1)
      (extendedCapabilityAt cfg next) = some x ∧ searchStatus x = r := by
  induction fuel with
  | zero =>
    intro next r h
    exact absurd h (by simp [findExtendedCapFrom])
  | succ fuel ih =>
    intro next r h
    unfold findExtendedCapFrom at h
    cases hread : cfg.read32 next.toNat with
    | none =>
      rw [hread, Option.some_inj] at h
      refine ⟨.inl .unreadable, ?_, h⟩
      rw [extendedCapabilityAt, hread, Option.isNone_none, if_pos rfl, search]
    | some header =>
      rw [hread] at h
      rw [extendedCapabilities_search hread]
      dsimp only at h
      by_cases hfound : ((header &&& (BitVec.allOnes 32 >>> 16)).setWidth 16).toNat = id
      · rw [if_pos hfound] at h ⊢
        exact ⟨.inr next, rfl, Option.some_inj.mp h⟩
      · rw [if_neg hfound] at h ⊢
        by_cases hnull : getBits header 20 31 = 0
        · rw [if_neg (not_not.mpr hnull)] at h
          rw [if_pos hnull]
          exact ⟨.inl .null, rfl, Option.some_inj.mp h⟩
        · rw [if_pos hnull] at h
          rw [if_neg hnull]
          exact ih _ r h

/-- The results of the search in a list. -/
def IsResult {w : Nat} (list : CapabilityList w) (r : Int) : Prop :=
  ∃ fuel x, search list.next list.hasId fuel list.start = some x ∧ searchStatus x = r

theorem isResult_capabilities {r : Int} :
    (∃ fuel, findCapabilityAddress cfg id fuel = some r) ↔ IsResult (capabilities cfg id) r := by
  unfold findCapabilityAddress IsResult
  cases hread : cfg.read8 PCI_CAPS_PTR with
  | none =>
    have hstart : (capabilities cfg id).start = .inl .unreadable := by
      simp only [capabilities, hread, Option.elim_none]
    rw [hstart]
    constructor
    · rintro ⟨_, h⟩
      exact ⟨1, .inl .unreadable, rfl, Option.some_inj.mp h⟩
    · rintro ⟨fuel, x, hx, rfl⟩
      cases fuel with
      | zero => exact absurd hx (by simp [search])
      | succ fuel =>
        rw [search, Option.some_inj] at hx
        rw [← hx]
        exact ⟨0, rfl⟩
  | some capAddr =>
    have hstart : (capabilities cfg id).start = capabilityAt cfg capAddr := by
      simp only [capabilities, hread, Option.elim_some]
    rw [hstart]
    simp only [findCapabilityFrom_eq, Option.map_eq_some_iff]

theorem isResult_extendedCapabilities {r : Int} :
    (∃ fuel, findExtendedCapAddress cfg id fuel = some r) ↔ IsResult (extendedCapabilities cfg id) r := by
  constructor
  · rintro ⟨fuel, h⟩
    obtain ⟨x, hx, hr⟩ := search_of_findExtendedCapFrom fuel _ r h
    exact ⟨fuel + 1, x, hx, hr⟩
  · rintro ⟨fuel, x, hx, rfl⟩
    exact ⟨fuel, findExtendedCapFrom_of_search fuel _ x hx⟩

/-- Every result of a search in a list is the right one. -/
theorem IsResult.finds {w : Nat} {list : CapabilityList w} {r : Int} (h : IsResult list r) :
    Finds list r := by
  obtain ⟨fuel, x, hx, rfl⟩ := h
  constructor
  · intro capAddr hfirst
    rw [hfirst.eq_of_search hx]
    rfl
  · intro hnone
    cases x with
    | inl e =>
      cases e with
      | null => exact Or.inl rfl
      | unreadable =>
        obtain ⟨n, -, hn, -⟩ := (Walk.search_eq_some_iff fuel list.start).mp hx
        exact Or.inr ⟨rfl, n, hn⟩
    | inr capAddr => exact absurd ⟨capAddr, Walk.isFirst_of_search hx⟩ hnone

theorem isResult_iff {w : Nat} {list : CapabilityList w} : (∃ r, IsResult list r) ↔ ¬list.Loops := by
  have hfinite : Finite (BitVec w) := Finite.of_injective BitVec.toFin fun _ _ h => BitVec.eq_of_toFin_eq h
  rw [CapabilityList.Loops, ← Walk.search_ends_iff]
  constructor
  · rintro ⟨_, fuel, x, hx, -⟩
    exact ⟨fuel, x, hx⟩
  · rintro ⟨fuel, x, hx⟩
    exact ⟨_, fuel, x, hx, rfl⟩

/-! ### The searches -/

/-- A search returns, and whatever it returns is right. -/
def SearchRight {w : Nat} (find : Nat → Option Int) (list : CapabilityList w) : Prop :=
  (∃ fuel r, find fuel = some r) ∧ ∀ fuel r, find fuel = some r → Finds list r

theorem searchRight_iff {w : Nat} {find : Nat → Option Int} {list : CapabilityList w}
    (hfind : ∀ r, (∃ fuel, find fuel = some r) ↔ IsResult list r) : SearchRight find list ↔ ¬list.Loops := by
  rw [← isResult_iff]
  constructor
  · rintro ⟨⟨fuel, r, h⟩, -⟩
    exact ⟨r, (hfind r).mp ⟨fuel, h⟩⟩
  · rintro ⟨r, hr⟩
    obtain ⟨fuel, h⟩ := (hfind r).mpr hr
    exact ⟨⟨fuel, r, h⟩, fun fuel r h => ((hfind r).mp ⟨fuel, h⟩).finds⟩

/-- For every configuration space and identifier the searches end with the first capability that has the
identifier, or say that there is none, if and only if the list does not come back to a capability before. -/
theorem capability_search_iff (cfg : PciConfigInterface) (id : Nat) :
    (SearchRight (findCapabilityAddress cfg id) (capabilities cfg id) ↔ ¬(capabilities cfg id).Loops) ∧
    (SearchRight (findExtendedCapAddress cfg id) (extendedCapabilities cfg id) ↔
      ¬(extendedCapabilities cfg id).Loops) :=
  ⟨searchRight_iff fun _ => isResult_capabilities, searchRight_iff fun _ => isResult_extendedCapabilities⟩

/-- A configuration space in which the capability at 0x40, and the extended one at 0x100, link to themselves. -/
def cyclicConfigSpace : PciConfigInterface where
  read8 _ := some 0x40#8
  read16 _ := some 0x4001#16
  read32 _ := some 0x10000001#32

/-- Neither the search for the PCI Express capability nor the one for the serial number ever returns. -/
theorem capability_search_endless :
    (∀ fuel, findCapabilityAddress cyclicConfigSpace 0x10 fuel = none) ∧
    (∀ fuel, findExtendedCapAddress cyclicConfigSpace 0x0003 fuel = none) ∧
    ¬SearchRight (findCapabilityAddress cyclicConfigSpace 0x10) (capabilities cyclicConfigSpace 0x10) ∧
    ¬SearchRight (findExtendedCapAddress cyclicConfigSpace 0x0003)
      (extendedCapabilities cyclicConfigSpace 0x0003) := by
  have hcap : ∀ fuel, findCapabilityFrom cyclicConfigSpace 0x10 fuel 0x40#8 = none := by
    intro fuel
    induction fuel with
    | zero => rfl
    | succ fuel ih =>
      have hid : ¬((getBits 0x4001#16 0 7).setWidth 8).toNat = 0x10 := by decide
      have hnext : (getBits 0x4001#16 8 15).setWidth 8 = 0x40#8 := by decide
      have hptr : 0x40#8 ≠ 0 := by decide
      unfold findCapabilityFrom
      rw [if_pos hptr]
      dsimp only [cyclicConfigSpace]
      rw [if_neg hid, hnext]
      exact ih
  have hext : ∀ fuel, findExtendedCapFrom cyclicConfigSpace 0x0003 fuel 0x100#32 = none := by
    intro fuel
    induction fuel with
    | zero => rfl
    | succ fuel ih =>
      have hid : ¬((0x10000001#32 &&& (BitVec.allOnes 32 >>> 16)).setWidth 16).toNat = 0x0003 := by decide
      have hnext : getBits 0x10000001#32 20 31 = 0x100#32 := by decide
      have hptr : 0x100#32 ≠ 0 := by decide
      unfold findExtendedCapFrom
      dsimp only [cyclicConfigSpace]
      rw [if_neg hid, hnext, if_pos hptr]
      exact ih
  refine ⟨hcap, hext, ?_, ?_⟩
  · rintro ⟨⟨fuel, r, h⟩, -⟩
    rw [show findCapabilityAddress cyclicConfigSpace 0x10 fuel = none from hcap fuel] at h
    exact absurd h (by simp)
  · rintro ⟨⟨fuel, r, h⟩, -⟩
    rw [show findExtendedCapAddress cyclicConfigSpace 0x0003 fuel = none from hext fuel] at h
    exact absurd h (by simp)

end MenableDriver
