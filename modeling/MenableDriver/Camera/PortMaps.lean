import MenableDriver.Data.Remap
import Mathlib.Data.List.GetD

/-!
# Port maps

A port map names for each physical port of a CXP board the logical port that it is connected
to, and the other way round. The driver only knows the port maps of its tables.
-/

namespace MenableDriver

set_option autoImplicit false

def CXP_PORT_MAP_INVALID : BitVec 64 := 0xffffffffffffffff#64
def CXP_PORT_MAP_PORT_MASK : BitVec 64 := 0xf#64
def CXP_PORT_MAP_LOG2PHYS_PORT_SHIFT (p : Nat) : Nat := p * 4
def CXP_PORT_MAP_PHYS2LOG_PORT_SHIFT (p : Nat) : Nat := 32 + p * 4

/-- Translate physical port number to logical port number. -/
def cxpGetLogicalPortNumberFromPortMap (portMap : BitVec 64) (physicalPortNumber : Nat) : Nat :=
  ((portMap >>> CXP_PORT_MAP_PHYS2LOG_PORT_SHIFT physicalPortNumber) &&& CXP_PORT_MAP_PORT_MASK).toNat

/-- Translate logical port number to physical port number. -/
def cxpGetPhysicalPortNumberFromPortMap (portMap : BitVec 64) (logicalPortNumber : Nat) : Nat :=
  ((portMap >>> CXP_PORT_MAP_LOG2PHYS_PORT_SHIFT logicalPortNumber) &&& CXP_PORT_MAP_PORT_MASK).toNat

def cxpPortMaps1ch : List (BitVec 64) :=
  [0x7654321076543210#64, CXP_PORT_MAP_INVALID]

def cxpPortMaps2ch : List (BitVec 64) :=
  [0x7654321076543210#64, 0x7654320176543201#64, CXP_PORT_MAP_INVALID]

def cxpPortMaps4ch : List (BitVec 64) :=
  [0x7654321076543210#64, 0x7654231076542310#64, 0x7654312076543120#64, 0x7654213076541320#64,
   0x7654132076542130#64, 0x7654123076541230#64, 0x7654320176543201#64, 0x7654230176542301#64,
   0x7654310276543021#64, 0x7654210376540321#64, 0x7654130276542031#64, 0x7654120376540231#64,
   0x7654302176543102#64, 0x7654203176541302#64, 0x7654301276543012#64, 0x7654201376540312#64,
   0x7654103276541032#64, 0x7654102376540132#64, 0x7654032176542103#64, 0x7654023176541203#64,
   0x7654031276542013#64, 0x7654021376540213#64, 0x7654013276541023#64, 0x7654012376540123#64,
   CXP_PORT_MAP_INVALID]

def cxpPortMaps5ch : List (BitVec 64) :=
  [0x7654321076543210#64, 0x7653421076534210#64, 0x7654231076542310#64, 0x7653241076524310#64,
   0x7652431076532410#64, 0x7652341076523410#64, 0x7654312076543120#64, 0x7653412076534120#64,
   0x7654213076541320#64, 0x7653214076514320#64, 0x7652413076531420#64, 0x7652314076513420#64,
   0x7654132076542130#64, 0x7653142076524130#64, 0x7654123076541230#64, 0x7653124076514230#64,
   0x7652143076521430#64, 0x7652134076512430#64, 0x7651432076532140#64, 0x7651342076523140#64,
   0x7651423076531240#64, 0x7651324076513240#64, 0x7651243076521340#64, 0x7651234076512340#64,
   0x7654320176543201#64, 0x7653420176534201#64, 0x7654230176542301#64, 0x7653240176524301#64,
   0x7652430176532401#64, 0x7652340176523401#64, 0x7654310276543021#64, 0x7653410276534021#64,
   0x7654210376540321#64, 0x7653210476504321#64, 0x7652410376530421#64, 0x7652310476503421#64,
   0x7654130276542031#64, 0x7653140276524031#64, 0x7654120376540231#64, 0x7653120476504231#64,
   0x7652140376520431#64, 0x7652130476502431#64, 0x7651430276532041#64, 0x7651340276523041#64,
   0x7651420376530241#64, 0x7651320476503241#64, 0x7651240376520341#64, 0x7651230476502341#64,
   0x7654302176543102#64, 0x7653402176534102#64, 0x7654203176541302#64, 0x7653204176514302#64,
   0x7652403176531402#64, 0x7652304176513402#64, 0x7654301276543012#64, 0x7653401276534012#64,
   0x7654201376540312#64, 0x7653201476504312#64, 0x7652401376530412#64, 0x7652301476503412#64,
   0x7654103276541032#64, 0x7653104276514032#64, 0x7654102376540132#64, 0x7653102476504132#64,
   0x7652104376510432#64, 0x7652103476501432#64, 0x7651403276531042#64, 0x7651304276513042#64,
   0x7651402376530142#64, 0x7651302476503142#64, 0x7651204376510342#64, 0x7651203476501342#64,
   0x7654032176542103#64, 0x7653042176524103#64, 0x7654023176541203#64, 0x7653024176514203#64,
   0x7652043176521403#64, 0x7652034176512403#64, 0x7654031276542013#64, 0x7653041276524013#64,
   0x7654021376540213#64, 0x7653021476504213#64, 0x7652041376520413#64, 0x7652031476502413#64,
   0x7654013276541023#64, 0x7653014276514023#64, 0x7654012376540123#64, 0x7653012476504123#64,
   0x7652014376510423#64, 0x7652013476501423#64, 0x7651043276521043#64, 0x7651034276512043#64,
   0x7651042376520143#64, 0x7651032476502143#64, 0x7651024376510243#64, 0x7651023476501243#64,
   0x7650432176532104#64, 0x7650342176523104#64, 0x7650423176531204#64, 0x7650324176513204#64,
   0x7650243176521304#64, 0x7650234176512304#64, 0x7650431276532014#64, 0x7650341276523014#64,
   0x7650421376530214#64, 0x7650321476503214#64, 0x7650241376520314#64, 0x7650231476502314#64,
   0x7650413276531024#64, 0x7650314276513024#64, 0x7650412376530124#64, 0x7650312476503124#64,
   0x7650214376510324#64, 0x7650213476501324#64, 0x7650143276521034#64, 0x7650134276512034#64,
   0x7650142376520134#64, 0x7650132476502134#64, 0x7650124376510234#64, 0x7650123476501234#64,
   CXP_PORT_MAP_INVALID]

/-- The ports below `n` are connected one to one, and the two halves of the map agree. -/
structure PortMapOk (n : Nat) (m : BitVec 64) : Prop where
  phys2log : ∀ p < n, cxpGetLogicalPortNumberFromPortMap m p < n ∧
    cxpGetPhysicalPortNumberFromPortMap m (cxpGetLogicalPortNumberFromPortMap m p) = p
  log2phys : ∀ l < n, cxpGetPhysicalPortNumberFromPortMap m l < n ∧
    cxpGetLogicalPortNumberFromPortMap m (cxpGetPhysicalPortNumberFromPortMap m l) = l

instance (n : Nat) (m : BitVec 64) : Decidable (PortMapOk n m) :=
  decidable_of_iff (_ ∧ _) ⟨fun h => ⟨h.1, h.2⟩, fun h => ⟨h.1, h.2⟩⟩

/-- The port maps of a board, from the one to one map on, with the invalid map behind them. -/
structure PortMapTable where
  numPorts : Nat
  portMaps : List (BitVec 64)
  numPorts_pos : 0 < numPorts
  numPorts_le : numPorts ≤ 5
  head_eq : portMaps.head? = some 0x7654321076543210#64
  getLast_eq : portMaps.getLast? = some CXP_PORT_MAP_INVALID
  all_ok : portMaps.dropLast.all (fun m => PortMapOk numPorts m) = true

/-- The table of a board that has this number of physical ports. -/
def cxpPortMaps (numPhysicalPorts : Nat) : PortMapTable :=
  match numPhysicalPorts with
  | 5 => ⟨5, cxpPortMaps5ch, by decide, by decide, rfl, rfl, by decide +kernel⟩
  | 4 => ⟨4, cxpPortMaps4ch, by decide, by decide, rfl, rfl, by decide +kernel⟩
  | 2 => ⟨2, cxpPortMaps2ch, by decide, by decide, rfl, rfl, by decide +kernel⟩
  | _ => ⟨1, cxpPortMaps1ch, by decide, by decide, rfl, rfl, by decide +kernel⟩

namespace PortMapTable

/-- What the C code reads from the table. -/
def portMap (t : PortMapTable) (index : Nat) : BitVec 64 := t.portMaps.getD index CXP_PORT_MAP_INVALID

/-- A port map the frontend can be set to. -/
def Valid (t : PortMapTable) (m : BitVec 64) : Prop := m ∈ t.portMaps ∧ m ≠ CXP_PORT_MAP_INVALID

/-- The first entry that is the map or invalid, where the search of the C code stops. -/
def search (t : PortMapTable) (m : BitVec 64) : Nat :=
  t.portMaps.findIdx (fun e => e = m ∨ e = CXP_PORT_MAP_INVALID)

variable {t : PortMapTable} {m : BitVec 64}

theorem not_ok_invalid : ¬ PortMapOk t.numPorts CXP_PORT_MAP_INVALID := by
  intro h
  have hlt := (h.phys2log 0 t.numPorts_pos).1
  have hle := t.numPorts_le
  have hlog : cxpGetLogicalPortNumberFromPortMap CXP_PORT_MAP_INVALID 0 = 15 := by decide
  omega

theorem ok_of_lt {i : Nat} (h : i + 1 < t.portMaps.length) : PortMapOk t.numPorts (t.portMap i) := by
  have hlt : i < t.portMaps.dropLast.length := by simpa using by omega
  have hget : t.portMap i = t.portMaps.dropLast[i] := by
    rw [portMap, List.getD_eq_getElem _ _ (by omega), List.getElem_dropLast]
  rw [hget]
  exact of_decide_eq_true (List.all_eq_true.mp t.all_ok _ (List.getElem_mem hlt))

theorem portMap_last : t.portMap (t.portMaps.length - 1) = CXP_PORT_MAP_INVALID := by
  have h := t.getLast_eq
  rw [List.getLast?_eq_getElem?] at h
  rw [portMap, List.getD_eq_getElem?_getD, h, Option.getD_some]

/-- The search finds an entry. -/
theorem search_spec : t.search m < t.portMaps.length ∧
    (t.portMap (t.search m) = m ∨ t.portMap (t.search m) = CXP_PORT_MAP_INVALID) := by
  have hmem : CXP_PORT_MAP_INVALID ∈ t.portMaps := List.mem_of_getLast? t.getLast_eq
  have hlt : t.search m < t.portMaps.length :=
    List.findIdx_lt_length_of_exists ⟨_, hmem, decide_eq_true (.inr rfl)⟩
  refine ⟨hlt, ?_⟩
  rw [portMap, List.getD_eq_getElem _ _ hlt]
  exact of_decide_eq_true (List.findIdx_getElem (p := fun e => e = m ∨ e = CXP_PORT_MAP_INVALID) (w := hlt))

theorem valid_iff_exists : t.Valid m ↔ ∃ i, i + 1 < t.portMaps.length ∧ t.portMap i = m := by
  constructor
  · intro ⟨hmem, hm⟩
    obtain ⟨i, hi, rfl⟩ := List.getElem_of_mem hmem
    have hget : t.portMap i = t.portMaps[i] := List.getD_eq_getElem _ _ hi
    refine ⟨i, ?_, hget⟩
    by_contra hge
    have hi' : i = t.portMaps.length - 1 := by omega
    rw [← hget, hi', portMap_last] at hm
    exact hm rfl
  · rintro ⟨i, hi, rfl⟩
    refine ⟨?_, ?_⟩
    · rw [portMap, List.getD_eq_getElem _ _ (by omega)]
      exact List.getElem_mem _
    · intro h
      exact not_ok_invalid (h ▸ ok_of_lt hi)

theorem Valid.ok (h : t.Valid m) : PortMapOk t.numPorts m := by
  obtain ⟨i, hi, rfl⟩ := valid_iff_exists.mp h
  exact ok_of_lt hi

/-- The search stops at the invalid map for the maps that are not valid, and for no others. -/
theorem portMap_search (h : t.Valid m) : t.portMap (t.search m) = m := by
  rcases search_spec (t := t) (m := m) with ⟨hlt, heq | hinv⟩
  · exact heq
  · exfalso
    obtain ⟨i, hi, him⟩ := valid_iff_exists.mp h
    have hle : t.search m ≤ i := by
      by_contra hlt'
      have hnot := List.not_of_lt_findIdx (not_le.mp hlt')
      rw [portMap, List.getD_eq_getElem _ _ (by omega)] at him
      simp [him] at hnot
    exact not_ok_invalid (hinv ▸ ok_of_lt (by omega))

theorem portMap_search_of_not_valid (h : ¬ t.Valid m) : t.portMap (t.search m) = CXP_PORT_MAP_INVALID := by
  rcases search_spec (t := t) (m := m) with ⟨hlt, heq | hinv⟩
  · by_contra hne
    refine h ⟨?_, fun hm => hne (heq.trans hm)⟩
    rw [← heq, portMap, List.getD_eq_getElem _ _ hlt]
    exact List.getElem_mem hlt
  · exact hinv

end PortMapTable

end MenableDriver
