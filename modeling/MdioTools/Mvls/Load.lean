import MdioTools.Mvls.PortListing
import MdioTools.Mvls.Region

/-!
# Loading regions

The registers of a port and the PVT of a device are queried when a printer first
needs them.  A query takes a snapshot, reads it in many replies and deletes it,
and whether a region has been loaded is read off its size.  Every query and every
register that is decoded is recorded.

Main results:

- Definitions {lit}`loadRegion` and {lit}`loadLoop`: a load, and the loops of the
  printers over their regions.
- Theorem {lit}`showPort_isSome_iff`: the registers that the port overview
  decodes.
- Theorem {lit}`regions_whole_iff`: when the printers decode from regions whose
  query has succeeded only.
-/

namespace MdioTools.Mvls

open Library

/-! ## Queries -/

/-- A region of an environment: the registers of a port, by the places of its
device and its own, or the PVT of a device. -/
inductive RegionKey
  | regs (d p : Nat)
  | pvt (d : Nat)
deriving DecidableEq

/-- The words of a snapshot: a port has 32 registers, and a PVT has 16 entries for
each of 32 devices. -/
def RegionKey.words : RegionKey → Nat
  | .regs _ _ => 32
  | .pvt _ => 512

/-- What becomes of the requests of a query: the results of NEW and of READ, which
may fail at any reply, and what the replies have left in the region.  A READ that
succeeds has brought the whole snapshot. -/
structure QueryOutcome (words : Nat) where
  new : Int
  read : Int
  left : Region
  complete : read = 0 → left.length = words

/-- `devlink_port_region_get` and `devlink_region_get` into an empty region. -/
def QueryOutcome.get {words : Nat} (o : QueryOutcome words) : RegionGet :=
  if o.new ≠ 0 then ⟨o.new, []⟩ else ⟨o.read, o.left⟩

/-- A query that succeeds has as many words as were asked for. -/
theorem QueryOutcome.get_length {words : Nat} (o : QueryOutcome words) (h : o.get.err = 0) :
    o.get.region.length = words := by
  unfold get at h ⊢
  split_ifs at h ⊢ with hnew
  · exact absurd h hnew
  · exact o.complete h

/-- What becomes of the queries, by the number of queries before. -/
abbrev Answers : Type :=
  Nat → (key : RegionKey) → QueryOutcome key.words

/-! ## Loads -/

/-- A region, and whether it is what a query that succeeded has left. -/
structure RegionState where
  region : Region
  whole : Bool

/-- `devlink_region_loaded`. -/
def devlinkRegionLoaded (region : Region) : Bool :=
  region.length ≠ 0

/-- A query, by a caller that looks at its result or not; a register that is
decoded from a region as it is then; and the start of the rows of a matrix. -/
inductive LoadEvent
  | query (key : RegionKey) (checked : Bool) (get : RegionGet)
  | access (key : RegionKey) (reg : Int) (s : RegionState)
  | rows

/-- The regions, the number of queries made, and what has been recorded. -/
structure LoadState where
  regions : RegionKey → RegionState
  queries : Nat
  log : List LoadEvent

/-- Nothing has been loaded. -/
def LoadState.init : LoadState :=
  ⟨fun _ => ⟨[], false⟩, 0, []⟩

variable (answers : Answers)

/-- `port_load_regs` and `dev_load_pvt`. -/
def loadRegion (checked : Bool) (key : RegionKey) (s : LoadState) : Int × LoadState :=
  if devlinkRegionLoaded (s.regions key).region then (0, s)
  else
    let get := (answers s.queries key).get
    (get.err, {
      regions := Function.update s.regions key ⟨get.region, get.err = 0⟩
      queries := s.queries + 1
      log := s.log ++ [.query key checked get] })

/-- Decode registers of regions. -/
def LoadState.decode (reads : List (RegionKey × Int)) (s : LoadState) : LoadState :=
  { s with log := s.log ++ reads.map fun read => .access read.1 read.2 (s.regions read.1) }

/-- A loop over regions that loads each and decodes some of its registers.  A
checked one ends at the first load that fails. -/
def loadLoop (checked : Bool) (uses : RegionKey → List Int) :
    List RegionKey → LoadState → Bool × LoadState
  | [], s => (true, s)
  | key :: rest, s =>
      let r := loadRegion answers checked key s
      if checked && r.1 ≠ 0 then (false, r.2)
      else loadLoop checked uses rest (r.2.decode ((uses key).map (key, ·)))

/-! ## Printers -/

/-- The index of a device and the indexes of its ports. -/
structure DevPorts where
  index : Fin 32
  ports : List (BitVec 32)

/-- A port with its place and that of its device. -/
structure PortPlace where
  d : Nat
  dev : Fin 32
  p : Nat
  index : BitVec 32

def PortPlace.key (a : PortPlace) : RegionKey :=
  .regs a.d a.p

/-- The entry for a port in a PVT; the index of a port is an `int`. -/
def PortPlace.entry (a : PortPlace) : Int :=
  a.dev.val * 16 + a.index.toInt

/-- The ports of the device in place `d`. -/
def DevPorts.places (dev : DevPorts) (d : Nat) : List PortPlace :=
  dev.ports.zipIdx.map fun port => ⟨d, dev.index, port.2, port.1⟩

/-- The ports of all devices. -/
def portPlaces (devs : List DevPorts) : List PortPlace :=
  devs.zipIdx.flatMap fun dev => dev.1.places dev.2

/-- The registers that a line of `env_show_ports` is made of. -/
def showPortRegs : List Int :=
  [4, 8, 0, 5, 7, 6, 5]

/-- The registers that an object of `env_json_ports` is made of. -/
def jsonPortRegs : List Int :=
  [4, 8, 7, 6, 5, 5]

/-- The loop of `env_show_ports` and `env_json_ports`, which load the registers of
each port and do not look at the result. -/
def overviewLoads (regs : List Int) (devs : List DevPorts) (s : LoadState) : LoadState :=
  (loadLoop answers false (fun _ => regs) ((portPlaces devs).map PortPlace.key) s).2

/-- `env_show_ports`. -/
def envShowPortsLoads : List DevPorts → LoadState → LoadState :=
  overviewLoads answers showPortRegs

/-- `env_json_ports`. -/
def envJsonPortsLoads : List DevPorts → LoadState → LoadState :=
  overviewLoads answers jsonPortRegs

/-- What `dev_show_pvt` decodes: the port VLAN map of each port, and the PVT. -/
def devShowPvtUses : RegionKey → List Int
  | .regs _ _ => [6]
  | .pvt _ => (List.range 512).map Int.ofNat

/-- `dev_show_pvt`, of the device in place `d`. -/
def devShowPvtLoads (devs : List DevPorts) (d : Nat) (s : LoadState) : LoadState :=
  match devs[d]? with
  | none => s
  | some dev => (loadLoop answers true devShowPvtUses
      ((dev.places d).map PortPlace.key ++ [.pvt d]) s).2

/-- The regions that the header of `env_show_pvt` loads. -/
def headerKeys (devs : List DevPorts) : List RegionKey :=
  devs.zipIdx.flatMap fun dev => .pvt dev.2 :: (dev.1.places dev.2).map PortPlace.key

/-- What the header decodes: the LAG of each port. -/
def headerUses : RegionKey → List Int
  | .regs _ _ => [5]
  | .pvt _ => []

/-- The LAGs that ports are in. -/
def lagsFound (devs : List DevPorts) (s : LoadState) : List Nat :=
  (List.range 16).filter fun lag =>
    (portPlaces devs).any fun a => opalPortLag (s.regions a.key).region = some (Int.ofNat lag)

/-- The registers that a cell is made of. -/
def cellReads (src port : PortPlace) : List (RegionKey × Int) :=
  if port.d = src.d then [(src.key, 6), (port.key, 6)]
  else [(.pvt port.d, src.entry), (.pvt src.d, port.entry)]

/-- `env_show_pvt_port`. -/
def envShowPvtPortReads (devs : List DevPorts) (lags : List Nat) (src : PortPlace) :
    List (RegionKey × Int) :=
  (portPlaces devs).flatMap (cellReads src) ++
    lags.map fun lag => (.pvt src.d, 0x1f * 16 + Int.ofNat lag)

/-- The rows of `env_show_pvt`. -/
def rowReads (devs : List DevPorts) (lags : List Nat) : List (RegionKey × Int) :=
  (portPlaces devs).flatMap (envShowPvtPortReads devs lags)

/-- `env_show_pvt`. -/
def envShowPvtLoads (devs : List DevPorts) (s : LoadState) : LoadState :=
  let r := loadLoop answers true headerUses (headerKeys devs) s
  if !r.1 then r.2
  else LoadState.decode (rowReads devs (lagsFound devs r.2)) { r.2 with log := r.2.log ++ [.rows] }

/-- The printers that load regions. -/
inductive Printer
  | showPorts | jsonPorts | devPvt (d : Nat) | pvt

/-- A printer on the devices. -/
def Printer.run (devs : List DevPorts) : Printer → LoadState → LoadState
  | .showPorts => envShowPortsLoads answers devs
  | .jsonPorts => envJsonPortsLoads answers devs
  | .devPvt d => devShowPvtLoads answers devs d
  | .pvt => envShowPvtLoads answers devs

/-- One printer after another. -/
def runPrinters (devs : List DevPorts) (printers : List Printer) : LoadState :=
  printers.foldl (fun s printer => printer.run answers devs s) LoadState.init

/-! ## What loading is for -/

/-- A query that fails leaves the region not loaded, and what is decoded lies in a
region whose query has succeeded. -/
def LoadEvent.Lawful : LoadEvent → Prop
  | .query _ _ get => get.err ≠ 0 → devlinkRegionLoaded get.region = false
  | .access _ reg s => s.whole = true ∧ 0 ≤ reg ∧ reg < s.region.length
  | .rows => True

/-- The PVT has an entry for every port of another device. -/
def EntriesFit (devs : List DevPorts) : Prop :=
  ∀ a ∈ portPlaces devs, ∀ b ∈ portPlaces devs, a.d ≠ b.d → 0 ≤ a.entry ∧ a.entry < 512

/-- A query succeeds, or leaves nothing and is made by a caller that looks at its
result; and where rows are printed, the PVT has entries for the ports. -/
def LoadEvent.Okay (devs : List DevPorts) : LoadEvent → Prop
  | .query _ checked get => get.err = 0 ∨ checked = true ∧ get.region = []
  | .access _ _ _ => True
  | .rows => EntriesFit devs

/-! ## Loading -/

/-- A region counts as loaded unless it is empty. -/
theorem devlinkRegionLoaded_eq_false_iff (region : Region) :
    devlinkRegionLoaded region = false ↔ region = [] := by
  simp [devlinkRegionLoaded]

/-- A region that is not empty is what a query that succeeded has left. -/
def WholeRegions (regions : RegionKey → RegionState) : Prop :=
  ∀ key, (regions key).region ≠ [] →
    (regions key).whole = true ∧ (regions key).region.length = key.words

/-- A query leaves nothing or what it has read to the end. -/
theorem WholeRegions.update {regions : RegionKey → RegionState} {key : RegionKey}
    {state : RegionState} (h : WholeRegions regions)
    (hstate : state.region ≠ [] → state.whole = true ∧ state.region.length = key.words) :
    WholeRegions (Function.update regions key state) := by
  intro key' hne
  by_cases hkey : key' = key
  · subst hkey
    rw [Function.update_self] at hne ⊢
    exact hstate hne
  · rw [Function.update_of_ne hkey] at hne ⊢
    exact h key' hne

/-- As long as all queries have been as they should, what is loaded is whole; and
what has been recorded is lawful exactly as long. -/
structure Consistent (devs : List DevPorts) (s : LoadState) : Prop where
  lawful_iff : (∀ ev ∈ s.log, ev.Lawful) ↔ ∀ ev ∈ s.log, ev.Okay devs
  whole : (∀ ev ∈ s.log, ev.Okay devs) → WholeRegions s.regions

variable {answers : Answers} {devs : List DevPorts} {s s' : LoadState} {checked : Bool}
  {key : RegionKey} {uses : RegionKey → List Int}

/-- At the start nothing is loaded and nothing logged. -/
theorem Consistent.init (devs : List DevPorts) : Consistent devs LoadState.init where
  lawful_iff := by simp [LoadState.init]
  whole _ key hne := absurd rfl hne

/-- What is recorded next is lawful exactly when it should be. -/
theorem Consistent.extend (h : Consistent devs s) {events : List LoadEvent}
    (hlog : s'.log = s.log ++ events)
    (hnext : WholeRegions s.regions → (∀ ev ∈ s.log, ev.Okay devs) →
      ((∀ ev ∈ events, ev.Lawful) ↔ ∀ ev ∈ events, ev.Okay devs) ∧
        ((∀ ev ∈ events, ev.Okay devs) → WholeRegions s'.regions)) :
    Consistent devs s' := by
  constructor
  · rw [hlog, List.forall_mem_append, List.forall_mem_append, h.lawful_iff]
    exact and_congr_right fun hok => (hnext (h.whole hok) hok).1
  · rw [hlog, List.forall_mem_append]
    exact fun hok => (hnext (h.whole hok.1) hok.1).2 hok.2

/-- The registers in a whole region. -/
theorem decode_lawful (reads : List (RegionKey × Int)) (hwhole : WholeRegions s.regions)
    (hloaded : ∀ read ∈ reads, (s.regions read.1).region ≠ []) :
    (∀ ev ∈ reads.map fun read => .access read.1 read.2 (s.regions read.1),
      LoadEvent.Lawful ev) ↔ ∀ read ∈ reads, 0 ≤ read.2 ∧ read.2 < read.1.words := by
  rw [List.forall_mem_map]
  refine forall₂_congr fun read hread => ?_
  obtain ⟨hw, hlen⟩ := hwhole read.1 (hloaded read hread)
  simp only [LoadEvent.Lawful, hw, hlen, true_and]

/-- What is decoded is always okay: the condition is one on queries and rows. -/
theorem decode_okay (reads : List (RegionKey × Int)) (s : LoadState) :
    ∀ ev ∈ reads.map fun read => LoadEvent.access read.1 read.2 (s.regions read.1),
      ev.Okay devs := by
  rw [List.forall_mem_map]
  exact fun _ _ => trivial

/-- A region that counts as loaded is not queried. -/
theorem loadRegion_loaded (h : (s.regions key).region ≠ []) :
    loadRegion answers checked key s = (0, s) := by
  rw [loadRegion, if_pos]
  simpa [devlinkRegionLoaded] using h

/-- An empty region is queried, and the answer kept. -/
theorem loadRegion_query (h : (s.regions key).region = []) :
    loadRegion answers checked key s = ((answers s.queries key).get.err, {
      regions := Function.update s.regions key
        ⟨(answers s.queries key).get.region, (answers s.queries key).get.err = 0⟩
      queries := s.queries + 1
      log := s.log ++ [.query key checked (answers s.queries key).get] }) := by
  rw [loadRegion, if_neg]
  simp [devlinkRegionLoaded, h]

/-- No region is empty when it is whole. -/
theorem RegionKey.words_pos (key : RegionKey) : 0 < key.words := by
  cases key <;> simp [words]

/-- A load that returns 0 leaves a loaded region. -/
theorem loadRegion_region (h : (loadRegion answers checked key s).1 = 0) :
    ((loadRegion answers checked key s).2.regions key).region ≠ [] := by
  by_cases hempty : (s.regions key).region = []
  · rw [loadRegion_query hempty] at h ⊢
    have hlen := (answers s.queries key).get_length h
    simp only [Function.update_self]
    rw [← List.length_pos_iff, hlen]
    exact key.words_pos
  · rwa [loadRegion_loaded hempty]

/-- A load leaves loaded regions as they are. -/
theorem loadRegion_keeps (answers : Answers) (checked : Bool) (key : RegionKey) {key' : RegionKey}
    (h : (s.regions key').region ≠ []) :
    (loadRegion answers checked key s).2.regions key' = s.regions key' := by
  by_cases hempty : (s.regions key).region = []
  · rw [loadRegion_query hempty]
    refine Function.update_of_ne ?_ _ _
    rintro rfl
    exact h hempty
  · rw [loadRegion_loaded hempty]

/-- A load and what is decoded after it, where the registers are those of the
region, and some are decoded if the result is not looked at. -/
theorem Consistent.load_decode (h : Consistent devs s) (answers : Answers) (checked : Bool)
    (huses : ∀ reg ∈ uses key, 0 ≤ reg ∧ reg < key.words)
    (hsome : checked = false → uses key ≠ []) :
    Consistent devs (if checked && (loadRegion answers checked key s).1 ≠ 0 then
      (loadRegion answers checked key s).2
    else (loadRegion answers checked key s).2.decode ((uses key).map (key, ·))) := by
  have hrange : ∀ read ∈ (uses key).map (key, ·), 0 ≤ read.2 ∧ read.2 < read.1.words := by
    rw [List.forall_mem_map]
    exact huses
  by_cases hempty : (s.regions key).region = []
  · rw [loadRegion_query hempty]
    simp only
    generalize hget : (answers s.queries key).get = get
    by_cases herr : get.err = 0
    · -- The snapshot has been read.
      have hlen : get.region.length = key.words :=
        hget ▸ (answers s.queries key).get_length (hget ▸ herr)
      have hne : get.region ≠ [] := List.ne_nil_of_length_pos (hlen ▸ key.words_pos)
      simp only [herr, ne_eq, not_true_eq_false, decide_false, Bool.and_false, Bool.false_eq_true,
        if_false]
      refine h.extend (List.append_assoc _ _ _) fun hwhole _ => ?_
      have hnext : WholeRegions (Function.update s.regions key ⟨get.region, true⟩) :=
        hwhole.update fun _ => ⟨rfl, hlen⟩
      refine ⟨?_, fun _ => by simpa [LoadState.decode] using hnext⟩
      rw [List.forall_mem_append, List.forall_mem_append]
      refine iff_of_true ⟨?_, (decode_lawful _ (by simpa using hnext) ?_).mpr hrange⟩
        ⟨?_, decode_okay _ _⟩
      · simp [LoadEvent.Lawful, herr]
      · rw [List.forall_mem_map]
        intro reg _
        simpa using hne
      · simp [LoadEvent.Okay, herr]
    · cases checked with
      | true =>
          -- The loop ends here.
          simp only [herr, ne_eq, not_false_eq_true, decide_true, Bool.and_self, if_true]
          refine h.extend rfl fun hwhole _ => ?_
          simp only [List.mem_singleton, forall_eq, LoadEvent.Lawful, LoadEvent.Okay, herr, false_or,
            ne_eq, not_false_eq_true, true_implies, devlinkRegionLoaded_eq_false_iff, true_and]
          exact fun hleft => hwhole.update fun hne => absurd hleft hne
      | false =>
          -- A register is decoded from a region that is not whole.
          simp only [Bool.false_and, Bool.false_eq_true, if_false]
          obtain ⟨reg, hreg⟩ := List.exists_mem_of_ne_nil _ (hsome rfl)
          refine h.extend (List.append_assoc _ _ _) fun _ _ => ?_
          have hnot : ¬∀ ev ∈ [LoadEvent.query key false get] ++
              ((uses key).map (key, ·)).map fun read => .access read.1 read.2
                (Function.update s.regions key ⟨get.region, get.err = 0⟩ read.1),
              LoadEvent.Lawful ev := by
            intro hall
            have hacc := hall (.access key reg _) (List.mem_append_right _
              (List.mem_map_of_mem (List.mem_map_of_mem hreg)))
            simp [LoadEvent.Lawful, herr] at hacc
          have hbad : ¬∀ ev ∈ [LoadEvent.query key false get] ++
              ((uses key).map (key, ·)).map fun read => .access read.1 read.2
                (Function.update s.regions key ⟨get.region, get.err = 0⟩ read.1),
              LoadEvent.Okay devs ev := by
            intro hall
            have hquery := hall _ (List.mem_append_left _ List.mem_cons_self)
            simp [LoadEvent.Okay, herr] at hquery
          exact ⟨iff_of_false hnot hbad, fun hall => absurd hall hbad⟩
  · rw [loadRegion_loaded hempty]
    simp only [ne_eq, not_true_eq_false, decide_false, Bool.and_false, Bool.false_eq_true, if_false]
    refine h.extend rfl fun hwhole _ => ⟨iff_of_true ?_ (decode_okay _ _), fun _ => hwhole⟩
    refine (decode_lawful _ hwhole ?_).mpr hrange
    rw [List.forall_mem_map]
    exact fun _ _ => hempty

/-! ## Loops -/

/-- A loop leaves loaded regions as they are. -/
theorem loadLoop_keeps {keys : List RegionKey} {key' : RegionKey}
    (h : (s.regions key').region ≠ []) :
    (loadLoop answers checked uses keys s).2.regions key' = s.regions key' := by
  induction keys generalizing s with
  | nil => rfl
  | cons key rest ih =>
      have hload := loadRegion_keeps answers checked key h
      rw [loadLoop]
      split_ifs with hstop
      · exact hload
      · exact (ih (show _ ≠ _ from hload ▸ h)).trans hload

/-- A checked loop that comes to its end has loaded all regions. -/
theorem loadLoop_loaded {keys : List RegionKey}
    (h : (loadLoop answers true uses keys s).1 = true) {key : RegionKey} (hkey : key ∈ keys) :
    ((loadLoop answers true uses keys s).2.regions key).region ≠ [] := by
  induction keys generalizing s with
  | nil => cases hkey
  | cons first rest ih =>
      rw [loadLoop] at h ⊢
      by_cases herr : (loadRegion answers true first s).1 = 0
      · simp only [herr, ne_eq, not_true_eq_false, decide_false, Bool.and_false, Bool.false_eq_true,
          if_false] at h ⊢
        rcases List.mem_cons.mp hkey with rfl | hrest
        · have hloaded := loadRegion_region herr
          rw [loadLoop_keeps (s := LoadState.decode _ _) hloaded]
          exact hloaded
        · exact ih h hrest
      · simp [herr] at h

/-- A loop over regions keeps the invariant, if what it decodes is in range. -/
theorem Consistent.loop {keys : List RegionKey} (h : Consistent devs s)
    (huses : ∀ key ∈ keys, ∀ reg ∈ uses key, 0 ≤ reg ∧ reg < key.words)
    (hsome : checked = false → ∀ key ∈ keys, uses key ≠ []) :
    Consistent devs (loadLoop answers checked uses keys s).2 := by
  induction keys generalizing s with
  | nil => exact h
  | cons key rest ih =>
      have hfirst := h.load_decode answers checked (huses key List.mem_cons_self)
        fun hc => hsome hc key List.mem_cons_self
      rw [loadLoop]
      split_ifs at hfirst ⊢ with hstop
      · exact hfirst
      · exact ih hfirst (fun k hk => huses k (List.mem_cons_of_mem _ hk))
          fun hc k hk => hsome hc k (List.mem_cons_of_mem _ hk)

/-! ## Printers -/

/-- The overviews decode registers of every port. -/
theorem Consistent.overview {regs : List Int} (h : Consistent devs s)
    (hregs : ∀ reg ∈ regs, 0 ≤ reg ∧ reg < 32) (hne : regs ≠ []) :
    Consistent devs (overviewLoads answers regs devs s) := by
  refine h.loop ?_ fun _ _ _ => hne
  intro key hkey reg hreg
  obtain ⟨a, -, rfl⟩ := List.mem_map.mp hkey
  exact hregs reg hreg

/-- So does the PVT of one device. -/
theorem Consistent.devShowPvt (h : Consistent devs s) (d : Nat) :
    Consistent devs (devShowPvtLoads answers devs d s) := by
  unfold devShowPvtLoads
  split
  · exact h
  · refine h.loop (fun key _ reg hreg => ?_) fun hc => absurd hc (by decide)
    cases key with
    | regs d p =>
        obtain rfl := List.mem_singleton.mp hreg
        exact ⟨by decide, by show (6 : Int) < 32; decide⟩
    | pvt d =>
        obtain ⟨n, hn, rfl⟩ := List.mem_map.mp hreg
        have hlt := List.mem_range.mp hn
        exact ⟨Int.natCast_nonneg n, by show (Int.ofNat n) < 512; exact Int.ofNat_lt.mpr hlt⟩

/-- The header loads the registers of every port and the PVT of its device. -/
theorem mem_headerKeys {a : PortPlace} (h : a ∈ portPlaces devs) :
    a.key ∈ headerKeys devs ∧ .pvt a.d ∈ headerKeys devs := by
  obtain ⟨dev, hdev, ha⟩ := List.mem_flatMap.mp h
  refine ⟨List.mem_flatMap.mpr ⟨dev, hdev, List.mem_cons_of_mem _ (List.mem_map_of_mem ha)⟩,
    List.mem_flatMap.mpr ⟨dev, hdev, ?_⟩⟩
  obtain ⟨port, -, rfl⟩ := List.mem_map.mp ha
  exact List.mem_cons_self

/-- A row decodes the regions that the header has loaded. -/
theorem rowReads_key {lags : List Nat} {read : RegionKey × Int}
    (h : read ∈ rowReads devs lags) : read.1 ∈ headerKeys devs := by
  obtain ⟨src, hsrc, h⟩ := List.mem_flatMap.mp h
  rcases List.mem_append.mp h with hcell | hlag
  · obtain ⟨port, hport, hcell⟩ := List.mem_flatMap.mp hcell
    unfold cellReads at hcell
    split_ifs at hcell
    · rcases List.mem_pair.mp hcell with rfl | rfl
      · exact (mem_headerKeys hsrc).1
      · exact (mem_headerKeys hport).1
    · rcases List.mem_pair.mp hcell with rfl | rfl
      · exact (mem_headerKeys hport).2
      · exact (mem_headerKeys hsrc).2
  · obtain ⟨lag, -, rfl⟩ := List.mem_map.mp hlag
    exact (mem_headerKeys hsrc).2

/-- What the rows decode lies in the regions exactly when the PVTs have entries for
the ports. -/
theorem rowReads_fit_iff {lags : List Nat} (hlags : ∀ lag ∈ lags, lag < 16) :
    (∀ read ∈ rowReads devs lags, 0 ≤ read.2 ∧ read.2 < read.1.words) ↔ EntriesFit devs := by
  constructor
  · intro h a ha b hb hne
    refine h (.pvt b.d, a.entry) (List.mem_flatMap.mpr ⟨a, ha, List.mem_append_left _
      (List.mem_flatMap.mpr ⟨b, hb, ?_⟩)⟩)
    rw [cellReads, if_neg (Ne.symm hne)]
    exact List.mem_cons_self
  · intro h read hread
    have hmap : (0 : Int) ≤ 6 ∧ (6 : Int) < 32 := by decide
    obtain ⟨src, hsrc, hread⟩ := List.mem_flatMap.mp hread
    rcases List.mem_append.mp hread with hcell | hlag
    · obtain ⟨port, hport, hcell⟩ := List.mem_flatMap.mp hcell
      unfold cellReads at hcell
      split_ifs at hcell with hsame
      · rcases List.mem_pair.mp hcell with rfl | rfl <;> exact hmap
      · rcases List.mem_pair.mp hcell with rfl | rfl
        · exact h src hsrc port hport (Ne.symm hsame)
        · exact h port hport src hsrc hsame
    · obtain ⟨lag, hmem, rfl⟩ := List.mem_map.mp hlag
      have hlt := hlags lag hmem
      show (0 : Int) ≤ 0x1f * 16 + Int.ofNat lag ∧ 0x1f * 16 + Int.ofNat lag < 512
      simp only [Int.ofNat_eq_natCast]
      omega

/-- So does the matrix of all devices. -/
theorem Consistent.envShowPvt (h : Consistent devs s) :
    Consistent devs (envShowPvtLoads answers devs s) := by
  have hheader : Consistent devs (loadLoop answers true headerUses (headerKeys devs) s).2 := by
    refine h.loop (fun key _ reg hreg => ?_) fun hc => absurd hc (by decide)
    cases key with
    | regs d p =>
        obtain rfl := List.mem_singleton.mp hreg
        exact ⟨by decide, by show (5 : Int) < 32; decide⟩
    | pvt d => cases hreg
  have hloaded : (loadLoop answers true headerUses (headerKeys devs) s).1 = true →
      ∀ key ∈ headerKeys devs, ((loadLoop answers true headerUses (headerKeys devs) s).2.regions
        key).region ≠ [] := fun hend _ hkey => loadLoop_loaded hend hkey
  unfold envShowPvtLoads
  generalize loadLoop answers true headerUses (headerKeys devs) s = r at hheader hloaded ⊢
  obtain ⟨ok, s'⟩ := r
  cases ok with
  | false => exact hheader
  | true =>
      refine Consistent.extend hheader (List.append_assoc _ _ _) fun hwhole _ =>
        ⟨?_, fun _ => hwhole⟩
      have hlags : ∀ lag ∈ lagsFound devs s', lag < 16 := fun lag hlag =>
        List.mem_range.mp (List.mem_filter.mp hlag).1
      have hdecode := decode_lawful (rowReads devs (lagsFound devs s')) hwhole
        fun read hread => hloaded rfl _ (rowReads_key hread)
      have hlawful : ∀ ev ∈ [LoadEvent.rows], ev.Lawful := by simp [LoadEvent.Lawful]
      have hokay : (∀ ev ∈ [LoadEvent.rows], ev.Okay devs) ↔ EntriesFit devs := by
        simp [LoadEvent.Okay]
      rw [List.forall_mem_append, List.forall_mem_append, and_iff_right hlawful, hokay,
        and_iff_left (decode_okay _ _)]
      exact hdecode.trans (rowReads_fit_iff hlags)

/-- Every printer keeps the invariant. -/
theorem Consistent.printer (h : Consistent devs s) (printer : Printer) :
    Consistent devs (printer.run answers devs s) := by
  cases printer with
  | showPorts => exact h.overview (by decide) (by decide)
  | jsonPorts => exact h.overview (by decide) (by decide)
  | devPvt d => exact h.devShowPvt d
  | pvt => exact h.envShowPvt

/-- A run of printers keeps the invariant. -/
theorem consistent_run (printers : List Printer) (h : Consistent devs s) :
    Consistent devs (printers.foldl (fun s printer => printer.run answers devs s) s) := by
  induction printers generalizing s with
  | nil => exact h
  | cons printer rest ih => exact ih (h.printer printer)

/-- For all devices and all outcomes of the queries, and printers in any order:
everything is decoded from whole regions, and no query that fails leaves a region
that counts as loaded, exactly when each query that is made succeeds, or leaves
nothing and is made by a printer that looks at its result, and the PVTs have
entries for the ports of a matrix whose rows are printed. -/
theorem regions_whole_iff (devs : List DevPorts) (answers : Answers) (printers : List Printer) :
    (∀ ev ∈ (runPrinters answers devs printers).log, ev.Lawful) ↔
      ∀ ev ∈ (runPrinters answers devs printers).log, ev.Okay devs :=
  (consistent_run printers (Consistent.init devs)).lawful_iff

/-! ## What the printers decode -/

/-- The printers of the overviews decode the registers that are recorded, and fault
where the region ends before one of them. -/
theorem showPort_isSome_iff (dev : Dev) (p : Port) :
    ((showPort p).isSome ↔ ∀ reg ∈ showPortRegs, 0 ≤ reg ∧ reg < p.regs.region.length) ∧
      ((jsonPort dev p).isSome ↔ ∀ reg ∈ jsonPortRegs, 0 ≤ reg ∧ reg < p.regs.region.length) := by
  by_cases hlen : 9 ≤ p.regs.region.length
  · obtain ⟨row, obj, hrow, hobj, -⟩ := showPort_jsonPort dev hlen
    rw [hrow, hobj]
    refine ⟨iff_of_true rfl fun reg hreg => ?_, iff_of_true rfl fun reg hreg => ?_⟩
    · have hsmall : ∀ reg ∈ showPortRegs, 0 ≤ reg ∧ reg < 9 := by decide
      have := hsmall reg hreg
      omega
    · have hsmall : ∀ reg ∈ jsonPortRegs, 0 ≤ reg ∧ reg < 9 := by decide
      have := hsmall reg hreg
      omega
  · have heighth : reg16 p.regs.region 8 = none := List.getElem?_eq_none (by omega)
    have hnot : ¬((8 : Int) < p.regs.region.length) := by omega
    refine ⟨iff_of_false ?_ fun h => hnot (h 8 (by decide)).2,
      iff_of_false ?_ fun h => hnot (h 8 (by decide)).2⟩
    · cases hfourth : reg16 p.regs.region 4 <;> simp [showPort, hfourth, heighth]
    · cases hfourth : reg16 p.regs.region 4 <;> simp [jsonPort, hfourth, heighth]

/-- One device with one port. -/
def onePort : List DevPorts :=
  [⟨0, [0]⟩]

/-- Every NEW is refused. -/
def newFails : Answers :=
  fun _ _ => ⟨-1, -1, [], by simp⟩

/-- Every READ fails behind a reply with three words. -/
def readFails : Answers :=
  fun _ _ => ⟨0, -1, [1, 2, 3], by simp⟩

/-- Every READ brings the whole snapshot. -/
def readsWhole : Answers :=
  fun _ key => ⟨0, 0, List.replicate key.words 0, fun _ => List.length_replicate⟩

/-- Two overviews and the matrix, with all queries successful: the registers and the
PVT are loaded once, and all is decoded from them. -/
theorem regions_whole_iff_reads :
    .query (.regs 0 0) false ⟨0, List.replicate 32 0⟩ ∈
        (runPrinters readsWhole onePort [.showPorts, .jsonPorts, .pvt]).log ∧
      .query (.pvt 0) true ⟨0, List.replicate 512 0⟩ ∈
        (runPrinters readsWhole onePort [.showPorts, .jsonPorts, .pvt]).log ∧
      (runPrinters readsWhole onePort [.showPorts, .jsonPorts, .pvt]).queries = 2 ∧
      ∀ ev ∈ (runPrinters readsWhole onePort [.showPorts, .jsonPorts, .pvt]).log, ev.Lawful := by
  have hlog : (runPrinters readsWhole onePort [.showPorts, .jsonPorts, .pvt]).log =
      .query (.regs 0 0) false ⟨0, List.replicate 32 0⟩ ::
        ((showPortRegs ++ jsonPortRegs).map fun reg =>
          .access (.regs 0 0) reg ⟨List.replicate 32 0, true⟩) ++
        [.query (.pvt 0) true ⟨0, List.replicate 512 0⟩,
          .access (.regs 0 0) 5 ⟨List.replicate 32 0, true⟩, .rows,
          .access (.regs 0 0) 6 ⟨List.replicate 32 0, true⟩,
          .access (.regs 0 0) 6 ⟨List.replicate 32 0, true⟩] := rfl
  refine ⟨?_, ?_, rfl, (regions_whole_iff onePort readsWhole _).mpr ?_⟩
  · rw [hlog]
    exact List.mem_append_left _ List.mem_cons_self
  · rw [hlog]
    exact List.mem_append_right _ List.mem_cons_self
  · have hfit : EntriesFit onePort := by
      intro a ha b hb hne
      obtain rfl : a = ⟨0, 0, 0, 0⟩ := List.mem_singleton.mp ha
      obtain rfl : b = ⟨0, 0, 0, 0⟩ := List.mem_singleton.mp hb
      exact absurd rfl hne
    rw [hlog, List.forall_mem_append, List.forall_mem_cons, List.forall_mem_map]
    simp only [List.forall_mem_cons]
    exact ⟨⟨.inl rfl, fun _ _ => trivial⟩, .inl rfl, trivial, hfit, trivial, trivial,
      fun _ hev => nomatch hev⟩

/-- Without a snapshot the port overview decodes from no region, and with part of
one from that; and a printer that gives up leaves the part, which the next takes
for the region. -/
theorem regions_not_whole :
    (∃ ev ∈ (runPrinters newFails onePort [.showPorts]).log,
      ev = .access (.regs 0 0) 4 ⟨[], false⟩ ∧ ¬ev.Lawful) ∧
    (∃ ev ∈ (runPrinters readFails onePort [.jsonPorts]).log,
      ev = .access (.regs 0 0) 8 ⟨[1, 2, 3], false⟩ ∧ ¬ev.Lawful) ∧
    (∃ ev ∈ (runPrinters readFails onePort [.devPvt 0, .devPvt 0]).log,
      ev = .access (.regs 0 0) 6 ⟨[1, 2, 3], false⟩ ∧ ¬ev.Lawful) := by
  refine ⟨⟨_, ?_, rfl, by simp [LoadEvent.Lawful]⟩, ⟨_, ?_, rfl, by simp [LoadEvent.Lawful]⟩,
    ⟨_, ?_, rfl, by simp [LoadEvent.Lawful]⟩⟩
  · exact List.mem_cons_of_mem _ List.mem_cons_self
  · exact List.mem_cons_of_mem _ (List.mem_cons_of_mem _ List.mem_cons_self)
  · exact List.mem_cons_of_mem _ List.mem_cons_self

end MdioTools.Mvls
