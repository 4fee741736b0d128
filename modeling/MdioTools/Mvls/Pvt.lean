import MdioTools.Mvls.Show

/-!
# The matrix of the port VLAN tables

{lit}`env_show_pvt` shows for each pair of ports whether frames may pass in
either direction.  Between ports of one device the port VLAN map of the source
decides, and between devices the entry for the source in the table of the
destination's device.

Main results:

- Definition {lit}`envShowPvt`: the header and the rows.
- Definition {lit}`PvtMatrix.printed`: how a matrix is to be seen.
- Theorem {lit}`envShowPvt_matrix`: each cell shows both directions, the matrix
  is symmetric up to exchanging the directions, the rows have the columns of
  the header, and the matrix is what is printed.
-/

namespace MdioTools.Mvls

open Library

/-! ## Cells -/

/-- `pvt_print_cell`, without the space in front. -/
def pvtPrintCell (spvt dpvt : BitVec 16) (src dst : Nat) : Char :=
  if bit spvt dst && bit dpvt src then 'x'
  else if bit spvt dst then '^'
  else if bit dpvt src then '<'
  else '.'

/-- The cell of a port in the row of another.  Whether the ports are on the same
device is decided by their place in the list of devices. -/
def pvtCell (same : Bool) (srcDev : Dev) (src : Port) (dev : Dev) (port : Port) : Option Char := do
  let spvt ← if same then reg16 src.regs.region 6
    else reg16 dev.pvt.region ((srcDev.index.val <<< 4) + src.index.toNat)
  let dpvt ← if same then reg16 port.regs.region 6
    else reg16 srcDev.pvt.region ((dev.index.val <<< 4) + port.index.toNat)
  some (pvtPrintCell spvt dpvt src.index.toNat port.index.toNat)

/-- The LAGs in a set, in order. -/
def lagsOf (lags : BitVec 16) : List Nat :=
  (List.range 16).filter (bit lags ·)

/-- A row of the matrix: the port it is for, the cells of the ports of each
device, and the cells of the LAGs. -/
structure PvtRow where
  dev : Fin 32
  port : BitVec 32
  groups : List (List Char)
  lagCells : List Char
deriving DecidableEq

/-- `env_show_pvt_port`, for a port of the device in place `d`. -/
def envShowPvtPort (env : Env) (lags : BitVec 16) (d : Nat) (srcDev : Dev) (src : Port) :
    Option PvtRow := do
  let groups ← env.devs.zipIdx.mapM fun (dev, j) =>
    dev.ports.mapM (pvtCell (decide (j = d)) srcDev src dev)
  let lagCells ← (lagsOf lags).mapM fun lag => do
    let dpvt ← reg16 srcDev.pvt.region ((0x1f <<< 4) + lag)
    some (pvtPrintCell 0 dpvt src.index.toNat 0)
  some ⟨srcDev.index, src.index, groups, lagCells⟩

/-! ## The header -/

/-- The first line of the header while it is printed: whether all queries have
succeeded, the text, the columns so far and the LAGs found. -/
structure PvtHeader where
  ok : Bool
  text : CStr
  columns : List (List (Fin 32 × BitVec 32))
  lags : BitVec 16

/-- The loop over the ports of a device. -/
def pvtHeaderPorts (dev : Dev) :
    List Port → List (Fin 32 × BitVec 32) → PvtHeader → Option PvtHeader
  | [], columns, h => some { h with columns := h.columns ++ [columns] }
  | port :: rest, columns, h =>
      if port.regs.err ≠ 0 then some { h with ok := false }
      else do
        let lag ← opalPortLag port.regs.region
        pvtHeaderPorts dev rest (columns ++ [(dev.index, port.index)]) { h with
          text := h.text ++ [' '] ++ hex dev.index
          lags := if 0 ≤ lag then h.lags ||| BitVec.twoPow 16 lag.toNat else h.lags }

/-- The loop over the devices. -/
def pvtHeaderDevs : List Dev → PvtHeader → Option PvtHeader
  | [], h => some h
  | dev :: rest, h =>
      if dev.pvt.err ≠ 0 then some { h with ok := false }
      else do
        let h ← pvtHeaderPorts dev dev.ports [] h
        if !h.ok then some h
        else pvtHeaderDevs rest { h with text := h.text ++ if rest = [] then [] else [' '] }

/-! ## The matrix -/

/-- What is printed when all queries succeed: the columns of the ports of each
device, those of the LAGs, and the rows of the ports of each device. -/
structure PvtMatrix where
  columns : List (List (Fin 32 × BitVec 32))
  lags : List Nat
  rows : List (List PvtRow)
deriving DecidableEq

/-- Groups of columns, with a space behind each but the last, and behind that
too if there are LAGs. -/
def pvtGroups (lags : List Nat) : List CStr → CStr
  | [] => []
  | [g] => g ++ if lags = [] then [] else [' ']
  | g :: rest => g ++ [' '] ++ pvtGroups lags rest

/-- The text of a row. -/
def PvtRow.text (lags : List Nat) (row : PvtRow) : CStr :=
  "\x1b[7m".toList ++ hex row.dev ++ [' '] ++ hex row.port.toNat ++ "\x1b[0m".toList ++
    pvtGroups lags (row.groups.map fun cells => cells.flatMap fun c => [' ', c]) ++
    (row.lagCells.flatMap fun c => [' ', c]) ++ ['\n']

/-- The text behind the first line of the header up to its LAGs. -/
def PvtMatrix.text (m : PvtMatrix) : CStr :=
  (if m.lags = [] then [] else [' ']) ++ (m.lags.flatMap fun _ => " L".toList) ++ "\n  P".toList ++
    pvtGroups m.lags (m.columns.map fun g => g.flatMap fun c => [' '] ++ hex c.2.toNat) ++
    (m.lags.flatMap fun lag => [' '] ++ hex lag) ++ "\x1b[0m\n".toList ++
    List.intercalate "\x1b[7m   \x1b[0m\n".toList
      (m.rows.map fun rows => rows.flatMap (PvtRow.text m.lags))

/-- The output of `env_show_pvt`: the text, and the matrix unless a query has
failed. -/
structure PvtOutput where
  text : CStr
  matrix : Option PvtMatrix

/-- `env_show_pvt`. -/
def envShowPvt (env : Env) : Option PvtOutput := do
  let h ← pvtHeaderDevs env.devs ⟨true, "\x1b[7mD  ".toList, [], 0⟩
  if !h.ok then some ⟨h.text, none⟩
  else
    let rows ← env.devs.zipIdx.mapM fun (dev, d) => dev.ports.mapM (envShowPvtPort env h.lags d dev)
    let m : PvtMatrix := ⟨h.columns, lagsOf h.lags, rows⟩
    some ⟨h.text ++ m.text, some m⟩

/-- The cell in the row of the port in place `a` and the column of the port in
place `b`; a place is that of the device and that of the port on it. -/
def PvtMatrix.cell (m : PvtMatrix) (a b : Nat × Nat) : Option Char := do
  let rows ← m.rows[a.1]?
  let row ← rows[a.2]?
  let cells ← row.groups[b.1]?
  cells[b.2]?

/-! ## What the matrix shows -/

/-- All regions have been queried: 512 entries of each PVT, and the registers of
each port, of which there are at most eleven. -/
structure PvtLoaded (env : Env) : Prop where
  pvt : ∀ dev ∈ env.devs, dev.pvt.err = 0 ∧ dev.pvt.region.length = 512
  regs : ∀ dev ∈ env.devs, ∀ p ∈ dev.ports,
    p.regs.err = 0 ∧ 7 ≤ p.regs.region.length ∧ p.index.toNat ≤ 10

/-- The port `p` of the device `dev` is in place `a`. -/
def PortAt (env : Env) (a : Nat × Nat) (dev : Dev) (p : Port) : Prop :=
  env.devs[a.1]? = some dev ∧ dev.ports[a.2]? = some p

/-- The entry that decides where frames from the port `p` may go to on the
device `dst`: the port's own VLAN map if it is on that device, and otherwise the
entry for it in the PVT of that device. -/
def governing (same : Bool) (dev : Dev) (p : Port) (dst : Dev) : BitVec 16 :=
  if same then p.regs.region.getD 6 0
  else dst.pvt.region.getD (dev.index.val * 16 + p.index.toNat) 0

/-- The cell with the directions exchanged. -/
def mirrored (c : Char) : Char :=
  if c = '^' then '<' else if c = '<' then '^' else c

/-- A matrix shows both directions between every two ports, row `a` and column
`b` mirror row `b` and column `a`, and every row has the columns of the header. -/
structure PvtMatrixOk (env : Env) (m : PvtMatrix) : Prop where
  columns : m.columns = env.devs.map fun dev => dev.ports.map fun p => (dev.index, p.index)
  row : ∀ a dev p, PortAt env a dev p → ∃ rows row, m.rows[a.1]? = some rows ∧
    rows[a.2]? = some row ∧ row.dev = dev.index ∧ row.port = p.index
  cell : ∀ a dev p b dev' p', PortAt env a dev p → PortAt env b dev' p' →
    ∃ c, m.cell a b = some c ∧
      (c = 'x' ∨ c = '^' ↔ bit (governing (a.1 = b.1) dev p dev') p'.index.toNat = true) ∧
      (c = 'x' ∨ c = '<' ↔ bit (governing (a.1 = b.1) dev' p' dev) p.index.toNat = true) ∧
      m.cell b a = some (mirrored c)
  width : ∀ rows ∈ m.rows, ∀ row ∈ rows,
    row.groups.map List.length = m.columns.map List.length ∧ row.lagCells.length = m.lags.length

/-- A line of a table: the columns of each device and, if there are any, those of
the LAGs, each column behind a space, and another space between two groups. -/
def tableLine (groups : List (List CStr)) (lags : List CStr) : CStr :=
  List.intercalate [' '] ((groups ++ if lags = [] then [] else [lags]).map fun columns =>
    columns.flatMap fun column => ' ' :: column)

/-- How a matrix is to be seen: two lines with the devices and the ports of the
columns, and a line for each row, with another line between those of two
devices. -/
def PvtMatrix.printed (m : PvtMatrix) : CStr :=
  "\x1b[7mD  ".toList ++ tableLine (m.columns.map fun g => g.map fun c => hex c.1)
      (m.lags.map fun _ => ['L']) ++ "\n  P".toList ++
    tableLine (m.columns.map fun g => g.map fun c => hex c.2.toNat) (m.lags.map fun lag => hex lag) ++
    "\x1b[0m\n".toList ++
    List.intercalate "\x1b[7m   \x1b[0m\n".toList (m.rows.map fun rows => rows.flatMap fun row =>
      "\x1b[7m".toList ++ hex row.dev ++ [' '] ++ hex row.port.toNat ++ "\x1b[0m".toList ++
        tableLine (row.groups.map fun cells => cells.map fun c => [c])
          (row.lagCells.map fun c => [c]) ++ ['\n'])

/-! ### Lines -/

/-- Groups of columns and the columns of the LAGs make a line.  Where there are
LAGs there is a group in front of them. -/
theorem pvtGroups_eq {lags : List Nat} {groups : List (List CStr)} {lagColumns : List CStr}
    (hlen : lagColumns.length = lags.length) (hfront : groups = [] → lags = []) :
    pvtGroups lags (groups.map fun columns => columns.flatMap fun column => ' ' :: column) ++
        (lagColumns.flatMap fun column => ' ' :: column) = tableLine groups lagColumns := by
  have hnil : lagColumns = [] ↔ lags = [] := by
    rw [← List.length_eq_zero_iff, hlen, List.length_eq_zero_iff]
  induction groups with
  | nil =>
      obtain rfl := hnil.mpr (hfront rfl)
      rfl
  | cons columns groups ih =>
      cases groups with
      | nil =>
          by_cases hlags : lags = []
          · obtain rfl := hnil.mpr hlags
            simp [tableLine, pvtGroups, hlags, List.intercalate]
          · have hcolumns : lagColumns ≠ [] := fun h => hlags (hnil.mp h)
            simp [tableLine, pvtGroups, hlags, hcolumns, List.intercalate]
      | cons columns' groups =>
          have hrest := ih fun h => nomatch h
          rw [List.map_cons, List.map_cons, pvtGroups, List.append_assoc, ← List.map_cons, hrest]
          · simp [tableLine, List.intercalate]
          · simp

/-- So do groups that have a space between them, with one more where there are
LAGs. -/
theorem intercalate_eq {lags : List Nat} {groups : List (List CStr)} {lagColumns : List CStr}
    (hlen : lagColumns.length = lags.length) (hfront : groups = [] → lags = []) :
    List.intercalate [' '] (groups.map fun columns => columns.flatMap fun column => ' ' :: column) ++
        ((if lags = [] then [] else [' ']) ++ lagColumns.flatMap fun column => ' ' :: column) =
      tableLine groups lagColumns := by
  have hgroups : ∀ gs : List CStr, (gs = [] → lags = []) → pvtGroups lags gs =
      List.intercalate [' '] gs ++ if lags = [] then [] else [' '] := by
    intro gs
    induction gs with
    | nil =>
        intro h
        simp [pvtGroups, h rfl, List.intercalate]
    | cons g gs ih =>
        intro _
        cases gs with
        | nil => simp [pvtGroups, List.intercalate]
        | cons g' gs =>
            rw [pvtGroups, ih fun h => nomatch h]
            · simp [List.intercalate]
            · simp
  rw [← List.append_assoc, ← hgroups _ fun h => hfront (List.map_eq_nil_iff.mp h),
    pvtGroups_eq hlen hfront]

/-- The text of a row. -/
theorem PvtRow.text_eq {lags : List Nat} {row : PvtRow} (hlen : row.lagCells.length = lags.length)
    (hfront : row.groups = [] → lags = []) :
    row.text lags = "\x1b[7m".toList ++ hex row.dev ++ [' '] ++ hex row.port.toNat ++
      "\x1b[0m".toList ++ tableLine (row.groups.map fun cells => cells.map fun c => [c])
        (row.lagCells.map fun c => [c]) ++ ['\n'] := by
  have hcolumns : (row.lagCells.map fun c => ([c] : CStr)).length = lags.length :=
    (List.length_map _).trans hlen
  have hgroups : (row.groups.map fun cells => cells.map fun c => ([c] : CStr)) = [] → lags = [] :=
    fun h => hfront (List.map_eq_nil_iff.mp h)
  have hcells := pvtGroups_eq hcolumns hgroups
  simp only [List.map_map, Function.comp_def, List.flatMap_map] at hcells
  unfold PvtRow.text
  generalize "\x1b[7m".toList = on, "\x1b[0m".toList = off
  rw [← hcells]
  simp only [List.append_assoc]

/-- The text behind the first line of the header makes what is to be seen, behind the
devices of the columns. -/
theorem PvtMatrix.text_eq {m : PvtMatrix} (hfront : m.columns = [] → m.lags = [])
    (hrows : ∀ rows ∈ m.rows, ∀ row ∈ rows,
      row.groups.length = m.columns.length ∧ row.lagCells.length = m.lags.length) :
    "\x1b[7mD  ".toList ++ List.intercalate [' ']
        (m.columns.map fun g => g.flatMap fun c => ' ' :: hex c.1) ++ m.text = m.printed := by
  have hdevs : List.intercalate [' '] (m.columns.map fun g => g.flatMap fun c => ' ' :: hex c.1) ++
      ((if m.lags = [] then [] else [' ']) ++ m.lags.flatMap fun _ => " L".toList) =
        tableLine (m.columns.map fun g => g.map fun c => hex c.1) (m.lags.map fun _ => ['L']) := by
    have hspaced : " L".toList = [' ', 'L'] := rfl
    rw [← intercalate_eq (List.length_map _) fun h => hfront (List.map_eq_nil_iff.mp h), hspaced]
    simp only [List.map_map, Function.comp_def, List.flatMap_map]
  have hports : pvtGroups m.lags (m.columns.map fun g => g.flatMap fun c => [' '] ++ hex c.2.toNat) ++
      (m.lags.flatMap fun lag => [' '] ++ hex lag) =
        tableLine (m.columns.map fun g => g.map fun c => hex c.2.toNat)
          (m.lags.map fun lag => hex lag) := by
    rw [← pvtGroups_eq (List.length_map _) fun h => hfront (List.map_eq_nil_iff.mp h)]
    simp only [List.map_map, Function.comp_def, List.flatMap_map, List.singleton_append]
  have hlines : (m.rows.map fun rows => rows.flatMap (PvtRow.text m.lags)) =
      m.rows.map fun rows => rows.flatMap fun row =>
        "\x1b[7m".toList ++ hex row.dev ++ [' '] ++ hex row.port.toNat ++ "\x1b[0m".toList ++
          tableLine (row.groups.map fun cells => cells.map fun c => [c])
            (row.lagCells.map fun c => [c]) ++ ['\n'] := by
    refine List.map_congr_left fun rows hmem => List.flatMap_congr fun row hrow => ?_
    obtain ⟨hgroups, hcells⟩ := hrows rows hmem row hrow
    refine PvtRow.text_eq hcells fun h => hfront (List.length_eq_zero_iff.mp ?_)
    rw [← hgroups, h, List.length_nil]
  unfold PvtMatrix.printed PvtMatrix.text
  rw [← hdevs, ← hports, hlines]
  simp only [List.append_assoc]

/-! ### Cells -/

/-- A list of results that are all there. -/
theorem mapM_eq_map {α β : Type} {f : α → Option β} {g : α → β} {l : List α}
    (h : ∀ a ∈ l, f a = some (g a)) : l.mapM f = some (l.map g) := by
  induction l with
  | nil => rfl
  | cons a l ih =>
      rw [List.mapM_cons, h a List.mem_cons_self, ih fun b hb => h b (List.mem_cons_of_mem _ hb)]
      rfl

/-- A cell shows the direction to the column, that to the row, and its mirror
shows them exchanged. -/
theorem pvtPrintCell_shows (spvt dpvt : BitVec 16) (src dst : Nat) :
    (pvtPrintCell spvt dpvt src dst = 'x' ∨ pvtPrintCell spvt dpvt src dst = '^' ↔
        bit spvt dst = true) ∧
      (pvtPrintCell spvt dpvt src dst = 'x' ∨ pvtPrintCell spvt dpvt src dst = '<' ↔
        bit dpvt src = true) ∧
      pvtPrintCell dpvt spvt dst src = mirrored (pvtPrintCell spvt dpvt src dst) := by
  unfold pvtPrintCell
  cases bit spvt dst <;> cases bit dpvt src <;> decide

/-- The cell of two ports whose regions are loaded. -/
theorem pvtCell_loaded {env : Env} (h : PvtLoaded env) {dev dev' : Dev} {p p' : Port}
    (hdev : dev ∈ env.devs) (hp : p ∈ dev.ports) (hdev' : dev' ∈ env.devs) (hp' : p' ∈ dev'.ports)
    (same : Bool) :
    pvtCell same dev p dev' p' = some (pvtPrintCell (governing same dev p dev')
      (governing same dev' p' dev) p.index.toNat p'.index.toNat) := by
  obtain ⟨-, hregs, hindex⟩ := h.regs dev hdev p hp
  obtain ⟨-, hregs', hindex'⟩ := h.regs dev' hdev' p' hp'
  have hpvt := (h.pvt dev hdev).2
  have hpvt' := (h.pvt dev' hdev').2
  have hlt := dev.index.isLt
  have hlt' := dev'.index.isLt
  unfold pvtCell governing
  cases same with
  | true =>
      simp only [if_true]
      rw [reg16_of_lt (by omega), reg16_of_lt (by omega)]
      rfl
  | false =>
      simp only [Bool.false_eq_true, if_false, Nat.shiftLeft_eq]
      rw [reg16_of_lt (by omega), reg16_of_lt (by omega)]
      rfl

/-! ### Rows and header -/

/-- The cells of the LAGs, which stand behind device 31 in the table. -/
def lagCells (lags : BitVec 16) (dev : Dev) (p : Port) : List Char :=
  (lagsOf lags).map fun lag =>
    pvtPrintCell 0 (dev.pvt.region.getD (0x1f * 16 + lag) 0) p.index.toNat 0

/-- The row of the port `p` of the device in place `d`. -/
def rowOf (env : Env) (lags : BitVec 16) (d : Nat) (dev : Dev) (p : Port) : PvtRow where
  dev := dev.index
  port := p.index
  groups := env.devs.zipIdx.map fun e => e.1.ports.map fun p' =>
    pvtPrintCell (governing (decide (e.2 = d)) dev p e.1) (governing (decide (e.2 = d)) e.1 p' dev)
      p.index.toNat p'.index.toNat
  lagCells := lagCells lags dev p

theorem envShowPvtPort_loaded {env : Env} (h : PvtLoaded env) (lags : BitVec 16) (d : Nat)
    {dev : Dev} {p : Port} (hdev : dev ∈ env.devs) (hp : p ∈ dev.ports) :
    envShowPvtPort env lags d dev p = some (rowOf env lags d dev p) := by
  have hgroups : (env.devs.zipIdx.mapM fun (dev', j) =>
      dev'.ports.mapM (pvtCell (decide (j = d)) dev p dev')) = some (rowOf env lags d dev p).groups :=
    mapM_eq_map fun e he => mapM_eq_map fun p' hp' =>
      pvtCell_loaded h hdev hp (List.fst_mem_of_mem_zipIdx he) hp' _
  have hlags : ((lagsOf lags).mapM fun lag => do
      let dpvt ← reg16 dev.pvt.region ((0x1f <<< 4) + lag)
      some (pvtPrintCell 0 dpvt p.index.toNat 0)) = some (lagCells lags dev p) := by
    refine mapM_eq_map fun lag hlag => ?_
    have hlt : lag < 16 := List.mem_range.mp (List.mem_of_mem_filter hlag)
    have hin : 0x1f * 16 + lag < dev.pvt.region.length := by
      rw [(h.pvt dev hdev).2]
      omega
    rw [show (0x1f <<< 4) = 0x1f * 16 from rfl, reg16_of_lt hin]
    rfl
  unfold envShowPvtPort
  rw [hgroups, hlags]
  rfl

/-- The ports of a device whose queries succeed get a column each. -/
theorem pvtHeaderPorts_loaded (dev : Dev) {ports : List Port}
    (h : ∀ p ∈ ports, p.regs.err = 0 ∧ 7 ≤ p.regs.region.length)
    (columns : List (Fin 32 × BitVec 32)) (hdr : PvtHeader) :
    ∃ hdr', pvtHeaderPorts dev ports columns hdr = some hdr' ∧ hdr'.ok = hdr.ok ∧
      hdr'.columns = hdr.columns ++ [columns ++ ports.map fun p => (dev.index, p.index)] ∧
      hdr'.text = hdr.text ++ ports.flatMap fun _ => ' ' :: hex dev.index := by
  induction ports generalizing columns hdr with
  | nil => exact ⟨_, rfl, rfl, by simp, by simp⟩
  | cons p ports ih =>
      obtain ⟨herr, hregs⟩ := h p List.mem_cons_self
      obtain ⟨lag, hlag⟩ : ∃ lag, opalPortLag p.regs.region = some lag := by
        rw [opalPortLag, reg16_of_lt (by omega)]
        simp only [Option.bind_eq_bind, Option.bind_some]
        split <;> exact ⟨_, rfl⟩
      obtain ⟨hdr', hrun, hok, hcolumns, htext⟩ := ih (fun q hq => h q (List.mem_cons_of_mem _ hq))
        (columns ++ [(dev.index, p.index)]) { hdr with
          text := hdr.text ++ [' '] ++ hex dev.index
          lags := if 0 ≤ lag then hdr.lags ||| BitVec.twoPow 16 lag.toNat else hdr.lags }
      refine ⟨hdr', ?_, hok, ?_, ?_⟩
      · rw [pvtHeaderPorts, if_neg (not_not.mpr herr), hlag]
        exact hrun
      · rw [hcolumns]
        simp
      · rw [htext]
        simp

/-- So do the ports of all devices. -/
theorem pvtHeaderDevs_loaded {devs : List Dev} (hpvt : ∀ dev ∈ devs, dev.pvt.err = 0)
    (hregs : ∀ dev ∈ devs, ∀ p ∈ dev.ports, p.regs.err = 0 ∧ 7 ≤ p.regs.region.length)
    (hdr : PvtHeader) (hok : hdr.ok = true) :
    ∃ hdr', pvtHeaderDevs devs hdr = some hdr' ∧ hdr'.ok = true ∧
      hdr'.columns =
        hdr.columns ++ devs.map (fun dev => dev.ports.map fun p => (dev.index, p.index)) ∧
      hdr'.text = hdr.text ++ List.intercalate [' ']
        (devs.map fun dev => dev.ports.flatMap fun _ => ' ' :: hex dev.index) ∧
      (devs = [] → hdr' = hdr) := by
  induction devs generalizing hdr with
  | nil => exact ⟨hdr, rfl, hok, by simp, by simp [List.intercalate], fun _ => rfl⟩
  | cons dev devs ih =>
      obtain ⟨mid, hports, hmid, hcolumns, htext⟩ :=
        pvtHeaderPorts_loaded dev (hregs dev List.mem_cons_self) [] hdr
      obtain ⟨hdr', hrun, hok', hcolumns', htext', -⟩ :=
        ih (fun d hd => hpvt d (List.mem_cons_of_mem _ hd))
          (fun d hd => hregs d (List.mem_cons_of_mem _ hd))
          { mid with text := mid.text ++ if devs = [] then [] else [' '] } (hmid.trans hok)
      refine ⟨hdr', ?_, hok', ?_, ?_, fun h => nomatch h⟩
      · rw [pvtHeaderDevs, if_neg (not_not.mpr (hpvt dev List.mem_cons_self)), hports]
        simp only [Option.bind_eq_bind, Option.bind_some, hmid.trans hok, Bool.not_true,
          Bool.false_eq_true, if_false] at hrun ⊢
        exact hrun
      · rw [hcolumns', hcolumns]
        simp
      · rw [htext', htext]
        cases devs <;> simp [List.intercalate]

/-! ### The matrix -/

/-- The rows of all devices. -/
def rowsOf (env : Env) (lags : BitVec 16) : List (List PvtRow) :=
  env.devs.zipIdx.map fun e => e.1.ports.map (rowOf env lags e.2 e.1)

/-- The row in the place of a port. -/
theorem rowsOf_getElem? {env : Env} {a : Nat × Nat} {dev : Dev} {p : Port}
    (h : PortAt env a dev p) (lags : BitVec 16) :
    ∃ rows, (rowsOf env lags)[a.1]? = some rows ∧ rows[a.2]? = some (rowOf env lags a.1 dev p) := by
  refine ⟨dev.ports.map (rowOf env lags a.1 dev), ?_, ?_⟩
  · rw [rowsOf, List.getElem?_map, List.getElem?_zipIdx, h.1]
    simp
  · rw [List.getElem?_map, h.2]
    rfl

/-- The cell in the places of two ports. -/
theorem rowsOf_cell {env : Env} {a b : Nat × Nat} {dev dev' : Dev} {p p' : Port}
    (ha : PortAt env a dev p) (hb : PortAt env b dev' p') (columns : List (List (Fin 32 × BitVec 32)))
    (lags : BitVec 16) :
    PvtMatrix.cell ⟨columns, lagsOf lags, rowsOf env lags⟩ a b =
      some (pvtPrintCell (governing (b.1 = a.1) dev p dev') (governing (b.1 = a.1) dev' p' dev)
        p.index.toNat p'.index.toNat) := by
  obtain ⟨rows, hrows, hrow⟩ := rowsOf_getElem? ha lags
  simp only [PvtMatrix.cell, hrows, hrow, Option.bind_eq_bind, Option.bind_some, rowOf,
    List.getElem?_map, List.getElem?_zipIdx, hb.1, hb.2, Option.map_some, Nat.zero_add]

/-- The rows have the columns of the header. -/
theorem rowsOf_width {env : Env} {lags : BitVec 16} {rows : List PvtRow} {row : PvtRow}
    (hrows : rows ∈ rowsOf env lags) (hrow : row ∈ rows) :
    row.groups.map List.length = env.devs.map (fun dev => dev.ports.length) ∧
      row.lagCells.length = (lagsOf lags).length := by
  obtain ⟨e, -, rfl⟩ := List.mem_map.mp hrows
  obtain ⟨p, -, rfl⟩ := List.mem_map.mp hrow
  refine ⟨?_, List.length_map _⟩
  have hfst : env.devs.zipIdx.map Prod.fst = env.devs := List.zipIdx_map_fst 0 env.devs
  rw [← hfst, rowOf, List.map_map, List.map_map]
  refine List.map_congr_left fun e _ => ?_
  simp only [Function.comp_apply, List.length_map]

/-- A cell shows what the two governing entries allow, and the cell in the mirrored
place mirrors it. -/
theorem rowsOf_shows {env : Env} {a b : Nat × Nat} {dev dev' : Dev} {p p' : Port}
    (ha : PortAt env a dev p) (hb : PortAt env b dev' p')
    (columns : List (List (Fin 32 × BitVec 32))) (lags : BitVec 16) :
    ∃ c, PvtMatrix.cell ⟨columns, lagsOf lags, rowsOf env lags⟩ a b = some c ∧
      (c = 'x' ∨ c = '^' ↔ bit (governing (a.1 = b.1) dev p dev') p'.index.toNat = true) ∧
      (c = 'x' ∨ c = '<' ↔ bit (governing (a.1 = b.1) dev' p' dev) p.index.toNat = true) ∧
      PvtMatrix.cell ⟨columns, lagsOf lags, rowsOf env lags⟩ b a = some (mirrored c) := by
  have hab := rowsOf_cell ha hb columns lags
  have hba := rowsOf_cell hb ha columns lags
  obtain ⟨hto, hfrom, hmirror⟩ := pvtPrintCell_shows (governing (b.1 = a.1) dev p dev')
    (governing (b.1 = a.1) dev' p' dev) p.index.toNat p'.index.toNat
  have hsame : decide (b.1 = a.1) = decide (a.1 = b.1) := by simp only [eq_comm]
  rw [hsame] at hab hto hfrom hmirror
  exact ⟨_, hab, hto, hfrom, by rw [hba, hmirror]⟩

/-- The matrix that is printed shows for every two ports, on the same device or on
different ones, which directions the governing entries allow. -/
theorem envShowPvt_matrix (env : Env) (h : PvtLoaded env) :
    ∃ m, envShowPvt env = some ⟨m.printed, some m⟩ ∧ PvtMatrixOk env m := by
  obtain ⟨hdr, hhdr, hok, hcolumns, htext, hnone⟩ := pvtHeaderDevs_loaded
    (fun dev hdev => (h.pvt dev hdev).1)
    (fun dev hdev p hp => ⟨(h.regs dev hdev p hp).1, (h.regs dev hdev p hp).2.1⟩)
    ⟨true, "\x1b[7mD  ".toList, [], 0⟩ rfl
  rw [List.nil_append] at hcolumns
  have hrows : (env.devs.zipIdx.mapM fun (dev, d) =>
      dev.ports.mapM (envShowPvtPort env hdr.lags d dev)) = some (rowsOf env hdr.lags) :=
    mapM_eq_map fun e he => mapM_eq_map fun p hp =>
      envShowPvtPort_loaded h hdr.lags e.2 (List.fst_mem_of_mem_zipIdx he) hp
  let m : PvtMatrix := ⟨hdr.columns, lagsOf hdr.lags, rowsOf env hdr.lags⟩
  have hwidth : ∀ rows ∈ m.rows, ∀ row ∈ rows,
      row.groups.map List.length = m.columns.map List.length ∧
        row.lagCells.length = m.lags.length := by
    intro rows hrows row hrow
    obtain ⟨hgroups, hcells⟩ := rowsOf_width hrows hrow
    refine ⟨?_, hcells⟩
    rw [hgroups, show m.columns = _ from hcolumns, List.map_map]
    simp only [Function.comp_def, List.length_map]
  have hprinted : hdr.text ++ m.text = m.printed := by
    have hdevs : (env.devs.map fun dev => dev.ports.flatMap fun _ => ' ' :: hex dev.index) =
        m.columns.map fun g => g.flatMap fun c => ' ' :: hex c.1 := by
      rw [show m.columns = _ from hcolumns]
      simp only [List.map_map, Function.comp_def, List.flatMap_map]
    rw [htext, hdevs]
    refine PvtMatrix.text_eq (fun hnil => ?_) fun rows hrows row hrow => ?_
    · -- without devices no port has a LAG
      have hdevs : env.devs = [] := List.map_eq_nil_iff.mp (hcolumns.symm.trans hnil)
      rw [show m.lags = lagsOf hdr.lags from rfl, hnone hdevs]
      decide
    · obtain ⟨hgroups, hcells⟩ := hwidth rows hrows row hrow
      exact ⟨by simpa using congrArg List.length hgroups, hcells⟩
  refine ⟨m, ?_, ?_⟩
  · unfold envShowPvt
    rw [hhdr]
    simp only [Option.bind_eq_bind, Option.bind_some, hok, Bool.not_true, Bool.false_eq_true,
      if_false, hrows]
    rw [← hprinted]
  constructor
  case columns => exact hcolumns
  case row =>
    intro a dev p ha
    obtain ⟨rows, hrows, hrow⟩ := rowsOf_getElem? ha hdr.lags
    exact ⟨rows, _, hrows, hrow, rfl, rfl⟩
  case cell => exact fun a dev p b dev' p' ha hb => rowsOf_shows ha hb hdr.columns hdr.lags
  case width => exact hwidth

/-- A device with port 0, whose PVT has the same entry everywhere. -/
def pvtDev (index : Fin 32) (entry : BitVec 16) : Dev where
  chip := ⟨"Marvell 88E6352".toList, opalFamily, 7⟩
  index := index
  ports := [⟨0, [], ⟨0, [0, 0, 0, 0, 0, 0, 2]⟩⟩]
  atu := ⟨0, []⟩
  vtu := ⟨0, []⟩
  stu := ⟨0, []⟩
  pvt := ⟨0, List.replicate 512 entry⟩

/-- Two devices, of which only the second lets frames of the other in. -/
theorem envShowPvt_matrix_two :
    ∃ m : PvtMatrix, envShowPvt ⟨[pvtDev 0 0, pvtDev 1 1]⟩ = some ⟨m.printed, some m⟩ ∧
      PvtMatrixOk ⟨[pvtDev 0 0, pvtDev 1 1]⟩ m := by
  refine envShowPvt_matrix _ ⟨fun dev hdev => ?_, fun dev hdev p hp => ?_⟩
  · obtain rfl | rfl : dev = pvtDev 0 0 ∨ dev = pvtDev 1 1 := by simpa using hdev
    · exact ⟨rfl, List.length_replicate⟩
    · exact ⟨rfl, List.length_replicate⟩
  · obtain rfl | rfl : dev = pvtDev 0 0 ∨ dev = pvtDev 1 1 := by simpa using hdev
    · obtain rfl := List.mem_singleton.mp hp
      exact ⟨rfl, le_refl 7, by decide⟩
    · obtain rfl := List.mem_singleton.mp hp
      exact ⟨rfl, le_refl 7, by decide⟩

end MdioTools.Mvls
