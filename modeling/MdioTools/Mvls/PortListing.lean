import Mathlib.Tactic.IntervalCases
import MdioTools.Mvls.Dump

/-!
# The two port overviews

The text printer and the JSON printer both decode the port registers.  A reader
takes the same facts from a line of the one and an object of the other, except
that they disagree on which frames are allowed.

Main results:

- Theorem {lit}`showFacts_eq`: the overviews list the same ports with the same
  facts, up to the sense of the two bits that discard frames.
- Theorem {lit}`PortFacts.Shown.unique`: what a line of text shows.
- Theorem {lit}`portListings_agree_iff`: they agree if and only if there is no
  port.
-/

namespace MdioTools.Mvls

open Library

/-! ## What a reader learns -/

/-- The facts about a port, in the words of the JSON printer. -/
structure PortFacts where
  dev : Fin 32
  port : BitVec 32
  netdev : CStr
  state : String
  frameMode : String
  egressMode : String
  qMode : String
  pvid : Nat
  fid : Nat
  lag : Option Nat
  floodUnicast : Bool
  floodMulticast : Bool
  allowUntagged : Bool
  allowTagged : Bool
deriving DecidableEq

/-- The words for the letters of the text printer. -/
def stateOfC : Char → String
  | '-' => "disabled"
  | 'B' => "blocking"
  | 'L' => "learning"
  | 'f' => "forwarding"
  | _ => ""

def fmodeOfC : Char → String
  | 'n' => "normal"
  | 'D' => "dsa"
  | 'P' => "provider"
  | 'E' => "edsa"
  | _ => ""

def emodeOfC : Char → String
  | '=' => "unmodified"
  | 'u' => "untagged"
  | 't' => "tagged"
  | 'D' => "edsa"
  | _ => ""

def qmodeOfC : Char → String
  | '-' => "disabled"
  | 'F' => "fallback"
  | 'C' => "check"
  | 's' => "secure"
  | _ => ""

/-- The LAG of a line, `-` for none. -/
def lagOfStr (s : CStr) : Option Nat :=
  if s = ['-'] then none else some (Nat.ofDigitChars 10 s 0)

/-- The facts in a line below the header of a device. -/
def ShowPort.facts (dev : Fin 32) (p : ShowPort) : PortFacts where
  dev := dev
  port := p.index
  netdev := p.netdev
  state := stateOfC p.state
  frameMode := fmodeOfC p.fmode
  egressMode := emodeOfC p.emode
  qMode := qmodeOfC p.qmode
  pvid := p.pvid
  fid := p.fid
  lag := lagOfStr p.lag
  floodUnicast := p.floodUc = 'u'
  floodMulticast := p.floodMc = 'm'
  allowUntagged := p.untagged = 'u'
  allowTagged := p.tagged = 't'

/-- What stands in the columns of a line behind the name. -/
structure PortCells where
  index : CStr
  link : CStr
  fmode : Char
  emode : Char
  floodUc : Char
  floodMc : Char
  state : Char
  lag : CStr
  qmode : Char
  untagged : Char
  tagged : Char
  pvid : CStr
  fid : CStr
  map : CStr

/-- The part of a line whose columns have fixed places, seen from the right. -/
def PortCells.tail (c : PortCells) : CStr :=
  [c.fmode, c.emode, ' ', ' ', c.floodUc, c.floodMc, ' ', ' ', c.state, ' '] ++ c.lag ++
    [' ', ' ', c.qmode, c.untagged, c.tagged, ' ', ' '] ++ c.pvid ++ [' ', ' '] ++ c.fid

/-- The columns show the facts about a port. -/
structure PortFacts.InCells (f : PortFacts) (c : PortCells) : Prop where
  port : HexField 1 f.port.toNat c.index
  link : c.link.length = 4
  letters : fmodeOfC c.fmode = f.frameMode ∧ emodeOfC c.emode = f.egressMode ∧
    stateOfC c.state = f.state ∧ qmodeOfC c.qmode = f.qMode
  flags : decide (c.floodUc = 'u') = f.floodUnicast ∧ decide (c.floodMc = 'm') = f.floodMulticast ∧
    decide (c.untagged = 'u') = f.allowUntagged ∧ decide (c.tagged = 't') = f.allowTagged
  lag : c.lag.length = 2 ∧ match f.lag with
    | none => c.lag = [' ', '-']
    | some lag => Column 2 lag c.lag
  pvid : c.pvid.length = 4 ∧ Column 4 f.pvid c.pvid
  fid : c.fid.length = 4 ∧ Column 4 f.fid c.fid
  map : c.map = [] ∨ c.map = "!map".toList

/-- A line of text shows the facts about a port. -/
def PortFacts.Shown (f : PortFacts) (line : CStr) : Prop :=
  ∃ c, f.InCells c ∧ line = padRight 8 ' ' f.netdev ++ [' ', ' '] ++ c.index ++ [' ', ' '] ++
    c.link ++ [' ', ' '] ++ c.tail ++ c.map ++ ['\n']

/-- The facts in a listing, with the device of the last header. -/
def showFacts : Option (Fin 32) → List ShowLine → List PortFacts
  | _, [] => []
  | _, .dev index _ :: rest => showFacts (some index) rest
  | some dev, .port p :: rest => p.facts dev :: showFacts (some dev) rest
  | none, .port _ :: rest => showFacts none rest

/-- The facts in an object. -/
def JsonPort.facts (p : JsonPort) : PortFacts where
  dev := p.dev
  port := p.port
  netdev := p.netdev
  state := p.state
  frameMode := p.frameMode
  egressMode := p.egressMode
  qMode := p.qMode
  pvid := p.pvid
  fid := p.fid
  lag := p.lag
  floodUnicast := p.floodUnicast
  floodMulticast := p.floodMulticast
  allowUntagged := p.allowUntagged
  allowTagged := p.allowTagged

/-- The same facts with the opposite frames allowed. -/
def PortFacts.flipped (f : PortFacts) : PortFacts :=
  { f with allowUntagged := !f.allowUntagged, allowTagged := !f.allowTagged }

theorem PortFacts.flipped_ne (f : PortFacts) : f.flipped ≠ f := by
  intro h
  have hallow := congrArg PortFacts.allowUntagged h
  simp [PortFacts.flipped] at hallow

/-- The overviews list the same ports in the same order with the same facts. -/
def ListingsAgree (env : Env) : Prop :=
  ∃ lines objs, showPortLines env = some lines ∧ jsonPortObjs env = some objs ∧
    showFacts none lines = objs.map JsonPort.facts

/-- The registers that the overviews look at are in the loaded region. -/
def PortsLoaded (env : Env) : Prop :=
  ∀ dev ∈ env.devs, ∀ p ∈ dev.ports, 9 ≤ p.regs.region.length

/-! ## A port -/

/-- The letters of the text printer stand for the words of the JSON printer. -/
theorem ofC_table (n : Nat) (h : n < 4) :
    stateOfC (portStateC.getD n ' ') = portState.getD n "" ∧
      fmodeOfC (portFmodeC.getD n ' ') = portFmode.getD n "" ∧
      emodeOfC (portEmodeC.getD n ' ') = portEmode.getD n "" ∧
      qmodeOfC (portQmodeC.getD n ' ') = port8021q.getD n "" := by
  interval_cases n <;> decide

/-- A LAG number has four bits. -/
theorem opalPortLag_range {regs : Region} {lag : Int} (h : opalPortLag regs = some lag) :
    lag = -1 ∨ 0 ≤ lag ∧ lag < 16 := by
  simp only [opalPortLag, Option.bind_eq_bind, Option.bind_eq_some_iff] at h
  obtain ⟨ctrl1, -, h⟩ := h
  split at h
  · cases h
    exact Or.inl rfl
  · cases h
    have hlt := bits_lt ctrl1 8 4
    exact Or.inr ⟨Int.natCast_nonneg _, by omega⟩

/-- The LAG in a line is the LAG of the port. -/
theorem lagOfStr_eq {regs : Region} {lag : Int} (h : opalPortLag regs = some lag) :
    ∃ s, portLagStr regs = some s ∧ lagOfStr s = if 0 ≤ lag then some lag.toNat else none := by
  simp only [portLagStr, h, Option.bind_eq_bind, Option.bind_some]
  rcases opalPortLag_range h with rfl | ⟨hnonneg, hlt⟩
  · exact ⟨['-'], rfl, rfl⟩
  · rw [if_neg (Int.not_lt.mpr hnonneg), if_pos hnonneg, Nat.mod_eq_of_lt (by omega)]
    refine ⟨_, rfl, ?_⟩
    have hdigits : dec lag.toNat ≠ ['-'] := by
      intro heq
      have hdash : '-' ∈ Nat.toDigits 10 lag.toNat := by
        rw [show Nat.toDigits 10 lag.toNat = ['-'] from heq]
        exact List.mem_singleton_self _
      exact absurd (Nat.isDigit_of_mem_toDigits (by decide) (by decide) hdash) (by decide)
    rw [lagOfStr, if_neg hdigits, dec, Nat.ofDigitChars_ten_toDigits]

/-- A port of a loaded region has a line and an object, with the opposite frames
allowed. -/
theorem showPort_jsonPort (dev : Dev) {p : Port} (h : 9 ≤ p.regs.region.length) :
    ∃ row obj, showPort p = some row ∧ jsonPort dev p = some obj ∧
      row.facts dev.index = obj.facts.flipped := by
  have hread : ∀ i < 9, ∃ r, reg16 p.regs.region i = some r := fun i hi =>
    ⟨_, List.getElem?_eq_getElem (by omega)⟩
  obtain ⟨stat, hstat⟩ := hread 0 (by decide)
  obtain ⟨ctrl, hctrl⟩ := hread 4 (by decide)
  obtain ⟨ctrl1, hctrl1⟩ := hread 5 (by decide)
  obtain ⟨r6, hr6⟩ := hread 6 (by decide)
  obtain ⟨r7, hr7⟩ := hread 7 (by decide)
  obtain ⟨ctrl2, hctrl2⟩ := hread 8 (by decide)
  have hlink : ∃ link, portLinkStr p.regs.region = some link := by
    simp only [portLinkStr, hstat, Option.bind_eq_bind, Option.bind_some]
    split <;> exact ⟨_, rfl⟩
  have hlag : ∃ lag, opalPortLag p.regs.region = some lag := by
    simp only [opalPortLag, hctrl1, Option.bind_eq_bind, Option.bind_some]
    split <;> exact ⟨_, rfl⟩
  have hfid : ∃ fid, opalPortFid p.regs.region = some fid := by
    simp only [opalPortFid, hr6, hctrl1, Option.bind_eq_bind, Option.bind_some]
    exact ⟨_, rfl⟩
  obtain ⟨link, hlink⟩ := hlink
  obtain ⟨lag, hlag⟩ := hlag
  obtain ⟨fid, hfid⟩ := hfid
  obtain ⟨str, hstr, hvalue⟩ := lagOfStr_eq hlag
  refine ⟨_, _, by
    simp only [showPort, hctrl, hctrl2, hr7, hlink, hstr, hfid, Option.bind_eq_bind,
      Option.bind_some]; rfl, by
    simp only [jsonPort, hctrl, hctrl2, hr7, hlag, hfid, Option.bind_eq_bind,
      Option.bind_some]; rfl, ?_⟩
  have hstate := (ofC_table _ (bits_lt ctrl 0 2)).1
  have hfmode := (ofC_table _ (bits_lt ctrl 8 2)).2.1
  have hemode := (ofC_table _ (bits_lt ctrl 12 2)).2.2.1
  have hqmode := (ofC_table _ (bits_lt ctrl2 10 2)).2.2.2
  have hsense : ∀ (b : Bool) (c : Char), c ≠ '-' →
      decide ((if b = true then '-' else c) = c) = !b := by
    intro b c hc
    cases b <;> simp [hc.symm]
  have hflag : ∀ (b : Bool) (c : Char), c ≠ '-' →
      decide ((if b = true then c else '-') = c) = b := by
    intro b c hc
    cases b <;> simp [hc.symm]
  simp only [ShowPort.facts, JsonPort.facts, PortFacts.flipped, hstate, hfmode, hemode, hqmode,
    hvalue, hsense _ _ (show 'u' ≠ '-' by decide), hsense _ _ (show 't' ≠ '-' by decide),
    hflag _ _ (show 'u' ≠ '-' by decide), hflag _ _ (show 'm' ≠ '-' by decide)]

/-! ## The text of a line -/

/-- The LAG of a port fills its column. -/
theorem portLagStr_column {regs : Region} {s : CStr} (h : portLagStr regs = some s) :
    (padLeft 2 ' ' s).length = 2 ∧ match lagOfStr s with
      | none => padLeft 2 ' ' s = [' ', '-']
      | some lag => Column 2 lag (padLeft 2 ' ' s) := by
  simp only [portLagStr, Option.bind_eq_bind, Option.bind_eq_some_iff] at h
  obtain ⟨lag, hlag, h⟩ := h
  obtain ⟨s', hs', hvalue⟩ := lagOfStr_eq hlag
  rcases opalPortLag_range hlag with rfl | ⟨hnonneg, hlt⟩
  · cases h
    exact ⟨rfl, rfl⟩
  · obtain rfl : s = s' := by
      simpa only [portLagStr, hlag, Option.bind_eq_bind, Option.bind_some, h, Option.some.injEq]
        using hs'
    rw [if_neg (Int.not_lt.mpr hnonneg), Nat.mod_eq_of_lt (by omega), Option.some.injEq] at h
    subst h
    rw [hvalue, if_pos hnonneg]
    exact ⟨padLeft_dec_length (by decide) (by omega), column_padLeft_dec 2 lag.toNat⟩

/-- The speed of a link fits its column. -/
theorem portLinkStr_length {regs : Region} {s : CStr} (h : portLinkStr regs = some s) :
    (padLeft 4 ' ' s).length = 4 := by
  have hlen : s.length ≤ 4 := by
    simp only [portLinkStr, Option.bind_eq_bind, Option.bind_eq_some_iff] at h
    obtain ⟨stat, -, h⟩ := h
    split at h
    · cases h; decide
    · cases h
      split <;> split <;> decide
  rw [padLeft, List.length_append, List.length_replicate, Nat.sub_add_cancel hlen]

/-- What the fields of a line are made of. -/
theorem showPort_fields {p : Port} {row : ShowPort} (h : showPort p = some row) :
    portLinkStr p.regs.region = some row.link ∧ portLagStr p.regs.region = some row.lag ∧
      row.pvid < 10 ^ 4 ∧ row.fid < 10 ^ 4 ∧ (row.map = [] ∨ row.map = "!map".toList) := by
  simp only [showPort, Option.bind_eq_bind, Option.bind_eq_some_iff, Option.some.injEq] at h
  obtain ⟨ctrl, -, ctrl2, -, r7, -, link, hlink, lag, hlag, fid, hfid, rfl⟩ := h
  simp only [opalPortFid, Option.bind_eq_bind, Option.bind_eq_some_iff, Option.some.injEq] at hfid
  obtain ⟨r6, -, r5, -, rfl⟩ := hfid
  have hlow : bits r6 12 4 < 2 ^ 12 := (bits_lt r6 12 4).trans (by decide)
  have hhigh : bits r5 0 8 <<< 4 < 2 ^ 12 := by
    have hbits := bits_lt r5 0 8
    rw [Nat.shiftLeft_eq]
    omega
  refine ⟨hlink, hlag, (bits_lt r7 0 12).trans (by decide),
    (Nat.or_lt_two_pow hlow hhigh).trans (by decide), ?_⟩
  by_cases hmap : bit ctrl2 7 = true
  · exact .inl (if_pos hmap)
  · exact .inr (if_neg hmap)

/-- The columns of a line. -/
def ShowPort.cells (p : ShowPort) : PortCells where
  index := hex p.index.toNat
  link := padLeft 4 ' ' p.link
  fmode := p.fmode
  emode := p.emode
  floodUc := p.floodUc
  floodMc := p.floodMc
  state := p.state
  lag := padLeft 2 ' ' p.lag
  qmode := p.qmode
  untagged := p.untagged
  tagged := p.tagged
  pvid := padLeft 4 ' ' (dec p.pvid)
  fid := padLeft 4 ' ' (dec p.fid)
  map := p.map

/-- The text of the line of a port shows the facts in it. -/
theorem showPort_shown {p : Port} {row : ShowPort} (h : showPort p = some row) (dev : Fin 32) :
    (row.facts dev).Shown row.text := by
  obtain ⟨hlink, hlag, hpvid, hfid, hmap⟩ := showPort_fields h
  refine ⟨row.cells, ?_, ?_⟩
  · exact {
      port := hexField_hex row.index.toNat
      link := portLinkStr_length hlink
      letters := ⟨rfl, rfl, rfl, rfl⟩
      flags := ⟨rfl, rfl, rfl, rfl⟩
      lag := portLagStr_column hlag
      pvid := ⟨padLeft_dec_length (by decide) hpvid, column_padLeft_dec 4 row.pvid⟩
      fid := ⟨padLeft_dec_length (by decide) hfid, column_padLeft_dec 4 row.fid⟩
      map := hmap }
  · simp only [ShowPort.text, ShowPort.facts, ShowPort.cells, PortCells.tail, String.reduceToList,
      List.append_assoc, List.cons_append, List.nil_append]

/-- Columns in fixed places can be told apart. -/
theorem PortCells.tail_inj {c d : PortCells} (h : c.tail = d.tail)
    (hlag : c.lag.length = d.lag.length) (hpvid : c.pvid.length = d.pvid.length) :
    (c.fmode = d.fmode ∧ c.emode = d.emode ∧ c.floodUc = d.floodUc ∧ c.floodMc = d.floodMc ∧
      c.state = d.state ∧ c.qmode = d.qmode ∧ c.untagged = d.untagged ∧ c.tagged = d.tagged) ∧
      c.lag = d.lag ∧ c.pvid = d.pvid ∧ c.fid = d.fid := by
  simp only [tail, List.cons_append, List.nil_append, List.append_assoc, List.cons.injEq,
    true_and] at h
  obtain ⟨hfmode, hemode, hfloodUc, hfloodMc, hstate, h⟩ := h
  obtain ⟨hlag', h⟩ := List.append_inj h hlag
  simp only [List.cons.injEq, true_and] at h
  obtain ⟨hqmode, huntagged, htagged, h⟩ := h
  obtain ⟨hpvid', h⟩ := List.append_inj h hpvid
  exact ⟨⟨hfmode, hemode, hfloodUc, hfloodMc, hstate, hqmode, huntagged, htagged⟩, hlag', hpvid',
    by simpa using h⟩

/-- The columns have one length. -/
theorem PortFacts.InCells.tail_length {f : PortFacts} {c : PortCells} (h : f.InCells c) :
    c.tail.length = 29 := by
  simp [PortCells.tail, h.lag.1, h.pvid.1, h.fid.1]

/-- What is behind them can be told from them. -/
theorem PortFacts.InCells.tail_map {f g : PortFacts} {c d : PortCells} (hf : f.InCells c)
    (hg : g.InCells d) {front front' : CStr}
    (h : front ++ c.tail ++ c.map = front' ++ d.tail ++ d.map) : c.map = d.map := by
  have hlast : ∀ {f : PortFacts} {c : PortCells} (front : CStr), f.InCells c →
      ∃ x, (front ++ c.tail ++ []).getLast? = some x ∧ x.isDigit := by
    intro f c front h
    obtain ⟨x, hx, hdigit⟩ := h.fid.2.getLast
    refine ⟨x, ?_, hdigit⟩
    rw [List.append_nil, PortCells.tail, ← List.append_assoc, List.getLast?_append, hx]
    rfl
  have hmap : ∀ back : CStr, (back ++ "!map".toList).getLast? = some 'p' := by simp
  rcases hf.map with hc | hc <;> rcases hg.map with hd | hd
  · rw [hc, hd]
  · obtain ⟨x, hx, hdigit⟩ := hlast front hf
    rw [hc, hd] at h
    rw [h, hmap] at hx
    cases hx
    exact absurd hdigit (by decide)
  · obtain ⟨x, hx, hdigit⟩ := hlast front' hg
    rw [hc, hd] at h
    rw [← h, hmap] at hx
    cases hx
    exact absurd hdigit (by decide)
  · rw [hc, hd]

/-- The LAG can be told from its column. -/
theorem PortFacts.InCells.lag_eq {f g : PortFacts} {c d : PortCells} (hf : f.InCells c)
    (hg : g.InCells d) (h : c.lag = d.lag) : f.lag = g.lag := by
  have hnone : ∀ {lag : Nat}, ¬Column 2 lag [' ', '-'] := by
    intro lag hcolumn
    obtain ⟨x, hx, hdigit⟩ := hcolumn.getLast
    cases hx
    exact absurd hdigit (by decide)
  have hc := hf.lag.2
  have hd := hg.lag.2
  rw [h] at hc
  cases hflag : f.lag <;> cases hglag : g.lag <;> simp only [hflag, hglag] at hc hd
  · rfl
  · rw [hc] at hd
    exact absurd hd hnone
  · rw [hd] at hc
    exact absurd hc hnone
  · rw [← hc.value, ← hd.value]

/-- A line shows one set of facts, but for the name of the port and its number, which
stand in front of the columns with fixed places. -/
theorem PortFacts.Shown.unique {f g : PortFacts} {line : CStr} (hf : f.Shown line)
    (hg : g.Shown line) (hdev : f.dev = g.dev) :
    g = { f with netdev := g.netdev, port := g.port } := by
  obtain ⟨c, hc, rfl⟩ := hf
  obtain ⟨d, hd, hline⟩ := hg
  have hline := (List.append_inj' hline rfl).1
  have hmap := hc.tail_map hd hline
  have hfront := (List.append_inj' hline (congrArg List.length hmap)).1
  have htail := (List.append_inj' hfront (hc.tail_length.trans hd.tail_length.symm)).2
  obtain ⟨⟨hfmode, hemode, hfloodUc, hfloodMc, hstate, hqmode, huntagged, htagged⟩, hlag, hpvid,
    hfid⟩ := PortCells.tail_inj htail (hc.lag.1.trans hd.lag.1.symm) (hc.pvid.1.trans hd.pvid.1.symm)
  obtain ⟨hframe, hegress, hst, hq⟩ := hc.letters
  obtain ⟨hframe', hegress', hst', hq'⟩ := hd.letters
  obtain ⟨hunicast, hmulticast, hallow, hallow'⟩ := hc.flags
  obtain ⟨hunicast', hmulticast', hallowed, hallowed'⟩ := hd.flags
  have hlagEq := hc.lag_eq hd hlag
  have hpvidEq : f.pvid = g.pvid := by rw [← hc.pvid.2.value, hpvid, hd.pvid.2.value]
  have hfidEq : f.fid = g.fid := by rw [← hc.fid.2.value, hfid, hd.fid.2.value]
  cases f
  cases g
  simp_all

/-! ## The listings -/

/-- The lines of the ports of a device, and their objects. -/
theorem ports_mapM (dev : Dev) {ports : List Port}
    (h : ∀ p ∈ ports, 9 ≤ p.regs.region.length) :
    ∃ rows objs, ports.mapM showPort = some rows ∧ ports.mapM (jsonPort dev) = some objs ∧
      rows.map (ShowPort.facts dev.index) = objs.map (·.facts.flipped) ∧
      objs.length = ports.length := by
  induction ports with
  | nil => exact ⟨[], [], rfl, rfl, rfl, rfl⟩
  | cons p ports ih =>
      obtain ⟨row, obj, hrow, hobj, hfacts⟩ := showPort_jsonPort dev (h p List.mem_cons_self)
      obtain ⟨rows, objs, hrows, hobjs, hrest, hlength⟩ :=
        ih fun q hq => h q (List.mem_cons_of_mem _ hq)
      refine ⟨row :: rows, obj :: objs, ?_, ?_, ?_, ?_⟩
      · simp [List.mapM_cons, hrow, hrows]
      · simp [List.mapM_cons, hobj, hobjs]
      · simp [hfacts, hrest]
      · simp [hlength]

/-- The lines of ports below a header. -/
theorem showFacts_ports (dev : Fin 32) (rows : List ShowPort) (rest : List ShowLine) :
    showFacts (some dev) (rows.map .port ++ rest) =
      rows.map (ShowPort.facts dev) ++ showFacts (some dev) rest := by
  induction rows with
  | nil => rfl
  | cons row rows ih => simp [showFacts, ih]

/-- The overviews list the same ports with the same facts, up to the sense of
the two bits that discard frames. -/
theorem showFacts_eq {env : Env} (h : PortsLoaded env) :
    ∃ lines objs, showPortLines env = some lines ∧ jsonPortObjs env = some objs ∧
      showFacts none lines = objs.map (·.facts.flipped) ∧
      objs.length = (env.devs.map (·.ports.length)).sum := by
  obtain ⟨devs⟩ := env
  have hgroups : ∀ last, ∃ groups objs,
      devs.mapM showDevLines = some groups ∧
      (devs.mapM fun dev => dev.ports.mapM (jsonPort dev)) = some objs ∧
      showFacts last groups.flatten = objs.flatten.map (·.facts.flipped) ∧
      objs.flatten.length = (devs.map (·.ports.length)).sum := by
    induction devs with
    | nil => exact fun last => ⟨[], [], rfl, rfl, by cases last <;> rfl, rfl⟩
    | cons dev devs ih =>
        intro last
        obtain ⟨rows, objs, hrows, hobjs, hfacts, hlength⟩ :=
          ports_mapM dev (h dev List.mem_cons_self)
        obtain ⟨groups, more, hgroups, hmore, hrest, hsum⟩ :=
          ih (fun d hd => h d (List.mem_cons_of_mem _ hd)) (some dev.index)
        refine ⟨(.dev dev.index dev.chip.id :: rows.map .port) :: groups, objs :: more,
          ?_, ?_, ?_, ?_⟩
        · simp [List.mapM_cons, showDevLines, hrows, hgroups]
        · simp [List.mapM_cons, hobjs, hmore]
        · cases last <;>
            simp only [List.flatten_cons, List.cons_append, showFacts, showFacts_ports, hfacts,
              hrest, List.map_append]
        · simp [hlength, hsum]
  obtain ⟨groups, objs, hshow, hjson, hfacts, hlength⟩ := hgroups none
  exact ⟨groups.flatten, objs.flatten, by simp [showPortLines, hshow],
    by simp [jsonPortObjs, hjson], hfacts, hlength⟩

/-- What a loop over a list makes comes from an element of it. -/
theorem exists_of_mem_mapM {α β : Type} {f : α → Option β} {l : List α} {bs : List β}
    (h : l.mapM f = some bs) {b : β} (hb : b ∈ bs) : ∃ a ∈ l, f a = some b := by
  induction l generalizing bs with
  | nil =>
      cases h
      cases hb
  | cons a l ih =>
      simp only [List.mapM_cons, Option.pure_def, Option.bind_eq_bind, Option.bind_eq_some_iff,
        Option.some.injEq] at h
      obtain ⟨b', hb', bs', hbs', rfl⟩ := h
      rcases List.mem_cons.mp hb with rfl | hb
      · exact ⟨a, List.mem_cons_self, hb'⟩
      · obtain ⟨a', ha', hf⟩ := ih hbs' hb
        exact ⟨a', List.mem_cons_of_mem _ ha', hf⟩

/-- The text of the line of any port shows the facts in it, and no others, but for the
name of the port and its number. -/
theorem showPortLines_shown {env : Env} {lines : List ShowLine}
    (h : showPortLines env = some lines) {row : ShowPort} (hrow : .port row ∈ lines)
    (dev : Fin 32) : (row.facts dev).Shown row.text ∧ ∀ f : PortFacts, f.Shown row.text →
      f.dev = dev → f = { row.facts dev with netdev := f.netdev, port := f.port } := by
  simp only [showPortLines, Option.bind_eq_bind, Option.bind_eq_some_iff, Option.some.injEq] at h
  obtain ⟨groups, hgroups, rfl⟩ := h
  obtain ⟨group, hgroup, hmem⟩ := List.mem_flatten.mp hrow
  obtain ⟨d, -, hd⟩ := exists_of_mem_mapM hgroups hgroup
  simp only [showDevLines, Option.bind_eq_bind, Option.bind_eq_some_iff, Option.some.injEq] at hd
  obtain ⟨rows, hrows, rfl⟩ := hd
  obtain ⟨p, -, hp⟩ : ∃ p ∈ d.ports, showPort p = some row :=
    exists_of_mem_mapM hrows (by simpa using hmem)
  have hshown := showPort_shown hp dev
  exact ⟨hshown, fun f hf hdev => hshown.unique hf hdev.symm⟩

/-- The overviews agree if and only if there is no port.  The facts of the text listing
are those that its lines show. -/
theorem portListings_agree_iff (env : Env) (h : PortsLoaded env) :
    (ListingsAgree env ↔ ∀ dev ∈ env.devs, dev.ports = []) ∧
      ∃ lines, showPortLines env = some lines ∧
        envShowPorts env = some
          ("\x1b[7mNETDEV    P  LINK  MO  FL  S  L  .1Q  PVID   FID\x1b[0m\n".toList ++
            lines.flatMap ShowLine.text) ∧
        ∀ row, .port row ∈ lines → ∀ dev, (row.facts dev).Shown row.text ∧
          ∀ f : PortFacts, f.Shown row.text → f.dev = dev →
            f = { row.facts dev with netdev := f.netdev, port := f.port } := by
  obtain ⟨lines, objs, hlines, hobjs, hfacts, hlength⟩ := showFacts_eq h
  refine ⟨?_, lines, hlines, by rw [envShowPorts, hlines]; rfl,
    fun row hrow dev => showPortLines_shown hlines hrow dev⟩
  have hnone : (∀ dev ∈ env.devs, dev.ports = []) ↔ objs = [] := by
    rw [← List.length_eq_zero_iff, hlength, List.sum_eq_zero_iff_forall_eq_nat]
    simp
  rw [hnone]
  constructor
  · rintro ⟨lines', objs', hlines', hobjs', hagree⟩
    cases hlines.symm.trans hlines'
    cases hobjs.symm.trans hobjs'
    rw [hfacts] at hagree
    cases objs with
    | nil => rfl
    | cons obj objs =>
        rw [List.map_cons, List.map_cons, List.cons.injEq] at hagree
        exact (obj.facts.flipped_ne hagree.1).elim
  · rintro rfl
    exact ⟨lines, [], hlines, hobjs, hfacts⟩

/-- A port with all registers 0, which discards no frames. -/
def zeroPort : Port := ⟨0, "lan1".toList, ⟨0, List.replicate 32 0⟩⟩

/-- Its line. -/
def zeroRow : ShowPort where
  netdev := "lan1".toList
  index := 0
  link := "-".toList
  fmode := 'n'
  emode := '='
  floodUc := '-'
  floodMc := '-'
  state := '-'
  lag := "-".toList
  qmode := '-'
  untagged := 'u'
  tagged := 't'
  pvid := 0
  fid := 0
  map := "!map".toList

/-- The listings of a switch with this port do not agree, and its line shows that
untagged frames are allowed; those of a switch with no port do agree. -/
theorem portListings_agree_iff_zero :
    ¬ListingsAgree ⟨[{ exampleDev chip88E6352 [] [] [] with ports := [zeroPort] }]⟩ ∧
      ((zeroRow.facts 0).Shown
          "lan1      0     -  n=  --  -  -  -ut     0     0!map\n".toList ∧
        (zeroRow.facts 0).allowUntagged = true) ∧
      ListingsAgree ⟨[exampleDev chip88E6352 [] [] []]⟩ := by
  have hloaded : PortsLoaded ⟨[{ exampleDev chip88E6352 [] [] [] with ports := [zeroPort] }]⟩ := by
    intro dev hdev p hp
    cases List.mem_singleton.mp hdev
    cases List.mem_singleton.mp hp
    decide
  have hnoPorts : PortsLoaded ⟨[exampleDev chip88E6352 [] [] []]⟩ := by
    intro dev hdev p hp
    cases List.mem_singleton.mp hdev
    cases hp
  have hrow : showPortLines ⟨[{ exampleDev chip88E6352 [] [] [] with ports := [zeroPort] }]⟩ =
      some [.dev 0 "Marvell 88E6352".toList, .port zeroRow] := by decide
  have htext : zeroRow.text =
      "lan1      0     -  n=  --  -  -  -ut     0     0!map\n".toList := by decide
  obtain ⟨hiff, lines, hlines, -, hshown⟩ := portListings_agree_iff _ hloaded
  obtain rfl := Option.some.inj (hrow.symm.trans hlines)
  refine ⟨fun hagree => ?_, ⟨?_, by decide⟩, (portListings_agree_iff _ hnoPorts).1.mpr ?_⟩
  · exact absurd (hiff.mp hagree _ List.mem_cons_self) (by decide)
  · rw [← htext]
    exact (hshown zeroRow (by simp) 0).1
  · intro dev hdev
    cases List.mem_singleton.mp hdev
    rfl

/-- The text printer reports that it takes untagged frames, the JSON printer
does not. -/
theorem portListings_disagree :
    let env : Env := ⟨[{ exampleDev chip88E6352 [] [] [] with ports := [zeroPort] }]⟩
    PortsLoaded env ∧ ¬ListingsAgree env ∧
      (showPortLines env).map (fun lines => (showFacts none lines).map (·.allowUntagged)) =
        some [true] ∧
      (jsonPortObjs env).map (fun objs => objs.map (·.allowUntagged)) = some [false] := by
  intro env
  have hloaded : PortsLoaded env := by
    intro dev hdev p hp
    cases List.mem_singleton.mp hdev
    cases List.mem_singleton.mp hp
    decide
  have hshow : (showPortLines env).map (fun lines => (showFacts none lines).map (·.allowUntagged)) =
      some [true] := by decide
  have hjson : (jsonPortObjs env).map (fun objs => objs.map (·.allowUntagged)) = some [false] := by
    decide
  refine ⟨hloaded, ?_, hshow, hjson⟩
  rintro ⟨lines, objs, hlines, hobjs, hagree⟩
  rw [hlines, Option.map_some, hagree] at hshow
  rw [hobjs, Option.map_some] at hjson
  simp only [List.map_map, Option.some.injEq] at hshow hjson
  have hsame := hshow.symm.trans hjson
  cases hsame

end MdioTools.Mvls
