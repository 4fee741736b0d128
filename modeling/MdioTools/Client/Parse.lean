import MdioTools.Client.PagedPhy
import MdioTools.Client.Mvls
import MdioTools.Library.CString

/-!
# The arguments of a command line

The client reads a device address, a register or a range of registers, and a
value with an optional mask.  Every function returns the error number and the
message of the source, or what it has stored through its pointers.

Main results:

- Definitions {lit}`mdioParseDev`, {lit}`mdioParseRange`, {lit}`mdioParseVal`,
  {lit}`pphyParseReg` and {lit}`mvlsParseReg`.
- Theorem {lit}`mdioParseDev_ok_iff`: the addresses that are accepted.
- Theorem {lit}`mdioParseRange_le`: an accepted range is within the bound of
  the device.
- Theorems {lit}`pphyParseReg_ok` and {lit}`mvlsParseReg_ok`: the parts of an
  accepted register.
-/

namespace MdioTools.Client

open Kernel Library

/-- An error number, which is positive in the client, and the message printed
with it. -/
structure CmdError where
  err : Int
  msg : String
deriving DecidableEq, Repr

/-- The text of a C string. -/
def CStr.text (s : CStr) : String :=
  String.ofList s

/-! ## Device addresses -/

/-- `mdio_phy_id_c45` of {lit}`linux/mdio.h`. -/
def mdioPhyIdC45Word (prtad devad : BitVec 16) : BitVec 16 :=
  mdioPhyIdC45 ||| (prtad <<< 5) ||| devad

/-- The label `c22` of `mdio_parse_dev`. -/
def parseDevC22 (allowC45 : Bool) (p d : BitVec 64) : Except CmdError (BitVec 16) :=
  if 31 < p.toNat then
    .error ⟨erange, "ERROR: " ++ (if allowC45 then "Port" else "Device") ++ " " ++
      toString d.toNat ++ " is out of range [0-31]"⟩
  else if allowC45 then .ok (mdioPhyIdC45Word (p.setWidth 16) (d.setWidth 16))
  else .ok (p.setWidth 16)

/-- `mdio_parse_dev`. -/
def mdioParseDev (str : CStr) (allowC45 : Bool) : Except CmdError (BitVec 16) :=
  let invalid : CmdError := ⟨einval, "ERROR: \"" ++ CStr.text str ++ "\" is not a valid device"⟩
  let p := strtoul str
  match p.rest with
  | [] => parseDevC22 false p.value 0
  | c :: after =>
      if c ≠ ':' then .error invalid
      else if !allowC45 then .error ⟨einval, "ERROR: Clause-45 addressing not allowed"⟩
      else
        let d := strtoul after
        if d.rest ≠ [] then .error invalid
        else if 31 < d.value.toNat then
          .error ⟨erange, "ERROR: Device " ++ toString d.value.toNat ++ " is out of range [0-31]"⟩
        else parseDevC22 true p.value d.value

/-! ## Registers and ranges -/

/-- The checks of `mdio_parse_range` against `mem.max`. -/
def checkRange (max : BitVec 32) (rs re : BitVec 64) : Except CmdError (BitVec 32 × BitVec 32) :=
  let outOfRange (r : BitVec 64) : CmdError :=
    ⟨erange, "ERROR: Register " ++ toString r.toNat ++ " is out of range [0-" ++
      toString max.toNat ++ "]"⟩
  if max.toNat < rs.toNat then .error (outOfRange rs)
  else if max.toNat < re.toNat then .error (outOfRange re)
  else .ok (rs.setWidth 32, re.setWidth 32)

/-- `mdio_parse_range`, where `rege` tells whether a range is expected.  The
end of a range is not checked for trailing characters. -/
def mdioParseRange (max : BitVec 32) (str : CStr) (rege : Bool) :
    Except CmdError (BitVec 32 × BitVec 32) :=
  let invalid : CmdError := ⟨einval, "ERROR: \"" ++ CStr.text str ++ "\" is not a valid register"⟩
  let rs := strtoull str
  if rs.range then .error invalid
  else
    match rs.rest with
    | [] => checkRange max rs.value rs.value
    | c :: after =>
        if c = '+' ∨ c = '-' then
          if !rege then .error ⟨einval, "ERROR: Unexpected register range"⟩
          else
            let re := strtoull after
            if re.range then
              .error ⟨einval, "ERROR: \"" ++ CStr.text str ++ "\" is not a valid register range"⟩
            else checkRange max rs.value (re.value + (if c = '+' then rs.value else 0))
        else .error invalid

/-- A parser of the next argument as a register, or a range if one is expected. -/
abbrev ParseReg : Type :=
  Option CStr → Bool → Except CmdError (BitVec 32 × BitVec 32)

/-- `mdio_device_dflt_parse_reg`. -/
def mdioDeviceDfltParseReg (max : BitVec 32) : ParseReg
  | none, _ => .error ⟨einval, "ERROR: Expected register"⟩
  | some arg, rege => mdioParseRange max arg rege

/-- `mdio_device_dflt_parse_val` for a register of `width` bits, where `mask`
tells whether a mask is allowed.  No driver has its own hook. -/
def mdioParseVal (width : Nat) (arg : Option CStr) (mask : Bool) :
    Except CmdError (BitVec 32 × BitVec 32) :=
  let max := 2 ^ width - 1
  let hex (n : Nat) : String := "0x" ++ String.ofList (Nat.toDigits 16 n)
  let done (v m : BitVec 64) : Except CmdError (BitVec 32 × BitVec 32) :=
    if max < v.toNat then
      .error ⟨erange, "ERROR: Value " ++ hex v.toNat ++ " is out of range [0-" ++ hex max ++ "]"⟩
    else if max < m.toNat then
      .error ⟨erange, "ERROR: Mask " ++ hex m.toNat ++ " is out of range [0-" ++ hex max ++ "]"⟩
    else .ok (v.setWidth 32, m.setWidth 32)
  match arg with
  | none => .error ⟨einval, "ERROR: Expected register"⟩
  | some str =>
      let invalid : CmdError :=
        ⟨einval, "ERROR: \"" ++ CStr.text str ++ "\" is not a valid register value"⟩
      let v := strtoull str
      match v.rest with
      | [] => done v.value 0
      | c :: after =>
          if c ≠ '/' then .error invalid
          else if !mask then .error ⟨einval, "ERROR: Masking of value not allowed"⟩
          else
            let m := strtoull after
            if m.rest ≠ [] then .error invalid else done v.value m.value

/-! ## Registers of paged PHYs -/

/-- `struct pphy_page_name`. -/
abbrev PphyPageName : Type :=
  CStr × BitVec 8

/-- `pphy_parse_page`. -/
def pphyParsePage (pageNames : List PphyPageName) (tok : CStr) : Except CmdError (BitVec 8) :=
  match pageNames.find? (fun pn => pn.1 = tok) with
  | some pn => .ok pn.2
  | none =>
      let r := strtoul tok
      if r.rest ≠ [] then
        .error ⟨einval, "ERROR: \"" ++ CStr.text tok ++ "\" is not a valid page"⟩
      else if 255 < r.value.toNat then
        .error ⟨einval, "ERROR: page " ++ toString r.value.toNat ++ " is out of range [0-255]"⟩
      else .ok (r.value.setWidth 8)

/-- `pphy_parse_reg`. -/
def pphyParseReg (max : BitVec 32) (pageNames : List PphyPageName) : ParseReg :=
  fun arg rege =>
    match arg.bind (strtok ':') with
    | none => .error ⟨einval, "ERROR: PAGE:REG"⟩
    | some (tok, saved) => do
        let page ← pphyParsePage pageNames tok
        match strtok ':' saved with
        | none => .error ⟨einval, "ERROR: Expected REG"⟩
        | some (tok, _) =>
            match mdioParseRange max tok rege with
            | .error e => .error ⟨einval, e.msg⟩
            | .ok (regs, rege) => .ok (regs ||| (page.setWidth 32 <<< 16), rege)

/-! ## Registers of LinkStreet switches -/

/-- The port of `mvls_parse_reg`. -/
def mvlsParsePort (tok : CStr) : Except CmdError (BitVec 16) :=
  if tok = "global1".toList ∨ tok = "g1".toList then .ok (mvlsG1.setWidth 16)
  else if tok = "global2".toList ∨ tok = "g2".toList then .ok (mvlsG2.setWidth 16)
  else
    let r := strtoul tok
    if r.rest ≠ [] then
      .error ⟨einval, "ERROR: \"" ++ CStr.text tok ++ "\" is not a valid port"⟩
    else if 31 < r.value.toNat then
      .error ⟨einval, "ERROR: Port " ++ toString r.value.toNat ++ " is out of range [0-31]"⟩
    else .ok (r.value.setWidth 16)

/-- `mvls_parse_reg`.  The end of a range is not stored. -/
def mvlsParseReg : ParseReg :=
  fun arg rege =>
    if rege then .error ⟨enosys, "ERROR: Implement ranges"⟩
    else
      match arg.bind (strtok ':') with
      | none => .error ⟨einval, "ERROR: Expected PORT:REG"⟩
      | some (tok, saved) => do
          let port ← mvlsParsePort tok
          match strtok ':' saved with
          | none => .error ⟨einval, "ERROR: Expected REG"⟩
          | some (tok, _) =>
              let r := strtoul tok
              if r.rest ≠ [] then
                .error ⟨einval, "ERROR: \"" ++ CStr.text tok ++ "\" is not a valid register"⟩
              else if 31 < r.value.toNat then
                .error ⟨einval, "ERROR: register " ++ toString r.value.toNat ++
                  " is out of range [0-31]"⟩
              else .ok (port.setWidth 32 <<< 16 ||| r.value.setWidth 32, 0)

/-! ## What is accepted -/

theorem parseDevC22_ok_iff {allowC45 : Bool} {p d : BitVec 64} {id : BitVec 16} :
    parseDevC22 allowC45 p d = .ok id ↔ p.toNat ≤ 31 ∧
      id = if allowC45 then mdioPhyIdC45Word (p.setWidth 16) (d.setWidth 16)
        else p.setWidth 16 := by
  unfold parseDevC22
  cases allowC45 <;> by_cases h : 31 < p.toNat <;> simp [h, eq_comm] <;> omega

/-- A device address is accepted when it is a number up to 31, or, where
Clause 45 is allowed, two of them with a colon between. -/
theorem mdioParseDev_ok_iff {str : CStr} {allowC45 : Bool} {id : BitVec 16} :
    mdioParseDev str allowC45 = .ok id ↔
      ((strtoul str).rest = [] ∧ (strtoul str).value.toNat ≤ 31 ∧
          id = (strtoul str).value.setWidth 16) ∨
      (allowC45 ∧ ∃ after, (strtoul str).rest = ':' :: after ∧ (strtoul after).rest = [] ∧
          (strtoul str).value.toNat ≤ 31 ∧ (strtoul after).value.toNat ≤ 31 ∧
          id = mdioPhyIdC45Word ((strtoul str).value.setWidth 16)
            ((strtoul after).value.setWidth 16)) := by
  unfold mdioParseDev
  cases hrest : (strtoul str).rest with
  | nil => simp [hrest, parseDevC22_ok_iff]
  | cons c after =>
      simp only [hrest, reduceCtorEq, false_and, false_or, List.cons.injEq]
      by_cases hc : c = ':'
      · subst hc
        cases allowC45 with
        | false => simp
        | true =>
            by_cases hend : (strtoul after).rest = []
            · by_cases hd : 31 < (strtoul after).value.toNat
              · simp only [hend, hd]
                simp
                omega
              · simp [hend, hd, parseDevC22_ok_iff, Nat.not_lt.mp hd]
            · simp [hend]
      · simp [hc]

theorem checkRange_ok {max : BitVec 32} {rs re : BitVec 64} {range : BitVec 32 × BitVec 32}
    (h : checkRange max rs re = .ok range) : range.1 ≤ max ∧ range.2 ≤ max := by
  unfold checkRange at h
  simp only at h
  split_ifs at h
  cases h
  have hmax := max.isLt
  simp only [BitVec.le_def, BitVec.toNat_setWidth]
  omega

/-- Both ends of an accepted range are within the bound of the device. -/
theorem mdioParseRange_le {max : BitVec 32} {str : CStr} {rege : Bool}
    {range : BitVec 32 × BitVec 32} (h : mdioParseRange max str rege = .ok range) :
    range.1 ≤ max ∧ range.2 ≤ max := by
  unfold mdioParseRange at h
  simp only at h
  split at h
  · cases h
  · split at h
    · exact checkRange_ok h
    · split at h
      · split at h
        · cases h
        · split at h
          · cases h
          · exact checkRange_ok h
      · cases h

/-- A register of a paged PHY is a register within the bound, with the page
above it. -/
theorem pphyParseReg_ok {max : BitVec 32} {pageNames : List PphyPageName} {arg : Option CStr}
    {rege : Bool} {range : BitVec 32 × BitVec 32}
    (h : pphyParseReg max pageNames arg rege = .ok range) :
    ∃ (page : BitVec 8) (reg : BitVec 32), reg ≤ max ∧ range.2 ≤ max ∧
      range.1 = reg ||| (page.setWidth 32 <<< 16) := by
  unfold pphyParseReg at h
  split at h
  · cases h
  · rename_i tok saved _
    cases hpage : pphyParsePage pageNames tok with
    | error e => simp [hpage, bind, Except.bind] at h
    | ok page =>
        simp only [hpage, bind, Except.bind] at h
        split at h
        · cases h
        · split at h
          · cases h
          · rename_i tok' _ _ regs rege' hrange
            cases h
            obtain ⟨hs, he⟩ := mdioParseRange_le hrange
            exact ⟨page, regs, hs, he, rfl⟩

theorem mvlsParsePort_ok {tok : CStr} {port : BitVec 16} (h : mvlsParsePort tok = .ok port) :
    port.toNat ≤ 31 := by
  unfold mvlsParsePort at h
  simp only at h
  split_ifs at h with hg1 hg2 hrest hle
  · cases h
    decide
  · cases h
    decide
  · cases h
    rw [BitVec.toNat_setWidth]
    omega

/-- A register of a switch is a port and a register up to 31, and a range is
never accepted. -/
theorem mvlsParseReg_ok {arg : Option CStr} {rege : Bool} {range : BitVec 32 × BitVec 32}
    (h : mvlsParseReg arg rege = .ok range) :
    rege = false ∧ ∃ port reg : BitVec 32, port.toNat ≤ 31 ∧ reg.toNat ≤ 31 ∧
      range.1 = mvlsReg port reg := by
  unfold mvlsParseReg at h
  split at h
  · cases h
  · rename_i hrege
    refine ⟨by simpa using hrege, ?_⟩
    split at h
    · cases h
    · rename_i tok saved _
      cases hport : mvlsParsePort tok with
      | error e => simp [hport, bind, Except.bind] at h
      | ok port =>
          simp only [hport, bind, Except.bind] at h
          split at h
          · cases h
          · rename_i tok' _ _
            split_ifs at h with hrest hle
            cases h
            have hport' := mvlsParsePort_ok hport
            refine ⟨port.setWidth 32, (strtoul tok').value.setWidth 32, ?_, ?_, rfl⟩
            · rw [BitVec.toNat_setWidth]
              omega
            · rw [BitVec.toNat_setWidth]
              omega

end MdioTools.Client
