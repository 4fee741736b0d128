import MdioTools.Kernel.BusName
import MdioTools.Mvls.AttrTable
import MdioTools.Mvls.Entry

/-!
# Which chip a device is

{lit}`env_init_dev_cb` looks for the chip in the version entries of an INFO reply.
It parses each of them into the table of the message itself, where the attributes
of the entries before are still there.

Main results:

- Definition {lit}`envInitDevCb`: the callback, by places in memory.
- Definition {lit}`Unmixed`: no entry is completed by those before it.
- Theorem {lit}`mixId_eq_ownId_iff`: what a table for all entries finds.
- Theorem {lit}`envInitDevCb_iff`: when the callback takes the chip of one entry.
-/

namespace MdioTools.Mvls

open Library Kernel Client

/-! ## The callback -/

/-- The attributes of {lit}`linux/devlink.h` about drivers and versions. -/
def devlinkAttrInfoDriverName : BitVec 16 := 98
def devlinkAttrInfoVersionFixed : BitVec 16 := 100
def devlinkAttrInfoVersionName : BitVec 16 := 103
def devlinkAttrInfoVersionValue : BitVec 16 := 104

/-- `mnl_attr_get_str`. -/
def attrStr (mem : List Byte) (attr : Nat) : CStr :=
  (cString (mem.drop (attr + 4))).map fun c => Char.ofNat c.toNat

/-- `struct dev` as it is discovered. -/
structure FoundDev where
  bus : CStr
  dev : CStr
  chip : Chip

/-- `struct env` during discovery.  New devices come last. -/
structure FoundEnv where
  devs : List FoundDev
  multichip : Bool

/-- `env_dev_add`, where `calloc` tells whether there is memory for a device. -/
def FoundEnv.envDevAdd (env : FoundEnv) (calloc : Bool) (asicid busid devid : CStr) :
    Option FoundEnv :=
  match chips.find? fun chip => chip.id = asicid with
  | none => none
  | some chip =>
      if !calloc then none
      else some ⟨env.devs ++ [⟨busid, devid, chip⟩], env.multichip || !env.devs.isEmpty⟩

/-- The string that `env_init_dev_cb` looks for. -/
def asicId : CStr :=
  "asic.id".toList

variable (e : Endian) (mem : List Byte)

/-- The loop of `env_init_dev_cb` over the attributes of the message: the place of
the VALUE that it finds, and the table that is left; {lean}`none` is a write behind
the table. -/
def verLoop : List Nat → AttrTable → Option (Option Nat × AttrTable)
  | [], tb => some (none, tb)
  | ver :: vers, tb =>
      if attrType e mem ver ≠ devlinkAttrInfoVersionFixed then verLoop vers tb
      else
        match attrParse e mem devlinkAttrMax (ver + 4) (ver + attrLen e mem ver) tb with
        | none => none
        | some tb =>
            match tb devlinkAttrInfoVersionName, tb devlinkAttrInfoVersionValue with
            | some name, some value =>
                if attrStr mem name ≠ asicId then verLoop vers tb else some (some value, tb)
            | _, _ => verLoop vers tb

/-- `env_init_dev_cb` for a message whose attributes end at `stop`; {lean}`none` is a
fault. -/
def envInitDevCb (stop : Nat) (calloc : Bool) (env : FoundEnv) : Option (MnlCb × FoundEnv) :=
  match attrParse e mem devlinkAttrMax 0 stop emptyTable with
  | none => none
  | some tb =>
      match tb devlinkAttrBusName, tb devlinkAttrDevName, tb devlinkAttrInfoDriverName with
      | some _, some _, some driver =>
          if (attrStr mem driver).take 6 ≠ "mv88e6".toList then some (.ok, env)
          else
            match verLoop e mem (attrPlaces e mem 0 stop) tb with
            | none => none
            | some (none, _) => some (.ok, env)
            | some (some id, tb) =>
                match tb devlinkAttrBusName, tb devlinkAttrDevName with
                | some bus, some dev =>
                    match env.envDevAdd calloc (attrStr mem id) (attrStr mem bus)
                      (attrStr mem dev) with
                    | none => some (.error, env)
                    | some env => some (.ok, env)
                | _, _ => none
      | _, _, _ => some (.error, env)

/-! ## What it is for -/

/-- The NAME of a version entry, and the place of its VALUE. -/
structure VerEntry where
  name : Option CStr
  value : Option Nat
deriving DecidableEq

/-- The places of the attributes inside an attribute. -/
def nestedPlaces (attr : Nat) : List Nat :=
  attrPlaces e mem (attr + 4) (attr + attrLen e mem attr)

/-- The entry at a place. -/
def verEntry (ver : Nat) : VerEntry where
  name := (lastPlace e mem devlinkAttrInfoVersionName (nestedPlaces e mem ver)).map (attrStr mem)
  value := lastPlace e mem devlinkAttrInfoVersionValue (nestedPlaces e mem ver)

/-- The FIXED version entries among some attributes. -/
def verEntries (places : List Nat) : List VerEntry :=
  (places.filter (attrType e mem · = devlinkAttrInfoVersionFixed)).map (verEntry e mem)

/-- The VALUE of an entry that has both NAME equal to `asic.id` and VALUE. -/
def VerEntry.ownId (v : VerEntry) : Option Nat :=
  if v.name = some asicId then v.value else none

/-- The VALUE of the first such entry. -/
def ownId (entries : List VerEntry) : Option Nat :=
  entries.findSome? VerEntry.ownId

/-- An entry with what it lacks taken from another. -/
def VerEntry.onto (c v : VerEntry) : VerEntry :=
  ⟨v.name.or c.name, v.value.or c.value⟩

/-- The last NAME and the last VALUE of some entries. -/
def carried (entries : List VerEntry) : VerEntry :=
  entries.foldl VerEntry.onto ⟨none, none⟩

/-- In front of the first entry that has both, no entry that lacks NAME or VALUE
comes when the last NAME is `asic.id` and there has been a VALUE. -/
def Unmixed (entries : List VerEntry) : Prop :=
  ∀ front v back, entries = front ++ v :: back → (∀ w ∈ front, w.ownId = none) →
    v.name = none ∨ v.value = none → (carried (front ++ [v])).ownId = none

/-- An INFO reply of a switch: it has the names of the bus, the device and the
driver, and no NAME or VALUE except in version entries, which have nothing
else. -/
structure InfoReply (stop bus dev : Nat) : Prop where
  bus : lastPlace e mem devlinkAttrBusName (attrPlaces e mem 0 stop) = some bus
  dev : lastPlace e mem devlinkAttrDevName (attrPlaces e mem 0 stop) = some dev
  driver : ∃ driver,
    lastPlace e mem devlinkAttrInfoDriverName (attrPlaces e mem 0 stop) = some driver ∧
      (attrStr mem driver).take 6 = "mv88e6".toList
  plain : ∀ p ∈ attrPlaces e mem 0 stop, attrType e mem p ≠ devlinkAttrInfoVersionName ∧
    attrType e mem p ≠ devlinkAttrInfoVersionValue
  entries : ∀ p ∈ attrPlaces e mem 0 stop, attrType e mem p = devlinkAttrInfoVersionFixed →
    ∀ q ∈ nestedPlaces e mem p, attrType e mem q = devlinkAttrInfoVersionName ∨
      attrType e mem q = devlinkAttrInfoVersionValue

/-- A device is added if its chip has been found, and ignored if not. -/
def FoundEnv.take (env : FoundEnv) (calloc : Bool) (asicid : Option CStr) (busid devid : CStr) :
    MnlCb × FoundEnv :=
  match asicid with
  | none => (.ok, env)
  | some asicid =>
      match env.envDevAdd calloc asicid busid devid with
      | none => (.error, env)
      | some env' => (.ok, env')

/-- The callback takes the VALUE of the first entry that has both, and ignores the
device if there is none. -/
def TakesOwn (stop bus dev : Nat) : Prop :=
  ∃ tb tb', attrParse e mem devlinkAttrMax 0 stop emptyTable = some tb ∧
    verLoop e mem (attrPlaces e mem 0 stop) tb =
      some (ownId (verEntries e mem (attrPlaces e mem 0 stop)), tb') ∧
    ∀ calloc env, envInitDevCb e mem stop calloc env =
      some (env.take calloc
        ((ownId (verEntries e mem (attrPlaces e mem 0 stop))).map (attrStr mem)) (attrStr mem bus)
        (attrStr mem dev))

/-! ## A table for all entries -/

/-- What is found when each entry is completed by those before it. -/
def mixId : VerEntry → List VerEntry → Option Nat
  | _, [] => none
  | c, v :: entries =>
      match (c.onto v).ownId with
      | some id => some id
      | none => mixId (c.onto v) entries

/-- An entry has an id if it is named so and has a value. -/
theorem VerEntry.ownId_eq_some {v : VerEntry} {id : Nat} :
    v.ownId = some id ↔ v.name = some asicId ∧ v.value = some id := by
  unfold ownId
  split_ifs with h <;> simp [h]

/-- An entry that has both is not completed. -/
theorem VerEntry.ownId_onto {v : VerEntry} {id : Nat} (h : v.ownId = some id) (c : VerEntry) :
    (c.onto v).ownId = some id := by
  obtain ⟨hname, hvalue⟩ := ownId_eq_some.mp h
  exact ownId_eq_some.mpr ⟨by simp [onto, hname], by simp [onto, hvalue]⟩

/-- An entry without a chip that has one when it is completed lacks NAME or VALUE. -/
theorem VerEntry.lacks_of_onto {c v : VerEntry} {id : Nat} (h : (c.onto v).ownId = some id)
    (hown : v.ownId = none) : v.name = none ∨ v.value = none := by
  obtain ⟨hname, -⟩ := ownId_eq_some.mp h
  cases hn : v.name with
  | none => exact .inl rfl
  | some name =>
      cases hv : v.value with
      | none => exact .inr rfl
      | some value =>
          have hsame : name = asicId := by simpa [onto, hn] using hname
          rw [ownId_eq_some.mpr ⟨hn.trans (congrArg some hsame), hv⟩] at hown
          cases hown

/-- An entry without name or value has none. -/
theorem VerEntry.ownId_of_lacks {v : VerEntry} (h : v.name = none ∨ v.value = none) :
    v.ownId = none := by
  unfold ownId
  rcases h with h | h <;> simp [h]

/-- An entry without an id is passed over. -/
theorem ownId_cons_of_none {v : VerEntry} (h : v.ownId = none) (entries : List VerEntry) :
    ownId (v :: entries) = ownId entries := by
  simp [ownId, h]

/-- A chip is the VALUE of an entry. -/
theorem ownId_mem {entries : List VerEntry} {id : Nat} (h : ownId entries = some id) :
    id ∈ entries.filterMap VerEntry.value := by
  obtain ⟨v, hv, hid⟩ := List.exists_of_findSome?_eq_some h
  exact List.mem_filterMap.mpr ⟨v, hv, (VerEntry.ownId_eq_some.mp hid).2⟩

/-- The VALUE at hand is none of those that come. -/
theorem fresh_onto {c v : VerEntry} {entries : List VerEntry}
    (h : (c.value.toList ++ (v :: entries).filterMap VerEntry.value).Nodup) :
    ((c.onto v).value.toList ++ entries.filterMap VerEntry.value).Nodup := by
  cases hv : v.value with
  | none =>
      rw [List.filterMap_cons_none hv] at h
      simpa [VerEntry.onto, hv] using h
  | some p =>
      rw [List.filterMap_cons_some hv] at h
      simpa [VerEntry.onto, hv] using (List.sublist_append_right _ _).nodup h

/-- In front of the first entry that has both, no entry that lacks one is completed
by `c` and those before it. -/
def UnmixedFrom (c : VerEntry) (entries : List VerEntry) : Prop :=
  ∀ front v back, entries = front ++ v :: back → (∀ w ∈ front, w.ownId = none) →
    v.name = none ∨ v.value = none → ((front ++ [v]).foldl VerEntry.onto c).ownId = none

/-- Whether entries mix is decided entry by entry. -/
theorem unmixedFrom_cons_iff {c v : VerEntry} {entries : List VerEntry} :
    UnmixedFrom c (v :: entries) ↔
      (v.name = none ∨ v.value = none → (c.onto v).ownId = none) ∧
        (v.ownId = none → UnmixedFrom (c.onto v) entries) := by
  constructor
  · intro h
    refine ⟨h [] v entries rfl (by simp), fun hown front w back hsplit hfront => ?_⟩
    exact h (v :: front) w back (by rw [hsplit]; rfl) (List.forall_mem_cons.mpr ⟨hown, hfront⟩)
  · rintro ⟨hhead, htail⟩ front w back hsplit hfront hlacks
    obtain ⟨rfl, hcons⟩ | ⟨rest, rfl, hrest⟩ := List.cons_eq_append_iff.mp hsplit
    · obtain rfl : w = v := (List.cons.inj hcons).1
      exact hhead hlacks
    · exact htail (hfront v List.mem_cons_self) rest w back hrest
        (fun u hu => hfront u (List.mem_cons_of_mem _ hu)) hlacks

/-- The first entry that is completed into one with a chip is the first that has
both, if no entry that lacks one is: the VALUEs are all different. -/
theorem mixId_eq_ownId_iff {c : VerEntry} {entries : List VerEntry}
    (hfresh : (c.value.toList ++ entries.filterMap VerEntry.value).Nodup) :
    mixId c entries = ownId entries ↔ UnmixedFrom c entries := by
  induction entries generalizing c with
  | nil => exact iff_of_true rfl fun front v back h => by simp at h
  | cons v entries ih =>
      rw [unmixedFrom_cons_iff]
      cases hmix : (c.onto v).ownId with
      | some id =>
          have hfound : mixId c (v :: entries) = some id := by simp only [mixId, hmix]
          rw [hfound]
          cases hown : v.ownId with
          | some id' =>
              -- the entry has both
              obtain rfl : id' = id :=
                Option.some.inj ((VerEntry.ownId_onto hown c).symm.trans hmix)
              refine iff_of_true (by simp [ownId, hown]) ⟨fun hlacks => ?_, by simp⟩
              rw [VerEntry.ownId_of_lacks hlacks] at hown
              cases hown
          | none =>
              -- it is completed: its VALUE is none of those that come
              refine iff_of_false (fun hsame => ?_) fun hall => ?_
              · rw [ownId_cons_of_none hown] at hsame
                have hmem := ownId_mem hsame.symm
                have hnext := fresh_onto hfresh
                rw [(VerEntry.ownId_eq_some.mp hmix).2] at hnext
                exact (List.nodup_cons.mp hnext).1 hmem
              · have hnone := hall.1 (VerEntry.lacks_of_onto hmix hown)
                cases hnone
      | none =>
          have hnext : mixId c (v :: entries) = mixId (c.onto v) entries := by
            simp only [mixId, hmix]
          have hown : v.ownId = none := by
            cases hown : v.ownId with
            | none => rfl
            | some id =>
                rw [VerEntry.ownId_onto hown c] at hmix
                cases hmix
          rw [hnext, ownId_cons_of_none hown, ih (fresh_onto hfresh)]
          exact ⟨fun hrest => ⟨fun _ => rfl, fun _ => hrest⟩, fun hall => hall.2 hown⟩

/-! ## The loop -/

variable {e mem}

/-- The VALUEs of the entries of a message are at different places. -/
theorem verEntries_fresh (pos stop : Nat) :
    ((verEntries e mem (attrPlaces e mem pos stop)).filterMap VerEntry.value).Nodup ∧
      ∀ p ∈ (verEntries e mem (attrPlaces e mem pos stop)).filterMap VerEntry.value,
        pos + 4 ≤ p := by
  fun_induction attrPlaces e mem pos stop with
  | case1 pos hok ih =>
      have hle := le_align4 (attrLen e mem pos)
      have hnext : pos + 4 ≤ attrNext e mem pos := by
        have := hok.2.1
        unfold attrNext
        omega
      obtain ⟨hnodup, hbounds⟩ := ih
      have hrest : ∀ p ∈ (verEntries e mem (attrPlaces e mem (attrNext e mem pos) stop)).filterMap
          VerEntry.value, pos + 4 ≤ p := fun p hp => by
        have := hbounds p hp
        omega
      by_cases htype : attrType e mem pos = devlinkAttrInfoVersionFixed
      · have hcons : verEntries e mem (pos :: attrPlaces e mem (attrNext e mem pos) stop) =
            verEntry e mem pos :: verEntries e mem (attrPlaces e mem (attrNext e mem pos) stop) := by
          simp [verEntries, htype]
        rw [hcons]
        cases hvalue : (verEntry e mem pos).value with
        | none =>
            rw [List.filterMap_cons_none hvalue]
            exact ⟨hnodup, hrest⟩
        | some p =>
            -- the place is inside the first attribute
            obtain ⟨hmin, hmax⟩ := attrPlaces_bounds (lastPlace_eq_some hvalue).1
            rw [List.filterMap_cons_some hvalue, List.nodup_cons, List.forall_mem_cons]
            refine ⟨⟨fun hp => ?_, hnodup⟩, hmin, hrest⟩
            have := hbounds p hp
            unfold attrNext at this
            omega
      · have hskip : verEntries e mem (pos :: attrPlaces e mem (attrNext e mem pos) stop) =
            verEntries e mem (attrPlaces e mem (attrNext e mem pos) stop) := by
          simp [verEntries, htype]
        rw [hskip]
        exact ⟨hnodup, hrest⟩
  | case2 pos hok => simp [verEntries]

/-- The NAME and the VALUE in a table. -/
def tableEntry (mem : List Byte) (tb : AttrTable) : VerEntry where
  name := (tb devlinkAttrInfoVersionName).map (attrStr mem)
  value := tb devlinkAttrInfoVersionValue

/-- An entry is parsed into the table: what it has replaces what has been there. -/
theorem attrParse_entry {ver : Nat} (h : ∀ q ∈ nestedPlaces e mem ver,
      attrType e mem q = devlinkAttrInfoVersionName ∨
        attrType e mem q = devlinkAttrInfoVersionValue) (tb : AttrTable) :
    ∃ tb', attrParse e mem devlinkAttrMax (ver + 4) (ver + attrLen e mem ver) tb = some tb' ∧
      tableEntry mem tb' = (tableEntry mem tb).onto (verEntry e mem ver) ∧
      ∀ type, type ≠ devlinkAttrInfoVersionName → type ≠ devlinkAttrInfoVersionValue →
        tb' type = tb type := by
  have hknown : (attrParse e mem devlinkAttrMax (ver + 4) (ver + attrLen e mem ver) tb).isSome := by
    rw [attrParse_isSome_iff]
    intro q hq
    rcases h q hq with htype | htype <;> rw [htype] <;> decide
  obtain ⟨tb', htb'⟩ := Option.isSome_iff_exists.mp hknown
  have happly := attrParse_apply htb'
  refine ⟨tb', htb', ?_, fun type hname hvalue => ?_⟩
  · simp only [tableEntry, VerEntry.onto, verEntry, happly, Option.map_or]
    rfl
  · rw [happly]
    cases hlast : lastPlace e mem type (attrPlaces e mem (ver + 4) (ver + attrLen e mem ver)) with
    | none => rfl
    | some q =>
        obtain ⟨hq, htype⟩ := lastPlace_eq_some hlast
        rcases h q hq with h | h
        · exact absurd (htype.symm.trans h) hname
        · exact absurd (htype.symm.trans h) hvalue

/-- A round of the loop for a version entry ends it when the table has a chip. -/
theorem verLoop_cons_fixed {ver : Nat} {tb tb₁ : AttrTable}
    (htype : attrType e mem ver = devlinkAttrInfoVersionFixed)
    (hparse : attrParse e mem devlinkAttrMax (ver + 4) (ver + attrLen e mem ver) tb = some tb₁)
    (vers : List Nat) :
    verLoop e mem (ver :: vers) tb =
      match (tableEntry mem tb₁).ownId with
      | some id => some (some id, tb₁)
      | none => verLoop e mem vers tb₁ := by
  rw [verLoop, if_neg (not_not.mpr htype), hparse]
  cases hn : tb₁ devlinkAttrInfoVersionName with
  | none =>
      have hid : (tableEntry mem tb₁).ownId = none :=
        VerEntry.ownId_of_lacks (.inl (by simp [tableEntry, hn]))
      simp only [hn, hid]
  | some name =>
      cases hv : tb₁ devlinkAttrInfoVersionValue with
      | none =>
          have hid : (tableEntry mem tb₁).ownId = none := VerEntry.ownId_of_lacks (.inr hv)
          simp only [hn, hv, hid]
      | some value =>
          by_cases hsame : attrStr mem name = asicId
          · have hid : (tableEntry mem tb₁).ownId = some value :=
              VerEntry.ownId_eq_some.mpr ⟨by simp [tableEntry, hn, hsame], hv⟩
            simp only [hn, hv, hid, if_neg (not_not.mpr hsame)]
          · have hid : (tableEntry mem tb₁).ownId = none := by
              simp [VerEntry.ownId, tableEntry, hn, hsame]
            simp only [hn, hv, hid, if_pos hsame]

/-- The loop finds the first entry that is completed into one with a chip. -/
theorem verLoop_eq {places : List Nat} (h : ∀ p ∈ places,
      attrType e mem p = devlinkAttrInfoVersionFixed → ∀ q ∈ nestedPlaces e mem p,
        attrType e mem q = devlinkAttrInfoVersionName ∨
          attrType e mem q = devlinkAttrInfoVersionValue) (tb : AttrTable) :
    ∃ tb', verLoop e mem places tb =
        some (mixId (tableEntry mem tb) (verEntries e mem places), tb') ∧
      ∀ type, type ≠ devlinkAttrInfoVersionName → type ≠ devlinkAttrInfoVersionValue →
        tb' type = tb type := by
  induction places generalizing tb with
  | nil => exact ⟨tb, rfl, fun _ _ _ => rfl⟩
  | cons ver vers ih =>
      obtain ⟨hver, hvers⟩ := List.forall_mem_cons.mp h
      by_cases htype : attrType e mem ver = devlinkAttrInfoVersionFixed
      · obtain ⟨tb₁, hparse, hentry, hframe⟩ := attrParse_entry (hver htype) tb
        obtain ⟨tb', hloop, hframe'⟩ := ih hvers tb₁
        have hcons : verEntries e mem (ver :: vers) =
            verEntry e mem ver :: verEntries e mem vers := by
          simp [verEntries, htype]
        rw [hcons, verLoop_cons_fixed htype hparse, mixId, ← hentry]
        cases hid : (tableEntry mem tb₁).ownId with
        | some id => exact ⟨tb₁, rfl, hframe⟩
        | none =>
            exact ⟨tb', hloop, fun type hname hvalue =>
              (hframe' type hname hvalue).trans (hframe type hname hvalue)⟩
      · obtain ⟨tb', hloop, hframe⟩ := ih hvers tb
        have hskip : verEntries e mem (ver :: vers) = verEntries e mem vers := by
          simp [verEntries, htype]
        exact ⟨tb', by rw [verLoop, if_pos htype, hskip, hloop], hframe⟩

/-! ## The callback -/

/-- The table of an INFO reply has no NAME and no VALUE. -/
theorem InfoReply.tableEntry_eq {stop bus dev : Nat} (h : InfoReply e mem stop bus dev)
    {tb : AttrTable} (hparse : attrParse e mem devlinkAttrMax 0 stop emptyTable = some tb) :
    tableEntry mem tb = ⟨none, none⟩ := by
  have hnone : ∀ type, (∀ p ∈ attrPlaces e mem 0 stop, attrType e mem p ≠ type) →
      tb type = none := by
    intro type hplain
    rw [attrParse_apply hparse, emptyTable, Option.or_none]
    cases hlast : lastPlace e mem type (attrPlaces e mem 0 stop) with
    | none => rfl
    | some p => exact absurd (lastPlace_eq_some hlast).2 (hplain p (lastPlace_eq_some hlast).1)
  simp [tableEntry, hnone _ fun p hp => (h.plain p hp).1, hnone _ fun p hp => (h.plain p hp).2]

/-- The callback adds the device with the chip that the loop finds. -/
theorem InfoReply.envInitDevCb_eq {stop bus dev : Nat} (h : InfoReply e mem stop bus dev)
    {tb : AttrTable} (hparse : attrParse e mem devlinkAttrMax 0 stop emptyTable = some tb)
    {id : Option Nat} {tb' : AttrTable}
    (hloop : verLoop e mem (attrPlaces e mem 0 stop) tb = some (id, tb'))
    (hframe : ∀ type, type ≠ devlinkAttrInfoVersionName → type ≠ devlinkAttrInfoVersionValue →
      tb' type = tb type) (calloc : Bool) (env : FoundEnv) :
    envInitDevCb e mem stop calloc env =
      some (env.take calloc (id.map (attrStr mem)) (attrStr mem bus) (attrStr mem dev)) := by
  obtain ⟨driver, hdriver, hprefix⟩ := h.driver
  have hlast : ∀ {type place}, lastPlace e mem type (attrPlaces e mem 0 stop) = some place →
      tb type = some place := fun hplace => by rw [attrParse_apply hparse, hplace, Option.some_or]
  have hbus := hlast h.bus
  have hdev := hlast h.dev
  have hbus' := (hframe devlinkAttrBusName (by decide) (by decide)).trans hbus
  have hdev' := (hframe devlinkAttrDevName (by decide) (by decide)).trans hdev
  simp only [envInitDevCb, hparse, hbus, hdev, hlast hdriver, hprefix, ne_eq, not_true_eq_false,
    if_false, hloop]
  cases id with
  | none => rfl
  | some id =>
      simp only [hbus', hdev', FoundEnv.take, Option.map_some]
      cases env.envDevAdd calloc (attrStr mem id) (attrStr mem bus) (attrStr mem dev) <;> rfl

/-- For an INFO reply of a switch, the callback takes the VALUE of the first entry
that has both NAME equal to `asic.id` and VALUE exactly when it knows all attributes
of the message, and no entry that lacks one is completed by those before it. -/
theorem envInitDevCb_iff {stop bus dev : Nat} (h : InfoReply e mem stop bus dev) :
    TakesOwn e mem stop bus dev ↔ AllKnown e mem devlinkAttrMax 0 stop ∧
      Unmixed (verEntries e mem (attrPlaces e mem 0 stop)) := by
  have hmix : ∀ {tb}, attrParse e mem devlinkAttrMax 0 stop emptyTable = some tb →
      ∃ tb', verLoop e mem (attrPlaces e mem 0 stop) tb =
          some (mixId ⟨none, none⟩ (verEntries e mem (attrPlaces e mem 0 stop)), tb') ∧
        ∀ type, type ≠ devlinkAttrInfoVersionName → type ≠ devlinkAttrInfoVersionValue →
          tb' type = tb type := fun {tb} hparse => by
    rw [← h.tableEntry_eq hparse]
    exact verLoop_eq h.entries tb
  have hfresh : ((verEntries e mem (attrPlaces e mem 0 stop)).filterMap VerEntry.value).Nodup :=
    (verEntries_fresh 0 stop).1
  have hown := mixId_eq_ownId_iff (c := ⟨none, none⟩) hfresh
  constructor
  · rintro ⟨tb, tb', hparse, hloop, -⟩
    have hknown : (attrParse e mem devlinkAttrMax 0 stop emptyTable).isSome := by rw [hparse]; rfl
    obtain ⟨tb'', hloop', -⟩ := hmix hparse
    rw [hloop'] at hloop
    exact ⟨(attrParse_isSome_iff _ _ _).mp hknown,
      hown.mp (Prod.ext_iff.mp (Option.some.inj hloop)).1⟩
  · rintro ⟨hknown, hunmixed⟩
    obtain ⟨tb, hparse⟩ := Option.isSome_iff_exists.mp ((attrParse_isSome_iff _ _ _).mpr hknown)
    obtain ⟨tb', hloop, hframe⟩ := hmix hparse
    rw [hown.mpr hunmixed] at hloop
    exact ⟨tb, tb', hparse, hloop, h.envInitDevCb_eq hparse hloop hframe⟩

/-! ## Two replies -/

/-- An attribute with a string. -/
def strAttribute (type : BitVec 16) (s : String) : NlAttribute :=
  ⟨type, s.toList.map (fun c => BitVec.ofNat 8 c.toNat) ++ [0]⟩

/-- An INFO reply of a switch with some version entries. -/
def infoReply (versions : List (List NlAttribute)) : List Byte :=
  attrsBytes .little ([strAttribute devlinkAttrBusName "pci", strAttribute devlinkAttrDevName "0",
    strAttribute devlinkAttrInfoDriverName "mv88e6085"] ++
      versions.map fun attrs => ⟨devlinkAttrInfoVersionFixed, attrsBytes .little attrs⟩)

/-- A reply with NAME and VALUE in one entry. -/
def ownReply : List Byte :=
  infoReply [[strAttribute devlinkAttrInfoVersionName "asic.id",
    strAttribute devlinkAttrInfoVersionValue "Marvell 88E6352"]]

/-- The hypothesis is met by a reply with one entry, of which the chip is taken. -/
theorem envInitDevCb_iff_own : TakesOwn .little ownReply ownReply.length 0 8 := by
  have hplaces : attrPlaces .little ownReply 0 ownReply.length = [0, 8, 16, 32] :=
    attrPlaces_of_walksOver (by decide +kernel)
  have hnested : nestedPlaces .little ownReply 32 = [36, 48] :=
    attrPlaces_of_walksOver (by decide +kernel)
  have hreply : InfoReply .little ownReply ownReply.length 0 8 := by
    constructor <;> rw [hplaces]
    · decide +kernel
    · decide +kernel
    · exact ⟨16, by decide +kernel⟩
    · decide +kernel
    · intro p hp htype
      obtain rfl : p = 32 := by
        revert p
        decide +kernel
      rw [hnested]
      decide +kernel
  have hentries : verEntries .little ownReply [0, 8, 16, 32] = [⟨some asicId, some 48⟩] := by
    have hfixed : [0, 8, 16, 32].filter
        (attrType .little ownReply · = devlinkAttrInfoVersionFixed) = [32] := by decide +kernel
    rw [verEntries, hfixed, List.map_singleton, verEntry, hnested]
    decide +kernel
  refine (envInitDevCb_iff hreply).mpr ⟨?_, ?_⟩
  · rw [AllKnown, hplaces]
    decide +kernel
  · rw [hplaces, hentries]
    intro front v back hsplit _ hlacks
    obtain ⟨rfl, hhead⟩ | ⟨rest, -, hnil⟩ := List.cons_eq_append_iff.mp hsplit
    · obtain rfl : v = _ := (List.cons.inj hhead).1
      simp at hlacks
    · simp at hnil

/-- A reply with NAME in one entry and VALUE in the next. -/
def splitReply : List Byte :=
  infoReply [[strAttribute devlinkAttrInfoVersionName "asic.id"],
    [strAttribute devlinkAttrInfoVersionValue "Marvell 88E6352"]]

/-- The places of the attributes of the reply. -/
theorem splitReply_places : attrPlaces .little splitReply 0 splitReply.length = [0, 8, 16, 32, 48] :=
  attrPlaces_of_walksOver (by decide +kernel)

/-- The places inside the two entries. -/
theorem splitReply_nested :
    nestedPlaces .little splitReply 32 = [36] ∧ nestedPlaces .little splitReply 48 = [52] :=
  ⟨attrPlaces_of_walksOver (by decide +kernel), attrPlaces_of_walksOver (by decide +kernel)⟩

/-- The reply is one to INFO_GET. -/
theorem splitReply_infoReply : InfoReply .little splitReply splitReply.length 0 8 := by
  constructor <;> rw [splitReply_places]
  · decide +kernel
  · decide +kernel
  · exact ⟨16, by decide +kernel⟩
  · decide +kernel
  · intro p hp htype
    obtain rfl | rfl : p = 32 ∨ p = 48 := by
      revert p
      decide +kernel
    · rw [splitReply_nested.1]
      decide +kernel
    · rw [splitReply_nested.2]
      decide +kernel

/-- The two entries have a name and a value each. -/
theorem splitReply_entries :
    verEntries .little splitReply (attrPlaces .little splitReply 0 splitReply.length) =
      [⟨some asicId, none⟩, ⟨none, some 52⟩] := by
  have hfixed : [0, 8, 16, 32, 48].filter
      (attrType .little splitReply · = devlinkAttrInfoVersionFixed) = [32, 48] := by decide +kernel
  rw [splitReply_places, verEntries, hfixed, List.map_cons, List.map_singleton, verEntry, verEntry,
    splitReply_nested.1, splitReply_nested.2]
  decide +kernel

/-- No entry of that reply has both, and yet a device is added with a chip. -/
theorem envInitDevCb_split :
    InfoReply .little splitReply splitReply.length 0 8 ∧
      ownId (verEntries .little splitReply (attrPlaces .little splitReply 0 splitReply.length)) =
        none ∧
      (∃ env', envInitDevCb .little splitReply splitReply.length true ⟨[], false⟩ =
        some (.ok, env') ∧
        env'.devs.map (·.chip.id) = ["Marvell 88E6352".toList]) ∧
      ¬TakesOwn .little splitReply splitReply.length 0 8 := by
  have hreply := splitReply_infoReply
  have hown : ownId (verEntries .little splitReply
      (attrPlaces .little splitReply 0 splitReply.length)) = none := by
    rw [splitReply_entries]
    decide +kernel
  have hmix : mixId ⟨none, none⟩ (verEntries .little splitReply
      (attrPlaces .little splitReply 0 splitReply.length)) = some 52 := by
    rw [splitReply_entries]
    decide +kernel
  have hknown : (attrParse .little splitReply devlinkAttrMax 0 splitReply.length
      emptyTable).isSome := by
    rw [attrParse_isSome_iff, splitReply_places]
    decide +kernel
  obtain ⟨tb, hparse⟩ := Option.isSome_iff_exists.mp hknown
  obtain ⟨tb', hloop, hframe⟩ := verLoop_eq hreply.entries tb
  rw [hreply.tableEntry_eq hparse] at hloop
  have hcb := hreply.envInitDevCb_eq hparse hloop hframe true ⟨[], false⟩
  rw [hmix] at hcb hloop
  refine ⟨hreply, hown, ?_, ?_⟩
  · have hchip : attrStr splitReply 52 = "Marvell 88E6352".toList := by decide +kernel
    rw [Option.map_some, hchip] at hcb
    exact ⟨_, hcb, rfl⟩
  · rintro ⟨tb₁, tb₂, hparse', hloop', -⟩
    obtain rfl : tb = tb₁ := Option.some.inj (hparse.symm.trans hparse')
    rw [hown, hloop] at hloop'
    simp at hloop'

end MdioTools.Mvls
