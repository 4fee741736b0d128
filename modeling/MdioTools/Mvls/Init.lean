import MdioTools.Mvls.DevSort
import MdioTools.Mvls.Discover
import MdioTools.Mvls.Query

/-!
# The environment of a run

{lit}`env_init` asks for the family of devlink, the devices and their ports, and reads
the index of each device from a snapshot of its global registers.  Everything goes
over one socket, so what is found depends on all answers being read to their ends.

Main results:

- Definition {lit}`envInit`: the function, with its queries.
- Definitions {lit}`infoSays` and {lit}`portSays`: what the replies of the kernel say.
- Theorem {lit}`envInit_discovers`: the devices, their ports and their order.
-/

namespace MdioTools.Mvls

open Library Kernel Client

/-! ## The environment -/

/-- The attributes of {lit}`linux/devlink.h` about ports. -/
def devlinkAttrPortIndex : BitVec 16 := 3
def devlinkAttrPortNetdevName : BitVec 16 := 7
def devlinkAttrPortFlavour : BitVec 16 := 77

/-- `CTRL_ATTR_FAMILY_ID`. -/
def ctrlAttrFamilyId : BitVec 16 := 1

/-- `struct port` as it is discovered. -/
structure FoundPort where
  index : BitVec 32
  flavor : BitVec 16
  netdev : CStr
deriving DecidableEq

/-- `struct env` during `env_init`.  A device is known by the number of those that
were found before it. -/
structure InitEnv where
  family : BitVec 16
  found : FoundEnv
  ports : Nat → List FoundPort
  global1 : Nat → RegionBytes
  index : Nat → Int

/-- The environment in front of the first query. -/
def InitEnv.init : InitEnv where
  family := 0
  found := ⟨[], false⟩
  ports _ := []
  global1 _ := []
  index _ := 0

/-- `env_dev_find`. -/
def FoundEnv.envDevFind (env : FoundEnv) (busid devid : CStr) : Option Nat :=
  env.devs.findIdx? fun dev => dev.bus = busid ∧ dev.dev = devid

variable (e : Endian)

/-! ## The callbacks -/

/-- `get_family_id_attr_cb` over the attributes of a message: it stops at one whose type
is above `max`, and at an identifier that is too short. -/
def familyLoop (max : BitVec 16) (mem : List Byte) : List Nat → Option Nat → Option Nat
  | [], id => id
  | attr :: attrs, id =>
      if max < attrType e mem attr then id
      else if attrType e mem attr = ctrlAttrFamilyId then
        if (attrPayload e mem attr).length < 2 then id
        else familyLoop max mem attrs (some attr)
      else familyLoop max mem attrs id

/-- `get_family_id_cb`, where `max` is `CTRL_ATTR_MAX`. -/
def getFamilyIdCb (max : BitVec 16) : DlCb InitEnv := fun mem env =>
  match familyLoop e max mem (attrPlaces e mem 0 mem.length) none with
  | none => (some .error, env)
  | some id => (some .ok, { env with family := e.get16 (mem.drop (id + 4)) })

/-- `env_init_dev_cb`, with memory for the device. -/
def initDevCb : DlCb InitEnv := fun mem env =>
  match envInitDevCb e mem mem.length true env.found with
  | none => (none, env)
  | some (ret, found) => (some ret, { env with found := found })

/-- The name of a port: that of its network device, or what its flavor is called. -/
def portNetdev (mem : List Byte) (netdev : Option Nat) (flavor : BitVec 16) : CStr :=
  match netdev with
  | some netdev => attrStr mem netdev
  | none =>
      if flavor = 1 then "(cpu)".toList
      else if flavor = 2 then "(dsa)".toList
      else "-".toList

/-- `env_init_port_cb`, with memory for the port. -/
def envInitPortCb : DlCb InitEnv := fun mem env =>
  match attrParse e mem devlinkAttrMax 0 mem.length emptyTable with
  | none => (none, env)
  | some tb =>
      match tb devlinkAttrBusName, tb devlinkAttrDevName, tb devlinkAttrPortIndex,
        tb devlinkAttrPortFlavour with
      | some bus, some dev, some index, some flavour =>
          match env.found.envDevFind (attrStr mem bus) (attrStr mem dev) with
          | none => (some .ok, env)
          | some k =>
              let flavor := e.get16 (mem.drop (flavour + 4))
              let port : FoundPort := ⟨e.get32 (mem.drop (index + 4)), flavor,
                portNetdev mem (tb devlinkAttrPortNetdevName) flavor⟩
              (some .ok, { env with ports := Function.update env.ports k (env.ports k ++ [port]) })
      | _, _, _, _ => (some .error, env)

/-- `devlink_region_dup_cb`, with memory for the region.  There is no result where it
faults, or is still in its loop after `fuel` chunks. -/
def devlinkRegionDupCb (fuel : Nat) : DlCb RegionBytes := fun mem region =>
  match attrParse e mem devlinkAttrMax 0 mem.length emptyTable with
  | none => (none, region)
  | some tb =>
      match tb devlinkAttrBusName, tb devlinkAttrDevName, tb devlinkAttrRegionChunks with
      | some _, some _, some chunks =>
          match (dupLoop e (fun _ => true) mem (chunks + attrLen e mem chunks)).run fuel
            ⟨chunks + 4, emptyTable, region⟩ with
          | .inr (.returned ret region) => (some ret, region)
          | _ => (none, region)
      | _, _, _ => (some .error, region)

/-! ## The queries -/

/-- The kernel as a run of `mvls` finds it: how the socket is opened, the seconds in
which the queries are sent, and the answers. -/
structure DlKernel where
  opened : Int
  ctrlAttrMax : BitVec 16
  portid : BitVec 32
  seq : Nat → BitVec 32
  answer : Nat → Option DlAnswer

/-- The socket of a run: what is unread, and the number of queries made. -/
structure DlSocket where
  unread : List Datagram
  queries : Nat

variable (kern : DlKernel)

/-- `devlink_query`, by its return value and the state of its callback; there is none for
a fault, or if the run waits for ever. -/
def DlKernel.query {σ : Type} (cb : Option (DlCb σ)) (s : σ) (sock : DlSocket) :
    Option (Int × σ × DlSocket) :=
  match devlinkQuery kern.portid ⟨kern.seq sock.queries, cb, kern.answer sock.queries⟩
    sock.unread s with
  | (some (some ret), s, unread) =>
      some (if ret = .error then -1 else 0, s, ⟨unread, sock.queries + 1⟩)
  | _ => none

/-- `devlink_open`. -/
def devlinkOpen (env : InitEnv) (sock : DlSocket) : Option (Int × InitEnv × DlSocket) :=
  if kern.opened ≠ 0 then some (kern.opened, env, sock)
  else kern.query (some (getFamilyIdCb e kern.ctrlAttrMax)) env sock

/-- `devlink_region_get`: NEW, READ and DEL, where the result of DEL is of no use. -/
def devlinkRegionGet (fuel : Nat) (region : RegionBytes) (sock : DlSocket) :
    Option (Int × RegionBytes × DlSocket) := do
  let (err, region, sock) ← kern.query none region sock
  if err ≠ 0 then return (err, region, sock)
  let (err, region, sock) ← kern.query (some (devlinkRegionDupCb e fuel)) region sock
  let (_, region, sock) ← kern.query (some (devlinkRegionDupCb e fuel)) region sock
  return (err, region, sock)

/-- `reg16` of a region; {lean}`none` is a read of what is not there. -/
def regionReg16 (region : RegionBytes) (reg : Nat) : Option (BitVec 16) := do
  let lo ← region[2 * reg]?.join
  let hi ← region[2 * reg + 1]?.join
  return e.get16 [lo, hi]

/-- `dev_init`. -/
def devInit (fuel k : Nat) (env : InitEnv) (sock : DlSocket) :
    Option (Int × InitEnv × DlSocket) := do
  let (err, region, sock) ← devlinkRegionGet e kern fuel (env.global1 k) sock
  let env := { env with global1 := Function.update env.global1 k region }
  if err ≠ 0 then return (err, env, sock)
  let reg ← regionReg16 e region 0x1c
  return (0, { env with index := Function.update env.index k (bits reg 0 5) }, sock)

/-- The loop of `env_init` over the devices. -/
def devInits (fuel : Nat) : List Nat → InitEnv → DlSocket → Option (Int × InitEnv × DlSocket)
  | [], env, sock => some (0, env, sock)
  | k :: ks, env, sock => do
      let (err, env, sock) ← devInit e kern fuel k env sock
      if err ≠ 0 then return (err, env, sock)
      devInits fuel ks env sock

/-- The queue of the devices that were found. -/
def InitEnv.devs (env : InitEnv) : TailQueue Nat :=
  (List.range env.found.devs.length).foldl envDevAdd TailQueue.init

/-- `env_init`: the return value, the environment with the queue of the devices, and the
socket.  The loops have `fuel` steps. -/
def envInit (fuel : Nat) : Option (Int × InitEnv × TailQueue Nat × DlSocket) := do
  let (err, env, sock) ← devlinkOpen e kern InitEnv.init ⟨[], 0⟩
  if err ≠ 0 then return (err, env, env.devs, sock)
  let (err, env, sock) ← kern.query (some (initDevCb e)) env sock
  if err ≠ 0 then return (err, env, env.devs, sock)
  let (err, env, sock) ← kern.query (some (envInitPortCb e)) env sock
  if err ≠ 0 then return (err, env, env.devs, sock)
  if env.found.devs = [] then return (-1, env, env.devs, sock)
  let (err, env, sock) ← devInits e kern fuel (List.range env.found.devs.length) env sock
  if err ≠ 0 then return (err, env, env.devs, sock)
  match (envInitDevSort env.index).run fuel (.entry env.devs) with
  | .inl _ => none
  | .inr devs => return (0, env, devs, sock)

/-! ## What replies say -/

/-- What an INFO reply says: it faults, it lacks an attribute, it is about something that
is no switch or has no chip, or it is about a switch. -/
inductive InfoSays
  | fault | malformed | other
  | switch (asicid busid devid : CStr)
deriving DecidableEq

/-- The reading of an INFO reply. -/
def infoSays (mem : List Byte) : InfoSays :=
  match attrParse e mem devlinkAttrMax 0 mem.length emptyTable with
  | none => .fault
  | some tb =>
      match tb devlinkAttrBusName, tb devlinkAttrDevName, tb devlinkAttrInfoDriverName with
      | some _, some _, some driver =>
          if (attrStr mem driver).take 6 ≠ "mv88e6".toList then .other
          else
            match verLoop e mem (attrPlaces e mem 0 mem.length) tb with
            | none => .fault
            | some (none, _) => .other
            | some (some id, tb) =>
                match tb devlinkAttrBusName, tb devlinkAttrDevName with
                | some bus, some dev => .switch (attrStr mem id) (attrStr mem bus) (attrStr mem dev)
                | _, _ => .fault
      | _, _, _ => .malformed

/-- The device of a switch with a supported chip. -/
def InfoSays.dev : InfoSays → Option FoundDev
  | .switch asicid busid devid =>
      (chips.find? fun chip => chip.id = asicid).map fun chip => ⟨busid, devid, chip⟩
  | _ => none

/-- A reply that the discovery goes on behind: what is a switch has a supported chip. -/
def InfoSays.Fine : InfoSays → Prop
  | .fault | .malformed => False
  | .other => True
  | .switch asicid _ _ => (chips.find? fun chip => chip.id = asicid).isSome = true

/-- A port in a PORT reply, with the names of its device; {lean}`none` is a fault or a
reply that lacks an attribute. -/
def portSays (mem : List Byte) : Option (CStr × CStr × FoundPort) := do
  let tb ← attrParse e mem devlinkAttrMax 0 mem.length emptyTable
  let bus ← tb devlinkAttrBusName
  let dev ← tb devlinkAttrDevName
  let index ← tb devlinkAttrPortIndex
  let flavour ← tb devlinkAttrPortFlavour
  let flavor := e.get16 (mem.drop (flavour + 4))
  return (attrStr mem bus, attrStr mem dev, ⟨e.get32 (mem.drop (index + 4)), flavor,
    portNetdev mem (tb devlinkAttrPortNetdevName) flavor⟩)

/-- The devices in INFO replies. -/
def devsIn (infos : List (List Byte)) : List FoundDev :=
  infos.filterMap fun mem => (infoSays e mem).dev

/-- The ports of PORT replies that are of the `k`-th device: the first that has the names
in the reply. -/
def portsOf (env : FoundEnv) (ports : List (List Byte)) (k : Nat) : List FoundPort :=
  ports.filterMap fun mem => (portSays e mem).bind fun port =>
    if env.envDevFind port.1 port.2.1 = some k then some port.2.2 else none

/-! ## The callbacks on whole answers -/

/-- The environment with some devices. -/
def FoundEnv.of (devs : List FoundDev) : FoundEnv :=
  ⟨devs, decide (2 ≤ devs.length)⟩

/-- A device with a known chip is added at the end. -/
theorem FoundEnv.envDevAdd_of (devs : List FoundDev) {asicid : CStr} {chip : Chip}
    (hchip : (chips.find? fun chip => chip.id = asicid) = some chip) (busid devid : CStr) :
    (FoundEnv.of devs).envDevAdd true asicid busid devid =
      some (.of (devs ++ [⟨busid, devid, chip⟩])) := by
  have hmulti : (decide (2 ≤ devs.length) || !devs.isEmpty) =
      decide (2 ≤ (devs ++ [(⟨busid, devid, chip⟩ : FoundDev)]).length) := by
    cases devs with
    | nil => rfl
    | cons d devs => simp
  simp only [envDevAdd, hchip, FoundEnv.of, Bool.not_true, Bool.false_eq_true, if_false, hmulti]

/-- The callback does what the reply says. -/
theorem envInitDevCb_says (mem : List Byte) (env : FoundEnv) :
    envInitDevCb e mem mem.length true env =
      match infoSays e mem with
      | .fault => none
      | .malformed => some (.error, env)
      | .other => some (.ok, env)
      | .switch asicid busid devid =>
          match env.envDevAdd true asicid busid devid with
          | none => some (.error, env)
          | some env => some (.ok, env) := by
  unfold envInitDevCb infoSays
  cases attrParse e mem devlinkAttrMax 0 mem.length emptyTable with
  | none => rfl
  | some tb =>
      simp only
      rcases tb devlinkAttrBusName with _ | bus
      · rfl
      rcases tb devlinkAttrDevName with _ | dev
      · rfl
      rcases tb devlinkAttrInfoDriverName with _ | driver
      · rfl
      by_cases hprefix : (attrStr mem driver).take 6 ≠ "mv88e6".toList
      · simp only [if_pos hprefix]
      · simp only [if_neg hprefix]
        rcases verLoop e mem (attrPlaces e mem 0 mem.length) tb with _ | ⟨_ | id, tb'⟩
        · rfl
        · rfl
        · simp only
          cases tb' devlinkAttrBusName <;> cases tb' devlinkAttrDevName <;> rfl

/-- The callback adds what a fine answer says. -/
theorem initDevCb_fine {mem : List Byte} (h : (infoSays e mem).Fine) {env : InitEnv}
    {devs : List FoundDev} (hfound : env.found = .of devs) :
    initDevCb e mem env =
      (some .ok, { env with found := .of (devs ++ (infoSays e mem).dev.toList) }) := by
  rw [initDevCb, envInitDevCb_says, hfound]
  cases hreading : infoSays e mem with
  | fault | malformed =>
      rw [hreading] at h
      exact h.elim
  | other =>
      simp only [InfoSays.dev, Option.toList_none, List.append_nil]
  | switch asicid busid devid =>
      rw [hreading] at h
      obtain ⟨chip, hchip⟩ := Option.isSome_iff_exists.mp h
      simp only [FoundEnv.envDevAdd_of devs hchip, InfoSays.dev, hchip, Option.map_some,
        Option.toList_some]

/-- The devices of an INFO dump are found in the order of the replies. -/
theorem feed_initDevCb {infos : List (List Byte)} (h : ∀ mem ∈ infos, (infoSays e mem).Fine)
    {env : InitEnv} {devs : List FoundDev} (hfound : env.found = .of devs) :
    feed (some (initDevCb e)) infos env =
      (some .ok, { env with found := .of (devs ++ devsIn e infos) }) := by
  induction infos generalizing env devs with
  | nil =>
      simp only [feed, devsIn, List.filterMap_nil, List.append_nil, ← hfound]
  | cons mem infos ih =>
      have hcb := initDevCb_fine e (h mem List.mem_cons_self) hfound
      rw [feed]
      simp only [mnlDispatch, hcb]
      rw [ih (fun mem hmem => h mem (List.mem_cons_of_mem _ hmem)) rfl]
      simp only [devsIn, List.filterMap_cons, List.append_assoc]
      cases (infoSays e mem).dev <;> rfl

/-- The callback adds the port that an answer says. -/
theorem envInitPortCb_says {mem : List Byte} {bus dev : CStr} {port : FoundPort}
    (h : portSays e mem = some (bus, dev, port)) (env : InitEnv) :
    envInitPortCb e mem env =
      (some .ok, { env with ports := fun k => env.ports k ++
        if env.found.envDevFind bus dev = some k then [port] else [] }) := by
  unfold portSays at h
  simp only [Option.bind_eq_bind, Option.bind_eq_some_iff, Option.pure_def, Option.some.injEq] at h
  obtain ⟨tb, hparse, busAt, hbus, devAt, hdev, indexAt, hindex, flavourAt, hflavour, hport⟩ := h
  cases hport
  simp only [envInitPortCb, hparse, hbus, hdev, hindex, hflavour]
  cases hfind : env.found.envDevFind (attrStr mem busAt) (attrStr mem devAt) with
  | none => simp
  | some k =>
      simp only [Prod.mk.injEq, true_and, Option.some.injEq]
      congr 1
      funext j
      by_cases hj : k = j
      · subst hj
        simp
      · simp [Function.update_of_ne (Ne.symm hj), hj]

/-- The ports of a PORT dump come to their devices in the order of the replies. -/
theorem feed_envInitPortCb {ports : List (List Byte)}
    (h : ∀ mem ∈ ports, (portSays e mem).isSome = true) (env : InitEnv) :
    feed (some (envInitPortCb e)) ports env =
      (some .ok, { env with ports := fun k => env.ports k ++ portsOf e env.found ports k }) := by
  induction ports generalizing env with
  | nil => simp [feed, portsOf]
  | cons mem ports ih =>
      obtain ⟨⟨bus, dev, port⟩, hport⟩ := Option.isSome_iff_exists.mp (h mem List.mem_cons_self)
      rw [feed]
      simp only [mnlDispatch, envInitPortCb_says e hport]
      rw [ih fun mem hmem => h mem (List.mem_cons_of_mem _ hmem)]
      simp only [portsOf, List.filterMap_cons, hport, Option.bind_some, List.append_assoc,
        Prod.mk.injEq, true_and]
      congr 1
      funext k
      by_cases hk : env.found.envDevFind bus dev = some k
      · simp only [if_pos hk, List.singleton_append]
      · simp only [if_neg hk, List.nil_append]

/-- Replies that are put together are all accepted by the callback, if its loop has
fuel for them. -/
theorem feed_devlinkRegionDupCb {mems : List (List Byte)} {region region' : RegionBytes}
    (h : DupReplies e (fun _ => true) mems region region') :
    ∃ N, ∀ fuel, N ≤ fuel →
      feed (some (devlinkRegionDupCb e fuel)) mems region = (some .ok, region') := by
  induction h with
  | nil region => exact ⟨0, fun fuel _ => rfl⟩
  | @cons mem mems region mid region' hcb hrest ih =>
      obtain ⟨N, hN⟩ := ih
      have hhead : ∃ M, ∀ fuel, M ≤ fuel → devlinkRegionDupCb e fuel mem region = (some .ok, mid) := by
        unfold DevlinkRegionDupCb at hcb
        simp only [devlinkRegionDupCb]
        cases hparse : attrParse e mem devlinkAttrMax 0 mem.length emptyTable with
        | none =>
            rw [hparse] at hcb
            cases hcb
        | some tb =>
            rw [hparse] at hcb
            rcases hbus : tb devlinkAttrBusName with _ | bus
            · simp [hbus] at hcb
            rcases hdev : tb devlinkAttrDevName with _ | dev
            · simp [hbus, hdev] at hcb
            rcases hchunks : tb devlinkAttrRegionChunks with _ | chunks
            · simp [hbus, hdev, hchunks] at hcb
            simp only [hbus, hdev, hchunks] at hcb
            obtain ⟨n, hn⟩ := hcb
            refine ⟨n, fun fuel hle => ?_⟩
            obtain ⟨m, rfl⟩ := Nat.exists_eq_add_of_le hle
            simp only [hbus, hdev, hchunks, Machine.run_add_of_halted hn]
      obtain ⟨M, hM⟩ := hhead
      refine ⟨max M N, fun fuel hfuel => ?_⟩
      rw [feed]
      simp only [mnlDispatch, hM fuel (by omega), hN fuel (by omega)]

/-! ## The queries on whole answers -/

section Queries

variable {kern} {σ : Type}

/-- A query that is refused hands on nothing. -/
theorem feed_none (datas : List (List Byte)) (s : σ) : feed none datas s = (some .ok, s) := by
  induction datas with
  | nil => rfl
  | cons attrs datas ih => exact ih

/-- An answer with status 0 is no error. -/
theorem DlAnswer.err_eq_zero {a : DlAnswer} (h : a.status = 0) : a.err = 0 := by
  unfold DlAnswer.err
  split_ifs <;> simp_all [cbStop, cbError]

/-- A query with nothing unread, whose callback accepts all data of the answer. -/
theorem DlKernel.query_fed {n : Nat} {a : DlAnswer} (ha : kern.answer n = some a)
    {cb : Option (DlCb σ)} {s s' : σ} (hfeed : feed cb a.datas s = (some .ok, s')) :
    kern.query cb s ⟨[], n⟩ = some (a.err, s', ⟨[], n + 1⟩) := by
  obtain ⟨left, hquery, hleft⟩ := devlinkQuery_fresh kern.portid ⟨kern.seq n, cb, some a⟩ s
  have haccepts : DlQuery.Accepts ⟨kern.seq n, cb, some a⟩ s := by
    rintro a' ⟨⟩
    exact feed_front hfeed
  obtain rfl := hleft.mpr haccepts
  simp only [DlQuery.run, hfeed, mnlDispatch_status] at hquery
  rw [query, ha, hquery]
  rcases eq_or_ne a.err 0 with hzero | hne
  · simp [hzero]
  · have herr : a.err = -1 := by
      unfold DlAnswer.err at hne ⊢
      split_ifs at hne ⊢ <;> first | rfl | exact absurd rfl hne
    simp [herr]

/-- The answers to the queries from the `n`-th on are to one for a region, which leaves a
result and the region: NEW is refused, or the replies to READ are put together and DEL
is only acknowledged. -/
inductive DlKernel.Gets (kern : DlKernel) (n : Nat) : Int → RegionBytes → Nat → Prop
  | refused {a : DlAnswer} (hnew : kern.answer n = some a) (herr : a.err ≠ 0) :
      kern.Gets n a.err [] (n + 1)
  | read {new read del : DlAnswer} {region : RegionBytes} (hnew : kern.answer n = some new)
      (hok : new.err = 0) (hread : kern.answer (n + 1) = some read)
      (hdup : DupReplies e (fun _ => true) read.datas [] region)
      (hdel : kern.answer (n + 2) = some del) (hnone : del.datas = []) :
      kern.Gets n read.err region (n + 3)

/-- The three requests of a region as calls of the code. -/
theorem devlinkRegionGet_gets {n m : Nat} {err : Int} {region : RegionBytes}
    (h : kern.Gets e n err region m) :
    ∃ N, ∀ fuel, N ≤ fuel →
      devlinkRegionGet e kern fuel [] ⟨[], n⟩ = some (err, region, ⟨[], m⟩) := by
  cases h with
  | @refused a hnew herr =>
      have hquery := DlKernel.query_fed hnew (feed_none a.datas ([] : RegionBytes))
      refine ⟨0, fun fuel _ => ?_⟩
      simp only [devlinkRegionGet, Option.bind_eq_bind, hquery, Option.bind_some, ne_eq, herr,
        not_false_eq_true, if_true]
      rfl
  | @read new read del region hnew hok hread hdup hdel hnone =>
      obtain ⟨N, hN⟩ := feed_devlinkRegionDupCb e hdup
      refine ⟨N, fun fuel hfuel => ?_⟩
      have hacked : feed (some (devlinkRegionDupCb e fuel)) del.datas region =
          (some .ok, region) := by
        rw [hnone]
        rfl
      have hquery₁ := DlKernel.query_fed hnew (feed_none new.datas ([] : RegionBytes))
      have hquery₂ := DlKernel.query_fed hread (hN fuel hfuel)
      have hquery₃ := DlKernel.query_fed hdel hacked
      simp only [devlinkRegionGet, Option.bind_eq_bind, hquery₁, hok, Option.bind_some, ne_eq,
        not_true_eq_false, if_false, hquery₂, hquery₃]
      rfl

/-- The answers to the queries from the `n`-th on are about a region: NEW succeeds, the
replies to READ are put together, and DEL is only acknowledged. -/
structure DlKernel.Snapshots (kern : DlKernel) (n : Nat) (region : RegionBytes) : Prop where
  new : ∃ a, kern.answer n = some a ∧ a.status = 0
  read : ∃ a, kern.answer (n + 1) = some a ∧ DupReplies e (fun _ => true) a.datas [] region ∧
    a.status = 0
  del : ∃ a, kern.answer (n + 2) = some a ∧ a.datas = []

/-- A kernel that answers all three yields the region. -/
theorem DlKernel.Snapshots.gets {n : Nat} {region : RegionBytes} (h : kern.Snapshots e n region) :
    kern.Gets e n 0 region (n + 3) := by
  obtain ⟨new, hnew, hnewOk⟩ := h.new
  obtain ⟨read, hread, hdup, hreadOk⟩ := h.read
  obtain ⟨del, hdel, hnone⟩ := h.del
  have hgets := DlKernel.Gets.read hnew (DlAnswer.err_eq_zero hnewOk) hread hdup hdel hnone
  rwa [DlAnswer.err_eq_zero hreadOk] at hgets

/-- The devices from the `j`-th on are initialized one after another. -/
theorem devInits_snapshots {regions : Nat → RegionBytes} {regs : Nat → BitVec 16} {m j : Nat}
    (h : ∀ k, j ≤ k → k < j + m → kern.Snapshots e (3 + 3 * k) (regions k) ∧
      regionReg16 e (regions k) 0x1c = some (regs k)) {env : InitEnv}
    (hempty : ∀ k, j ≤ k → env.global1 k = []) :
    ∃ N global1 index, (∀ fuel, N ≤ fuel →
      devInits e kern fuel (List.range' j m) env ⟨[], 3 + 3 * j⟩ =
        some (0, { env with global1 := global1, index := index }, ⟨[], 3 + 3 * (j + m)⟩)) ∧
      (∀ k, j ≤ k → k < j + m → index k = bits (regs k) 0 5) ∧ ∀ k < j, index k = env.index k := by
  induction m generalizing j env with
  | zero =>
      exact ⟨0, env.global1, env.index, fun fuel _ => rfl, fun k hj hk => by omega, fun _ _ => rfl⟩
  | succ m ih =>
      obtain ⟨hsnapshot, hreg⟩ := h j le_rfl (by omega)
      obtain ⟨N, hN⟩ := devlinkRegionGet_gets e hsnapshot.gets
      let env₁ : InitEnv := { env with
        global1 := Function.update env.global1 j (regions j)
        index := Function.update env.index j (bits (regs j) 0 5) }
      have hempty₁ : ∀ k, j + 1 ≤ k → env₁.global1 k = [] := by
        intro k hk
        show Function.update env.global1 j (regions j) k = []
        rw [Function.update_of_ne (by omega)]
        exact hempty k (by omega)
      obtain ⟨M, global1, index, hM, hindex, hbefore⟩ :=
        ih (fun k hj hk => h k (by omega) (by omega)) hempty₁
      have hinit : ∀ fuel, max N M ≤ fuel → devInit e kern fuel j env ⟨[], 3 + 3 * j⟩ =
          some (0, env₁, ⟨[], 3 + 3 * (j + 1)⟩) := by
        intro fuel hfuel
        simp only [devInit, Option.bind_eq_bind, hempty j le_rfl, hN fuel (by omega),
          Option.bind_some, ne_eq, not_true_eq_false, if_false, hreg]
        rfl
      refine ⟨max N M, global1, index, fun fuel hfuel => ?_, fun k hj hk => ?_, fun k hk => ?_⟩
      · simp only [List.range'_succ, devInits, Option.bind_eq_bind, hinit fuel hfuel,
          Option.bind_some, ne_eq, not_true_eq_false, if_false, hM fuel (by omega)]
        congr 4
        omega
      · rcases Nat.lt_or_eq_of_le hj with hlt | rfl
        · exact hindex k hlt (by omega)
        · rw [hbefore j (by omega)]
          exact Function.update_self _ _ _
      · rw [hbefore k (by omega)]
        exact Function.update_of_ne (by omega) _ _

end Queries

/-! ## Discovery -/

/-- The answers to a run: the kernel has a family for devlink, and describes devices and
ports in replies that say all that is needed, with chips that are supported; and it has
snapshots of the global registers of each device. -/
structure DlKernel.Describes (kern : DlKernel) (family : BitVec 16) (infos ports : List (List Byte))
    (regions : Nat → RegionBytes) (regs : Nat → BitVec 16) : Prop where
  opened : kern.opened = 0
  family : ∃ a, kern.answer 0 = some a ∧ a.status = 0 ∧
    feed (some (getFamilyIdCb e kern.ctrlAttrMax)) a.datas InitEnv.init =
      (some .ok, { InitEnv.init with family := family })
  info : ∃ a, kern.answer 1 = some a ∧ a.status = 0 ∧ a.datas = infos
  port : ∃ a, kern.answer 2 = some a ∧ a.status = 0 ∧ a.datas = ports
  fine : ∀ mem ∈ infos, (infoSays e mem).Fine
  named : ∀ mem ∈ ports, (portSays e mem).isSome = true
  found : devsIn e infos ≠ []
  snapshot : ∀ k < (devsIn e infos).length, kern.Snapshots e (3 + 3 * k) (regions k)
  reg : ∀ k < (devsIn e infos).length, regionReg16 e (regions k) 0x1c = some (regs k)

/-- A run of `env_init` with all its queries. -/
theorem envInit_described {family : BitVec 16} {infos ports : List (List Byte)}
    {regions : Nat → RegionBytes} {regs : Nat → BitVec 16}
    (h : kern.Describes e family infos ports regions regs) :
    ∃ N global1 index devs,
      (∀ fuel, N ≤ fuel → envInit e kern fuel =
        some (0, ⟨family, .of (devsIn e infos), portsOf e (.of (devsIn e infos)) ports, global1,
          index⟩, devs, ⟨[], 3 + 3 * (devsIn e infos).length⟩)) ∧
      (∀ k < (devsIn e infos).length, index k = bits (regs k) 0 5) ∧
      devs.Represents (sortPass index (List.range (devsIn e infos).length)) := by
  obtain ⟨opening, hopening, hopeningOk, hfamily⟩ := h.family
  obtain ⟨info, hinfo, hinfoOk, hinfos⟩ := h.info
  obtain ⟨port, hport, hportOk, hports⟩ := h.port
  let env₁ : InitEnv := { InitEnv.init with family := family }
  let env₂ : InitEnv := { env₁ with found := .of (devsIn e infos) }
  let env₃ : InitEnv := { env₂ with ports := portsOf e (.of (devsIn e infos)) ports }
  have hdevices : feed (some (initDevCb e)) info.datas env₁ = (some .ok, env₂) := by
    have hnone : env₁.found = .of [] := rfl
    rw [hinfos]
    exact feed_initDevCb e h.fine hnone
  have hplaces : feed (some (envInitPortCb e)) port.datas env₂ = (some .ok, env₃) := by
    rw [hports]
    exact feed_envInitPortCb e h.named env₂
  have hquery₁ := DlKernel.query_fed hopening hfamily
  have hquery₂ := DlKernel.query_fed hinfo hdevices
  have hquery₃ := DlKernel.query_fed hport hplaces
  rw [DlAnswer.err_eq_zero hopeningOk] at hquery₁
  rw [DlAnswer.err_eq_zero hinfoOk] at hquery₂
  rw [DlAnswer.err_eq_zero hportOk] at hquery₃
  have hsnapshots : ∀ k, 0 ≤ k → k < 0 + (devsIn e infos).length →
      kern.Snapshots e (3 + 3 * k) (regions k) ∧ regionReg16 e (regions k) 0x1c = some (regs k) :=
    fun k _ hk => ⟨h.snapshot k (by omega), h.reg k (by omega)⟩
  have hempty : ∀ k, 0 ≤ k → env₃.global1 k = [] := fun _ _ => rfl
  obtain ⟨N, global1, index, hinits, hindex, -⟩ := devInits_snapshots e hsnapshots hempty
  obtain ⟨devs, ⟨M, hM⟩, hdevs⟩ :=
    envInitDevSort_halts index (envDevAdd_represents (List.nodup_range (n := (devsIn e infos).length)))
  let env₄ : InitEnv := { env₃ with global1 := global1, index := index }
  refine ⟨max N M, global1, index, devs, fun fuel hfuel => ?_,
    fun k hk => hindex k (by omega) (by omega), hdevs⟩
  obtain ⟨d, rfl⟩ := Nat.exists_eq_add_of_le (show M ≤ fuel by omega)
  have hopen : devlinkOpen e kern InitEnv.init ⟨[], 0⟩ = some (0, env₁, ⟨[], 1⟩) := by
    rw [devlinkOpen, if_neg (not_not.mpr h.opened)]
    exact hquery₁
  have hloop : devInits e kern (M + d) (List.range env₃.found.devs.length) env₃ ⟨[], 3⟩ =
      some (0, env₄, ⟨[], 3 + 3 * (devsIn e infos).length⟩) := by
    rw [List.range_eq_range', ← Nat.zero_add (devsIn e infos).length]
    exact hinits (M + d) (by omega)
  have hsort : (envInitDevSort env₄.index).run (M + d) (.entry env₄.devs) = .inr devs :=
    Machine.run_add_of_halted hM d
  simp only [envInit, Option.bind_eq_bind, hopen, Option.bind_some, ne_eq, not_true_eq_false,
    if_false, hquery₂, hquery₃, hloop, hsort]
  exact if_neg h.found

/-- The environment is what the kernel describes: the supported switches in the order of
the INFO replies, of which there are several or not; each port with the first device
that has its names, in the order of the PORT replies, and no other port; the index of
each device from its own register; and the queue after one pass of the sort.  Nothing
is left in the socket. -/
theorem envInit_discovers {family : BitVec 16} {infos ports : List (List Byte)}
    {regions : Nat → RegionBytes} {regs : Nat → BitVec 16}
    (h : kern.Describes e family infos ports regions regs) :
    ∃ N env devs, (∀ fuel, N ≤ fuel → envInit e kern fuel =
        some (0, env, devs, ⟨[], 3 + 3 * (devsIn e infos).length⟩)) ∧
      env.family = family ∧ env.found = .of (devsIn e infos) ∧
      env.ports = portsOf e (.of (devsIn e infos)) ports ∧
      (∀ k < (devsIn e infos).length, env.index k = bits (regs k) 0 5) ∧
      devs.Represents (sortPass env.index (List.range (devsIn e infos).length)) := by
  obtain ⟨N, global1, index, devs, hinit, hindex, hdevs⟩ := envInit_described e kern h
  exact ⟨N, _, devs, hinit, rfl, rfl, rfl, hindex, hdevs⟩

/-! ## Two switches -/

/-- The INFO reply of a switch. -/
def switchReply (dev : String) : List Byte :=
  attrsBytes .little [strAttribute devlinkAttrBusName "pci", strAttribute devlinkAttrDevName dev,
    strAttribute devlinkAttrInfoDriverName "mv88e6085",
    ⟨devlinkAttrInfoVersionFixed,
      attrsBytes .little [strAttribute devlinkAttrInfoVersionName "asic.id",
        strAttribute devlinkAttrInfoVersionValue "Marvell 88E6352"]⟩]

/-- The PORT reply of the port to the CPU. -/
def cpuPortReply (dev : String) : List Byte :=
  attrsBytes .little [strAttribute devlinkAttrBusName "pci", strAttribute devlinkAttrDevName dev,
    ⟨devlinkAttrPortIndex, Endian.little.put32 6⟩, ⟨devlinkAttrPortFlavour, Endian.little.put16 1⟩]

/-- A READ reply with one chunk, from the start of the region on. -/
def chunkReply (data : List Byte) : RegionReply :=
  ⟨[⟨devlinkAttrBusName, [0]⟩, ⟨devlinkAttrDevName, [0]⟩],
    [[⟨devlinkAttrRegionChunkData, data⟩,
      ⟨devlinkAttrRegionChunkAddr, Endian.little.put64 0⟩]], []⟩

/-- The chunk of a reply with data at address 0. -/
theorem chunkOf_chunkReply (data : List Byte) :
    chunkOf .little [⟨devlinkAttrRegionChunkData, data⟩,
      ⟨devlinkAttrRegionChunkAddr, Endian.little.put64 0⟩] = some ⟨0, data⟩ :=
  rfl

/-- Such a reply is well formed. -/
theorem chunkReply_valid {data : List Byte} (h : data.length ≤ 1024) :
    (chunkReply data).Valid .little where
  busName := by simp [chunkReply]
  devName := by simp [chunkReply]
  other := by
    simp only [chunkReply, List.append_nil, List.forall_mem_cons, List.not_mem_nil, false_implies,
      implies_true, and_true]
    exact ⟨⟨⟨by decide, by decide⟩, by decide⟩, ⟨by decide, by decide⟩, by decide⟩
  fits := by
    refine ⟨?_, show devlinkAttrRegionChunks &&& nlaTypeMask = devlinkAttrRegionChunks by decide⟩
    simp [chunkReply, chunksAttr, chunkAttr, attrsBytes, NlAttribute.bytes, align4]
    omega
  types := by
    simp [chunkReply, nlaTypeMask, devlinkAttrRegionChunkData, devlinkAttrRegionChunkAddr]
  addr := by
    simp [chunkReply, devlinkAttrRegionChunkData, devlinkAttrRegionChunkAddr]
  bounded := by
    intro c hc k hk
    obtain rfl := List.mem_singleton.mp hc
    rw [chunkOf_chunkReply] at hk
    cases hk
    simp only [RegionChunk.stop]
    omega

/-- Such a reply is taken. -/
theorem chunkReply_ok (data : List Byte) : ReplyOk (chunkReply data) := by
  refine ⟨by simp [chunkReply, devlinkAttrBusName, devlinkAttrDevName, devlinkAttrMax], ?_⟩
  intro c hc
  obtain rfl := List.mem_singleton.mp hc
  exact ⟨by simp [layout], rfl, by
    simp [layout, devlinkAttrRegionChunkData, devlinkAttrRegionChunkAddr, devlinkAttrMax]⟩

/-- The region is the data of the chunk. -/
theorem chunkReply_region {data : List Byte} (h : data.length ≤ 1024) :
    DupReplies .little (fun _ => true) [(chunkReply data).bytes .little] [] (data.map some) := by
  have halloc : ∀ n, (fun _ : Nat => true) n = true := fun _ => rfl
  have hvalids : ∀ r ∈ [chunkReply data], r.Valid .little := by
    simpa using chunkReply_valid h
  have hoks : ∀ r ∈ [chunkReply data], ReplyOk r := by
    simpa using chunkReply_ok data
  obtain ⟨region, hdup, hall⟩ := dupReplies_reassembled halloc hvalids hoks Reassembled.nil
  have hchunks : [] ++ allChunks .little [chunkReply data] = [⟨0, data⟩] := by
    simp only [allChunks, chunkReply, List.flatMap_cons, List.flatMap_nil, List.filterMap_cons,
      List.filterMap_nil, chunkOf_chunkReply, List.nil_append, List.append_nil]
  rw [hchunks] at hall
  obtain rfl : region = data.map some := by
    have hsize : region.length = data.length := by
      simpa [RegionChunk.stop] using hall.size
    refine List.ext_getElem? fun i => ?_
    rcases Nat.lt_or_ge i data.length with hi | hi
    · have hbyte := hall.bytes i data[i] (by simp [lastByte, RegionChunk.byte, hi])
      rw [hbyte, List.getElem?_map, List.getElem?_eq_getElem hi, Option.map_some]
    · rw [List.getElem?_eq_none (by omega), List.getElem?_eq_none (by simpa using hi)]
  exact hdup

/-- The global registers up to the one with the index of the device. -/
def indexBytes (index : Byte) : List Byte :=
  List.replicate 56 0 ++ [index, 0]

/-- A kernel with two switches, the first of which has the higher index, and more
answers behind those to `env_init`. -/
def twoSwitches (more : List DlAnswer) : DlKernel where
  opened := 0
  ctrlAttrMax := 10
  portid := 7
  seq _ := 1
  answer n := ([
    ⟨[[attrsBytes .little [⟨ctrlAttrFamilyId, Endian.little.put16 0x15⟩]]], [], false, 0⟩,
    ⟨[[switchReply "0", switchReply "1"]], [], true, 0⟩,
    ⟨[[cpuPortReply "1"], [cpuPortReply "2"]], [cpuPortReply "0"], true, 0⟩,
    ⟨[], [], false, 0⟩, ⟨[], [(chunkReply (indexBytes 5)).bytes .little], true, 0⟩, ⟨[], [], false, 0⟩,
    ⟨[], [], false, 0⟩, ⟨[], [(chunkReply (indexBytes 3)).bytes .little], true, 0⟩, ⟨[], [], false, 0⟩] ++ more)[n]?

/-- The INFO replies and the PORT replies. -/
def twoInfos : List (List Byte) :=
  [switchReply "0", switchReply "1"]

def twoPorts : List (List Byte) :=
  [cpuPortReply "1", cpuPortReply "2", cpuPortReply "0"]

/-- The global registers of the two, and the one with the index. -/
def twoRegions (k : Nat) : RegionBytes :=
  (indexBytes (if k = 0 then 5 else 3)).map some

def twoIndexRegs (k : Nat) : BitVec 16 :=
  if k = 0 then 5 else 3

theorem twoInfos_length : (devsIn .little twoInfos).length = 2 := by decide +kernel

/-- The kernel of the two switches describes them. -/
theorem twoSwitches_describes (more : List DlAnswer) :
    (twoSwitches more).Describes .little 0x15 twoInfos twoPorts twoRegions twoIndexRegs where
  opened := rfl
  family := by
    have hfamily : familyLoop .little 10
        (attrsBytes .little [⟨ctrlAttrFamilyId, Endian.little.put16 0x15⟩])
        (attrPlaces .little (attrsBytes .little [⟨ctrlAttrFamilyId, Endian.little.put16 0x15⟩]) 0
          (attrsBytes .little [⟨ctrlAttrFamilyId, Endian.little.put16 0x15⟩]).length) none =
        some 0 := by decide +kernel
    refine ⟨_, rfl, rfl, ?_⟩
    show feed (some (getFamilyIdCb .little 10))
      [attrsBytes .little [⟨ctrlAttrFamilyId, Endian.little.put16 0x15⟩]] InitEnv.init = _
    simp only [feed, mnlDispatch, getFamilyIdCb, hfamily]
    rfl
  info := ⟨_, rfl, rfl, rfl⟩
  port := ⟨_, rfl, rfl, rfl⟩
  fine := by
    have hzero : infoSays .little (switchReply "0") =
        .switch "Marvell 88E6352".toList "pci".toList "0".toList := by decide +kernel
    have hone : infoSays .little (switchReply "1") =
        .switch "Marvell 88E6352".toList "pci".toList "1".toList := by decide +kernel
    have hchip : (chips.find? fun chip => chip.id = "Marvell 88E6352".toList).isSome = true := by
      decide +kernel
    simp only [twoInfos, List.forall_mem_cons, hzero, hone, InfoSays.Fine, hchip, true_and]
    simp
  named := by decide +kernel
  found := by
    intro h
    have hlen := twoInfos_length
    rw [h] at hlen
    cases hlen
  snapshot := by
    intro k hk
    rw [twoInfos_length] at hk
    interval_cases k
    · exact ⟨⟨_, rfl, rfl⟩, ⟨_, rfl, chunkReply_region (by decide), rfl⟩, _, rfl, rfl⟩
    · exact ⟨⟨_, rfl, rfl⟩, ⟨_, rfl, chunkReply_region (by decide), rfl⟩, _, rfl, rfl⟩
  reg := by
    intro k hk
    rw [twoInfos_length] at hk
    interval_cases k <;> rfl

theorem sortPass_two {index : Nat → Int} (hzero : index 0 = 5) (hone : index 1 = 3) :
    sortPass index (List.range 2) = [1, 0] := by
  show sortPass index [0, 1] = [1, 0]
  simp [sortPass, moveBack, hzero, hone]

/-- Both switches are found, each with its port, and the second comes first. -/
theorem envInit_discovers_two : ∃ N env devs,
    (∀ fuel, N ≤ fuel → envInit .little (twoSwitches []) fuel = some (0, env, devs, ⟨[], 9⟩)) ∧
      env.found.multichip = true ∧ (env.ports 0).length = 1 ∧ (env.ports 1).length = 1 ∧
      devs.Represents [1, 0] := by
  obtain ⟨N, env, devs, hinit, -, hfound, hports, hindex, hdevs⟩ :=
    envInit_discovers .little (twoSwitches []) (twoSwitches_describes [])
  rw [twoInfos_length] at hinit hindex hdevs
  have hindex₀ : env.index 0 = 5 := (hindex 0 (by decide)).trans (by decide)
  have hindex₁ : env.index 1 = 3 := (hindex 1 (by decide)).trans (by decide)
  refine ⟨N, env, devs, hinit, ?_, ?_, ?_, ?_⟩
  · rw [hfound, FoundEnv.of, twoInfos_length]
    rfl
  · rw [hports]
    decide +kernel
  · rw [hports]
    decide +kernel
  · rwa [sortPass_two hindex₀ hindex₁] at hdevs

end MdioTools.Mvls
