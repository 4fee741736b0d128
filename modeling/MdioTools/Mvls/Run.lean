import MdioTools.Mvls.Document
import MdioTools.Mvls.Init

/-!
# A run of {lit}`mvls -j`

Behind the discovery, {lit}`main` prints the tables that are asked for.  Each region is
queried when its part of a table is printed, over the socket that the discovery has
used.  A query may be refused, and it may fail behind some replies; the tables go on
with the next device only if it does not, and the port overview goes on all the same.

Main results:

- Definition {lit}`mainJsonQueried`: the program with its queries.
- Definition {lit}`describedEnv`: the environment that the kernel describes.
- Theorem {lit}`mainJsonQueried_document`: the program prints the document of this
  environment.
-/

namespace MdioTools.Mvls

open Library Kernel Client

variable (e : Endian) (kern : DlKernel) (fuel : Nat)

/-! ## Devices in memory -/

/-- The data of a region as 16-bit words, as far as all bytes have been written. -/
def regionWords : RegionBytes → Region
  | some lo :: some hi :: region => e.get16 [lo, hi] :: regionWords region
  | _ => []

/-- `struct port` behind `env_init`. -/
structure LivePort where
  index : BitVec 32
  netdev : CStr
  regs : RegionBytes

/-- `struct dev` behind `env_init`. -/
structure LiveDev where
  chip : Chip
  index : Fin 32
  ports : List LivePort

/-- The device that `env_init` has found as the `k`-th; its index has five bits. -/
def InitEnv.liveDev (env : InitEnv) (k : Nat) : Option LiveDev :=
  env.found.devs[k]?.map fun dev => {
    chip := dev.chip
    index := Fin.ofNat 32 (env.index k).toNat
    ports := (env.ports k).map fun port => ⟨port.index, port.netdev, []⟩ }

/-- A port, with the words of its registers. -/
def LivePort.port (port : LivePort) : Port :=
  ⟨port.index, port.netdev, ⟨0, regionWords e port.regs⟩⟩

/-- A device, for the loops over its regions. -/
def LiveDev.dev (dev : LiveDev) : Dev :=
  ⟨dev.chip, dev.index, [], ⟨0, []⟩, ⟨0, []⟩, ⟨0, []⟩, ⟨0, []⟩⟩

/-! ## Printing with queries -/

/-- The loop over the devices of `env_json_atu` and its like.  The region is freed
behind the loop over its entries, so each query starts with an empty one. -/
def queryDevs {σ : Type} (loop : Dev → Region → σ → Option σ) :
    List LiveDev → σ → DlSocket → Option (σ × DlSocket)
  | [], s, sock => some (s, sock)
  | dev :: rest, s, sock => do
      let (err, region, sock) ← devlinkRegionGet e kern fuel [] sock
      if err ≠ 0 then return (s, sock)
      let s ← loop dev.dev (regionWords e region) s
      queryDevs loop rest s sock

/-- `env_json_atu`. -/
def envJsonAtuQueried (devs : List LiveDev) (sock : DlSocket) : Option (CStr × DlSocket) := do
  let (t, sock) ← queryDevs e kern fuel jsonAtuLoop devs ⟨true, []⟩ sock
  return ("\"atu\":[".toList ++ t.out ++ [']'], sock)

/-- `env_json_vtu`. -/
def envJsonVtuQueried (devs : List LiveDev) (sock : DlSocket) : Option (CStr × DlSocket) := do
  let (s, sock) ← queryDevs e kern fuel jsonVtuLoop devs ⟨0, 0, 0, ⟨true, []⟩, []⟩ sock
  return ("\"vtu\":[".toList ++ s.text.out ++ [']'], sock)

/-- `env_json_stu`. -/
def envJsonStuQueried (devs : List LiveDev) (sock : DlSocket) : Option (CStr × DlSocket) := do
  let (s, sock) ← queryDevs e kern fuel jsonStuLoop devs ⟨0, 0, 0, 0, ⟨true, []⟩, []⟩ sock
  return ("\"stu\":[".toList ++ s.text.out ++ [']'], sock)

/-- `port_load_regs`. -/
def portLoadRegs (port : LivePort) (sock : DlSocket) : Option (Int × LivePort × DlSocket) :=
  if port.regs.length ≠ 0 then some (0, port, sock)
  else do
    let (err, regs, sock) ← devlinkRegionGet e kern fuel port.regs sock
    return (err, { port with regs := regs }, sock)

/-- The loop of `env_json_ports` over the ports of a device, which does not look at the
result of a query. -/
def queryPorts (dev : LiveDev) :
    List LivePort → CommaText → DlSocket → Option (CommaText × DlSocket)
  | [], t, sock => some (t, sock)
  | port :: rest, t, sock => do
      let (_, port, sock) ← portLoadRegs e kern fuel port sock
      let obj ← jsonPort dev.dev (port.port e)
      queryPorts dev rest (t.print obj.text) sock

/-- The loop of `env_json_ports` over the devices. -/
def queryPortDevs : List LiveDev → CommaText → DlSocket → Option (CommaText × DlSocket)
  | [], t, sock => some (t, sock)
  | dev :: rest, t, sock => do
      let (t, sock) ← queryPorts e kern fuel dev dev.ports t sock
      queryPortDevs rest t sock

/-- `env_json_ports`. -/
def envJsonPortsQueried (devs : List LiveDev) (sock : DlSocket) : Option (CStr × DlSocket) := do
  let (t, sock) ← queryPortDevs e kern fuel devs ⟨true, []⟩ sock
  return ("\"ports\":[".toList ++ t.out ++ [']'], sock)

/-- A printer that is called under a condition. -/
def printIf (c : Bool) (print : DlSocket → Option (CStr × DlSocket)) (sock : DlSocket) :
    Option (CStr × DlSocket) :=
  if c then print sock else some ([], sock)

/-- `main` with `printer_json` behind `env_init`. -/
def printQueried (devs : List LiveDev) (sock : DlSocket) :
    List CStr → Option (MainOut × DlSocket)
  | [] => do
      let (vtu, sock) ← envJsonVtuQueried e kern fuel devs sock
      let (stu, sock) ← envJsonStuQueried e kern fuel devs sock
      let (atu, sock) ← envJsonAtuQueried e kern fuel devs sock
      let (ports, sock) ← envJsonPortsQueried e kern fuel devs sock
      return (⟨jsonPrologue ++ vtu ++ jsonJoin ++ stu ++ jsonJoin ++ atu ++ jsonJoin ++ ports ++
        jsonEpilogue, 0⟩, sock)
  | cmd :: rest => do
      let (ports, sock) ← printIf (cmd = "port".toList) (envJsonPortsQueried e kern fuel devs) sock
      let (atu, sock) ← printIf (cmd = "atu".toList) (envJsonAtuQueried e kern fuel devs) sock
      let (vtu, sock) ← printIf (cmd = "vtu".toList) (envJsonVtuQueried e kern fuel devs) sock
      let (stu, sock) ← printIf (cmd = "stu".toList) (envJsonStuQueried e kern fuel devs) sock
      let out := jsonPrologue ++ ports ++ atu ++ vtu ++ stu
      match rest with
      | [] => return (⟨out ++ jsonEpilogue, 0⟩, sock)
      | index :: _ =>
          if cmd = "pvt".toList ∧
              (envDevGet ⟨devs.map LiveDev.dev⟩ (BitVec.ofInt 32 (strtol index))).isNone then
            return (⟨out, 1⟩, sock)
          else return (⟨out ++ jsonEpilogue, 0⟩, sock)

/-- `main` with `printer_json`, for the operands of the command line: what it leaves, and
the socket. -/
def mainJsonQueried (args : List CStr) : Option (MainOut × DlSocket) := do
  let (err, env, queue, sock) ← envInit e kern fuel
  if err ≠ 0 then return (⟨[], 1⟩, sock)
  let ks ← queue.foreach fuel queue.first
  printQueried e kern fuel (ks.filterMap env.liveDev) sock args

/-! ## What the kernel describes -/

/-- What queries for regions leave: for the registers of the `i`-th port of the `k`-th
device, and for the tables of the `k`-th device. -/
structure DlContents where
  regs : Nat → Nat → RegionGet
  atu : Nat → RegionGet
  vtu : Nat → RegionGet
  stu : Nat → RegionGet

/-- The `k`-th device that the kernel describes.  The PVT is never queried. -/
def describedDev (infos ports : List (List Byte)) (regs : Nat → BitVec 16) (c : DlContents)
    (k : Nat) : Option Dev :=
  (devsIn e infos)[k]?.map fun dev => {
    chip := dev.chip
    index := Fin.ofNat 32 (bits (regs k) 0 5)
    ports := (portsOf e (.of (devsIn e infos)) ports k).zipIdx.map fun port =>
      ⟨port.1.index, port.1.netdev, c.regs k port.2⟩
    atu := c.atu k
    vtu := c.vtu k
    stu := c.stu k
    pvt := ⟨0, []⟩ }

/-- The environment that the kernel describes: the devices in the order of the queue. -/
def describedEnv (infos ports : List (List Byte)) (regs : Nat → BitVec 16) (c : DlContents) : Env :=
  ⟨(sortPass (fun k => (bits (regs k) 0 5 : Int)) (List.range (devsIn e infos).length)).filterMap
    (describedDev e infos ports regs c)⟩

/-- What the queries of a loop over the devices leave, up to the first that fails. -/
def asked (get : Dev → RegionGet) : List Dev → List RegionGet
  | [] => []
  | dev :: rest => get dev :: if (get dev).err ≠ 0 then [] else asked get rest

/-- What the queries of the port overview leave. -/
def portsAsked (devs : List Dev) : List RegionGet :=
  devs.flatMap fun dev => dev.ports.map Port.regs

/-- What the queries leave that the operands lead to. -/
def askedFor (env : Env) : List CStr → List RegionGet
  | [] => asked Dev.vtu env.devs ++ asked Dev.stu env.devs ++ asked Dev.atu env.devs ++
      portsAsked env.devs
  | cmd :: _ =>
      (if cmd = "port".toList then portsAsked env.devs else []) ++
      (if cmd = "atu".toList then asked Dev.atu env.devs else []) ++
      (if cmd = "vtu".toList then asked Dev.vtu env.devs else []) ++
      (if cmd = "stu".toList then asked Dev.stu env.devs else [])

/-- The answers from the `n`-th to the `m`-th are to queries for regions, one after
another. -/
inductive DlKernel.Answers (kern : DlKernel) : List RegionGet → Nat → Nat → Prop
  | nil (n) : kern.Answers [] n n
  | cons {err region gets n m k} (h : kern.Gets e n err region m)
      (hrest : kern.Answers gets m k) : kern.Answers (⟨err, regionWords e region⟩ :: gets) n k

variable {kern}

/-- Answers to two lists of queries are given one list after the other. -/
theorem DlKernel.Answers.split {front back : List RegionGet} {n m : Nat}
    (h : kern.Answers e (front ++ back) n m) :
    ∃ k, kern.Answers e front n k ∧ kern.Answers e back k m := by
  induction front generalizing n with
  | nil => exact ⟨n, .nil n, h⟩
  | cons get front ih =>
      cases h with
      | cons hget hrest =>
          obtain ⟨k, hfront, hback⟩ := ih hrest
          exact ⟨k, .cons hget hfront, hback⟩

/-! ## The loops -/

/-- A port and a device before any of their regions has been queried. -/
def Port.live (port : Port) : LivePort :=
  ⟨port.index, port.netdev, []⟩

def Dev.live (dev : Dev) : LiveDev :=
  ⟨dev.chip, dev.index, dev.ports.map Port.live⟩

/-- A loop over the devices that queries their regions does what it does on the regions
that the queries leave. -/
theorem queryDevs_answered {σ : Type} (loop : Dev → Region → σ → Option σ)
    (hloop : ∀ dev, loop dev.live.dev = loop dev) {get : Dev → RegionGet} {devs : List Dev}
    {n m : Nat} (h : kern.Answers e (asked get devs) n m) (s : σ) :
    ∃ N, ∀ fuel, N ≤ fuel → queryDevs e kern fuel loop (devs.map Dev.live) s ⟨[], n⟩ =
      (dumpDevs (fun s _ => s) get loop devs s).map fun s => (s, ⟨[], m⟩) := by
  induction devs generalizing s n with
  | nil =>
      cases h
      exact ⟨0, fun _ _ => rfl⟩
  | cons dev devs ih =>
      rw [asked] at h
      generalize hget : get dev = g at h
      cases h with
      | @cons err region gets n k m hgets hrest =>
          obtain ⟨N, hN⟩ := devlinkRegionGet_gets e hgets
          by_cases herr : err = 0
          · rw [if_neg (not_not.mpr herr)] at hrest
            cases hs : loop dev (regionWords e region) s with
            | none =>
                refine ⟨N, fun fuel hfuel => ?_⟩
                simp only [List.map_cons, queryDevs, Option.bind_eq_bind, hN fuel hfuel,
                  Option.bind_some, ne_eq, herr, not_true_eq_false, if_false, hloop, hs,
                  Option.bind_none, dumpDevs, hget, Option.map_none]
            | some s' =>
                obtain ⟨M, hM⟩ := ih hrest s'
                refine ⟨max N M, fun fuel hfuel => ?_⟩
                simp only [List.map_cons, queryDevs, Option.bind_eq_bind, hN fuel (by omega),
                  Option.bind_some, ne_eq, herr, not_true_eq_false, if_false, hloop, hs,
                  hM fuel (by omega), dumpDevs, hget]
          · rw [if_pos herr] at hrest
            cases hrest
            refine ⟨N, fun fuel hfuel => ?_⟩
            simp only [List.map_cons, queryDevs, Option.bind_eq_bind, hN fuel hfuel,
              Option.bind_some, ne_eq, herr, not_false_eq_true, if_true, dumpDevs, hget,
              Option.map_some]
            rfl

/-- The registers of a port are loaded from an answer. -/
theorem portLoadRegs_answered (port : Port) {err : Int} {region : RegionBytes} {n m : Nat}
    (h : kern.Gets e n err region m) : ∃ N, ∀ fuel, N ≤ fuel →
      portLoadRegs e kern fuel port.live ⟨[], n⟩ =
        some (err, ⟨port.index, port.netdev, region⟩, ⟨[], m⟩) := by
  obtain ⟨N, hN⟩ := devlinkRegionGet_gets e h
  refine ⟨N, fun fuel hfuel => ?_⟩
  have hempty : ¬port.live.regs.length ≠ 0 := by simp [Port.live]
  have hget : devlinkRegionGet e kern fuel port.live.regs ⟨[], n⟩ = some (err, region, ⟨[], m⟩) :=
    hN fuel hfuel
  rw [portLoadRegs, if_neg hempty]
  simp only [Option.bind_eq_bind, hget, Option.bind_some]
  rfl

/-- The ports of a device. -/
theorem queryPorts_answered (dev : Dev) {ports : List Port} {n m : Nat}
    (h : kern.Answers e (ports.map Port.regs) n m) (t : CommaText) :
    ∃ N, ∀ fuel, N ≤ fuel → queryPorts e kern fuel dev.live (ports.map Port.live) t ⟨[], n⟩ =
      (ports.mapM (jsonPort dev)).map fun objs =>
        (objs.foldl (fun t obj => t.print obj.text) t, ⟨[], m⟩) := by
  induction ports generalizing t n with
  | nil =>
      cases h
      exact ⟨0, fun _ _ => rfl⟩
  | cons port ports ih =>
      rw [List.map_cons] at h
      generalize hregs : port.regs = g at h
      cases h with
      | @cons err region gets n k m hgets hrest =>
          obtain ⟨N, hN⟩ := portLoadRegs_answered e port hgets
          have hobj : jsonPort dev.live.dev (LivePort.port e ⟨port.index, port.netdev, region⟩) =
              jsonPort dev port := by
            unfold jsonPort LivePort.port
            rw [hregs]
            rfl
          cases hp : jsonPort dev port with
          | none =>
              refine ⟨N, fun fuel hfuel => ?_⟩
              simp only [List.map_cons, queryPorts, Option.bind_eq_bind, hN fuel hfuel,
                Option.bind_some, hobj, hp, Option.bind_none, List.mapM_cons, Option.map_none]
          | some obj =>
              obtain ⟨M, hM⟩ := ih hrest (t.print obj.text)
              refine ⟨max N M, fun fuel hfuel => ?_⟩
              simp only [List.map_cons, queryPorts, Option.bind_eq_bind, hN fuel (by omega),
                Option.bind_some, hobj, hp, hM fuel (by omega), List.mapM_cons]
              cases ports.mapM (jsonPort dev) <;> rfl

/-- The ports of all devices. -/
theorem queryPortDevs_answered {devs : List Dev} {n m : Nat}
    (h : kern.Answers e (portsAsked devs) n m) (t : CommaText) :
    ∃ N, ∀ fuel, N ≤ fuel → queryPortDevs e kern fuel (devs.map Dev.live) t ⟨[], n⟩ =
      (devs.mapM fun (dev : Dev) => dev.ports.mapM (jsonPort dev)).map fun groups =>
        (groups.flatten.foldl (fun t obj => t.print obj.text) t, ⟨[], m⟩) := by
  induction devs generalizing t n with
  | nil =>
      cases h
      exact ⟨0, fun _ _ => rfl⟩
  | cons dev devs ih =>
      rw [portsAsked, List.flatMap_cons] at h
      obtain ⟨k, hports, hrest⟩ := h.split
      obtain ⟨N, hN⟩ := queryPorts_answered e dev hports t
      cases hp : dev.ports.mapM (jsonPort dev) with
      | none =>
          refine ⟨N, fun fuel hfuel => ?_⟩
          have hloop : queryPorts e kern fuel dev.live dev.live.ports t ⟨[], n⟩ = none := by
            have hqueried := hN fuel hfuel
            rwa [hp, Option.map_none] at hqueried
          simp only [List.map_cons, queryPortDevs, Option.bind_eq_bind, hloop, Option.bind_none,
            List.mapM_cons, hp, Option.map_none]
      | some objs =>
          obtain ⟨M, hM⟩ := ih hrest (objs.foldl (fun t obj => t.print obj.text) t)
          refine ⟨max N M, fun fuel hfuel => ?_⟩
          have hloop : queryPorts e kern fuel dev.live dev.live.ports t ⟨[], n⟩ =
              some (objs.foldl (fun t obj => t.print obj.text) t, ⟨[], k⟩) := by
            have hqueried := hN fuel (by omega)
            rwa [hp, Option.map_some] at hqueried
          simp only [List.map_cons, queryPortDevs, Option.bind_eq_bind, hloop, Option.bind_some,
            hM fuel (by omega), List.mapM_cons, hp]
          cases devs.mapM fun (dev : Dev) => dev.ports.mapM (jsonPort dev) with
          | none => rfl
          | some groups => simp [List.foldl_append]

/-! ## The tables -/

section Tables

variable {env : Env} {n m : Nat}

/-- With all answers the ATU is printed as if it had been loaded. -/
theorem envJsonAtuQueried_answered (h : kern.Answers e (asked Dev.atu env.devs) n m) :
    ∃ N, ∀ fuel, N ≤ fuel → envJsonAtuQueried e kern fuel (env.devs.map Dev.live) ⟨[], n⟩ =
      (envJsonAtu env).map fun out => (out, ⟨[], m⟩) := by
  obtain ⟨N, hN⟩ := queryDevs_answered e jsonAtuLoop (fun _ => rfl) h ⟨true, []⟩
  refine ⟨N, fun fuel hfuel => ?_⟩
  simp only [envJsonAtuQueried, hN fuel hfuel, envJsonAtu]
  cases dumpDevs (fun t _ => t) Dev.atu jsonAtuLoop env.devs ⟨true, []⟩ <;> rfl

/-- With all answers the VTU is printed as if it had been loaded. -/
theorem envJsonVtuQueried_answered (h : kern.Answers e (asked Dev.vtu env.devs) n m) :
    ∃ N, ∀ fuel, N ≤ fuel → envJsonVtuQueried e kern fuel (env.devs.map Dev.live) ⟨[], n⟩ =
      (envJsonVtu env).map fun out => (out, ⟨[], m⟩) := by
  obtain ⟨N, hN⟩ := queryDevs_answered e jsonVtuLoop (fun _ => rfl) h ⟨0, 0, 0, ⟨true, []⟩, []⟩
  refine ⟨N, fun fuel hfuel => ?_⟩
  simp only [envJsonVtuQueried, hN fuel hfuel, envJsonVtu, jsonVtuRun]
  cases dumpDevs (fun s _ => s) Dev.vtu jsonVtuLoop env.devs ⟨0, 0, 0, ⟨true, []⟩, []⟩ <;> rfl

/-- With all answers the STU is printed as if it had been loaded. -/
theorem envJsonStuQueried_answered (h : kern.Answers e (asked Dev.stu env.devs) n m) :
    ∃ N, ∀ fuel, N ≤ fuel → envJsonStuQueried e kern fuel (env.devs.map Dev.live) ⟨[], n⟩ =
      (envJsonStu env).map fun out => (out, ⟨[], m⟩) := by
  obtain ⟨N, hN⟩ := queryDevs_answered e jsonStuLoop (fun _ => rfl) h ⟨0, 0, 0, 0, ⟨true, []⟩, []⟩
  refine ⟨N, fun fuel hfuel => ?_⟩
  simp only [envJsonStuQueried, hN fuel hfuel, envJsonStu, jsonStuRun]
  cases dumpDevs (fun s _ => s) Dev.stu jsonStuLoop env.devs ⟨0, 0, 0, 0, ⟨true, []⟩, []⟩ <;> rfl

/-- With all answers the ports are printed as if they had been loaded. -/
theorem envJsonPortsQueried_answered (h : kern.Answers e (portsAsked env.devs) n m) :
    ∃ N, ∀ fuel, N ≤ fuel → envJsonPortsQueried e kern fuel (env.devs.map Dev.live) ⟨[], n⟩ =
      (envJsonPorts env).map fun out => (out, ⟨[], m⟩) := by
  obtain ⟨N, hN⟩ := queryPortDevs_answered e h ⟨true, []⟩
  refine ⟨N, fun fuel hfuel => ?_⟩
  simp only [envJsonPortsQueried, hN fuel hfuel, envJsonPorts, jsonPortObjs]
  cases env.devs.mapM fun (dev : Dev) => dev.ports.mapM (jsonPort dev) <;> rfl

/-- A device that is asked for is found by its index alone. -/
theorem envDevGet_live (index : BitVec 32) :
    (envDevGet ⟨(env.devs.map Dev.live).map LiveDev.dev⟩ index).isNone =
      (envDevGet env index).isNone := by
  unfold envDevGet
  rw [List.map_map, List.find?_map, Option.isNone_map]
  rfl

/-- A table that is printed under a condition. -/
theorem printIf_answered {c : Prop} [Decidable c] {gets : List RegionGet}
    {queried : Nat → DlSocket → Option (CStr × DlSocket)} {printed : Option CStr}
    (h : kern.Answers e (if c then gets else []) n m)
    (hc : kern.Answers e gets n m → ∃ N, ∀ fuel, N ≤ fuel →
      queried fuel ⟨[], n⟩ = printed.map fun out => (out, ⟨[], m⟩)) :
    ∃ N, ∀ fuel, N ≤ fuel → printIf c (queried fuel) ⟨[], n⟩ =
      (if c then printed else some []).map fun out => (out, ⟨[], m⟩) := by
  by_cases hcond : c
  · simp only [printIf, hcond, if_true, decide_true] at h ⊢
    exact hc h
  · simp only [printIf, hcond, if_false, decide_false, Bool.false_eq_true] at h ⊢
    cases h
    exact ⟨0, fun _ _ => rfl⟩

/-- The tables of `main` one after another. -/
theorem mainJson_cons (env : Env) (cmd : CStr) (rest : List CStr) :
    mainJson env (cmd :: rest) =
      (if cmd = "port".toList then envJsonPorts env else some []).bind fun ports =>
      (if cmd = "atu".toList then envJsonAtu env else some []).bind fun atu =>
      (if cmd = "vtu".toList then envJsonVtu env else some []).bind fun vtu =>
      (if cmd = "stu".toList then envJsonStu env else some []).bind fun stu =>
        match rest with
        | [] => some ⟨jsonPrologue ++ ports ++ atu ++ vtu ++ stu ++ jsonEpilogue, 0⟩
        | index :: _ =>
            if cmd = "pvt".toList ∧ (envDevGet env (BitVec.ofInt 32 (strtol index))).isNone then
              some ⟨jsonPrologue ++ ports ++ atu ++ vtu ++ stu, 1⟩
            else some ⟨jsonPrologue ++ ports ++ atu ++ vtu ++ stu ++ jsonEpilogue, 0⟩ := by
  rw [mainJson]
  by_cases hport : cmd = "port".toList <;> by_cases hatu : cmd = "atu".toList <;>
    by_cases hvtu : cmd = "vtu".toList <;> by_cases hstu : cmd = "stu".toList <;>
    simp only [hport, hatu, hvtu, hstu, if_true, if_false] <;> rfl

/-- `main` behind `env_init` prints what it prints on the regions that the queries
leave. -/
theorem printQueried_answered {args : List CStr} (h : kern.Answers e (askedFor env args) n m) :
    ∃ N, ∀ fuel, N ≤ fuel → printQueried e kern fuel (env.devs.map Dev.live) ⟨[], n⟩ args =
      (mainJson env args).map fun out => (out, ⟨[], m⟩) := by
  rcases args with _ | ⟨cmd, rest⟩
  · rw [askedFor, List.append_assoc, List.append_assoc] at h
    obtain ⟨n₁, hvtu, h⟩ := h.split
    obtain ⟨n₂, hstu, h⟩ := h.split
    obtain ⟨n₃, hatu, hports⟩ := h.split
    obtain ⟨N₁, hN₁⟩ := envJsonVtuQueried_answered e hvtu
    obtain ⟨N₂, hN₂⟩ := envJsonStuQueried_answered e hstu
    obtain ⟨N₃, hN₃⟩ := envJsonAtuQueried_answered e hatu
    obtain ⟨N₄, hN₄⟩ := envJsonPortsQueried_answered e hports
    refine ⟨max (max N₁ N₂) (max N₃ N₄), fun fuel hfuel => ?_⟩
    simp only [printQueried, mainJson, Option.bind_eq_bind, hN₁ fuel (by omega)]
    rcases envJsonVtu env with _ | vtu
    · rfl
    simp only [Option.map_some, Option.bind_some, hN₂ fuel (by omega)]
    rcases envJsonStu env with _ | stu
    · rfl
    simp only [Option.map_some, Option.bind_some, hN₃ fuel (by omega)]
    rcases envJsonAtu env with _ | atu
    · rfl
    simp only [Option.map_some, Option.bind_some, hN₄ fuel (by omega)]
    cases envJsonPorts env <;> rfl
  · rw [askedFor, List.append_assoc, List.append_assoc] at h
    obtain ⟨n₁, hports, h⟩ := h.split
    obtain ⟨n₂, hatu, h⟩ := h.split
    obtain ⟨n₃, hvtu, hstu⟩ := h.split
    obtain ⟨N₁, hN₁⟩ := printIf_answered e hports (envJsonPortsQueried_answered e)
    obtain ⟨N₂, hN₂⟩ := printIf_answered e hatu (envJsonAtuQueried_answered e)
    obtain ⟨N₃, hN₃⟩ := printIf_answered e hvtu (envJsonVtuQueried_answered e)
    obtain ⟨N₄, hN₄⟩ := printIf_answered e hstu (envJsonStuQueried_answered e)
    refine ⟨max (max N₁ N₂) (max N₃ N₄), fun fuel hfuel => ?_⟩
    rw [mainJson_cons]
    simp only [printQueried, Option.bind_eq_bind, envDevGet_live, hN₁ fuel (by omega)]
    rcases (if cmd = "port".toList then envJsonPorts env else some []) with _ | ports
    · rfl
    simp only [Option.map_some, Option.bind_some, hN₂ fuel (by omega)]
    rcases (if cmd = "atu".toList then envJsonAtu env else some []) with _ | atu
    · rfl
    simp only [Option.map_some, Option.bind_some, hN₃ fuel (by omega)]
    rcases (if cmd = "vtu".toList then envJsonVtu env else some []) with _ | vtu
    · rfl
    simp only [Option.map_some, Option.bind_some, hN₄ fuel (by omega)]
    rcases (if cmd = "stu".toList then envJsonStu env else some []) with _ | stu
    · rfl
    rcases rest with _ | ⟨index, rest⟩
    · rfl
    · simp only [Option.map_some, Option.bind_some]
      split_ifs <;> rfl

end Tables

/-! ## The run -/

/-- The devices of the environment are those that `env_init` has found. -/
theorem describedEnv_live {infos ports : List (List Byte)} {regs : Nat → BitVec 16}
    (c : DlContents) {index : Nat → Int} {family : BitVec 16} {global1 : Nat → RegionBytes}
    (hindex : ∀ k < (devsIn e infos).length, index k = bits (regs k) 0 5) :
    (sortPass index (List.range (devsIn e infos).length)).filterMap
        (InitEnv.liveDev ⟨family, .of (devsIn e infos), portsOf e (.of (devsIn e infos)) ports,
          global1, index⟩) =
      (describedEnv e infos ports regs c).devs.map Dev.live := by
  have hsort : sortPass index (List.range (devsIn e infos).length) =
      sortPass (fun k => (bits (regs k) 0 5 : Int)) (List.range (devsIn e infos).length) :=
    sortPass_congr fun k hk => hindex k (List.mem_range.mp hk)
  rw [describedEnv, hsort, List.map_filterMap]
  refine List.filterMap_congr fun k hk => ?_
  have hk : k < (devsIn e infos).length :=
    List.mem_range.mp ((sortPass_perm _ _).mem_iff.mp hk)
  simp only [InitEnv.liveDev, FoundEnv.of, describedDev, Option.map_map, hindex k hk]
  congr 1
  funext dev
  simp only [Dev.live, Port.live, List.map_map, Function.comp_def, Int.toNat_natCast,
    LiveDev.mk.injEq, true_and]
  conv_lhs => rw [← List.zipIdx_map_fst 0 (portsOf e _ ports k), List.map_map]
  rfl

/-- `mvls -j` prints the document of the environment that the kernel describes: with its
devices in the order of the queue, each with its own ports, and with what the answers
leave in the regions that are asked for, whether the queries succeed or not.  No answer
is left in the socket. -/
theorem mainJsonQueried_document {family : BitVec 16} {infos ports : List (List Byte)}
    {regions : Nat → RegionBytes} {regs : Nat → BitVec 16}
    (h : kern.Describes e family infos ports regions regs) (c : DlContents) (args : List CStr)
    {m : Nat} (hanswers : kern.Answers e (askedFor (describedEnv e infos ports regs c) args)
      (3 + 3 * (devsIn e infos).length) m) :
    ∃ N, (∀ fuel, N ≤ fuel → mainJsonQueried e kern fuel args =
        (mainJson (describedEnv e infos ports regs c) args).map fun res => (res, ⟨[], m⟩)) ∧
      (JsonOk (describedEnv e infos ports regs c) args → ∃ out tables,
        (∀ fuel, N ≤ fuel → mainJsonQueried e kern fuel args = some (⟨out, 0⟩, ⟨[], m⟩)) ∧
          mainTables (describedEnv e infos ports regs c) args = some tables ∧
          IsJson out (documentJson tables)) := by
  obtain ⟨N, global1, index, queue, hinit, hindex, hqueue⟩ := envInit_described e kern h
  obtain ⟨M, hM⟩ := printQueried_answered e hanswers
  rw [← describedEnv_live e c hindex] at hM
  have hrun : ∀ fuel, max (max N M) (devsIn e infos).length ≤ fuel →
      mainJsonQueried e kern fuel args =
        (mainJson (describedEnv e infos ports regs c) args).map fun res => (res, ⟨[], m⟩) := by
    intro fuel hfuel
    have hlen : (sortPass index (List.range (devsIn e infos).length)).length ≤ fuel := by
      rw [(sortPass_perm index _).length_eq, List.length_range]
      omega
    have hforeach : queue.foreach fuel queue.first =
        some (sortPass index (List.range (devsIn e infos).length)) := by
      rw [hqueue.first_eq]
      exact TailQueue.Represents.foreach_eq (a := []) hqueue hlen
    simp only [mainJsonQueried, Option.bind_eq_bind, hinit fuel (by omega), Option.bind_some, ne_eq,
      not_true_eq_false, if_false, hforeach]
    exact hM fuel (by omega)
  refine ⟨_, hrun, fun hok => ?_⟩
  obtain ⟨⟨out, status⟩, tables, hmain, hstatus, htables, hjson⟩ := hok.isJson
  cases hstatus
  refine ⟨out, tables, fun fuel hfuel => ?_, htables, hjson⟩
  rw [hrun fuel hfuel, hmain, Option.map_some]

/-! ## Two switches -/

/-- The two switches refuse to show their tables, and the registers of ports are 0. -/
def twoContents : DlContents where
  regs _ _ := ⟨0, List.replicate 32 0⟩
  atu _ := ⟨-1, []⟩
  vtu _ := ⟨-1, []⟩
  stu _ := ⟨-1, []⟩

/-- Answers that say so. -/
def tableAnswers : List DlAnswer :=
  [⟨[], [], false, -95⟩, ⟨[], [], false, -95⟩, ⟨[], [], false, -95⟩,
    ⟨[], [], false, 0⟩, ⟨[], [(chunkReply (List.replicate 64 0)).bytes .little], true, 0⟩,
    ⟨[], [], false, 0⟩,
    ⟨[], [], false, 0⟩, ⟨[], [(chunkReply (List.replicate 64 0)).bytes .little], true, 0⟩,
    ⟨[], [], false, 0⟩]

/-- One of the two devices, with its port to the CPU. -/
def twoDev (index : Fin 32) : Dev :=
  ⟨chip88E6352, index, [⟨6, "(cpu)".toList, ⟨0, List.replicate 32 0⟩⟩], ⟨-1, []⟩, ⟨-1, []⟩,
    ⟨-1, []⟩, ⟨0, []⟩⟩

/-- The two switches in the order of their indices. -/
theorem describedEnv_two :
    describedEnv .little twoInfos twoPorts twoIndexRegs twoContents = ⟨[twoDev 3, twoDev 5]⟩ := by
  have hzero : infoSays .little (switchReply "0") =
      .switch "Marvell 88E6352".toList "pci".toList "0".toList := by decide +kernel
  have hone : infoSays .little (switchReply "1") =
      .switch "Marvell 88E6352".toList "pci".toList "1".toList := by decide +kernel
  have hchip : (chips.find? fun chip => chip.id = "Marvell 88E6352".toList) = some chip88E6352 := by
    rfl
  have hdevs : devsIn .little twoInfos =
      [⟨"pci".toList, "0".toList, chip88E6352⟩, ⟨"pci".toList, "1".toList, chip88E6352⟩] := by
    simp only [devsIn, twoInfos, List.filterMap_cons, hzero, hone, InfoSays.dev, hchip,
      Option.map_some, List.filterMap_nil]
  have hsort : sortPass (fun k => (bits (twoIndexRegs k) 0 5 : Int)) (List.range 2) = [1, 0] :=
    sortPass_two rfl rfl
  have hports : ∀ k < 2, portsOf .little (.of (devsIn .little twoInfos)) twoPorts k =
      [⟨6, 1, "(cpu)".toList⟩] := by
    decide +kernel
  have hdev : ∀ k < 2, describedDev .little twoInfos twoPorts twoIndexRegs twoContents k =
      some (twoDev (Fin.ofNat 32 (bits (twoIndexRegs k) 0 5))) := by
    intro k hk
    rw [describedDev, hports k hk, hdevs]
    interval_cases k <;> rfl
  rw [describedEnv, twoInfos_length, hsort, List.filterMap_cons, hdev 1 (by decide),
    List.filterMap_cons, hdev 0 (by decide)]
  rfl

/-- The two switches meet what the printer relies on. -/
theorem twoEnv_ok : JsonOk ⟨[twoDev 3, twoDev 5]⟩ [] where
  ports _ := by
    simp [PortsLoaded, twoDev]
  names _ := by
    have hclean : IsClean "(cpu)".toList := isClean_ascii (by decide)
    simpa [twoDev] using hclean
  atu _ := by simp [TableOk, twoDev]
  vtu _ := by simp [TableOk, twoDev]
  stu _ := by simp [TableOk, twoDev]
  pvt := by simp

/-- The kernel of the two switches answers every query. -/
theorem twoSwitches_answers : (twoSwitches tableAnswers).Answers .little
    (askedFor ⟨[twoDev 3, twoDev 5]⟩ []) 9 18 := by
  have hrefused : ∀ n, (twoSwitches tableAnswers).answer n = some ⟨[], [], false, -95⟩ →
      (twoSwitches tableAnswers).Gets .little n (-1) [] (n + 1) :=
    fun n h => .refused h (by decide)
  have hread : ∀ n, (twoSwitches tableAnswers).answer n = some ⟨[], [], false, 0⟩ →
      (twoSwitches tableAnswers).answer (n + 1) =
        some ⟨[], [(chunkReply (List.replicate 64 0)).bytes .little], true, 0⟩ →
      (twoSwitches tableAnswers).answer (n + 2) = some ⟨[], [], false, 0⟩ →
      (twoSwitches tableAnswers).Gets .little n 0 ((List.replicate 64 0).map some) (n + 3) :=
    fun n hnew hread hdel => .read hnew rfl hread (chunkReply_region (by decide)) hdel rfl
  exact .cons (hrefused 9 rfl) (.cons (hrefused 10 rfl) (.cons (hrefused 11 rfl)
    (.cons (hread 12 rfl rfl rfl) (.cons (hread 15 rfl rfl rfl) (.nil 18)))))

/-- Both ports are printed, behind three empty tables. -/
theorem mainJsonQueried_document_two : ∃ N out tables, (∀ fuel, N ≤ fuel →
    mainJsonQueried .little (twoSwitches tableAnswers) fuel [] = some (⟨out, 0⟩, ⟨[], 18⟩)) ∧
      mainTables ⟨[twoDev 3, twoDev 5]⟩ [] = some tables ∧ IsJson out (documentJson tables) := by
  have hanswers : (twoSwitches tableAnswers).Answers .little (askedFor
      (describedEnv .little twoInfos twoPorts twoIndexRegs twoContents) [])
      (3 + 3 * (devsIn .little twoInfos).length) 18 := by
    rw [describedEnv_two, twoInfos_length]
    exact twoSwitches_answers
  obtain ⟨N, -, hdocument⟩ := mainJsonQueried_document .little
    (twoSwitches_describes tableAnswers) twoContents [] hanswers
  rw [describedEnv_two] at hdocument
  obtain ⟨out, tables, hrun, htables, hjson⟩ := hdocument twoEnv_ok
  exact ⟨N, out, tables, hrun, htables, hjson⟩

end MdioTools.Mvls
