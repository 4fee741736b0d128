import MdioTools.Mvls.Entry

/-!
# Devices, regions and the walk over a table

The environment is the list of devices with their ports.  A region snapshot is
an array of 16-bit words; reading behind its end is a fault, as is reading
anything of a region that is not there.  The printers walk over the entries of
a table until the family's parser rejects one.

Main results:

- Definition {lit}`dumpLoop`: the walk over the entries of one region.
- Definition {lit}`dumpDevs`: the walk over the devices, up to the first whose
  query fails.
- Theorems {lit}`dumpLoop_terminated` and {lit}`dumpLoop_open`: the walk handles
  the entries in front of the first that is rejected, and leaves a region that
  has none.
-/

namespace MdioTools.Mvls

open Library

/-! ## Regions -/

/-- The data of a `struct devlink_region` as 16-bit words; its size is twice
their number. -/
abbrev Region : Type :=
  List (BitVec 16)

/-- What `devlink_region_get` leaves: its return value and the region. -/
structure RegionGet where
  err : Int
  region : Region

/-- `reg16`; {lean}`none` is a read outside of the region. -/
def reg16 (region : Region) (reg : Nat) : Option (BitVec 16) :=
  region[reg]?

theorem reg16_of_lt {region : Region} {reg : Nat} (h : reg < region.length) :
    reg16 region reg = some (region.getD reg 0) := by
  rw [reg16, List.getD_eq_getElem?_getD, List.getElem?_eq_getElem h]
  rfl

/-! ## The environment -/

/-- `struct port`, less its flavor, which no printer looks at. -/
structure Port where
  index : BitVec 32
  netdev : CStr
  regs : RegionGet

/-- `struct dev` with the regions that can be queried. -/
structure Dev where
  chip : Chip
  index : Fin 32
  ports : List Port
  atu : RegionGet
  vtu : RegionGet
  stu : RegionGet
  pvt : RegionGet

/-- A numeral names a device by its index. -/
instance devNeZero : NeZero 32 := ⟨by decide⟩

/-- `struct env`. -/
structure Env where
  devs : List Dev

/-- `opal_port_lag`, the `port_lag` of every family; no LAG is -1. -/
def opalPortLag (regs : Region) : Option Int := do
  let ctrl1 ← reg16 regs 5
  if !bit ctrl1 14 then some (-1) else some (bits ctrl1 8 4)

/-- `opal_port_fid`, the `port_fid` of every family. -/
def opalPortFid (regs : Region) : Option Nat := do
  let r6 ← reg16 regs 6
  let r5 ← reg16 regs 5
  some (bits r6 12 4 ||| (bits r5 0 8 <<< 4))

/-! ## Tables -/

/-- The layout of a table: the number of words of an entry, and the entry at the
start of some memory. -/
structure KTable (κ : Type) where
  words : Nat
  words_pos : 0 < words
  decode : Region → κ

def atuTable : KTable MvAtuEntry where
  words := 6
  words_pos := by decide
  decode mem := ⟨mem.getD 0 0, mem.getD 1 0, mem.getD 2 0, mem.getD 3 0, mem.getD 4 0, mem.getD 5 0⟩

def vtuTable : KTable MvVtuEntry where
  words := 8
  words_pos := by decide
  decode mem := ⟨mem.getD 0 0, mem.getD 1 0, mem.getD 3 0, fun i => mem.getD (4 + i) 0⟩

def stuTable : KTable MvStuEntry where
  words := 6
  words_pos := by decide
  decode mem := ⟨mem.getD 0 0, mem.getD 1 0, fun i => mem.getD (2 + i) 0⟩

variable {κ ε σ : Type}

/-- The loop of the printers over a region: parse the entry at the cursor, stop
if it is rejected, and otherwise handle it and move on.  The result is
{lean}`none` when the cursor leaves the region. -/
def dumpLoop (t : KTable κ) (parse : κ → Option ε) (body : σ → ε → σ) (mem : Region) (s : σ) :
    Option σ :=
  if _h : t.words ≤ mem.length then
    match parse (t.decode mem) with
    | none => some s
    | some entry => dumpLoop t parse body (mem.drop t.words) (body s entry)
  else none
termination_by mem.length
decreasing_by
  have := t.words_pos
  simp only [List.length_drop]
  omega

/-- The loop of the printers over the devices: print a header, query the region
and walk over it; a failed query ends the loop. -/
def dumpDevs (header : σ → Dev → σ) (get : Dev → RegionGet)
    (loop : Dev → Region → σ → Option σ) : List Dev → σ → Option σ
  | [], s => some s
  | dev :: rest, s =>
      if (get dev).err ≠ 0 then some (header s dev)
      else (loop dev (get dev).region (header s dev)).bind (dumpDevs header get loop rest)

/-- The entries that the loops over the devices handle, with their devices. -/
def tableEntries (t : KTable κ) (parse : Dev → κ → Option ε) (get : Dev → RegionGet) (env : Env) :
    Option (List (Dev × ε)) :=
  dumpDevs (fun l _ => l) get (fun dev => dumpLoop t (parse dev) fun l entry => l ++ [(dev, entry)])
    env.devs []

/-! ## What the walk does -/

/-- The whole entries of a region. -/
def KTable.entries (t : KTable κ) (mem : Region) : List κ :=
  if _h : t.words ≤ mem.length then t.decode mem :: t.entries (mem.drop t.words) else []
termination_by mem.length
decreasing_by
  have := t.words_pos
  simp only [List.length_drop]
  omega

/-- The longest prefix of entries that a parser accepts, parsed. -/
def acceptedPrefix (parse : κ → Option ε) : List κ → List ε
  | [] => []
  | k :: ks =>
      match parse k with
      | none => []
      | some entry => entry :: acceptedPrefix parse ks

/-- The parser rejects an entry of the region. -/
def Terminated (t : KTable κ) (parse : κ → Option ε) (mem : Region) : Prop :=
  ∃ k ∈ t.entries mem, parse k = none

/-- The walk moves on behind an accepted entry. -/
theorem dumpLoop_accept {t : KTable κ} {parse : κ → Option ε} {mem : Region} {entry : ε}
    (hfits : t.words ≤ mem.length) (hparse : parse (t.decode mem) = some entry)
    (body : σ → ε → σ) (s : σ) :
    dumpLoop t parse body mem s = dumpLoop t parse body (mem.drop t.words) (body s entry) := by
  rw [dumpLoop, dif_pos hfits, hparse]

/-- It ends at a rejected one. -/
theorem dumpLoop_reject {t : KTable κ} {parse : κ → Option ε} {mem : Region}
    (hfits : t.words ≤ mem.length) (hparse : parse (t.decode mem) = none) (body : σ → ε → σ)
    (s : σ) : dumpLoop t parse body mem s = some s := by
  rw [dumpLoop, dif_pos hfits, hparse]

/-- The walk handles the accepted prefix of a terminated region. -/
theorem dumpLoop_terminated {t : KTable κ} {parse : κ → Option ε} {mem : Region}
    (h : Terminated t parse mem) (body : σ → ε → σ) (s : σ) :
    dumpLoop t parse body mem s = some ((acceptedPrefix parse (t.entries mem)).foldl body s) := by
  fun_induction dumpLoop t parse body mem s with
  | case1 mem s hfits hparse =>
      rw [KTable.entries, dif_pos hfits]
      simp [acceptedPrefix, hparse]
  | case2 mem s hfits entry hparse ih =>
      have hentries : t.entries mem = t.decode mem :: t.entries (mem.drop t.words) := by
        rw [KTable.entries, dif_pos hfits]
      have hrest : Terminated t parse (mem.drop t.words) := by
        obtain ⟨k, hk, hnone⟩ := h
        rw [hentries] at hk
        rcases List.mem_cons.mp hk with rfl | hk
        · rw [hparse] at hnone
          cases hnone
        · exact ⟨k, hk, hnone⟩
      rw [ih hrest, hentries, acceptedPrefix, hparse, List.foldl_cons]
  | case3 mem s hfits =>
      obtain ⟨k, hk, -⟩ := h
      rw [KTable.entries, dif_neg hfits] at hk
      cases hk

/-- It leaves any other region. -/
theorem dumpLoop_open {t : KTable κ} {parse : κ → Option ε} {mem : Region}
    (h : ¬Terminated t parse mem) (body : σ → ε → σ) (s : σ) :
    dumpLoop t parse body mem s = none := by
  fun_induction dumpLoop t parse body mem s with
  | case1 mem s hfits hparse =>
      refine (h ⟨t.decode mem, ?_, hparse⟩).elim
      rw [KTable.entries, dif_pos hfits]
      exact List.mem_cons_self
  | case2 mem s hfits entry hparse ih =>
      refine ih fun ⟨k, hk, hnone⟩ => h ⟨k, ?_, hnone⟩
      rw [KTable.entries, dif_pos hfits]
      exact List.mem_cons_of_mem _ hk
  | case3 => rfl

/-- A walk whose state stands for that of another walk. -/
theorem dumpLoop_map {τ : Type} {f : σ → τ} {body : σ → ε → σ} {body' : τ → ε → τ}
    (h : ∀ s entry, f (body s entry) = body' (f s) entry) (t : KTable κ) (parse : κ → Option ε)
    (mem : Region) (s : σ) :
    dumpLoop t parse body' mem (f s) = (dumpLoop t parse body mem s).map f := by
  fun_induction dumpLoop t parse body mem s with
  | case1 mem s hfits hparse => exact dumpLoop_reject hfits hparse body' (f s)
  | case2 mem s hfits entry hparse ih => rw [dumpLoop_accept hfits hparse, ← h, ih]
  | case3 mem s hfits =>
      rw [dumpLoop, dif_neg hfits]
      rfl

theorem dumpDevs_map {τ : Type} {f : σ → τ} {get : Dev → RegionGet}
    {loop : Dev → Region → σ → Option σ} {loop' : Dev → Region → τ → Option τ}
    (h : ∀ dev mem s, loop' dev mem (f s) = (loop dev mem s).map f) (devs : List Dev) (s : σ) :
    dumpDevs (fun s _ => s) get loop' devs (f s) =
      (dumpDevs (fun s _ => s) get loop devs s).map f := by
  induction devs generalizing s with
  | nil => rfl
  | cons dev devs ih =>
      simp only [dumpDevs]
      split
      · rfl
      · rw [h]
        cases hloop : loop dev (get dev).region s with
        | none => rfl
        | some s' => exact ih s'

/-- A loop over the devices handles their entries one after another. -/
theorem dumpDevs_eq (t : KTable κ) (parse : Dev → κ → Option ε) (get : Dev → RegionGet)
    (body : Dev → σ → ε → σ) (env : Env) (s : σ) :
    dumpDevs (fun s _ => s) get (fun dev => dumpLoop t (parse dev) (body dev)) env.devs s =
      (tableEntries t parse get env).map (·.foldl (fun s de => body de.1 s de.2) s) := by
  have hfold : ∀ (dev : Dev) (l : List (Dev × ε)) (entry : ε),
      (l ++ [(dev, entry)]).foldl (fun s de => body de.1 s de.2) s =
        body dev (l.foldl (fun s de => body de.1 s de.2) s) entry := by
    intro dev l entry
    rw [List.foldl_append]
    rfl
  exact dumpDevs_map (fun dev mem l => dumpLoop_map (hfold dev) t (parse dev) mem l) env.devs []

end MdioTools.Mvls
