import Mathlib.Logic.Function.Basic
import Mathlib.Logic.Relation
import MdioTools.Mvls.Query

/-!
# Snapshots that processes share

{lit}`devlink_port_region_get` takes a snapshot, reads it and deletes it, each with
a query.  All processes use one and the same identifier for the snapshot.  The kernel
has at most one snapshot with it, and reads for each message of a dump what is there
at that time.  A process makes one call after another over one socket, and what a
call has left unread there is read by the next one.

Main results:

- Definition {lit}`SnapStep`: the steps of the processes and of the kernel.
- Theorem {lit}`ProcStep.inv`: what a step of one process preserves.
- Theorem {lit}`snapInv_reaches`: what holds in every interleaving.
- Theorem {lit}`snapshots_own`: processes whose calls find nothing unread in their
  sockets read and delete their own snapshots only.
- Theorem {lit}`not_snapshots_own_unread`: others may delete the snapshot of another
  process.
-/

namespace MdioTools.Mvls

variable {ο : Type*}

/-! ## Messages -/

/-- What the kernel sends to a process: an error or an acknowledgement, the end of
a dump, or data of the snapshot that its owner has taken. -/
inductive SnapMsg (ο : Type*)
  | ack (error : Int)
  | done (len : Int)
  | part (owner : ο)

/-- A message repeats the number of its query, the second in which that was sent. -/
structure SnapReply (ο : Type*) where
  seq : BitVec 32
  msg : SnapMsg ο

/-- The message is no data. -/
def SnapReply.Last (m : SnapReply ο) : Prop :=
  ∀ owner, m.msg ≠ .part owner

/-! ## Processes -/

/-- Where a process is in `devlink_port_region_get`: not there yet, in front of a
request, in `__recv_run` behind one, or back from it.  The result of READ is kept
until the end. -/
inductive RegionPc
  | idle | new | newReply | read | readReply
  | del (err : Int)
  | delReply (err : Int)
  | returned (err : Int)

/-- A process: the number of its calls, its last query, the messages in its socket,
and the query for which the kernel has more to dump to it.  Then, of its last call,
the owners of the data that have been read, the number of DELs that have been issued,
whether the kernel has taken a snapshot for NEW, whether the answer to NEW could not be
received, and the result of READ. -/
structure RegionProc (ο : Type*) where
  pc : RegionPc
  calls : Nat
  seq : BitVec 32
  inbox : List (SnapReply ο)
  dumping : Option (BitVec 32)
  data : List ο
  dels : Nat
  taken : Bool
  unheard : Bool
  readErr : Option Int
  stopped : Bool

/-- A process that has done nothing yet. -/
def RegionProc.init : RegionProc ο :=
  ⟨.idle, 0, 0, [], none, [], 0, false, false, none, false⟩

/-- A process begins a call, with what is left in its socket. -/
def RegionProc.call (p : RegionProc ο) : RegionProc ο :=
  { p with
    pc := .new, calls := p.calls + 1, data := [], dels := 0, taken := false, unheard := false,
    readErr := none }

/-- There is nothing left in the socket of a process, and nothing to come. -/
def RegionProc.Clear (p : RegionProc ο) : Prop :=
  p.inbox = [] ∧ p.dumping = none

/-- `__recv_run` has come to an end with a result, or goes on if it is positive. -/
def RegionProc.finish (r : Int) (p : RegionProc ο) : RegionProc ο :=
  if 0 < r then p
  else
    match p.pc with
    | .newReply => { p with pc := if r = 0 then .read else .returned r }
    | .readReply => { p with pc := .del r, readErr := some r }
    | .delReply err => { p with pc := .returned err }
    | _ => p

/-- The result of NEW. -/
theorem RegionProc.finish_newReply {r : Int} {p : RegionProc ο} (h : ¬ 0 < r)
    (hpc : p.pc = .newReply) :
    p.finish r = { p with pc := if r = 0 then .read else .returned r } := by
  simp only [finish, h, if_false, hpc]

/-- READ is followed by DEL, whatever its result. -/
theorem RegionProc.finish_readReply {r : Int} {p : RegionProc ο} (h : ¬ 0 < r)
    (hpc : p.pc = .readReply) : p.finish r = { p with pc := .del r, readErr := some r } := by
  simp only [finish, h, if_false, hpc]

/-- The result of DEL is of no use. -/
theorem RegionProc.finish_delReply {r err : Int} {p : RegionProc ο} (h : ¬ 0 < r)
    (hpc : p.pc = .delReply err) : p.finish r = { p with pc := .returned err } := by
  simp only [finish, h, if_false, hpc]

/-- `mnl_socket_recvfrom` fails. -/
def RegionProc.recvFailed (err : Int) (p : RegionProc ο) : RegionProc ο :=
  match p.pc with
  | .newReply => { p.finish err with unheard := true }
  | _ => p.finish err

/-- A message is handled, where `cb` is what the callback makes of data.  NEW has
none. -/
def RegionProc.handle (cb : Int) (m : SnapReply ο) (p : RegionProc ο) : Int × RegionProc ο :=
  if !mnlIdOk m.seq p.seq then (-1, p)
  else
    match m.msg with
    | .ack error => (cbError error, p)
    | .done len => (cbStop len, p)
    | .part owner =>
        match p.pc with
        | .newReply => (1, p)
        | _ => (cb, { p with data := p.data ++ [owner] })

/-- A message is received.  When it ends the loop, what has come with it is lost. -/
def RegionProc.recv (cb : Int) (m : SnapReply ο) (rest : List (SnapReply ο)) (lost : Nat)
    (p : RegionProc ο) : RegionProc ο :=
  let r := p.handle cb m
  ({ r.2 with inbox := if 0 < r.1 then rest else rest.drop lost } : RegionProc ο).finish r.1

/-- What is no data ends the loop. -/
theorem RegionProc.recv_last {m : SnapReply ο} (h : m.Last) (cb : Int)
    (rest : List (SnapReply ο)) (lost : Nat) (p : RegionProc ο) :
    ∃ r : Int, ¬ 0 < r ∧
      p.recv cb m rest lost = ({ p with inbox := rest.drop lost } : RegionProc ο).finish r := by
  have hhandle : ∃ r : Int, ¬ 0 < r ∧ p.handle cb m = (r, p) := by
    unfold handle
    split
    · exact ⟨-1, by omega, rfl⟩
    · split
      · exact ⟨_, by unfold cbError; split <;> omega, rfl⟩
      · exact ⟨_, by unfold cbStop; split <;> omega, rfl⟩
      · exact absurd ‹_› (h _)
  obtain ⟨r, hr, hhandle⟩ := hhandle
  exact ⟨r, hr, by simp only [recv, hhandle, hr, if_false]⟩

/-- Data are handed to the callback, which goes on; or that is the end, because the
callback fails or because they are of another query. -/
theorem RegionProc.recv_part {cb : Int} {m : SnapReply ο} {owner : ο}
    (rest : List (SnapReply ο)) (lost : Nat) {p : RegionProc ο} (hm : m.msg = .part owner)
    (hpc : p.pc ≠ .newReply) (hcb : cb = 1 ∨ cb = -1) :
    p.recv cb m rest lost = { p with data := p.data ++ [owner], inbox := rest } ∨
      ∃ data, p.recv cb m rest lost =
        ({ p with data := data, inbox := rest.drop lost } : RegionProc ο).finish (-1) := by
  have hhandle : p.handle cb m = (-1, p) ∨
      p.handle cb m = (cb, { p with data := p.data ++ [owner] }) := by
    unfold handle
    split
    · exact .inl rfl
    · rw [hm]
      split <;> simp_all
  obtain hhandle | hhandle := hhandle
  · exact .inr ⟨p.data, by simp [recv, hhandle]⟩
  · obtain rfl | rfl := hcb
    · exact .inl (by simp [recv, hhandle, finish])
    · exact .inr ⟨p.data ++ [owner], by simp [recv, hhandle]⟩

/-- Whether a process is in `__recv_run`. -/
def RegionPc.waits : RegionPc → Bool
  | .newReply | .readReply | .delReply _ => true
  | _ => false

/-- Whether a process is outside of `devlink_port_region_get`. -/
def RegionPc.rests : RegionPc → Bool
  | .idle | .returned _ => true
  | _ => false

/-- The kernel has put a message into the socket. -/
def RegionProc.sent (m : SnapReply ο) (p : RegionProc ο) : RegionProc ο :=
  { p with inbox := p.inbox ++ [m] }

/-- A process has sent a request in second `seq`, and the kernel answers at once. -/
def RegionProc.answered (pc : RegionPc) (seq : BitVec 32) (error : Int) (p : RegionProc ο) :
    RegionProc ο :=
  ({ p with pc := pc, seq := seq } : RegionProc ο).sent ⟨seq, .ack error⟩

/-! ## Steps -/

variable {ι : Type*}

/-- A call: the process, and how many it has made by then. -/
abbrev RegionCall (ι : Type*) : Type _ :=
  ι × Nat

/-- The steps of process `i` in a call, and of the kernel for it: whether something
fails on the way, the snapshot before and after, and whose call has deleted whose
snapshot.  NEW fails where there is a snapshot, and READ and DEL where there is none;
they may fail for other reasons too. -/
inductive ProcStep (i : ι) : Bool → Option (RegionCall ι) → RegionProc (RegionCall ι) →
    Option (RegionCall ι) → List (RegionCall ι × RegionCall ι) → RegionProc (RegionCall ι) → Prop
  | newUnsent {snap p err} (seq) (hpc : p.pc = .new) (herr : err < 0) :
      ProcStep i true snap p snap [] { p with pc := .returned err, seq := seq }
  | newTaken {p} (seq) (hpc : p.pc = .new) :
      ProcStep i false none p (some (i, p.calls)) []
        { p.answered .newReply seq 0 with taken := true }
  | newRefused {snap p error} (seq) (hpc : p.pc = .new) (herror : error ≠ 0) :
      ProcStep i false snap p snap [] (p.answered .newReply seq error)
  | readUnsent {snap p err} (seq) (hpc : p.pc = .read) (herr : err < 0) :
      ProcStep i true snap p snap [] { p with pc := .del err, seq := seq, readErr := some err }
  | readStarted {snap p} (seq) (hpc : p.pc = .read) (hdump : p.dumping = none) :
      ProcStep i false snap p snap [] { p with pc := .readReply, seq := seq, dumping := some seq }
  | readRefused {snap p error} (seq) (hpc : p.pc = .read) (herror : error ≠ 0) :
      ProcStep i false snap p snap [] (p.answered .readReply seq error)
  | dumpPart {owner p seq} (hdump : p.dumping = some seq) :
      ProcStep i false (some owner) p (some owner) [] (p.sent ⟨seq, .part owner⟩)
  | dumpDone {snap p seq} (len) (hdump : p.dumping = some seq) (hlen : snap = none → len < 0) :
      ProcStep i false snap p snap []
        (({ p with dumping := none } : RegionProc (RegionCall ι)).sent ⟨seq, .done len⟩)
  | delUnsent {snap p err} (seq) (hpc : p.pc = .del err) :
      ProcStep i true snap p snap [] { p with pc := .returned err, seq := seq, dels := p.dels + 1 }
  | delTaken {owner p err} (seq) (hpc : p.pc = .del err) :
      ProcStep i false (some owner) p none [((i, p.calls), owner)]
        { p.answered (.delReply err) seq 0 with dels := p.dels + 1 }
  | delRefused {snap p err error} (seq) (hpc : p.pc = .del err) (herror : error ≠ 0) :
      ProcStep i false snap p snap []
        { p.answered (.delReply err) seq error with dels := p.dels + 1 }
  | recvFails {snap p err} (hwait : p.pc.waits = true) (herr : err < 0) :
      ProcStep i true snap p snap [] (p.recvFailed err)
  | recv {snap p} (cb m rest lost) (hwait : p.pc.waits = true) (hinbox : p.inbox = m :: rest)
      (hcb : cb = 1 ∨ cb = -1) :
      ProcStep i false snap p snap [] (p.recv cb m rest lost)

/-- The owner of the snapshot if there is one, the processes, and whose call has
deleted whose snapshot. -/
structure SnapNet (ι : Type*) where
  snap : Option (RegionCall ι)
  procs : ι → RegionProc (RegionCall ι)
  deleted : List (RegionCall ι × RegionCall ι)

/-- No process has done anything, and there is no snapshot. -/
def SnapNet.init : SnapNet ι :=
  ⟨none, fun _ => RegionProc.init, []⟩

variable [DecidableEq ι]

/-- Process `i` becomes `p`. -/
def SnapNet.set (net : SnapNet ι) (i : ι) (p : RegionProc (RegionCall ι)) : SnapNet ι :=
  { net with procs := Function.update net.procs i p }

/-- Any process takes a step of its call, begins a call in a state that is `ok`, makes
other queries over its socket, or is stopped.  What other queries leave in the socket
may be anything. -/
inductive SnapStep (ok : RegionProc (RegionCall ι) → Prop) : SnapNet ι → SnapNet ι → Prop
  | proc {net i fails snap deleted p} (hrun : (net.procs i).stopped = false)
      (h : ProcStep i fails net.snap (net.procs i) snap deleted p) :
      SnapStep ok net { net.set i p with snap := snap, deleted := net.deleted ++ deleted }
  | call {net i} (hrun : (net.procs i).stopped = false) (hrest : (net.procs i).pc.rests = true)
      (hok : ok (net.procs i)) : SnapStep ok net (net.set i (net.procs i).call)
  | others {net i inbox dumping} (hrun : (net.procs i).stopped = false)
      (hrest : (net.procs i).pc.rests = true) :
      SnapStep ok net (net.set i { net.procs i with inbox := inbox, dumping := dumping })
  | stop {net} (i : ι) : SnapStep ok net (net.set i { net.procs i with stopped := true })

/-- What the processes reach whose calls all begin in a state that is `ok`. -/
def SnapReaches (ok : RegionProc (RegionCall ι) → Prop) (net : SnapNet ι) : Prop :=
  Relation.ReflTransGen (SnapStep ok) SnapNet.init net

/-! ## What holds in every interleaving -/

/-- All that a call has read or will read is its own. -/
def RegionProc.Quiet (own : ο) (p : RegionProc ο) : Prop :=
  p.dumping = none ∧ (∀ m ∈ p.inbox, m.Last) ∧ ∀ owner ∈ p.data, owner = own

/-- An answer is no data. -/
theorem RegionProc.Quiet.answered {own : ο} {p : RegionProc ο} (h : p.Quiet own) (pc : RegionPc)
    (seq : BitVec 32) (error : Int) : (p.answered pc seq error).Quiet own := by
  obtain ⟨hdump, hinbox, hdata⟩ := h
  refine ⟨hdump, ?_, hdata⟩
  simp only [RegionProc.answered, RegionProc.sent, List.mem_append, List.mem_singleton]
  rintro m (hm | rfl)
  · exact hinbox m hm
  · simp [SnapReply.Last]

/-- The messages of a dump: data of the own snapshot, and at the end something else,
unless the kernel has more to dump. -/
def RegionProc.Dumps (own : ο) (p : RegionProc ο) : Prop :=
  ∃ parts : List (SnapReply ο), (∀ m ∈ parts, m.msg = .part own) ∧
    (p.dumping ≠ none ∧ p.inbox = parts ∨
      p.dumping = none ∧ ∃ m : SnapReply ο, m.Last ∧ p.inbox = parts ++ [m])

/-- What holds in call `own` of a process.  From the NEW that has succeeded up to DEL,
the snapshot is its own. -/
def RegionProc.Inv (snap : Option ο) (own : ο) (p : RegionProc ο) : Prop :=
  match p.pc with
  | .idle => p.dels = 0
  | .new => p.dels = 0 ∧ p.taken = false ∧ p.data = [] ∧ p.Clear
  | .newReply => p.dels = 0 ∧ p.data = [] ∧ p.dumping = none ∧
      ∃ error, p.inbox = [⟨p.seq, .ack error⟩] ∧ (error = 0 → snap = some own) ∧
        (error = 0 ↔ p.taken = true)
  | .read => snap = some own ∧ p.taken = true ∧ p.dels = 0 ∧ p.data = [] ∧ p.Clear
  | .readReply => snap = some own ∧ p.taken = true ∧ p.dels = 0 ∧
      (∀ owner ∈ p.data, owner = own) ∧ p.Dumps own
  | .del err => snap = some own ∧ p.taken = true ∧ p.dels = 0 ∧ p.readErr = some err ∧
      (err = 0 → p.Quiet own)
  | .delReply err => p.taken = true ∧ p.dels = 1 ∧ p.readErr = some err ∧
      (err = 0 → p.Quiet own) ∧ ∃ m ∈ p.inbox, m.Last
  | .returned err => p.dels = 0 ∧ err ≠ 0 ∧ (p.taken = true → p.unheard = true) ∨
      p.taken = true ∧ p.dels = 1 ∧ p.readErr = some err ∧
        (err = 0 → ∀ owner ∈ p.data, owner = own)

/-- Nothing of this depends on the snapshot, as long as the own snapshot is left
alone. -/
theorem RegionProc.Inv.frame {snap snap' : Option ο} {own : ο} {p : RegionProc ο}
    (h : p.Inv snap own) (hsnap : snap = some own → snap' = some own) : p.Inv snap' own := by
  unfold Inv at h ⊢
  cases hpc : p.pc with
  | newReply =>
      simp only [hpc] at h ⊢
      obtain ⟨hdels, hdata, hdump, error, hinbox, hown, htaken⟩ := h
      exact ⟨hdels, hdata, hdump, error, hinbox, fun herr => hsnap (hown herr), htaken⟩
  | read => simp only [hpc] at h ⊢; exact ⟨hsnap h.1, h.2⟩
  | readReply => simp only [hpc] at h ⊢; exact ⟨hsnap h.1, h.2⟩
  | del err => simp only [hpc] at h ⊢; exact ⟨hsnap h.1, h.2⟩
  | idle => simpa only [hpc] using h
  | new => simpa only [hpc] using h
  | delReply err => simpa only [hpc] using h
  | returned err => simpa only [hpc] using h

/-- A process may be stopped anywhere. -/
theorem RegionProc.Inv.stop {snap : Option ο} {own : ο} {p : RegionProc ο} (h : p.Inv snap own) :
    ({ p with stopped := true } : RegionProc ο).Inv snap own :=
  h

/-- Outside of a call, the socket does not matter. -/
theorem RegionProc.Inv.others {snap : Option ο} {own : ο} {p : RegionProc ο} (h : p.Inv snap own)
    (hrest : p.pc.rests = true) (inbox : List (SnapReply ο)) (dumping : Option (BitVec 32)) :
    ({ p with inbox := inbox, dumping := dumping } : RegionProc ο).Inv snap own := by
  unfold Inv at h ⊢
  cases hpc : p.pc with
  | idle => simpa only [hpc] using h
  | returned err => simpa only [hpc] using h
  | new => simp [hpc, RegionPc.rests] at hrest
  | newReply => simp [hpc, RegionPc.rests] at hrest
  | read => simp [hpc, RegionPc.rests] at hrest
  | readReply => simp [hpc, RegionPc.rests] at hrest
  | del err => simp [hpc, RegionPc.rests] at hrest
  | delReply err => simp [hpc, RegionPc.rests] at hrest

/-- A call that finds nothing in the socket begins afresh. -/
theorem RegionProc.inv_call {snap : Option ο} {own : ο} {p : RegionProc ο} (h : p.Clear) :
    p.call.Inv snap own :=
  ⟨rfl, rfl, rfl, h⟩

/-- The dump goes on with the snapshot that is there. -/
theorem RegionProc.Inv.dumpPart {own owner : ο} {p : RegionProc ο} {seq : BitVec 32}
    (h : p.Inv (some owner) own) (hdump : p.dumping = some seq) :
    (p.sent ⟨seq, .part owner⟩).Inv (some owner) own := by
  have hsome : p.dumping ≠ none := by simp [hdump]
  unfold Inv at h ⊢
  simp only [RegionProc.sent]
  cases hpc : p.pc with
  | idle => simpa only [hpc] using h
  | new => simp only [hpc] at h; exact absurd h.2.2.2.2 hsome
  | newReply => simp only [hpc] at h; exact absurd h.2.2.1 hsome
  | read => simp only [hpc] at h; exact absurd h.2.2.2.2.2 hsome
  | readReply =>
      simp only [hpc] at h ⊢
      obtain ⟨hsnap, htaken, hdels, hdata, parts, hparts, ⟨-, hinbox⟩ | ⟨hno, -⟩⟩ := h
      · refine ⟨hsnap, htaken, hdels, hdata, parts ++ [⟨seq, .part owner⟩], ?_,
          .inl ⟨hsome, by simp [hinbox]⟩⟩
        have howner : owner = own := by simpa using hsnap
        simp only [List.mem_append, List.mem_singleton]
        rintro m (hm | rfl)
        · exact hparts m hm
        · rw [howner]
      · exact absurd hno hsome
  | del err =>
      simp only [hpc] at h ⊢
      obtain ⟨hsnap, htaken, hdels, herr, hquiet⟩ := h
      exact ⟨hsnap, htaken, hdels, herr, fun h0 => absurd (hquiet h0).1 hsome⟩
  | delReply err =>
      simp only [hpc] at h ⊢
      obtain ⟨htaken, hdels, herr, hquiet, m, hm, hlast⟩ := h
      exact ⟨htaken, hdels, herr, fun h0 => absurd (hquiet h0).1 hsome, m, by simp [hm], hlast⟩
  | returned err => simpa only [hpc] using h

/-- The dump comes to an end. -/
theorem RegionProc.Inv.dumpDone {snap : Option ο} {own : ο} {p : RegionProc ο} {seq : BitVec 32}
    {len : Int} (h : p.Inv snap own) (hdump : p.dumping = some seq) :
    (({ p with dumping := none } : RegionProc ο).sent ⟨seq, .done len⟩).Inv snap own := by
  have hsome : p.dumping ≠ none := by simp [hdump]
  unfold Inv at h ⊢
  simp only [RegionProc.sent]
  cases hpc : p.pc with
  | idle => simpa only [hpc] using h
  | new => simp only [hpc] at h; exact absurd h.2.2.2.2 hsome
  | newReply => simp only [hpc] at h; exact absurd h.2.2.1 hsome
  | read => simp only [hpc] at h; exact absurd h.2.2.2.2.2 hsome
  | readReply =>
      simp only [hpc] at h ⊢
      obtain ⟨hsnap, htaken, hdels, hdata, parts, hparts, ⟨-, hinbox⟩ | ⟨hno, -⟩⟩ := h
      · exact ⟨hsnap, htaken, hdels, hdata, parts, hparts,
          .inr ⟨rfl, ⟨seq, .done len⟩, by simp [SnapReply.Last], by simp [hinbox]⟩⟩
      · exact absurd hno hsome
  | del err =>
      simp only [hpc] at h ⊢
      obtain ⟨hsnap, htaken, hdels, herr, hquiet⟩ := h
      exact ⟨hsnap, htaken, hdels, herr, fun h0 => absurd (hquiet h0).1 hsome⟩
  | delReply err =>
      simp only [hpc] at h ⊢
      obtain ⟨htaken, hdels, herr, hquiet, m, hm, hlast⟩ := h
      exact ⟨htaken, hdels, herr, fun h0 => absurd (hquiet h0).1 hsome, m, by simp [hm], hlast⟩
  | returned err => simpa only [hpc] using h

/-- A process that fails to receive deletes its snapshot all the same, if it knows of
it. -/
theorem RegionProc.Inv.recvFailed {snap : Option ο} {own : ο} {p : RegionProc ο} {err : Int}
    (h : p.Inv snap own) (hwait : p.pc.waits = true) (herr : err < 0) :
    (p.recvFailed err).Inv snap own := by
  have hpos : ¬ 0 < err := by omega
  have hne : err ≠ 0 := by omega
  unfold Inv at h
  unfold RegionProc.recvFailed
  cases hpc : p.pc with
  | newReply =>
      simp only [hpc] at h
      simp only [finish_newReply hpos hpc, if_neg hne]
      exact .inl ⟨h.1, hne, fun _ => rfl⟩
  | readReply =>
      simp only [hpc] at h
      simp only [finish_readReply hpos hpc]
      exact ⟨h.1, h.2.1, h.2.2.1, rfl, fun h0 => absurd h0 hne⟩
  | delReply err' =>
      simp only [hpc] at h
      obtain ⟨htaken, hdels, herr', hquiet, -⟩ := h
      simp only [finish_delReply hpos hpc]
      exact .inr ⟨htaken, hdels, herr', fun h0 => (hquiet h0).2.2⟩
  | idle => simp [hpc, RegionPc.waits] at hwait
  | new => simp [hpc, RegionPc.waits] at hwait
  | read => simp [hpc, RegionPc.waits] at hwait
  | del err => simp [hpc, RegionPc.waits] at hwait
  | returned err => simp [hpc, RegionPc.waits] at hwait

/-- A process that waits for the answer to NEW receives it. -/
theorem RegionProc.Inv.recv_new {snap : Option ο} {own : ο} {p : RegionProc ο} {cb : Int}
    {m : SnapReply ο} {rest : List (SnapReply ο)} {lost : Nat} (h : p.Inv snap own)
    (hpc : p.pc = .newReply) (hinbox : p.inbox = m :: rest) :
    (p.recv cb m rest lost).Inv snap own := by
  unfold Inv at h
  simp only [hpc] at h
  obtain ⟨hdels, hdata, hdump, error, hone, hown, htaken⟩ := h
  obtain ⟨rfl, rfl⟩ : m = ⟨p.seq, .ack error⟩ ∧ rest = [] := by simpa [hone] using hinbox.symm
  have hrecv : p.recv cb ⟨p.seq, .ack error⟩ [] lost =
      ({ p with inbox := [] } : RegionProc ο).finish (cbError error) := by
    simp [RegionProc.recv, handle, mnlIdOk]
  have herror : ¬0 < cbError error := by unfold cbError; split <;> omega
  rw [hrecv, finish_newReply (p := { p with inbox := [] }) herror hpc]
  by_cases herr : error = 0
  · rw [if_pos (by simp [cbError, herr])]
    exact ⟨hown herr, htaken.mp herr, hdels, hdata, rfl, hdump⟩
  · have hne : cbError error ≠ 0 := by simp [cbError, herr]
    rw [if_neg hne]
    exact .inl ⟨hdels, hne, fun ht => absurd (htaken.mpr ht) herr⟩

/-- A process that waits for the data of its snapshot receives a message. -/
theorem RegionProc.Inv.recv_read {snap : Option ο} {own : ο} {p : RegionProc ο} {cb : Int}
    {m : SnapReply ο} {rest : List (SnapReply ο)} {lost : Nat} (h : p.Inv snap own)
    (hpc : p.pc = .readReply) (hinbox : p.inbox = m :: rest) (hcb : cb = 1 ∨ cb = -1) :
    (p.recv cb m rest lost).Inv snap own := by
  unfold Inv at h
  simp only [hpc] at h
  obtain ⟨hsnap, htaken, hdels, hdata, parts, hparts, hrest⟩ := h
  cases parts with
  | nil =>
      -- the last message of the dump, which ends the loop
      obtain ⟨-, hnil⟩ | ⟨hdump, last, hlast, hone⟩ := hrest
      · simp [hnil] at hinbox
      obtain ⟨rfl, rfl⟩ : m = last ∧ rest = [] := by simpa [hone] using hinbox.symm
      obtain ⟨r, hr, hrecv⟩ := recv_last hlast cb [] lost p
      rw [hrecv, finish_readReply (p := { p with inbox := [].drop lost }) hr hpc]
      exact ⟨hsnap, htaken, hdels, rfl, fun _ => ⟨hdump, by simp, hdata⟩⟩
  | cons part parts =>
      obtain rfl : m = part := by
        obtain ⟨-, hall⟩ | ⟨-, last, -, hall⟩ := hrest
        · exact (List.cons.inj (hinbox.symm.trans hall)).1
        · exact (List.cons.inj (hinbox.symm.trans hall)).1
      have hpart : m.msg = .part own := hparts m List.mem_cons_self
      obtain hrecv | ⟨data, hrecv⟩ := recv_part rest lost hpart
        (by simp [hpc] : p.pc ≠ .newReply) hcb
      · rw [hrecv]
        unfold Inv
        simp only [hpc]
        refine ⟨hsnap, htaken, hdels, ?_, parts,
          fun m hm => hparts m (List.mem_cons_of_mem _ hm), ?_⟩
        · simp only [List.mem_append, List.mem_singleton]
          rintro owner (howner | rfl)
          · exact hdata owner howner
          · rfl
        · obtain ⟨hdump, hall⟩ | ⟨hdump, last, hlast, hall⟩ := hrest
          · exact .inl ⟨hdump, (List.cons.inj (hinbox.symm.trans hall)).2⟩
          · exact .inr ⟨hdump, last, hlast, (List.cons.inj (hinbox.symm.trans hall)).2⟩
      · rw [hrecv, finish_readReply (p := { p with data := data, inbox := rest.drop lost })
          (by omega) hpc]
        exact ⟨hsnap, htaken, hdels, rfl, fun h0 => absurd h0 (by omega)⟩

/-- A process that waits for its snapshot to be deleted receives a message, which
may be data that it has not waited for. -/
theorem RegionProc.Inv.recv_del {snap : Option ο} {own : ο} {p : RegionProc ο} {err cb : Int}
    {m : SnapReply ο} {rest : List (SnapReply ο)} {lost : Nat} (h : p.Inv snap own)
    (hpc : p.pc = .delReply err) (hinbox : p.inbox = m :: rest) (hcb : cb = 1 ∨ cb = -1) :
    (p.recv cb m rest lost).Inv snap own := by
  unfold Inv at h
  simp only [hpc] at h
  obtain ⟨htaken, hdels, herr, hquiet, last, hmem, hlast⟩ := h
  have hret : ∀ data, (err = 0 → ∀ owner ∈ data, owner = own) → ∀ inbox,
      ({ p with pc := .returned err, data := data, inbox := inbox } : RegionProc ο).Inv snap own :=
    fun data hdata inbox => .inr ⟨htaken, hdels, herr, hdata⟩
  by_cases hm : m.Last
  · obtain ⟨r, hr, hrecv⟩ := recv_last hm cb rest lost p
    rw [hrecv, finish_delReply (p := { p with inbox := rest.drop lost }) hr hpc]
    exact hret _ (fun h0 => (hquiet h0).2.2) _
  · have h0 : err ≠ 0 := fun h0 => hm ((hquiet h0).2.1 m (by simp [hinbox]))
    obtain ⟨owner, hpart⟩ : ∃ owner, m.msg = .part owner := by
      simpa [SnapReply.Last] using hm
    obtain hrecv | ⟨data, hrecv⟩ := recv_part rest lost hpart
      (by simp [hpc] : p.pc ≠ .newReply) hcb
    · rw [hrecv]
      unfold Inv
      simp only [hpc]
      refine ⟨htaken, hdels, herr, fun h => absurd h h0, last, ?_, hlast⟩
      refine (List.mem_cons.mp (hinbox ▸ hmem)).resolve_left ?_
      rintro rfl
      exact hm hlast
    · rw [hrecv, finish_delReply (p := { p with data := data, inbox := rest.drop lost })
        (by omega) hpc]
      exact hret _ (fun h => absurd h h0) _

/-- Any process receives a message. -/
theorem RegionProc.Inv.recv {snap : Option ο} {own : ο} {p : RegionProc ο} {cb : Int}
    {m : SnapReply ο} {rest : List (SnapReply ο)} {lost : Nat} (h : p.Inv snap own)
    (hwait : p.pc.waits = true) (hinbox : p.inbox = m :: rest) (hcb : cb = 1 ∨ cb = -1) :
    (p.recv cb m rest lost).Inv snap own := by
  cases hpc : p.pc with
  | newReply => exact h.recv_new hpc hinbox
  | readReply => exact h.recv_read hpc hinbox hcb
  | delReply err => exact h.recv_del hpc hinbox hcb
  | idle => simp [hpc, RegionPc.waits] at hwait
  | new => simp [hpc, RegionPc.waits] at hwait
  | read => simp [hpc, RegionPc.waits] at hwait
  | del err => simp [hpc, RegionPc.waits] at hwait
  | returned err => simp [hpc, RegionPc.waits] at hwait

/-- The number of the call stays as it is when a loop ends. -/
theorem RegionProc.calls_finish (r : Int) (p : RegionProc ο) : (p.finish r).calls = p.calls := by
  unfold finish
  split
  · rfl
  · split <;> rfl

/-- The callback leaves the process where it is. -/
theorem RegionProc.handle_frame (cb : Int) (m : SnapReply ο) (p : RegionProc ο) :
    (p.handle cb m).2.pc = p.pc ∧ (p.handle cb m).2.dumping = p.dumping ∧
      (p.handle cb m).2.calls = p.calls := by
  unfold handle
  split
  · exact ⟨rfl, rfl, rfl⟩
  · split
    · exact ⟨rfl, rfl, rfl⟩
    · exact ⟨rfl, rfl, rfl⟩
    · split <;> exact ⟨rfl, rfl, rfl⟩

omit [DecidableEq ι] in
/-- A process stays in its call. -/
theorem ProcStep.calls {i : ι} {fails : Bool} {snap snap' : Option (RegionCall ι)}
    {p p' : RegionProc (RegionCall ι)} {deleted : List (RegionCall ι × RegionCall ι)}
    (h : ProcStep i fails snap p snap' deleted p') : p'.calls = p.calls := by
  cases h with
  | recvFails hwait herr =>
      unfold RegionProc.recvFailed
      split <;> exact RegionProc.calls_finish _ _
  | recv cb m rest lost hwait hinbox hcb =>
      exact (RegionProc.calls_finish _ _).trans (RegionProc.handle_frame _ _ _).2.2
  | newUnsent => rfl
  | newTaken => rfl
  | newRefused => rfl
  | readUnsent => rfl
  | readStarted => rfl
  | readRefused => rfl
  | dumpPart => rfl
  | dumpDone => rfl
  | delUnsent => rfl
  | delTaken => rfl
  | delRefused => rfl

omit [DecidableEq ι] in
/-- A step of process `i` keeps the invariant of its call, deletes no snapshot but its
own, and leaves that of any other call alone. -/
theorem ProcStep.inv {i : ι} {fails : Bool} {snap snap' : Option (RegionCall ι)}
    {p p' : RegionProc (RegionCall ι)} {deleted : List (RegionCall ι × RegionCall ι)}
    (h : ProcStep i fails snap p snap' deleted p') (hinv : p.Inv snap (i, p.calls)) :
    p'.Inv snap' (i, p.calls) ∧ (∀ d ∈ deleted, d.1 = d.2) ∧
      ∀ own, own ≠ (i, p.calls) → snap = some own → snap' = some own := by
  cases h with
  | newUnsent seq hpc herr =>
      simp only [RegionProc.Inv, hpc] at hinv
      exact ⟨.inl ⟨hinv.1, by omega, by simp [hinv.2.1]⟩, by simp, fun _ _ hj => hj⟩
  | newTaken seq hpc =>
      simp only [RegionProc.Inv, hpc] at hinv
      obtain ⟨hdels, -, hdata, hinbox, hdump⟩ := hinv
      refine ⟨⟨hdels, hdata, hdump, 0, ?_, fun _ => rfl, by simp⟩, by simp,
        fun _ _ hj => by simp at hj⟩
      simp [RegionProc.answered, RegionProc.sent, hinbox]
  | @newRefused snap p error seq hpc herror =>
      simp only [RegionProc.Inv, hpc] at hinv
      obtain ⟨hdels, htaken, hdata, hinbox, hdump⟩ := hinv
      refine ⟨⟨hdels, hdata, hdump, error, ?_, fun h0 => absurd h0 herror, ?_⟩, by simp,
        fun _ _ hj => hj⟩
      · simp [RegionProc.answered, RegionProc.sent, hinbox]
      · simp [RegionProc.answered, RegionProc.sent, herror, htaken]
  | readUnsent seq hpc herr =>
      simp only [RegionProc.Inv, hpc] at hinv
      obtain ⟨hsnap, htaken, hdels, -⟩ := hinv
      exact ⟨⟨hsnap, htaken, hdels, rfl, fun h0 => absurd h0 (by omega)⟩, by simp,
        fun _ _ hj => hj⟩
  | readStarted seq hpc hdump =>
      simp only [RegionProc.Inv, hpc] at hinv
      obtain ⟨hsnap, htaken, hdels, hdata, hinbox, -⟩ := hinv
      exact ⟨⟨hsnap, htaken, hdels, by simp [hdata], [], by simp, .inl ⟨by simp, hinbox⟩⟩,
        by simp, fun _ _ hj => hj⟩
  | @readRefused snap p error seq hpc herror =>
      simp only [RegionProc.Inv, hpc] at hinv
      obtain ⟨hsnap, htaken, hdels, hdata, hinbox, hdump⟩ := hinv
      refine ⟨⟨hsnap, htaken, hdels, ?_, [], by simp, .inr ⟨hdump, ⟨seq, .ack error⟩, ?_, ?_⟩⟩,
        by simp, fun _ _ hj => hj⟩
      · simp [RegionProc.answered, RegionProc.sent, hdata]
      · simp [SnapReply.Last]
      · simp [RegionProc.answered, RegionProc.sent, hinbox]
  | dumpPart hdump => exact ⟨hinv.dumpPart hdump, by simp, fun _ _ hj => hj⟩
  | dumpDone len hdump hlen => exact ⟨hinv.dumpDone hdump, by simp, fun _ _ hj => hj⟩
  | delUnsent seq hpc =>
      simp only [RegionProc.Inv, hpc] at hinv
      obtain ⟨-, htaken, hdels, herr, hquiet⟩ := hinv
      exact ⟨.inr ⟨htaken, by simp [hdels], herr, fun h0 => (hquiet h0).2.2⟩, by simp,
        fun _ _ hj => hj⟩
  | @delTaken owner p err seq hpc =>
      simp only [RegionProc.Inv, hpc] at hinv
      obtain ⟨hsnap, htaken, hdels, herr, hquiet⟩ := hinv
      -- the snapshot that is there is the one that the call has taken
      obtain rfl : owner = (i, p.calls) := by simpa using hsnap
      refine ⟨⟨htaken, by simp [hdels], herr, fun h0 => ?_, ⟨seq, .ack 0⟩, ?_, ?_⟩, by simp,
        fun own hown howner => absurd (by simpa using howner.symm) hown⟩
      · exact (hquiet h0).answered _ _ _
      · simp [RegionProc.answered, RegionProc.sent]
      · simp [SnapReply.Last]
  | @delRefused snap p err error seq hpc herror =>
      simp only [RegionProc.Inv, hpc] at hinv
      obtain ⟨hsnap, htaken, hdels, herr, hquiet⟩ := hinv
      refine ⟨⟨htaken, by simp [hdels], herr, fun h0 => ?_, ⟨seq, .ack error⟩, ?_, ?_⟩, by simp,
        fun _ _ hj => hj⟩
      · exact (hquiet h0).answered _ _ _
      · simp [RegionProc.answered, RegionProc.sent]
      · simp [SnapReply.Last]
  | recvFails hwait herr => exact ⟨hinv.recvFailed hwait herr, by simp, fun _ _ hj => hj⟩
  | recv cb m rest lost hwait hinbox hcb =>
      exact ⟨hinv.recv hwait hinbox hcb, by simp, fun _ _ hj => hj⟩

/-- What holds of all processes. -/
structure SnapInv (net : SnapNet ι) : Prop where
  procs : ∀ i, (net.procs i).Inv net.snap (i, (net.procs i).calls)
  deleted : ∀ d ∈ net.deleted, d.1 = d.2

omit [DecidableEq ι] in
/-- It holds at the beginning. -/
theorem snapInv_init : SnapInv (SnapNet.init : SnapNet ι) :=
  ⟨fun _ => rfl, by simp [SnapNet.init]⟩

/-- A process changes, and the snapshot stays as it is. -/
theorem SnapInv.set {net : SnapNet ι} (hinv : SnapInv net) {i : ι}
    {p : RegionProc (RegionCall ι)} (h : p.Inv net.snap (i, p.calls)) : SnapInv (net.set i p) := by
  refine ⟨fun j => ?_, hinv.deleted⟩
  by_cases hj : j = i
  · subst hj
    simpa [SnapNet.set] using h
  · simpa [SnapNet.set, hj] using hinv.procs j

/-- It is preserved, where calls begin with nothing in the socket. -/
theorem SnapInv.step {net net' : SnapNet ι} (hinv : SnapInv net)
    (h : SnapStep RegionProc.Clear net net') : SnapInv net' := by
  cases h with
  | @proc i fails snap deleted p hrun h =>
      obtain ⟨hi, hdeleted, hothers⟩ := h.inv (hinv.procs i)
      refine ⟨fun j => ?_, ?_⟩
      · by_cases hj : j = i
        · subst hj
          simpa [SnapNet.set, h.calls] using hi
        · simpa [SnapNet.set, hj] using (hinv.procs j).frame (hothers _ (by simp [hj]))
      · simp only [List.mem_append]
        rintro d (hd | hd)
        · exact hinv.deleted d hd
        · exact hdeleted d hd
  | call hrun hrest hok => exact hinv.set (RegionProc.inv_call hok)
  | @others i inbox dumping hrun hrest =>
      exact hinv.set ((hinv.procs i).others hrest inbox dumping)
  | stop i => exact hinv.set (hinv.procs i).stop

/-- Whatever the processes have done, and in whatever order. -/
theorem snapInv_reaches {net : SnapNet ι} (h : SnapReaches RegionProc.Clear net) :
    SnapInv net := by
  induction h with
  | refl => exact snapInv_init
  | tail _ hstep ih => exact ih.step hstep

/-! ## Progress -/

/-- How far a process is from the end of its call, but for the messages that it waits
for. -/
def RegionPc.rank : RegionPc → Nat
  | .new => 10
  | .newReply => 8
  | .read => 7
  | .readReply => 4
  | .del _ => 3
  | .delReply _ => 1
  | .idle | .returned _ => 0

/-- The end of a dump is counted in advance. -/
def RegionProc.rank (p : RegionProc ο) : Nat :=
  p.pc.rank + p.inbox.length + 2 * p.dumping.isSome.toNat

/-- Nobody goes back. -/
theorem RegionProc.rank_finish (r : Int) (p : RegionProc ο) : (p.finish r).rank ≤ p.rank := by
  unfold finish
  split
  · exact Nat.le_refl _
  · split
    · split <;> simp_all [rank, RegionPc.rank]
    · simp_all [rank, RegionPc.rank]
    · simp_all [rank, RegionPc.rank]
    · exact Nat.le_refl _

/-- The end of a loop leads on. -/
theorem RegionProc.rank_finish_lt {r : Int} {p : RegionProc ο} (hwait : p.pc.waits = true)
    (hr : ¬ 0 < r) : (p.finish r).rank < p.rank := by
  cases hpc : p.pc with
  | newReply => rw [finish_newReply hr hpc]; split <;> simp [rank, RegionPc.rank, hpc]
  | readReply => rw [finish_readReply hr hpc]; simp [rank, RegionPc.rank, hpc]
  | delReply err => rw [finish_delReply hr hpc]; simp [rank, RegionPc.rank, hpc]
  | idle => simp [hpc, RegionPc.waits] at hwait
  | new => simp [hpc, RegionPc.waits] at hwait
  | read => simp [hpc, RegionPc.waits] at hwait
  | del err => simp [hpc, RegionPc.waits] at hwait
  | returned err => simp [hpc, RegionPc.waits] at hwait

/-- So does a failure to receive. -/
theorem RegionProc.rank_recvFailed_lt {err : Int} {p : RegionProc ο} (hwait : p.pc.waits = true)
    (herr : err < 0) : (p.recvFailed err).rank < p.rank := by
  have hlt := rank_finish_lt (r := err) hwait (by omega)
  unfold recvFailed
  split
  · exact hlt
  · exact hlt

/-- So does any message. -/
theorem RegionProc.rank_recv_lt {cb : Int} {m : SnapReply ο} {rest : List (SnapReply ο)}
    {lost : Nat} {p : RegionProc ο} (hinbox : p.inbox = m :: rest) :
    (p.recv cb m rest lost).rank < p.rank := by
  refine Nat.lt_of_le_of_lt (rank_finish _ _) ?_
  obtain ⟨hpc, hdump, -⟩ := p.handle_frame cb m
  have hlen : (if 0 < (p.handle cb m).1 then rest else rest.drop lost).length ≤ rest.length := by
    split <;> simp
  simp only [rank, hpc, hdump, hinbox, List.length_cons]
  omega

omit [DecidableEq ι] in
/-- A step leads a process towards the end of its call, unless the kernel dumps data to
it. -/
theorem ProcStep.rank_lt {i : ι} {fails : Bool} {snap snap' : Option (RegionCall ι)}
    {p p' : RegionProc (RegionCall ι)} {deleted : List (RegionCall ι × RegionCall ι)}
    (h : ProcStep i fails snap p snap' deleted p') :
    p'.rank < p.rank ∨
      ∃ seq owner, p.dumping = some seq ∧ p' = p.sent ⟨seq, .part owner⟩ := by
  cases h with
  | dumpPart hdump => exact .inr ⟨_, _, hdump, rfl⟩
  | recvFails hwait herr => exact .inl (RegionProc.rank_recvFailed_lt hwait herr)
  | recv cb m rest lost hwait hinbox hcb => exact .inl (RegionProc.rank_recv_lt hinbox)
  | newUnsent seq hpc herr => left; simp [RegionProc.rank, hpc, RegionPc.rank]
  | newTaken seq hpc =>
      left
      simp [RegionProc.rank, RegionProc.answered, RegionProc.sent, hpc, RegionPc.rank]
      omega
  | newRefused seq hpc herror =>
      left
      simp [RegionProc.rank, RegionProc.answered, RegionProc.sent, hpc, RegionPc.rank]
      omega
  | readUnsent seq hpc herr => left; simp [RegionProc.rank, hpc, RegionPc.rank]
  | readStarted seq hpc hdump => left; simp [RegionProc.rank, hpc, RegionPc.rank, hdump]; omega
  | readRefused seq hpc herror =>
      left
      simp [RegionProc.rank, RegionProc.answered, RegionProc.sent, hpc, RegionPc.rank]
      omega
  | dumpDone len hdump hlen => left; simp [RegionProc.rank, RegionProc.sent, hdump]; omega
  | delUnsent seq hpc => left; simp [RegionProc.rank, hpc, RegionPc.rank]
  | delTaken seq hpc =>
      left
      simp [RegionProc.rank, RegionProc.answered, RegionProc.sent, hpc, RegionPc.rank]
      omega
  | delRefused seq hpc herror =>
      left
      simp [RegionProc.rank, RegionProc.answered, RegionProc.sent, hpc, RegionPc.rank]
      omega

omit [DecidableEq ι] in
/-- There is always a step left in which nothing fails, as long as a process is in a
call. -/
theorem RegionProc.Inv.progress {snap : Option (RegionCall ι)} {i : ι} {own : RegionCall ι}
    {p : RegionProc (RegionCall ι)} (h : p.Inv snap own) (hpc : p.pc.rests = false) :
    ∃ snap' deleted p', ProcStep i false snap p snap' deleted p' ∧ p'.rank < p.rank := by
  have hrecv : ∀ m rest, p.inbox = m :: rest → p.pc.waits = true →
      ∃ snap' deleted p', ProcStep i false snap p snap' deleted p' ∧ p'.rank < p.rank :=
    fun m rest hinbox hwait => ⟨snap, [], p.recv 1 m rest 0,
      .recv 1 m rest 0 hwait hinbox (.inl rfl),
      rank_recv_lt hinbox⟩
  unfold Inv at h
  cases hp : p.pc with
  | new =>
      refine ⟨snap, [], p.answered .newReply 1 (-17), .newRefused 1 hp (by decide), ?_⟩
      simp [rank, answered, sent, hp, RegionPc.rank]; omega
  | newReply =>
      simp only [hp] at h
      obtain ⟨-, -, -, error, hinbox, -⟩ := h
      exact hrecv _ _ hinbox (by simp [hp, RegionPc.waits])
  | read =>
      simp only [hp] at h
      obtain ⟨-, -, -, -, -, hdump⟩ := h
      refine ⟨snap, [], _, .readStarted 1 hp hdump, ?_⟩
      simp [rank, hp, RegionPc.rank, hdump]; omega
  | readReply =>
      simp only [hp] at h
      obtain ⟨-, -, -, -, parts, -, ⟨hdump, -⟩ | ⟨-, last, -, hinbox⟩⟩ := h
      · obtain ⟨seq, hdump⟩ := Option.ne_none_iff_exists'.mp hdump
        refine ⟨snap, [], _, .dumpDone (-1) hdump (by omega), ?_⟩
        simp [rank, sent, hdump]; omega
      · cases parts with
        | nil => exact hrecv _ _ hinbox (by simp [hp, RegionPc.waits])
        | cons part parts => exact hrecv _ _ hinbox (by simp [hp, RegionPc.waits])
  | del err =>
      refine ⟨snap, [], { p.answered (.delReply err) 1 (-2) with dels := p.dels + 1 },
        .delRefused 1 hp (by decide), ?_⟩
      simp [rank, answered, sent, hp, RegionPc.rank]; omega
  | delReply err =>
      simp only [hp] at h
      obtain ⟨-, -, -, -, m, hm, -⟩ := h
      cases hinbox : p.inbox with
      | nil => simp [hinbox] at hm
      | cons m rest => exact hrecv _ _ hinbox (by simp [hp, RegionPc.waits])
  | idle => simp [hp, RegionPc.rests] at hpc
  | returned err => simp [hp, RegionPc.rests] at hpc

/-- No call issues a second DEL. -/
theorem RegionProc.Inv.dels_le {snap : Option ο} {own : ο} {p : RegionProc ο}
    (h : p.Inv snap own) : p.dels ≤ 1 := by
  unfold Inv at h
  cases hpc : p.pc with
  | returned err =>
      simp only [hpc] at h
      obtain ⟨hdels, -⟩ | ⟨-, hdels, -⟩ := h <;> omega
  | idle => simp only [hpc] at h; omega
  | new => simp only [hpc] at h; omega
  | newReply => simp only [hpc] at h; omega
  | read => simp only [hpc] at h; omega
  | readReply => simp only [hpc] at h; omega
  | del err => simp only [hpc] at h; omega
  | delReply err => simp only [hpc] at h; omega

/-! ## Whose snapshot it is -/

/-- A call that returns 0 has read nothing but its own snapshot, and nobody deletes the
snapshot of another call.  A call for which the kernel has taken a snapshot, and that
has received the answer to this, issues one DEL by the time it returns the result of
READ.  A process in a call can go on, and comes closer to the end of it with each step
but those of the kernel that dump data to it. -/
structure SnapOwn (net : SnapNet ι) : Prop where
  data : ∀ i, (net.procs i).pc = .returned 0 → (net.procs i).taken = true ∧
    ∀ owner ∈ (net.procs i).data, owner = (i, (net.procs i).calls)
  deleted : ∀ d ∈ net.deleted, d.1 = d.2
  dels_le : ∀ i, (net.procs i).dels ≤ 1
  dels : ∀ i err, (net.procs i).pc = .returned err → (net.procs i).taken = true →
    (net.procs i).unheard = false →
      (net.procs i).dels = 1 ∧ (net.procs i).readErr = some err
  progress : ∀ i, (net.procs i).pc.rests = false → ∃ snap deleted p,
    ProcStep i false net.snap (net.procs i) snap deleted p ∧ p.rank < (net.procs i).rank
  closer : ∀ i fails snap deleted p, ProcStep i fails net.snap (net.procs i) snap deleted p →
    p.rank < (net.procs i).rank ∨
      ∃ seq owner, (net.procs i).dumping = some seq ∧
        p = (net.procs i).sent ⟨seq, .part owner⟩

/-- For any number of processes and of calls, any interleaving and any of them
stopping: where every call begins with nothing in its socket, snapshots are not
mixed. -/
theorem snapshots_own {net : SnapNet ι} (h : SnapReaches RegionProc.Clear net) :
    SnapOwn net := by
  have hinv := snapInv_reaches h
  refine ⟨fun i hpc => ?_, hinv.deleted, fun i => (hinv.procs i).dels_le,
    fun i err hpc htaken hheard => ?_, fun i hpc => (hinv.procs i).progress hpc,
    fun i fails snap deleted p hstep => hstep.rank_lt⟩
  · have hi := hinv.procs i
    unfold RegionProc.Inv at hi
    simp only [hpc] at hi
    obtain ⟨-, h0, -⟩ | ⟨htaken, -, -, hdata⟩ := hi
    · exact absurd rfl h0
    · exact ⟨htaken, by simpa using hdata⟩
  · have hi := hinv.procs i
    unfold RegionProc.Inv at hi
    simp only [hpc] at hi
    obtain ⟨-, -, hunheard⟩ | ⟨-, hdels, herr, -⟩ := hi
    · simp [hunheard htaken] at hheard
    · exact ⟨hdels, herr⟩

/-- Process `true` takes, reads and deletes a snapshot while NEW fails for process
`false`, which takes its own with its next call and deletes it when READ fails. -/
theorem snapshots_own_two : ∃ net : SnapNet Bool,
    ((net.procs true).pc = .returned 0 ∧ (net.procs true).data = [(true, 1)] ∧
      (net.procs false).pc = .returned (-1) ∧ (net.procs false).calls = 2 ∧
      net.deleted = [((true, 1), (true, 1)), ((false, 2), (false, 2))]) ∧ SnapOwn net := by
  have h0 : SnapReaches RegionProc.Clear (SnapNet.init : SnapNet Bool) := .refl
  have h1 := h0.tail (.call (i := true) rfl rfl ⟨rfl, rfl⟩)
  have h2 := h1.tail (.proc (i := true) rfl (.newTaken 7 rfl))
  have h3 := h2.tail (.call (i := false) rfl rfl ⟨rfl, rfl⟩)
  have h4 := h3.tail (.proc (i := false) rfl
    (.newRefused 7 rfl (show (-17 : Int) ≠ 0 by decide)))
  have h5 := h4.tail (.proc (i := true) rfl (.recv 1 ⟨7, .ack 0⟩ [] 0 rfl rfl (.inl rfl)))
  have h6 := h5.tail (.proc (i := true) rfl (.readStarted 8 rfl rfl))
  have h7 := h6.tail (.proc (i := true) rfl (.dumpPart rfl))
  have h8 := h7.tail (.proc (i := false) rfl (.recv 1 ⟨7, .ack (-17)⟩ [] 0 rfl rfl (.inl rfl)))
  have h9 := h8.tail (.proc (i := true) rfl
    (.dumpDone 0 rfl (show some (true, 1) = none → (0 : Int) < 0 by simp)))
  have h10 := h9.tail (.proc (i := true) rfl
    (.recv 1 ⟨8, .part (true, 1)⟩ [⟨8, .done 0⟩] 0 rfl rfl (.inl rfl)))
  have h11 := h10.tail (.proc (i := true) rfl (.recv 1 ⟨8, .done 0⟩ [] 0 rfl rfl (.inl rfl)))
  have h12 := h11.tail (.proc (i := true) rfl (.delTaken 8 rfl))
  have h13 := h12.tail (.proc (i := true) rfl (.recv 1 ⟨8, .ack 0⟩ [] 0 rfl rfl (.inl rfl)))
  have h14 := h13.tail (.call (i := false) rfl rfl ⟨rfl, rfl⟩)
  have h15 := h14.tail (.proc (i := false) rfl (.newTaken 8 rfl))
  have h16 := h15.tail (.proc (i := false) rfl (.recv 1 ⟨8, .ack 0⟩ [] 0 rfl rfl (.inl rfl)))
  have h17 := h16.tail (.proc (i := false) rfl
    (.readRefused 8 rfl (show (-12 : Int) ≠ 0 by decide)))
  have h18 := h17.tail (.proc (i := false) rfl (.recv 1 ⟨8, .ack (-12)⟩ [] 0 rfl rfl (.inl rfl)))
  have h19 := h18.tail (.proc (i := false) rfl (.delTaken 8 rfl))
  have h20 := h19.tail (.proc (i := false) rfl (.recv 1 ⟨8, .ack 0⟩ [] 0 rfl rfl (.inl rfl)))
  exact ⟨_, ⟨rfl, rfl, rfl, rfl, rfl⟩, snapshots_own h20⟩

/-- All of this happens within one second.  The callback of process `true` fails on the
first data of READ, and DEL takes the end of the dump for its answer, which it leaves
unread.  In its next call NEW fails, because of the snapshot of process `false`, but finds
the answer to DEL, which looks like success; so the call deletes that snapshot. -/
theorem not_snapshots_own_unread : ∃ net : SnapNet Bool, SnapReaches (fun _ => True) net ∧
    net.deleted = [((true, 1), (true, 1)), ((true, 2), (false, 1))] ∧ ¬SnapOwn net := by
  have h0 : SnapReaches (fun _ => True) (SnapNet.init : SnapNet Bool) := .refl
  have h1 := h0.tail (.call (i := true) rfl rfl trivial)
  have h2 := h1.tail (.proc (i := true) rfl (.newTaken 7 rfl))
  have h3 := h2.tail (.proc (i := true) rfl (.recv 1 ⟨7, .ack 0⟩ [] 0 rfl rfl (.inl rfl)))
  have h4 := h3.tail (.proc (i := true) rfl (.readStarted 7 rfl rfl))
  have h5 := h4.tail (.proc (i := true) rfl (.dumpPart rfl))
  have h6 := h5.tail (.proc (i := true) rfl
    (.dumpDone 0 rfl (show some (true, 1) = none → (0 : Int) < 0 by simp)))
  have h7 := h6.tail (.proc (i := true) rfl
    (.recv (-1) ⟨7, .part (true, 1)⟩ [⟨7, .done 0⟩] 0 rfl rfl (.inr rfl)))
  have h8 := h7.tail (.proc (i := true) rfl (.delTaken 7 rfl))
  have h9 := h8.tail (.proc (i := true) rfl
    (.recv 1 ⟨7, .done 0⟩ [⟨7, .ack 0⟩] 0 rfl rfl (.inl rfl)))
  have h10 := h9.tail (.call (i := false) rfl rfl trivial)
  have h11 := h10.tail (.proc (i := false) rfl (.newTaken 7 rfl))
  have h12 := h11.tail (.call (i := true) rfl rfl trivial)
  have h13 := h12.tail (.proc (i := true) rfl
    (.newRefused 7 rfl (show (-17 : Int) ≠ 0 by decide)))
  have h14 := h13.tail (.proc (i := true) rfl
    (.recv 1 ⟨7, .ack 0⟩ [⟨7, .ack (-17)⟩] 0 rfl rfl (.inl rfl)))
  have h15 := h14.tail (.proc (i := true) rfl (.readStarted 7 rfl rfl))
  have h16 := h15.tail (.proc (i := true) rfl (.recv 1 ⟨7, .ack (-17)⟩ [] 0 rfl rfl (.inl rfl)))
  have h17 := h16.tail (.proc (i := true) rfl (.delTaken 7 rfl))
  refine ⟨_, h17, rfl, fun h => ?_⟩
  have hd := h.deleted ((true, 2), (false, 1)) (by decide)
  cases hd

end MdioTools.Mvls
