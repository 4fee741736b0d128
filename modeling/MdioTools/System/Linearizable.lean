import MdioTools.System.Party
import MdioTools.System.RegisterFile

/-!
# Concurrent clients on a register file

Any number of clients send their requests at once, and the handlers run in any
order of their steps.  The register file behind the bus is linearizable: it is
left as if the operations had been made at single instants, in the order in which
the handlers take {lit}`mdio_lock`; every answer is that of the register file at its
instant; and an operation that is over before another one has come to the lock
comes before it in that order.  The same holds of other parties on the bus that
act on the register file.

Main results:

- Definition {lit}`Participant`: a party on the bus that acts on the register file.
- Definition {lit}`ClientOp`: a common operation as a request in the memory of the
  kernel.
- Theorem {lit}`ClientOp.at_after`: the handler behind its critical section.
- Theorem {lit}`participants_explained`: any schedule of any participants.
- Theorem {lit}`clients_linearizable`: any schedule of any clients.
-/

namespace MdioTools.System

open Library Kernel Client Device

variable {β ι κ : Type} [DecidableEq κ] {name : List Byte}

variable {dev : Device β} {rep : β → (κ → BitVec 16) → Prop}

/-! ## Participants -/

/-- A party that acts on the register file: what it does to the registers, and
the results that answer it.  It has them behind its critical section. -/
structure Participant (dev : Device β) (rep : β → (κ → BitVec 16) → Prop) (name : List Byte) where
  party : Party
  sound : party.start.Sound
  after : (κ → BitVec 16) → κ → BitVec 16
  Answered : (κ → BitVec 16) → PartyResult → Prop
  at_after : ∀ {b b' ω l}, rep b ω → party.At name dev.bus b b' l → l.phase = .after →
    rep b' (after ω) ∧ ∀ res, l.result = some res → Answered ω res
  result_after : ∀ {b b' l res}, (solo (partyCode name dev.bus)).Reaches (party.start, b) (l, b') →
    l.result = some res → l.phase = .after

omit [DecidableEq κ] in
/-- A single access. -/
def Participant.ofAccess (a : BusAccess) (after : (κ → BitVec 16) → κ → BitVec 16)
    (Answered : (κ → BitVec 16) → PartyResult → Prop)
    (h : ∀ {b ω}, rep b ω → rep (a.perform dev.bus b).2 (after ω) ∧
      Answered ω (.access (a.perform dev.bus b).1)) : Participant dev rep name where
  party := .access a
  sound := trivial
  after := after
  Answered := Answered
  at_after := by
    intro b b' ω l hrep hat hphase
    cases l with
    | closing r ret x => cases hat.1
    | done res =>
        cases res with
        | xfer out => exact hat.elim
        | access ret =>
            have hperform : a.perform dev.bus b = (ret, b') := hat
            have hacts := h hrep
            rw [hperform] at hacts
            exact ⟨hacts.1, fun res hres => by cases hres; exact hacts.2⟩
    | _ => cases hphase
  result_after := by
    intro b b' l res hreach hres
    have hat := Party.at_reaches hreach
    cases l with
    | refused out => exact hat.elim
    | done res' => rfl
    | _ => cases hres

/-! ## Requests -/

/-- A common operation that a client has sent for the bus: the request in the
memory of the kernel, with what is behind it, the socket of the reply, and a clock
that does not reach the time limit. -/
structure ClientOp (dev : Device β) (rep : β → (κ → BitVec 16) → Prop) (name : List Byte) where
  rd : RegDevice dev rep
  op : CommonOp
  allowed : rd.allows op
  prog : MdioProg
  built : op.prog rd.mdev.driver = some prog
  seq : BitVec 32
  timeout : BitVec 16
  limit : timeout.toNat ≤ 10 * 1000
  behind : List Byte
  env : ReplyEnv
  reliable : Reliable env
  late : BitVec 32 → Nat → Bool
  onTime : ∀ limit n, late limit n = false
  fits : 36 + align4 (name.length + 1) + 8 * prog.length ≤ bufLen

namespace ClientOp

variable (o : ClientOp dev rep name)

/-- The request as the handler gets it. -/
def request : XferRequest where
  env := o.env
  late := o.late
  attrs := genlInfo o.env.endian
    (requestBytes o.env.endian o.env.family o.seq name o.prog o.timeout ++ o.behind)

/-- The words of the operation on a register file. -/
def words (ω : κ → BitVec 16) : Words :=
  o.op.words o.rd.regs ω

/-- The register file behind the operation. -/
def after (ω : κ → BitVec 16) : κ → BitVec 16 :=
  o.op.after o.rd.regs ω

theorem carried (hnul : 0 ∉ name) : Carried o.env name o.prog o.timeout
    (requestBytes o.env.endian o.env.family o.seq name o.prog o.timeout) o.behind := by
  refine requestBytes_carries o.env o.seq name o.prog o.timeout o.behind hnul ?_
  rw [requestBytes_length]
  exact o.fits

/-- The program is within the policy. -/
theorem accepted (hnul : 0 ∉ name) (hshort : name.length ≤ miiBusIdSize) : o.request.Accepted := by
  have hassembled := CommonOp.assembled o.rd.pushes o.built
  have hpolicy := (o.carried hnul).policy.mpr ⟨hshort, o.limit, hassembled.closed.valid⟩
  exact fun prog hprog => hpolicy.prog prog (by rw [Option.mem_def]; exact hprog)

/-- The handler gets to the lock. -/
theorem enter (hnul : 0 ∉ name) : o.request.enter name =
    .ok (o.prog.map MdioNlInsn.unreserved, (mdioNlOpen o.env Xfer.init).2) := by
  obtain ⟨attr, hlooks, hname⟩ := (o.carried hnul).lookup
  obtain ⟨attr', hprog, hinsns⟩ := (o.carried hnul).insns
  have hopen : ¬(mdioNlOpen o.env Xfer.init).1 ≠ 0 :=
    not_not.mpr (mdioNlOpen_holds o.reliable Xfer.init).1
  have hbusId : o.request.attrs.busId = some attr := hlooks.busId
  have hdata : o.request.attrs.data = false := hlooks.data
  have herror : o.request.attrs.error = false := hlooks.error
  have hprog' : o.request.attrs.prog = some attr' := hprog
  have henv : o.request.env = o.env := rfl
  simp only [XferRequest.enter, hbusId, hprog', hdata, herror, Bool.or_self, Bool.false_eq_true,
    if_false, hname, ne_eq, not_true_eq_false, henv, if_neg hopen, hinsns]

/-- What a client gets for its operation on the register file: the reply with its
words and no error.  If they fit a message, one call of the callback has them. -/
structure Answers (ω : κ → BitVec 16) (out : XferOutcome Unit) : Prop where
  err : out.err = 0
  sent : out.xfer.sent = replyStream o.env (o.words ω) 0
  received : OneMessage o.env (o.words ω) 0 → ∀ (cb : OpCallback CStr) (arg : CStr) rest,
    ∃ status, msgRecv o.env.endian cb (out.xfer.sent ++ rest) ⟨0, arg, []⟩ =
      some (status, ⟨0, (cb (o.words ω) 0 arg).2, [(o.words ω, 0)]⟩)

/-- The run of the program for the request. -/
theorem halts {b : β} {ω : κ → BitVec 16} (hrep : rep b ω) :
    ∃ b' ticks, (mdioNlEval (o.prog.map MdioNlInsn.unreserved) dev.bus o.request.host).Halts
        (.entry ⟨(mdioNlOpen o.env Xfer.init).2, 0⟩ b)
        (.returned .progEnd 0 (replyHost o.env (o.words ω, ticks)) b') ∧
      rep b' (o.after ω) := by
  have hlen : o.prog.length ≤ 512 := by
    have hfits := o.fits
    unfold bufLen at hfits
    omega
  obtain ⟨b', hhalts, hrep'⟩ := o.rd.halts o.allowed o.built hlen hrep
  obtain ⟨ticks, n, hn⟩ := words_of_halts (o.onTime (timeoutMs o.env o.request.attrs)) hhalts
  refine ⟨b', ticks, ⟨n, ?_⟩, hrep'⟩
  have hreply := mdioNlEval_reply o.reliable (o.late (timeoutMs o.env o.request.attrs)) o.prog
    dev.bus b n
  rw [hn] at hreply
  rw [mdioNlEval_unreserved]
  exact hreply

/-- The reply that the handler closes answers the operation. -/
theorem finish_answers (ω : κ → BitVec 16) (ticks : Nat) :
    o.Answers ω (xferFinish o.env 0 (replyHost o.env (o.words ω, ticks)).xfer ()) := by
  obtain ⟨full, cur, hemitted⟩ := emitAll_chunks o.reliable (o.words ω)
  have hsent : (xferFinish o.env 0 (replyHost o.env (o.words ω, ticks)).xfer ()).xfer.sent =
      replyStream o.env (o.words ω) 0 := rfl
  refine ⟨(hemitted.close o.reliable 0).1, hsent, fun hone cb arg rest => ?_⟩
  rw [hsent, replyStream_one o.reliable hone, List.singleton_append]
  exact ⟨_, msgRecv_one o.reliable.family cb (by decide) (by decide) hone rest arg⟩

/-- Behind its critical section a handler has run the operation, and its result is
the answer. -/
theorem at_after (hnul : 0 ∉ name) {b b' : β} {ω : κ → BitVec 16} (hrep : rep b ω)
    {l : PartyState} (hat : (Party.xfer o.request).At name dev.bus b b' l)
    (hphase : l.phase = .after) :
    rep b' (o.after ω) ∧
      ∀ res, l.result = some res → ∃ out, res = .xfer out ∧ o.Answers ω out := by
  obtain ⟨b'', ticks, hhalts, hrep'⟩ := o.halts hrep
  cases l with
  | closing r ret h =>
      obtain ⟨hr, prog, x, why, henter, hend⟩ := hat
      cases hr
      rw [o.enter hnul] at henter
      cases henter
      cases hhalts.unique hend
      exact ⟨hrep', fun res hres => by cases hres⟩
  | done res =>
      cases res with
      | access ret => exact hat.elim
      | xfer out =>
          obtain ⟨fuel, hfuel⟩ := hat
          have henter := o.enter hnul
          rw [mdioNlCmdXfer_enter, henter] at hfuel
          simp only at hfuel
          split at hfuel
          · rename_i why ret h b₁ hrun
            cases hhalts.unique ⟨fuel, hrun⟩
            have hfinish := Option.some.inj hfuel
            obtain rfl : b'' = b' := congrArg XferOutcome.bus hfinish
            have hout : xferFinish o.env 0 (replyHost o.env (o.words ω, ticks)).xfer () = out := by
              cases out
              cases hfinish
              rfl
            refine ⟨hrep', fun res hres => ?_⟩
            cases hres
            exact ⟨out, rfl, hout ▸ o.finish_answers ω ticks⟩
          · cases hfuel
  | _ => cases hphase

/-- An iteration of the loop does not refuse a request. -/
theorem settle_ne_refused {S : Type} (r : XferRequest) (prog : List MdioNlInsn) (b : S)
    (x : EvalState XferHost S ⊕ EvalResult XferHost S) (out : XferOutcome Unit) :
    (r.settle prog b x).1 ≠ .refused out := by
  rcases x with s | ⟨why, ret, h, b'⟩ | _ <;> exact fun heq => by cases heq

/-- No step refuses the request of an operation: the one that could is the first. -/
theorem step_not_refused (hnul : 0 ∉ name) {b : β} {l l' : PartyState × β}
    (hat : (Party.xfer o.request).At name dev.bus b l.2 l.1)
    (hstep : (solo (partyCode name dev.bus)).step l = .inl l') (out : XferOutcome Unit) :
    l'.1 ≠ .refused out := by
  obtain ⟨l, b'⟩ := l
  simp only [solo, soloStep] at hstep
  cases l with
  | arrived r =>
      obtain ⟨hr, -⟩ := hat
      cases hr
      simp only [partyCode, o.enter hnul] at hstep
      cases hstep
      exact fun heq => by cases heq
  | looping r prog s =>
      simp only [partyCode] at hstep
      cases htransacts : s.transacts prog r.host with
      | true =>
          rw [htransacts] at hstep
          cases hstep
          exact settle_ne_refused _ _ _ _ out
      | false =>
          rw [htransacts] at hstep
          cases hstep
          exact settle_ne_refused _ _ _ _ out
  | _ =>
      cases hstep
      try exact fun heq => by cases heq

/-- So a handler that has a result is behind its critical section. -/
theorem result_after (hnul : 0 ∉ name) {b b' : β} {l : PartyState}
    (h : (solo (partyCode name dev.bus)).Reaches (.arrived o.request, b) (l, b'))
    {res : PartyResult} (hres : l.result = some res) : l.phase = .after := by
  have hstart : (Party.xfer o.request).At name dev.bus b b (.arrived o.request) ∧
      ∀ out, PartyState.arrived o.request ≠ .refused out :=
    ⟨⟨rfl, rfl⟩, fun out heq => by cases heq⟩
  have hkeep : (Party.xfer o.request).At name dev.bus b b' l ∧ ∀ out, l ≠ .refused out :=
    h.invariant
      (I := fun l => (Party.xfer o.request).At name dev.bus b l.2 l.1 ∧
        ∀ out, l.1 ≠ .refused out)
      (fun l l' hl hstep => ⟨Party.at_step hl.1 hstep, o.step_not_refused hnul hl.1 hstep⟩)
      hstart
  cases l with
  | refused out => exact absurd rfl (hkeep.2 out)
  | done res' => rfl
  | _ => cases hres

/-- The client of an operation. -/
def participant (hnul : 0 ∉ name) (hshort : name.length ≤ miiBusIdSize) :
    Participant dev rep name where
  party := .xfer o.request
  sound := o.accepted hnul hshort
  after := o.after
  Answered ω res := ∃ out, res = .xfer out ∧ o.Answers ω out
  at_after hrep hat hphase := o.at_after hnul hrep hat hphase
  result_after hreach hres := o.result_after hnul hreach hres

end ClientOp

/-! ## Any schedule -/

section Schedules

variable (ps : ι → Participant dev rep name)

/-- All parties on their way, and nobody on the bus. -/
def allStarted (b : β) : Conc ι PartyState β :=
  .start (fun i => (ps i).party.start) b

/-- The register file behind parties in this order. -/
def afterAll (order : List ι) (ω : κ → BitVec 16) : κ → BitVec 16 :=
  order.foldl (fun ω i => (ps i).after ω) ω

/-- The order explains a state: the register file is left as if the parties had
acted one after another, and each result that is there answers its party on the
register file as it is when it is its turn. -/
structure Explains (order : List ι) (ω : κ → BitVec 16) (c : Conc ι PartyState β) : Prop where
  nodup : order.Nodup
  idle : c.holder = none → rep c.shared (afterAll ps order ω)
  answers : ∀ i res, (c.locals i).result = some res → ∃ front back,
    order = front ++ i :: back ∧ (ps i).Answered (afterAll ps front ω) res

variable {ps}

omit [DecidableEq κ]

/-- Parties one after another, each behind its critical section: the register file
and the results. -/
theorem serial_answers {locals : ι → PartyState} {order : List ι} {b b' : β} {ω : κ → BitVec 16}
    (h : SerialTo (partyCode name dev.bus) (fun i => (ps i).party.start) locals order b b')
    (hafter : ∀ i ∈ order, (locals i).phase = .after) (hrep : rep b ω) :
    rep b' (afterAll ps order ω) ∧
      ∀ front i back, order = front ++ i :: back → ∀ res, (locals i).result = some res →
        (ps i).Answered (afterAll ps front ω) res := by
  induction order generalizing b ω with
  | nil =>
      obtain rfl : b' = b := h
      refine ⟨hrep, fun front i back heq => ?_⟩
      simp at heq
  | cons j order ih =>
      obtain ⟨mid, hj, hserial⟩ := h
      have hat := Party.at_reaches hj
      obtain ⟨hmid, hanswer⟩ := (ps j).at_after hrep hat (hafter j List.mem_cons_self)
      obtain ⟨hlast, hanswers⟩ := ih hserial (fun i hi => hafter i (List.mem_cons_of_mem _ hi)) hmid
      refine ⟨hlast, fun front i back heq res hres => ?_⟩
      cases front with
      | nil =>
          obtain ⟨rfl, rfl⟩ := List.cons.inj heq
          exact hanswer res hres
      | cons k front =>
          obtain ⟨rfl, rfl⟩ := List.cons.inj heq
          exact hanswers front i back rfl res hres

variable [DecidableEq ι]

/-- The threads that a run has served explain where it is. -/
theorem Served.explains {b : β} {ω : κ → BitVec 16} (hrep : rep b ω)
    {c : Conc ι PartyState β} {order : List ι}
    (h : Served (partyCode name dev.bus) PartyState.phase PartyState.Sound
      (fun i => (ps i).party.start) b c order) : Explains ps order ω c := by
  obtain ⟨past, rest, rfl, hpast, hrest, hidle⟩ := h.split
  obtain ⟨mid, hserial, hlast⟩ := serialTo_append.mp h.serial
  obtain ⟨hmid, hanswers⟩ := serial_answers hserial hpast hrep
  refine ⟨h.nodup, fun hholder => ?_, fun i res hres => ?_⟩
  · obtain rfl := hidle hholder
    obtain rfl : c.shared = mid := hlast
    rw [List.append_nil]
    exact hmid
  · obtain ⟨t, t', hreach⟩ := h.reaches i
    have hafter := (ps i).result_after hreach hres
    have hserved : i ∈ past ++ rest := by
      by_contra hnot
      have hbefore := (h.waiting i hnot).1
      rw [hafter] at hbefore
      cases hbefore
    have hmem : i ∈ past := by
      refine (List.mem_append.mp hserved).resolve_right fun hi => ?_
      have hinside := hrest i hi
      rw [hafter] at hinside
      cases hinside
    obtain ⟨front, back, rfl⟩ := List.append_of_mem hmem
    exact ⟨front, back ++ rest, by simp, hanswers front i back rfl res hres⟩

theorem Party.start_before (p : Party) : p.start.phase = .before := by
  cases p <;> rfl

/-- Whatever the order of the steps, the order in which the parties take the lock
explains the state; and a party that is past its unlock before another one has
taken the lock comes first. -/
theorem participants_explained (ps : ι → Participant dev rep name) {b : β} {ω : κ → BitVec 16}
    (hrep : rep b ω) {schedule : List ι} {c : Conc ι PartyState β}
    (hrun : Conc.follow (partyCode name dev.bus) schedule (allStarted ps b) = some c) :
    Explains ps (Conc.lockOrder (partyCode name dev.bus) schedule (allStarted ps b)) ω c ∧
      ∀ front back d, schedule = front ++ back →
        Conc.follow (partyCode name dev.bus) front (allStarted ps b) = some d →
        ∀ i j, (d.locals i).phase = .after → (d.locals j).phase = .before →
          j ∈ Conc.lockOrder (partyCode name dev.bus) schedule (allStarted ps b) →
          [i, j].Sublist
            (Conc.lockOrder (partyCode name dev.bus) schedule (allStarted ps b)) := by
  have hdiscipline := partyCode_discipline name dev.bus
  have hstart : ∀ i, PartyState.Sound (ps i).party.start ∧
      PartyState.phase (ps i).party.start = .before :=
    fun i => ⟨(ps i).sound, Party.start_before _⟩
  constructor
  · exact Served.explains hrep (follow_served hdiscipline hstart hrun)
  · rintro front back d rfl hfront i j hi hj hmem
    exact lockOrder_realTime hdiscipline hstart hfront hi hj hmem

end Schedules

/-- Whatever the order of the steps, the order in which the handlers take the lock
explains the state; and a handler that is past its unlock before another one has
taken the lock comes first. -/
theorem clients_linearizable [DecidableEq ι] (ops : ι → ClientOp dev rep name) (hnul : 0 ∉ name)
    (hshort : name.length ≤ miiBusIdSize) {b : β} {ω : κ → BitVec 16} (hrep : rep b ω)
    {schedule : List ι} {c : Conc ι PartyState β} :
    let clients : Conc ι PartyState β := allStarted (fun i => (ops i).participant hnul hshort) b
    let order := Conc.lockOrder (partyCode name dev.bus) schedule clients
    Conc.follow (partyCode name dev.bus) schedule clients = some c →
    Explains (fun i => (ops i).participant hnul hshort) order ω c ∧
      ∀ front back d, schedule = front ++ back →
        Conc.follow (partyCode name dev.bus) front clients = some d →
        ∀ i j, (d.locals i).phase = .after → (d.locals j).phase = .before → j ∈ order →
          [i, j].Sublist order :=
  participants_explained (fun i => (ops i).participant hnul hshort) hrep

theorem xferTimeout_le : xferTimeout.toNat ≤ 10 * 1000 := by
  decide

/-- Two clients on register 2 of MMD 4 of port 9: a masked write as it is, and a
read through the registers 13 and 14. -/
def twoClients : Bool → ClientOp mmdBus MmdState.Represents [0x66]
  | indirect => {
      rd := bif indirect then mmdC22RegDevice exampleMmd else mmdRegDevice exampleMmd
      op := .raw 2 (bif indirect then none else some (0x0100, 0xfeff))
      allowed := by cases indirect <;> trivial
      prog := mdioCommonRawProg (bif indirect then mmdC22Driver 0x8124 else phyDriver 0x8124) 2
        (bif indirect then none else some (0x0100, 0xfeff))
      built := by cases indirect <;> rfl
      seq := 1
      timeout := xferTimeout
      limit := xferTimeout_le
      behind := []
      env := exampleEnv []
      reliable := exampleEnv_reliable
      late := fun _ _ => false
      onTime := fun _ _ => rfl
      fits := by cases indirect <;> decide }

/-- The MMDs with all registers 0. -/
def clearedMmds : MmdState :=
  ⟨fun _ => 0, fun _ => 0, fun _ => 0⟩

/-- Both requests arrive, the write runs while the read waits for the lock, and the
read runs before the writer has its result. -/
def twoClientsSchedule : List Bool :=
  [true, false, false] ++ List.replicate 6 false ++ List.replicate 9 true ++ [false]

/-- The register is read as it has been written. -/
theorem clients_linearizable_two :
    let two := fun i => (twoClients i).participant (by decide) (by decide)
    ∃ c, Conc.follow (partyCode [0x66] mmdBus.bus) twoClientsSchedule (allStarted two clearedMmds) =
      some c ∧ c.holder = none ∧ (c.locals true).result.isSome = true ∧
      Explains two [false, true] (fun _ => 0) c := by
  intro two
  have hend : (Conc.follow (partyCode [0x66] mmdBus.bus) twoClientsSchedule
      (allStarted two clearedMmds)).map
        (fun c => (c.holder, (c.locals true).result.isSome)) = some (none, true) := by
    decide +kernel
  obtain ⟨c, hc, hseen⟩ := Option.map_eq_some_iff.mp hend
  obtain ⟨hholder, hresult⟩ := Prod.mk.inj hseen
  have horder : Conc.lockOrder (partyCode [0x66] mmdBus.bus) twoClientsSchedule
      (allStarted two clearedMmds) = [false, true] := by decide +kernel
  have hexplains := (clients_linearizable twoClients (by decide) (by decide)
    (show clearedMmds.Represents fun _ => 0 from rfl) hc).1
  exact ⟨c, hc, hholder, hresult, horder ▸ hexplains⟩

end MdioTools.System
