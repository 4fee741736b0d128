import MdioTools.Client.Main
import MdioTools.Kernel.Fragment
import MdioTools.Library.Printf

/-!
# Scanning loops

The status of a bus and of an MMD are read by programs with a loop, written down
with their jump offsets.  The bus is any bus here: a read answers a number that
may depend on all that has been read before, or fails.

Main results:

- Definition {lit}`Scans`: a program makes some reads in order and emits the words
  that it reads, up to the first read that fails.
- Theorem {lit}`Covers.loop`: the rounds of a loop that counts.
- Theorem {lit}`statusProgs_scan`: the programs scan their registers, and the
  callback of the bus prints what each device has answered.
-/

namespace MdioTools.Device

open Client Kernel Library

/-! ## Reads in order -/

/-- A device word and a register number. -/
abbrev RegRead : Type :=
  BitVec 16 × BitVec 16

variable {β : Type} {bus : MiiBus β}

/-- `__mdiobus_read` or `__mdiobus_c45_read`. -/
def RegRead.on (bus : MiiBus β) (r : RegRead) (b : β) : Int × β :=
  bus.read (mdioTarget r.1) r.2 b

/-- Some reads succeed one after another, and bring these words. -/
inductive Answers (bus : MiiBus β) : β → List RegRead → List (BitVec 16) → β → Prop
  | nil (b : β) : Answers bus b [] [] b
  | cons {b b' : β} {r : RegRead} {reads : List RegRead} {vs : List (BitVec 16)}
      (hok : ¬(r.on bus b).1 < 0) (hrest : Answers bus (r.on bus b).2 reads vs b') :
      Answers bus b (r :: reads) (BitVec.ofInt 16 (r.on bus b).1 :: vs) b'

/-- A program makes some reads: if all succeed, it emits their words and ends with
status 0; if one fails, it ends there with the words of those before and the
error. -/
def Scans (prog : MdioProg) (reads : List RegRead) : Prop :=
  ∀ (β : Type) (bus : MiiBus β) (b b' : β) (vs : List (BitVec 16)),
    (Answers bus b reads vs b' →
      (mdioNlEval prog bus quietHost).Halts (.entry [] b)
        (.returned .progEnd 0 (vs.map (·.setWidth 32)) b')) ∧
    ∀ before r after, reads = before ++ r :: after → Answers bus b before vs b' →
      (r.on bus b').1 < 0 →
      (mdioNlEval prog bus quietHost).Halts (.entry [] b)
        (.returned .access (r.on bus b').1 (vs.map (·.setWidth 32)) (r.on bus b').2)

/-- Reads are split where their words are. -/
theorem answers_append_iff {b b' : β} {reads reads' : List RegRead} {vs : List (BitVec 16)} :
    Answers bus b (reads ++ reads') vs b' ↔ ∃ ws ws' b₁, vs = ws ++ ws' ∧
      Answers bus b reads ws b₁ ∧ Answers bus b₁ reads' ws' b' := by
  constructor
  · intro h
    induction reads generalizing b vs with
    | nil => exact ⟨[], vs, b, rfl, .nil b, h⟩
    | cons r reads ih =>
        cases h with
        | cons hok hrest =>
            obtain ⟨ws, ws', b₁, rfl, hleft, hright⟩ := ih hrest
            exact ⟨_ :: ws, ws', b₁, rfl, .cons hok hleft, hright⟩
  · rintro ⟨ws, ws', b₁, rfl, hleft, hright⟩
    induction hleft with
    | nil => exact hright
    | cons hok _ ih => exact .cons hok (ih hright)

/-- There is one answer for each read. -/
theorem Answers.length_eq {b b' : β} {reads : List RegRead} {vs : List (BitVec 16)}
    (h : Answers bus b reads vs b') : vs.length = reads.length := by
  induction h with
  | nil => rfl
  | cons _ _ ih => exact congrArg (· + 1) ih

/-! ## Fragments that read and emit -/

/-- A fragment makes some reads and emits their words, up to the first that fails;
if none does, the data behind it satisfies a condition. -/
structure Covers (bus : MiiBus β) (frag : List VmInsn) (reads : List RegRead) (d : VmData Words β)
    (post : VmData Words β → Prop) : Prop where
  through : ∀ vs b', Answers bus d.bus reads vs b' → ∃ d', Exec (vmSem bus quietHost) frag d d' ∧
    d'.host = d.host ++ vs.map (·.setWidth 32) ∧ d'.bus = b' ∧ post d'
  fails : ∀ before r after vs b', reads = before ++ r :: after → Answers bus d.bus before vs b' →
    (r.on bus b').1 < 0 → Ends (vmSem bus quietHost) frag d
      ⟨.access, (r.on bus b').1, d.host ++ vs.map (·.setWidth 32), (r.on bus b').2⟩

variable {frag frag' : List VmInsn} {reads reads' : List RegRead} {d : VmData Words β}
  {post post' : VmData Words β → Prop}

/-- Fragments of which the second reads on where the first has come to, in a
fragment that runs one after the other. -/
theorem Covers.seq {whole : List VmInsn} (h : Covers bus frag reads d post)
    (hrest : ∀ d₁, post d₁ → Covers bus frag' reads' d₁ post')
    (hexec : ∀ d₁ d', post d₁ → Exec (vmSem bus quietHost) frag d d₁ →
      Exec (vmSem bus quietHost) frag' d₁ d' → Exec (vmSem bus quietHost) whole d d')
    (hends : ∀ r, Ends (vmSem bus quietHost) frag d r → Ends (vmSem bus quietHost) whole d r)
    (hthen : ∀ d₁ r, post d₁ → Exec (vmSem bus quietHost) frag d d₁ →
      Ends (vmSem bus quietHost) frag' d₁ r → Ends (vmSem bus quietHost) whole d r) :
    Covers bus whole (reads ++ reads') d post' := by
  constructor
  · intro vs b' hall
    obtain ⟨ws, ws', b₁, rfl, hleft, hright⟩ := answers_append_iff.mp hall
    obtain ⟨d₁, hrun, hhost, rfl, hpost⟩ := h.through ws b₁ hleft
    obtain ⟨d', hrun', hhost', hbus, hpost'⟩ := (hrest d₁ hpost).through ws' b' hright
    refine ⟨d', hexec d₁ d' hpost hrun hrun', ?_, hbus, hpost'⟩
    rw [hhost', hhost, List.map_append, List.append_assoc]
  · intro before r after vs b' hsplit hbefore hneg
    have hsecond : ∀ mid, before = reads ++ mid → reads' = mid ++ r :: after →
        Ends (vmSem bus quietHost) whole d
          ⟨.access, (r.on bus b').1, d.host ++ vs.map (·.setWidth 32), (r.on bus b').2⟩ := by
      rintro mid rfl hafter
      obtain ⟨ws, ws', b₁, rfl, hleft, hright⟩ := answers_append_iff.mp hbefore
      obtain ⟨d₁, hrun, hhost, rfl, hpost⟩ := h.through ws b₁ hleft
      have hlast := (hrest d₁ hpost).fails mid r after ws' b' hafter hright hneg
      rw [hhost, List.append_assoc, ← List.map_append] at hlast
      exact hthen d₁ _ hpost hrun hlast
    obtain ⟨mid, hmid, hafter⟩ | ⟨mid, hmid, hafter⟩ := List.append_eq_append_iff.mp hsplit
    · exact hsecond mid hmid hafter
    · cases mid with
      | nil => exact hsecond [] (by simpa using hmid.symm) hafter.symm
      | cons m mid =>
          obtain ⟨rfl, -⟩ := List.cons.inj hafter
          exact hends _ (h.fails before r mid vs b' hmid hbefore hneg)

/-- Fragments cover the reads of both. -/
theorem Covers.append (h : Covers bus frag reads d post)
    (hrest : ∀ d₁, post d₁ → Covers bus frag' reads' d₁ post') :
    Covers bus (frag ++ frag') (reads ++ reads') d post' :=
  h.seq hrest (fun _ _ _ hrun hrun' => hrun.append hrun') (fun _ hend => hend.append frag')
    fun _ _ _ hrun hend => hrun.ends hend

/-- A fragment that reads nothing. -/
theorem Covers.of_exec {d' : VmData Words β} (h : Exec (vmSem bus quietHost) frag d d')
    (hhost : d'.host = d.host) (hbus : d'.bus = d.bus) (hpost : post d') :
    Covers bus frag [] d post := by
  constructor
  · intro vs b' hall
    cases hall
    exact ⟨d', h, by simpa using hhost, hbus, hpost⟩
  · intro before r after vs b' hsplit
    simp at hsplit

/-- READ and EMIT make one read.  Only register 0 changes. -/
theorem Covers.read {dev reg : Operand} {r : RegRead} (hdev : dev.eval d.regs = r.1)
    (hreg : reg.eval d.regs = r.2) {i : Fin 8} {v : BitVec 16} (hi : i ≠ 0) (hv : d.regs i = v) :
    Covers bus [.read dev reg 0, .emit (.reg 0)] [r] d fun d' => d'.regs i = v := by
  obtain rfl : r = (dev.eval d.regs, reg.eval d.regs) := Prod.ext hdev.symm hreg.symm
  let r : RegRead := (dev.eval d.regs, reg.eval d.regs)
  constructor
  · intro vs b' hall
    cases hall with
    | cons hok hrest =>
        cases hrest
        let d₁ : VmData Words β :=
          VmData.set { d with bus := (r.on bus d.bus).2 } 0 (BitVec.ofInt 16 (r.on bus d.bus).1)
        have hread : Exec (vmSem bus quietHost) [.read dev reg 0] d d₁ :=
          Exec.single (if_neg hok)
        have hemit : Exec (vmSem bus quietHost) [.emit (.reg 0)] d₁
            { d₁ with host := d₁.host ++ [(d₁.regs 0).setWidth 32] } :=
          Exec.single rfl
        refine ⟨_, hread.append hemit, by simp [d₁, r], rfl, ?_⟩
        exact (VmData.set_regs_of_ne _ hi _).trans hv
  · intro before r' after vs b' hsplit hbefore hneg
    obtain ⟨rfl, hone⟩ | ⟨_, _, hnil⟩ := List.cons_eq_append_iff.mp hsplit
    · obtain ⟨rfl, -⟩ := List.cons.inj hone
      cases hbefore
      have hend : Ends (vmSem bus quietHost) [.read dev reg 0] d
          ⟨.access, (r.on bus d.bus).1, d.host, (r.on bus d.bus).2⟩ :=
        Ends.single (if_pos hneg)
      simpa using hend.append [.emit (.reg 0)]
    · simp at hnil

/-- A number is added to a register. -/
theorem Covers.add {i : Fin 8} {a b : Operand} {v : BitVec 16}
    (hv : a.eval d.regs + b.eval d.regs = v) :
    Covers bus [.alu .add a b i] [] d fun d' => d'.regs i = v :=
  have hexec : Exec (vmSem bus quietHost) [.alu .add a b i] d (d.set i v) :=
    Exec.single (by rw [← hv]; rfl)
  Covers.of_exec hexec rfl rfl (by simp)

/-- The counter goes on. -/
theorem Covers.count {i : Fin 8} {k : Nat} (hk : d.regs i = BitVec.ofNat 16 k) :
    Covers bus [.alu .add (.reg i) (.imm 1) i] [] d fun d' => d'.regs i = BitVec.ofNat 16 (k + 1) :=
  Covers.add (by rw [Operand.eval_reg, hk, BitVec.ofNat_add]; rfl)

/-- The rounds of a loop that counts in a register up to a limit: each makes its own
reads. -/
theorem Covers.loop {body : List VmInsn} {i : Fin 8} {n : Nat} (readsAt : Nat → List RegRead)
    (hn : n < 2 ^ 16) (hlen : body.length < 32768)
    (hbody : ∀ k d, k < n → d.regs i = BitVec.ofNat 16 k →
      Covers bus body (readsAt k) d fun d' => d'.regs i = BitVec.ofNat 16 (k + 1))
    {k : Nat} {d : VmData Words β} (hk : k < n) (hd : d.regs i = BitVec.ofNat 16 k) :
    Covers bus (body ++ [.jump false (.reg i) (.imm (BitVec.ofNat 16 n))
        (BitVec.ofInt 16 (-(body.length + 1)))])
      ((List.range' k (n - k)).flatMap readsAt) d fun _ => True := by
  have hjump : ∀ d₁ : VmData Words β, (vmSem bus quietHost).exec
      (.jump false (.reg i) (.imm (BitVec.ofNat 16 n)) (BitVec.ofInt 16 (-(body.length + 1)))) d₁ =
      .inl (if d₁.regs i = BitVec.ofNat 16 n then 1 else -(body.length : Int), d₁) := by
    intro d₁
    have hoff : (BitVec.ofInt 16 (-(body.length + 1))).toInt + 1 = -(body.length : Int) := by
      rw [BitVec.toInt_ofInt, Int.bmod_eq_of_le (by omega) (by omega)]
      omega
    simp only [vmSem, quietHost, VmInsn.exec, Operand.eval_reg, Operand.eval_imm, hoff]
    by_cases hend : d₁.regs i = BitVec.ofNat 16 n <;> simp [hend]
  have hreads : (List.range' k (n - k)).flatMap readsAt =
      readsAt k ++ (List.range' (k + 1) (n - (k + 1))).flatMap readsAt := by
    rw [show n - k = (n - (k + 1)) + 1 by omega, List.range'_succ, List.flatMap_cons]
  rw [hreads]
  by_cases hend : k + 1 = n
  · refine (hbody k d hk hd).append fun d₁ hd₁ => ?_
    rw [show n - (k + 1) = 0 by omega]
    refine Covers.of_exec (Exec.single ?_) rfl rfl trivial
    rw [hjump d₁, if_pos (by rw [hd₁, hend])]
  · have hne : BitVec.ofNat 16 (k + 1) ≠ BitVec.ofNat 16 n := by
      intro heq
      have := congrArg BitVec.toNat heq
      simp only [BitVec.toNat_ofNat] at this
      omega
    have hback : ∀ d₁ : VmData Words β, d₁.regs i = BitVec.ofNat 16 (k + 1) →
        (vmSem bus quietHost).exec (.jump false (.reg i) (.imm (BitVec.ofNat 16 n))
          (BitVec.ofInt 16 (-(body.length + 1)))) d₁ = .inl (-(body.length : Int), d₁) :=
      fun d₁ hd₁ => by rw [hjump d₁, hd₁, if_neg hne]
    exact (hbody k d hk hd).seq
      (fun d₁ hd₁ => Covers.loop readsAt hn hlen hbody (Nat.lt_of_le_of_ne hk hend) hd₁)
      (fun d₁ _ hd₁ hrun hrest => hrun.loop (hback d₁ hd₁) hrest)
      (fun _ hleft => hleft.append _)
      (fun d₁ _ hd₁ hrun hrest => Ends.loop hrun (hback d₁ hd₁) hrest)
termination_by n - k

/-- A whole program that covers its reads. -/
theorem Covers.scans {prog : MdioProg} {vprog : List VmInsn} (hdec : Decodes prog vprog)
    (hlen : prog.length ≤ 512)
    (h : ∀ (β : Type) (bus : MiiBus β) (b : β), ∃ post,
      Covers bus vprog reads ⟨fun _ => 0, [], b⟩ post) : Scans prog reads := by
  intro β bus b b' vs
  obtain ⟨post, h⟩ := h β bus b
  constructor
  · intro hall
    obtain ⟨d', hrun, hhost, hbus, -⟩ := h.through vs b' hall
    have hhalts := hdec.halts hlen hrun.halts
    rw [← hbus]
    simpa [vmSem, VmResult.toEval, VmStop.toExit, hhost] using hhalts
  · intro before r after hsplit hbefore hneg
    have hhalts := hdec.halts hlen (h.fails before r after vs b' hsplit hbefore hneg).halts
    simpa [VmResult.toEval, VmStop.toExit] using hhalts

/-! ## The two programs -/

/-- The reads of the status of a bus: registers 1, 2 and 3 of each address. -/
def busReads : List RegRead :=
  (List.range 32).flatMap fun dev =>
    [(BitVec.ofNat 16 dev, 1), (BitVec.ofNat 16 dev, 2), (BitVec.ofNat 16 dev, 3)]

/-- The reads of the status of an MMD: its first 16 registers. -/
def mmdReads (id : BitVec 16) : List RegRead :=
  (List.range 16).map fun reg => (id, BitVec.ofNat 16 reg)

/-- A loop that counts from 0 to 16 or 32 in register 1, decoded. -/
def scanProg (body : List VmInsn) (n : Nat) : List VmInsn :=
  [.alu .add (.imm 0) (.imm 0) 1] ++
    (body ++
      [.jump false (.reg 1) (.imm (BitVec.ofNat 16 n)) (BitVec.ofInt 16 (-(body.length + 1)))])

/-- A loop with the rounds from 0 on. -/
theorem scanProg_covers {body : List VmInsn} {n : Nat} (readsAt : Nat → List RegRead) (hpos : 0 < n)
    (hn : n < 2 ^ 16) (hlen : body.length < 32768)
    (hbody : ∀ k (d : VmData Words β), k < n → d.regs 1 = BitVec.ofNat 16 k →
      Covers bus body (readsAt k) d fun d' => d'.regs 1 = BitVec.ofNat 16 (k + 1))
    (d : VmData Words β) :
    Covers bus (scanProg body n) ((List.range n).flatMap readsAt) d fun _ => True := by
  have hloop := fun (d₁ : VmData Words β) hd₁ =>
    Covers.loop (k := 0) (d := d₁) readsAt hn hlen hbody hpos hd₁
  rw [Nat.sub_zero, ← List.range_eq_range'] at hloop
  exact Covers.append (Covers.add rfl) hloop

/-- The body of `bus_status`. -/
def busStatusBody : List VmInsn :=
  [.read (.reg 1) (.imm 1) 0, .emit (.reg 0)] ++ ([.read (.reg 1) (.imm 2) 0, .emit (.reg 0)] ++
    ([.read (.reg 1) (.imm 3) 0, .emit (.reg 0)] ++ [.alu .add (.reg 1) (.imm 1) 1]))

/-- The body of `mmd_exec_status`. -/
def mmdStatusBody (id : BitVec 16) : List VmInsn :=
  [.read (.imm id) (.reg 1) 0, .emit (.reg 0)] ++ [.alu .add (.reg 1) (.imm 1) 1]

/-- The bus status reads registers 1 to 3 of each address. -/
theorem busStatusProg_scans : Scans busStatusProg busReads := by
  have hdec : Decodes busStatusProg (scanProg busStatusBody 32) := rfl
  refine Covers.scans hdec (by decide) fun β bus b => ⟨_, scanProg_covers _ (by decide) (by decide)
    (by decide) (fun k d hk hd => ?_) _⟩
  have hread : ∀ (d : VmData Words β) (n : BitVec 16), d.regs 1 = BitVec.ofNat 16 k →
      Covers bus [.read (.reg 1) (.imm n) 0, .emit (.reg 0)] [(BitVec.ofNat 16 k, n)] d
        fun d' => d'.regs 1 = BitVec.ofNat 16 k :=
    fun d n hd => Covers.read (r := (BitVec.ofNat 16 k, n))
      (show (Operand.reg 1).eval d.regs = _ from hd) rfl (by decide) hd
  exact (hread d 1 hd).append fun d₁ hd₁ => (hread d₁ 2 hd₁).append fun d₂ hd₂ =>
    (hread d₂ 3 hd₂).append fun d₃ hd₃ => Covers.count hd₃

/-- The MMD status reads its registers in order. -/
theorem mmdStatusProg_scans (id : BitVec 16) : Scans (mmdStatusProg id) (mmdReads id) := by
  have hdec : Decodes (mmdStatusProg id) (scanProg (mmdStatusBody id) 16) := by
    have hcounter : regIndex 1#32 = 1 := rfl
    have hword : regIndex 0#32 = 0 := rfl
    simp [Decodes, mmdStatusProg, scanProg, mmdStatusBody, insn, decodeInsn, decodeAlu, decodeJump,
      hcounter, hword]
  refine Covers.scans hdec (by simp [mmdStatusProg]) fun β bus b => ⟨fun _ => True, ?_⟩
  have hreads : mmdReads id = (List.range 16).flatMap fun reg => [(id, BitVec.ofNat 16 reg)] :=
    List.map_eq_flatMap ..
  rw [hreads]
  refine scanProg_covers _ (by decide) (by decide) (by simp [mmdStatusBody]) (fun k d hk hd => ?_) _
  have hread : Covers bus [.read (.imm id) (.reg 1) 0, .emit (.reg 0)] [(id, BitVec.ofNat 16 k)] d
      fun d' => d'.regs 1 = BitVec.ofNat 16 k :=
    Covers.read (r := (id, BitVec.ofNat 16 k)) rfl
      (show (Operand.reg 1).eval d.regs = _ from hd) (by decide) hd
  exact hread.append fun d₁ hd₁ => Covers.count hd₁

/-! ## What the status of a bus prints -/

/-- The heading of `bus_status_cb`. -/
def busStatusHead : CStr :=
  "\x1b[7m".toList ++ padLeft 4 ' ' "DEV".toList ++ "  ".toList ++ padLeft 10 ' ' "PHY-ID".toList ++
    "  ".toList ++ padLeft 4 ' ' "LINK".toList ++ "\x1b[0m\n".toList

/-- The line of a device. -/
def busStatusLine (dev : Nat) (id : BitVec 32) (up : Bool) : CStr :=
  "0x".toList ++ padLeft 2 '0' (hex dev) ++ "  0x".toList ++ padLeft 8 '0' (hex id.toNat) ++
    "  ".toList ++ (if up then "up" else "down").toList ++ "\n".toList

/-- `BMSR_LSTATUS`. -/
def bmsrLstatus : BitVec 32 := 0x0004

/-- The loop of `bus_status_cb`: so many devices from one on, with the words from
`data` on. -/
def busStatusLines : Nat → Nat → List (BitVec 32) → CStr
  | 0, _, _ => []
  | n + 1, dev, data =>
      (if data.getD 1 0 = 0xffff ∧ data.getD 2 0 = 0xffff then []
        else busStatusLine dev (data.getD 1 0 <<< 16 ||| data.getD 2 0)
          (data.getD 0 0 &&& bmsrLstatus ≠ 0)) ++ busStatusLines n (dev + 1) (data.drop 3)

/-- `bus_status_cb`: what it returns and prints. -/
def busStatusCb (data : List (BitVec 32)) (err : Int) : Int × CStr :=
  if data.length ≠ 32 * 3 then (1, [])
  else (err, busStatusHead ++ busStatusLines 32 0 data)

/-- What a device has answered. -/
structure DevStatus where
  bmsr : BitVec 16
  id1 : BitVec 16
  id2 : BitVec 16

/-- The three words of a device. -/
def DevStatus.words (s : DevStatus) : List (BitVec 16) :=
  [s.bmsr, s.id1, s.id2]

/-- The line that is to be seen for it, unless there is no device: its address in
two digits, its identifier in four digits for each of the two words, and what bit 2
of its status says. -/
def DevStatus.line (s : DevStatus) (dev : Nat) : CStr :=
  if s.id1 = 0xffff ∧ s.id2 = 0xffff then []
  else "0x".toList ++ hexDigits 2 dev ++ "  0x".toList ++ hexDigits 4 s.id1.toNat ++
    hexDigits 4 s.id2.toNat ++ (if s.bmsr.getLsbD 2 then "  up\n" else "  down\n").toList

/-- The answers of each device are three words in a row. -/
theorem answers_devs {devs : List Nat} {b b' : β} {vs : List (BitVec 16)}
    (h : Answers bus b (devs.flatMap fun dev =>
      [(BitVec.ofNat 16 dev, 1), (BitVec.ofNat 16 dev, 2), (BitVec.ofNat 16 dev, 3)]) vs b') :
    ∃ answers : List DevStatus, answers.length = devs.length ∧
      vs = answers.flatMap DevStatus.words := by
  induction devs generalizing b vs with
  | nil =>
      cases h
      exact ⟨[], rfl, rfl⟩
  | cons dev devs ih =>
      cases h with
      | cons _ h =>
          cases h with
          | cons _ h =>
              cases h with
              | cons _ h =>
                  obtain ⟨answers, hlen, rfl⟩ := ih h
                  exact ⟨⟨_, _, _⟩ :: answers, congrArg (· + 1) hlen, rfl⟩

/-- An identifier is put together from two words. -/
theorem shiftLeft_or_eq_append (x y : BitVec 16) :
    (x.setWidth 32 <<< 16 ||| y.setWidth 32 : BitVec 32) = x ++ y := by
  apply BitVec.eq_of_getLsbD_eq
  intro i hi
  simp only [BitVec.getLsbD_or, BitVec.getLsbD_shiftLeft, BitVec.getLsbD_setWidth,
    BitVec.getLsbD_append]
  by_cases h : i < 16
  · simp [h, hi]
  · simp [h, hi, show i - 16 < 32 by omega, BitVec.getLsbD_of_ge y i (by omega)]

/-- The link bit. -/
theorem and_bmsrLstatus (x : BitVec 16) :
    decide (x.setWidth 32 &&& bmsrLstatus ≠ 0) = x.getLsbD 2 := by
  have hmask : bmsrLstatus = BitVec.twoPow 32 2 := rfl
  have hbit : (x.setWidth 32).getLsbD 2 = x.getLsbD 2 := by simp
  rw [hmask, BitVec.and_twoPow, hbit]
  cases x.getLsbD 2 <;> decide

/-- The line as the callback prints it. -/
theorem busStatusLine_append {dev : Nat} (hdev : dev < 256) (x y : BitVec 16) (up : Bool) :
    busStatusLine dev (x ++ y) up = "0x".toList ++ hexDigits 2 dev ++ "  0x".toList ++
      hexDigits 4 x.toNat ++ hexDigits 4 y.toNat ++
        (if up then "  up\n" else "  down\n").toList := by
  have hid : (x ++ y).toNat = x.toNat * 16 ^ 4 + y.toNat := by
    rw [BitVec.toNat_append, ← Nat.shiftLeft_add_eq_or_of_lt y.isLt, Nat.shiftLeft_eq,
      show 2 ^ 16 = 16 ^ 4 from rfl]
  have hlt : (x ++ y).toNat < 16 ^ 8 := (x ++ y).isLt
  have hdigits : padLeft 8 '0' (hex (x ++ y).toNat) = hexDigits 4 x.toNat ++ hexDigits 4 y.toNat := by
    rw [padLeft_hex (by decide) hlt, hid]
    exact hexDigits_append 4 4 x.toNat y.isLt
  rw [busStatusLine, padLeft_hex (by decide) hdev, hdigits]
  cases up <;> simp [List.append_assoc]

/-- The line is that of the words as the callback reads them. -/
theorem DevStatus.line_eq (s : DevStatus) {dev : Nat} (hdev : dev < 256) :
    s.line dev = if s.id1.setWidth 32 = (0xffff : BitVec 32) ∧ s.id2.setWidth 32 = (0xffff : BitVec 32)
      then [] else busStatusLine dev (s.id1.setWidth 32 <<< 16 ||| s.id2.setWidth 32)
        (s.bmsr.setWidth 32 &&& bmsrLstatus ≠ 0) := by
  have hones : ∀ x : BitVec 16, x.setWidth 32 = (0xffff : BitVec 32) ↔ x = 0xffff := by
    intro x
    rw [← BitVec.toNat_inj, ← BitVec.toNat_inj, BitVec.toNat_setWidth,
      Nat.mod_eq_of_lt (by omega)]
    rfl
  simp only [line, hones, shiftLeft_or_eq_append, and_bmsrLstatus, busStatusLine_append hdev]

/-- The loop prints the line of each device. -/
theorem busStatusLines_words (answers : List DevStatus) {dev : Nat}
    (hdev : dev + answers.length ≤ 256) :
    busStatusLines answers.length dev ((answers.flatMap DevStatus.words).map (·.setWidth 32)) =
      (answers.zipIdx dev).flatMap fun s => s.1.line s.2 := by
  induction answers generalizing dev with
  | nil => rfl
  | cons s answers ih =>
      rw [List.length_cons] at hdev
      rw [List.zipIdx_cons, List.flatMap_cons, List.flatMap_cons, ← ih (by omega),
        show (s, dev).1.line (s, dev).2 = _ from s.line_eq (by omega)]
      rfl

/-- With any answers and without a deadline, the two programs read each register
once and in order, and emit what they read up to the first failure.  The words of
a bus are printed with the device that they come from. -/
theorem statusProgs_scan :
    (Scans busStatusProg busReads ∧ busReads.length = 96) ∧
    (∀ id, Scans (mmdStatusProg id) (mmdReads id) ∧ (mmdReads id).length = 16) ∧
    ∀ (β : Type) (bus : MiiBus β) (b b' : β) (vs : List (BitVec 16)) (err : Int),
      Answers bus b busReads vs b' → ∃ answers : List DevStatus, answers.length = 32 ∧
        vs = answers.flatMap DevStatus.words ∧
        busStatusCb (vs.map (·.setWidth 32)) err =
          (err, "\x1b[7m DEV      PHY-ID  LINK\x1b[0m\n".toList ++
            answers.zipIdx.flatMap fun s => s.1.line s.2) := by
  refine ⟨⟨busStatusProg_scans, rfl⟩, fun id => ⟨mmdStatusProg_scans id, by simp [mmdReads]⟩,
    fun β bus b b' vs err hall => ?_⟩
  have hlen : vs.length = 32 * 3 := hall.length_eq
  obtain ⟨answers, hcount, rfl⟩ := answers_devs hall
  have hcount : answers.length = 32 := by simpa using hcount
  refine ⟨answers, hcount, rfl, ?_⟩
  have hlines := busStatusLines_words answers (show 0 + answers.length ≤ 256 by omega)
  rw [hcount] at hlines
  rw [busStatusCb, if_neg (by simpa using hlen), hlines]
  rfl

/-- A bus with one device, at address 0. -/
def loneBus : MiiBus Unit where
  read t _ b := (if t = .c22 0 then 7 else -5, b)
  write _ _ _ b := (0, b)

/-- The status of that bus ends with the words of the device and the error of the
next address. -/
theorem statusProgs_scan_lone :
    (mdioNlEval busStatusProg loneBus quietHost).Halts (.entry [] ())
      (.returned .access (-5) [7, 7, 7] ()) := by
  have hseven : ∀ reg, (RegRead.on loneBus (0, reg) ()).1 = 7 := fun _ =>
    if_pos (show mdioTarget 0 = .c22 0 by decide)
  have hread : ∀ reg, ¬(RegRead.on loneBus (0, reg) ()).1 < 0 := fun reg => by
    rw [hseven reg]
    decide
  have hfirst : Answers loneBus () [(0, 1), (0, 2), (0, 3)] [7, 7, 7] () :=
    .cons (hread 1) (.cons (hread 2) (.cons (hread 3) (.nil ())))
  exact (statusProgs_scan.1.1 Unit loneBus () () [7, 7, 7]).2 [(0, 1), (0, 2), (0, 3)] (1, 1) _ rfl
    hfirst (by decide)

end MdioTools.Device
