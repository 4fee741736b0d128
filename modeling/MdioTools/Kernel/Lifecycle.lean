import MdioTools.Kernel.CmdXfer
import Mathlib.Data.List.Induction

/-!
# The life cycle of reply messages

Every call of the handler on a message is in the log.  From the log alone a
message is absent, being built by `mdio_nl_open`, open, or closed, and a log is
legal if each call is made on a message in a state that allows it.  A failed
flush leaves {lit}`xfer->msg` pointing to a message that is gone, and the
handler goes on to close it.

Main results:

- Theorem {lit}`Legal.closings`: in a legal log a message is closed at most
  once, and exactly once if its state is closed.
- Theorem {lit}`putRetry_outcome`: the three ways a put with a flush can end.
- Theorem {lit}`mdioNlCmdXfer_lifecycle`: the handler keeps to the life cycle
  if and only if no flush of the run fails and no flush of the final close
  fails other than by an allocation.
-/

namespace MdioTools.Kernel

open Library

/-! ## States of a message -/

/-- The state of a message. -/
inductive MsgState
  | absent | building | opened | closed
deriving DecidableEq, Repr

/-- The state after a call on the message.  `mdio_nl_open` has succeeded when
the nest is started; sending consumes the message also when it fails. -/
def MsgState.after (st : MsgState) (c : SkbCall) (ok : Bool) : MsgState :=
  match c with
  | .nlmsgNew => .building
  | .nlaNestStart => if ok then .opened else st
  | .genlmsgUnicast | .nlmsgFree => .closed
  | _ => st

/-- The states in which a call on the message is allowed. -/
def MsgState.Allows (st : MsgState) (c : SkbCall) : Prop :=
  match c with
  | .nlmsgNew => st = .absent
  | .genlmsgPut | .nlaNestStart => st = .building
  | .nlmsgFree => st = .building ∨ st = .opened
  | _ => st = .opened

/-- A state in which nobody owns the message. -/
def MsgState.Settled (st : MsgState) : Prop :=
  st = .absent ∨ st = .closed

/-- The effect of one log entry on the state of message `id`. -/
def msgStep (id : Nat) (st : MsgState) (e : SkbEvent) : MsgState :=
  match e with
  | .call c msg ok => if msg = some id then st.after c ok else st
  | .flushed _ => st

/-- The state of message `id` after a log. -/
def msgState (id : Nat) (log : List SkbEvent) : MsgState :=
  log.foldl (msgStep id) .absent

/-- An entry is allowed after a log.  On the NULL pointer only the failed
allocation itself and `nlmsg_free` are allowed. -/
def Allowed (log : List SkbEvent) (e : SkbEvent) : Prop :=
  match e with
  | .call c (some id) _ => (msgState id log).Allows c
  | .call c none ok => c = .nlmsgFree ∨ (c = .nlmsgNew ∧ ok = false)
  | .flushed _ => True

/-- Every entry of a legal log is allowed after the entries before it. -/
def Legal (log : List SkbEvent) : Prop :=
  ∀ pre e, pre ++ [e] <+: log → Allowed pre e

/-- The entry opens message `id`. -/
def opens (id : Nat) (e : SkbEvent) : Bool :=
  e = .call .nlaNestStart (some id) true

/-- The entry closes message `id`. -/
def closes (id : Nat) (e : SkbEvent) : Bool :=
  match e with
  | .call c msg _ => msg = some id ∧ (c = .genlmsgUnicast ∨ c = .nlmsgFree)
  | .flushed _ => false

/-- One more event is one more step of the state. -/
@[simp]
theorem msgState_snoc (id : Nat) (log : List SkbEvent) (e : SkbEvent) :
    msgState id (log ++ [e]) = msgStep id (msgState id log) e := by
  simp [msgState]

theorem legal_nil : Legal [] := by
  intro pre e h
  simp at h

/-- A log is legal if it is so without its last entry, and that one is
allowed. -/
theorem legal_snoc {log : List SkbEvent} {e : SkbEvent} :
    Legal (log ++ [e]) ↔ Legal log ∧ Allowed log e := by
  constructor
  · intro h
    constructor
    · intro pre e' hpre
      exact h pre e' (hpre.trans (List.prefix_append _ _))
    · exact h log e (List.prefix_refl _)
  · rintro ⟨hlog, he⟩ pre e' hpre
    rcases List.prefix_concat_iff.mp hpre with heq | hpre'
    · obtain ⟨rfl, hsingle⟩ := List.append_inj' heq rfl
      cases hsingle
      exact he
    · exact hlog pre e' hpre'

/-- A legal log starts with legal logs. -/
theorem Legal.of_prefix {log log' : List SkbEvent} (h : Legal log') (hpre : log <+: log') :
    Legal log :=
  fun pre e he => h pre e (he.trans hpre)

/-- Nothing is allowed on a closed message. -/
theorem MsgState.Allows.not_closed {st : MsgState} {c : SkbCall} (h : st.Allows c) :
    st ≠ .closed := by
  rintro rfl
  cases c <;> simp [MsgState.Allows] at h

/-- Where they are allowed, exactly sending and freeing close a message. -/
theorem MsgState.Allows.after_closed_iff {st : MsgState} {c : SkbCall} (h : st.Allows c)
    (ok : Bool) : st.after c ok = .closed ↔ c = .genlmsgUnicast ∨ c = .nlmsgFree := by
  cases c <;> simp [MsgState.after, h.not_closed]
  cases ok <;> simp [h.not_closed]

/-- In a legal log the number of entries that close a message is 1 if it is
closed at the end and 0 otherwise. -/
theorem Legal.closings {log : List SkbEvent} (h : Legal log) (id : Nat) :
    log.countP (closes id) = if msgState id log = .closed then 1 else 0 := by
  induction log using List.reverseRecOn with
  | nil => simp [msgState]
  | append_singleton log e ih =>
      obtain ⟨hlog, he⟩ := legal_snoc.mp h
      rw [List.countP_append, List.countP_singleton, ih hlog, msgState_snoc]
      cases e with
      | flushed err =>
          simp only [closes, msgStep, Bool.false_eq_true, if_false, Nat.add_zero]
          rfl
      | call c msg ok =>
          by_cases hmsg : msg = some id
          · subst hmsg
            have hallows : (msgState id log).Allows c := he
            simp [closes, msgStep, hallows.not_closed, hallows.after_closed_iff]
          · simp only [closes, msgStep, hmsg, false_and, decide_false, Bool.false_eq_true,
              if_false, Nat.add_zero]

/-- Where it is allowed, a call on a message that was opened leaves it open or
closed. -/
theorem MsgState.Allows.after_opened {st : MsgState} {c : SkbCall} (h : st.Allows c)
    (ok : Bool) (hst : st = .opened ∨ st = .closed) :
    st.after c ok = .opened ∨ st.after c ok = .closed := by
  rcases hst with rfl | rfl
  · cases c <;> simp [MsgState.Allows] at h <;> simp [MsgState.after]
  · exact absurd rfl h.not_closed

/-- In a legal log a message that was opened is open or closed at the end. -/
theorem Legal.opened {log : List SkbEvent} (h : Legal log) {id : Nat}
    (hopen : ∃ e ∈ log, opens id e = true) :
    msgState id log = .opened ∨ msgState id log = .closed := by
  induction log using List.reverseRecOn with
  | nil => simp at hopen
  | append_singleton log e ih =>
      obtain ⟨hlog, he⟩ := legal_snoc.mp h
      obtain ⟨e', hmem, hopens⟩ := hopen
      rw [msgState_snoc]
      rcases List.mem_append.mp hmem with hmem | hmem
      · have hst := ih hlog ⟨e', hmem, hopens⟩
        cases e with
        | flushed err => exact hst
        | call c msg ok =>
            by_cases hmsg : msg = some id
            · subst hmsg
              have hallows : (msgState id log).Allows c := he
              simpa [msgStep] using hallows.after_opened ok hst
            · simpa [msgStep, hmsg] using hst
      · cases List.mem_singleton.mp hmem
        simp only [opens, decide_eq_true_eq] at hopens
        subst hopens
        simp [msgStep, MsgState.after]

/-! ## Failures in a log -/

/-- The entry is a failure of one of the calls `cs`. -/
def SkbEvent.fails (cs : List SkbCall) : SkbEvent → Bool
  | .call c _ ok => c ∈ cs && !ok
  | .flushed _ => false

/-- None of the calls `cs` fails in the log. -/
def NoFailure (cs : List SkbCall) (log : List SkbEvent) : Prop :=
  ∀ e ∈ log, e.fails cs = false

instance (cs : List SkbCall) (log : List SkbEvent) : Decidable (NoFailure cs log) :=
  inferInstanceAs (Decidable (∀ e ∈ log, e.fails cs = false))

/-- The calls of a flush that lose the message when they fail: it has been
sent or freed, and `xfer->msg` still points to it. -/
def sendCalls : List SkbCall :=
  [.genlmsgPut, .nlaNestStart, .genlmsgUnicast]

/-- The calls by which a flush can fail. -/
def flushCalls : List SkbCall :=
  .nlmsgNew :: sendCalls

/-- Every flush of the log succeeded. -/
def NoFlushError (log : List SkbEvent) : Prop :=
  ∀ err, .flushed err ∈ log → err = 0

@[simp]
theorem noFailure_nil (cs : List SkbCall) : NoFailure cs [] := by
  simp [NoFailure]

/-- A log has no failure when its parts have none. -/
@[simp]
theorem noFailure_append {cs : List SkbCall} {l l' : List SkbEvent} :
    NoFailure cs (l ++ l') ↔ NoFailure cs l ∧ NoFailure cs l' := by
  simp only [NoFailure, List.mem_append]
  grind

/-- A call that succeeds is no failure. -/
@[simp]
theorem noFailure_call {cs : List SkbCall} {c : SkbCall} {msg : Option Nat} {ok : Bool}
    {l : List SkbEvent} :
    NoFailure cs (.call c msg ok :: l) ↔ (c ∈ cs → ok = true) ∧ NoFailure cs l := by
  simp [NoFailure, SkbEvent.fails]

@[simp]
theorem noFailure_flushed {cs : List SkbCall} {err : Int} {l : List SkbEvent} :
    NoFailure cs (.flushed err :: l) ↔ NoFailure cs l := by
  simp [NoFailure, SkbEvent.fails]

/-- Where no flush can have failed, none has lost its message. -/
theorem NoFailure.send {log : List SkbEvent} (h : NoFailure flushCalls log) :
    NoFailure sendCalls log := by
  intro e he
  have := h e he
  cases e <;> simp_all [SkbEvent.fails, flushCalls]

@[simp]
theorem noFlushError_nil : NoFlushError [] := by
  simp [NoFlushError]

/-- A log has no flush error when its parts have none. -/
@[simp]
theorem noFlushError_append {l l' : List SkbEvent} :
    NoFlushError (l ++ l') ↔ NoFlushError l ∧ NoFlushError l' := by
  simp only [NoFlushError, List.mem_append]
  grind

@[simp]
theorem noFlushError_call {c : SkbCall} {msg : Option Nat} {ok : Bool} {l : List SkbEvent} :
    NoFlushError (.call c msg ok :: l) ↔ NoFlushError l := by
  simp [NoFlushError]

@[simp]
theorem noFlushError_flushed {err : Int} {l : List SkbEvent} :
    NoFlushError (.flushed err :: l) ↔ err = 0 ∧ NoFlushError l := by
  simp [NoFlushError]

/-! ## Who owns a message -/

/-- `x` points to message `n`, which is in state `st`, and every other message
is settled. -/
structure Owns (x : Xfer) (n : Nat) (st : MsgState) : Prop where
  msg : x.msgId = some n
  bound : n < x.nextId
  state : msgState n x.log = st
  others : ∀ i, i ≠ n → (msgState i x.log).Settled
  fresh : ∀ i, x.nextId ≤ i → msgState i x.log = .absent
  legal : Legal x.log

/-- Every message is settled. -/
structure Idle (x : Xfer) : Prop where
  settled : ∀ i, (msgState i x.log).Settled
  fresh : ∀ i, x.nextId ≤ i → msgState i x.log = .absent
  legal : Legal x.log

/-- The effect of a call on the current message, apart from its contents. -/
structure Called (c : SkbCall) (ok : Bool) (x x' : Xfer) : Prop where
  log : x'.log = x.log ++ [.call c x.msgId ok]
  msg : x'.msgId = x.msgId
  nextId : x'.nextId = x.nextId

/-- Before the open there is no message. -/
theorem Idle.init : Idle Xfer.init where
  settled _ := Or.inl rfl
  fresh _ _ := rfl
  legal := legal_nil

/-- A message that is closed leaves none to settle. -/
theorem Owns.idle {x : Xfer} {n : Nat} (h : Owns x n .closed) : Idle x where
  settled i := by
    by_cases hi : i = n
    · subst hi
      exact Or.inr h.state
    · exact h.others i hi
  fresh := h.fresh
  legal := h.legal

/-- An allowed call on the owned message moves it to its next state. -/
theorem Owns.called {x x' : Xfer} {n : Nat} {st : MsgState} {c : SkbCall} {ok : Bool}
    (h : Owns x n st) (hc : Called c ok x x') (hallows : st.Allows c) :
    Owns x' n (st.after c ok) := by
  have hlog : x'.log = x.log ++ [.call c (some n) ok] := by rw [hc.log, h.msg]
  constructor
  · rw [hc.msg, h.msg]
  · rw [hc.nextId]
    exact h.bound
  · rw [hlog, msgState_snoc, h.state]
    simp [msgStep]
  · intro i hi
    rw [hlog, msgState_snoc]
    simpa [msgStep, Ne.symm hi] using h.others i hi
  · intro i hi
    have hle : x.nextId ≤ i := hc.nextId ▸ hi
    have hne : i ≠ n := by
      have := h.bound
      omega
    rw [hlog, msgState_snoc]
    simpa [msgStep, Ne.symm hne] using h.fresh i hle
  · rw [hlog, legal_snoc]
    exact ⟨h.legal, by simpa [Allowed, h.state] using hallows⟩

/-! ## The calls -/

/-- What is recorded is a call of the log. -/
theorem Xfer.record_called (x : Xfer) (c : SkbCall) (ok : Bool) : Called c ok x (x.record c ok) :=
  ⟨rfl, rfl, rfl⟩

/-- Appending to a message is one call. -/
theorem skbAppend_called (env : ReplyEnv) (c : SkbCall) (bytes : List Byte) (x : Xfer) :
    Called c (skbAppend env c bytes x).1 x (skbAppend env c bytes x).2 := by
  unfold skbAppend
  cases hmsg : x.msg with
  | none => constructor <;> simp [Xfer.record, Xfer.msgId, hmsg]
  | some m =>
      simp only
      split <;> constructor <;> simp [Xfer.record, Xfer.msgId, hmsg]

/-- Putting the headers is one call. -/
theorem genlmsgPut_called (env : ReplyEnv) (x : Xfer) :
    Called .genlmsgPut (genlmsgPut env x).1 x (genlmsgPut env x).2 := by
  obtain ⟨hlog, hmsg, hnext⟩ := skbAppend_called env .genlmsgPut
    (nlmsghdr env 20 env.family ++ [mdioGenlXfer, mdioGenlVersion, 0, 0]) x
  exact ⟨hlog, hmsg, hnext⟩

/-- Starting the nest is one call. -/
theorem nlaNestStart_called (env : ReplyEnv) (x : Xfer) :
    Called .nlaNestStart (nlaNestStart env x).1 x (nlaNestStart env x).2 := by
  obtain ⟨hlog, hmsg, hnext⟩ := skbAppend_called env .nlaNestStart
    (nlahdr env 4 (mdioNlaData ||| nlaFNested)) x
  exact ⟨hlog, hmsg, hnext⟩

/-- Patching a field keeps the message. -/
@[simp]
theorem Xfer.patch_msgId (x : Xfer) (off : Nat) (bytes : List Byte) :
    (x.patch off bytes).msgId = x.msgId := by
  simp [Xfer.patch, Xfer.msgId, Option.map_map, Function.comp_def]

/-- Ending the nest is one call, which cannot fail. -/
theorem nlaNestEnd_called (env : ReplyEnv) (x : Xfer) :
    Called .nlaNestEnd true x (nlaNestEnd env x) := by
  refine ⟨?_, ?_, rfl⟩
  · simp only [nlaNestEnd, Xfer.record, Xfer.patch_msgId]
    rfl
  · exact Xfer.patch_msgId _ _ _

/-- Ending the message is one call, which cannot fail. -/
theorem genlmsgEnd_called (env : ReplyEnv) (x : Xfer) :
    Called .genlmsgEnd true x (genlmsgEnd env x) := by
  refine ⟨?_, ?_, rfl⟩
  · simp only [genlmsgEnd, Xfer.record, Xfer.patch_msgId]
    rfl
  · exact Xfer.patch_msgId _ _ _

/-- Sending succeeds with 0 and fails with a negative error. -/
theorem genlmsgUnicast_called (env : ReplyEnv) (x : Xfer) :
    Called .genlmsgUnicast (decide ((genlmsgUnicast env x).1 = 0)) x (genlmsgUnicast env x).2 ∧
      (genlmsgUnicast env x).1 ≤ 0 := by
  unfold genlmsgUnicast
  simp only
  split
  · rename_i hfault
    refine ⟨⟨?_, rfl, rfl⟩, by simp⟩
    simp [Xfer.record, Xfer.msgId, hfault]
  · exact ⟨⟨rfl, rfl, rfl⟩, le_rfl⟩

/-- Freeing the message is one call, which cannot fail. -/
theorem nlmsgFree_called (x : Xfer) : Called .nlmsgFree true x (nlmsgFree x) :=
  x.record_called _ _

/-- A successful allocation makes a new message the current one. -/
theorem nlmsgNew_ok {env : ReplyEnv} {x : Xfer} (hx : Idle x) (h : (nlmsgNew env x).1 = true) :
    (nlmsgNew env x).2.log = x.log ++ [.call .nlmsgNew (some x.nextId) true] ∧
      Owns (nlmsgNew env x).2 x.nextId .building := by
  unfold nlmsgNew at h ⊢
  split at h
  · simp at h
  · rename_i hfault
    rw [if_neg hfault]
    refine ⟨rfl, rfl, Nat.lt_succ_self _, ?_, ?_, ?_, ?_⟩
    · simp [Xfer.record, Xfer.msgId, msgStep, MsgState.after]
    · intro i hi
      simpa [Xfer.record, Xfer.msgId, msgStep, Ne.symm hi] using hx.settled i
    · intro i hi
      have hne : x.nextId ≠ i := by
        simp only [Xfer.record] at hi
        omega
      have hle : x.nextId ≤ i := by
        simp only [Xfer.record] at hi
        omega
      simpa [Xfer.record, Xfer.msgId, msgStep, hne] using hx.fresh i hle
    · simp only [Xfer.record, legal_snoc]
      exact ⟨hx.legal, hx.fresh _ le_rfl⟩

/-- A failed allocation leaves the NULL pointer. -/
theorem nlmsgNew_fail {env : ReplyEnv} {x : Xfer} (hx : Idle x)
    (h : (nlmsgNew env x).1 = false) :
    (nlmsgNew env x).2.log = x.log ++ [.call .nlmsgNew none false] ∧
      Idle (nlmsgNew env x).2 ∧ (nlmsgNew env x).2.msgId = none := by
  unfold nlmsgNew at h ⊢
  split at h
  · rename_i hfault
    rw [if_pos hfault]
    refine ⟨rfl, ⟨?_, ?_, ?_⟩, rfl⟩
    · intro i
      simpa [Xfer.record, Xfer.msgId, msgStep] using hx.settled i
    · intro i hi
      simpa [Xfer.record, Xfer.msgId, msgStep] using hx.fresh i hi
    · simp only [Xfer.record, legal_snoc]
      exact ⟨hx.legal, Or.inr ⟨rfl, rfl⟩⟩
  · simp at h

/-! ## Opening and flushing -/

/-- How a call that may flush ends with `err`: an open message is held, there
is no message because an allocation failed, or the message is gone while
`xfer->msg` still points to it. -/
inductive Outcome (x : Xfer) (err : Int) (x' : Xfer) : Prop
  | held (evs : List SkbEvent) (n : Nat) (hlog : x'.log = x.log ++ evs)
      (howns : Owns x' n .opened) (herr : err = 0) (hclean : NoFailure flushCalls evs)
      (hflush : NoFlushError evs)
  | noMemory (evs : List SkbEvent) (hlog : x'.log = x.log ++ evs) (hidle : Idle x')
      (hmsg : x'.msgId = none) (herr : err < 0) (hclean : NoFailure sendCalls evs)
      (hfail : ¬NoFailure flushCalls evs)
  | lost (evs : List SkbEvent) (n : Nat) (hlog : x'.log = x.log ++ evs)
      (howns : Owns x' n .closed) (herr : err < 0) (hfail : ¬NoFailure sendCalls evs)

/-- Clean calls before an outcome belong to it. -/
theorem Outcome.prepend {x y x' : Xfer} {err : Int} {evs : List SkbEvent}
    (hlog : y.log = x.log ++ evs) (hclean : NoFailure flushCalls evs)
    (hflush : NoFlushError evs) (h : Outcome y err x') : Outcome x err x' := by
  cases h with
  | held evs' n hlog' howns herr hclean' hflush' =>
      refine .held (evs ++ evs') n ?_ howns herr ?_ ?_
      · rw [hlog', hlog, List.append_assoc]
      · exact noFailure_append.mpr ⟨hclean, hclean'⟩
      · exact noFlushError_append.mpr ⟨hflush, hflush'⟩
  | noMemory evs' hlog' hidle hmsg herr hclean' hfail =>
      refine .noMemory (evs ++ evs') ?_ hidle hmsg herr ?_ ?_
      · rw [hlog', hlog, List.append_assoc]
      · exact noFailure_append.mpr ⟨hclean.send, hclean'⟩
      · exact fun h => hfail (noFailure_append.mp h).2
  | lost evs' n hlog' howns herr hfail =>
      refine .lost (evs ++ evs') n ?_ howns herr ?_
      · rw [hlog', hlog, List.append_assoc]
      · exact fun h => hfail (noFailure_append.mp h).2

/-- Recording the return of a flush changes no message. -/
theorem Outcome.flushed {x x' : Xfer} {err : Int} (h : Outcome x err x') :
    Outcome x err { x' with log := x'.log ++ [.flushed err] } := by
  have hown : ∀ n st, Owns x' n st → Owns { x' with log := x'.log ++ [.flushed err] } n st := by
    rintro n st ⟨hmsg, hbound, hstate, hothers, hfresh, hlegal⟩
    refine ⟨hmsg, hbound, ?_, ?_, ?_, legal_snoc.mpr ⟨hlegal, trivial⟩⟩
    all_goals simpa [msgStep]
  cases h with
  | held evs n hlog howns herr hclean hflush =>
      refine .held (evs ++ [.flushed err]) n ?_ (hown n _ howns) herr ?_ ?_
      · simp [hlog]
      · simpa using hclean
      · simp [hflush, herr]
  | noMemory evs hlog hidle hmsg herr hclean hfail =>
      refine .noMemory (evs ++ [.flushed err]) ?_ ?_ hmsg herr ?_ ?_
      · simp [hlog]
      · refine ⟨?_, ?_, legal_snoc.mpr ⟨hidle.legal, trivial⟩⟩
        · simpa [msgStep] using hidle.settled
        · simpa [msgStep] using hidle.fresh
      · simpa using hclean
      · simpa using hfail
  | lost evs n hlog howns herr hfail =>
      refine .lost (evs ++ [.flushed err]) n ?_ (hown n _ howns) herr ?_
      · simp [hlog]
      · simpa using hfail

/-- A message whose header could not be put is freed by `mdio_nl_open`. -/
theorem Outcome.freed {x y : Xfer} {n : Nat} {evs : List SkbEvent}
    (hlog : y.log = x.log ++ evs) (howns : Owns y n .building)
    (hfail : ¬NoFailure sendCalls evs) : Outcome x (-emsgsize) (nlmsgFree y) := by
  refine .lost (evs ++ [.call .nlmsgFree (some n) true]) n ?_
    (howns.called (nlmsgFree_called y) (Or.inl rfl)) (by decide) ?_
  · rw [(nlmsgFree_called y).log, howns.msg, hlog, List.append_assoc]
  · exact fun h => hfail (noFailure_append.mp h).1

/-- `mdio_nl_open` where no message is owned. -/
theorem mdioNlOpen_outcome (env : ReplyEnv) {x : Xfer} (hx : Idle x) :
    Outcome x (mdioNlOpen env x).1 (mdioNlOpen env x).2 := by
  unfold mdioNlOpen
  by_cases hnew : (nlmsgNew env x).1 = true
  · obtain ⟨hlog, howns⟩ := nlmsgNew_ok hx hnew
    have hput := genlmsgPut_called env (nlmsgNew env x).2
    have howns' := howns.called hput rfl
    have hlog' := hput.log
    rw [howns.msg, hlog, List.append_assoc] at hlog'
    simp only [hnew, Bool.not_true, Bool.false_eq_true, if_false]
    by_cases hputok : (genlmsgPut env (nlmsgNew env x).2).1 = true
    · have hnest := nlaNestStart_called env (genlmsgPut env (nlmsgNew env x).2).2
      have howns'' := howns'.called hnest rfl
      have hlog'' := hnest.log
      rw [howns'.msg, hlog', List.append_assoc] at hlog''
      simp only [hputok, Bool.not_true, Bool.false_eq_true, if_false]
      by_cases hnestok : (nlaNestStart env (genlmsgPut env (nlmsgNew env x).2).2).1 = true
      · simp only [hnestok, Bool.not_true, Bool.false_eq_true, if_false]
        refine .held _ x.nextId hlog'' ?_ rfl ?_ ?_
        · simpa [MsgState.after, hnestok] using howns''
        · simp [hputok, hnestok]
        · simp
      · simp only [hnestok, Bool.not_false, if_true]
        have hbuilding : Owns (nlaNestStart env (genlmsgPut env (nlmsgNew env x).2).2).2
            x.nextId .building := by
          simpa [MsgState.after, hnestok] using howns''
        refine .freed hlog'' hbuilding ?_
        simp [hnestok, sendCalls]
    · simp only [hputok, Bool.not_false, if_true]
      refine .freed hlog' howns' ?_
      simp [hputok, sendCalls]
  · obtain ⟨hlog, hidle, hmsg⟩ := nlmsgNew_fail hx (Bool.not_eq_true _ ▸ hnew)
    simp only [hnew, Bool.not_false, if_true]
    refine .noMemory _ hlog hidle hmsg (by decide) ?_ ?_
    · simp [sendCalls]
    · simp [flushCalls]

/-- `mdio_nl_flush` of an open message. -/
theorem mdioNlFlush_outcome (env : ReplyEnv) {x : Xfer} {n : Nat} (hx : Owns x n .opened) :
    Outcome x (mdioNlFlush env x).1 (mdioNlFlush env x).2 := by
  rw [mdioNlFlush_eq]
  have hnest := nlaNestEnd_called env x
  have howns := hx.called hnest rfl
  have hend := genlmsgEnd_called env (nlaNestEnd env x)
  have howns' := howns.called hend rfl
  obtain ⟨hsend, hle⟩ := genlmsgUnicast_called env (genlmsgEnd env (nlaNestEnd env x))
  have howns'' := howns'.called hsend rfl
  have hlog := hsend.log
  rw [hend.log, hnest.log, List.append_assoc, List.append_assoc] at hlog
  simp only
  by_cases hok : (genlmsgUnicast env (genlmsgEnd env (nlaNestEnd env x))).1 = 0
  · simp only [hok, ne_eq, not_true_eq_false, if_false]
    refine (Outcome.prepend hlog ?_ ?_ (mdioNlOpen_outcome env howns''.idle)).flushed
    · simp [hok, flushCalls, sendCalls]
    · simp
  · simp only [hok, ne_eq, not_false_eq_true, if_true]
    refine Outcome.flushed (.lost _ n hlog howns'' (by omega) ?_)
    simp [hok, sendCalls]

/-- A put into the reply: a call that needs an open message and leaves it
open. -/
def IsPut (c : SkbCall) : Prop :=
  c = .nlaPutNohdr ∨ c = .nlaPut ∨ c = .nlmsgPut

/-- Whether it fits or not, a put leaves the message open. -/
theorem IsPut.outcome {c : SkbCall} (hc : IsPut c) (env : ReplyEnv) (bytes : List Byte)
    {x : Xfer} {n : Nat} (hx : Owns x n .opened) :
    Outcome x 0 (skbAppend env c bytes x).2 := by
  have hput := skbAppend_called env c bytes x
  refine .held _ n hput.log ?_ rfl ?_ ?_
  · rcases hc with rfl | rfl | rfl <;> exact hx.called hput rfl
  · rcases hc with rfl | rfl | rfl <;> simp [flushCalls, sendCalls]
  · simp

/-- Outcomes compose where the first holds an open message. -/
theorem Outcome.trans {x y x' : Xfer} {err : Int} (hxy : Outcome x 0 y)
    (h : ∀ n, Owns y n .opened → Outcome y err x') : Outcome x err x' := by
  cases hxy with
  | held evs n hlog howns _ hclean hflush => exact (h n howns).prepend hlog hclean hflush
  | noMemory _ _ _ _ herr => exact absurd herr (by decide)
  | lost _ _ _ _ herr => exact absurd herr (by decide)

/-- A put that flushes when the message is full ends like the flush, or finds
no room in the new message either. -/
theorem putRetry_outcome {c : SkbCall} (hc : IsPut c) (env : ReplyEnv) (bytes : List Byte)
    {x : Xfer} {n : Nat} (hx : Owns x n .opened) :
    Outcome x (putRetry env c bytes x).1 (putRetry env c bytes x).2 ∨
      (putRetry env c bytes x).1 = -emsgsize ∧ Outcome x 0 (putRetry env c bytes x).2 := by
  have hput : Outcome x 0 (skbAppend env c bytes x).2 := hc.outcome env bytes hx
  unfold putRetry
  simp only
  by_cases hfirst : (skbAppend env c bytes x).1 = true
  · simp only [hfirst, if_true]
    exact Or.inl hput
  · have hflush : Outcome x (mdioNlFlush env (skbAppend env c bytes x).2).1
        (mdioNlFlush env (skbAppend env c bytes x).2).2 :=
      hput.trans fun m hm => mdioNlFlush_outcome env hm
    simp only [hfirst, Bool.false_eq_true, if_false]
    by_cases hok : (mdioNlFlush env (skbAppend env c bytes x).2).1 = 0
    · rw [hok] at hflush
      have hagain := hflush.trans fun m hm => hc.outcome env bytes hm
      simp only [hok, ne_eq, not_true_eq_false, if_false]
      split
      · exact Or.inl hagain
      · exact Or.inr ⟨rfl, hagain⟩
    · simp only [hok, ne_eq, not_false_eq_true, if_true]
      exact Or.inl hflush

/-! ## Closing -/

/-- How the final close ends, for an open message at the start: either the
life cycle is kept to the end, or a failed flush has lost the message and it is
freed once more.  The last call of the close is set apart, since a send may
fail there. -/
inductive CloseOutcome (x : Xfer) (err : Int) (x' : Xfer) : Prop
  | kept (evs : List SkbEvent) (e : SkbEvent) (hlog : x'.log = x.log ++ (evs ++ [e]))
      (hidle : Idle x') (hclean : NoFailure sendCalls evs)
      (hflush : ¬NoFlushError (evs ++ [e]) → err < 0)
  | broken (evs : List SkbEvent) (e : SkbEvent) (hlog : x'.log = x.log ++ (evs ++ [e]))
      (hlegal : ¬Legal x'.log) (hfail : ¬NoFailure sendCalls evs)

/-- Clean calls before the end of a close belong to it. -/
theorem CloseOutcome.prepend {x y x' : Xfer} {err : Int} {evs : List SkbEvent}
    (hlog : y.log = x.log ++ evs) (hclean : NoFailure flushCalls evs)
    (hflush : NoFlushError evs) (h : CloseOutcome y err x') : CloseOutcome x err x' := by
  cases h with
  | kept evs' e hlog' hidle hclean' hflush' =>
      refine .kept (evs ++ evs') e ?_ hidle (noFailure_append.mpr ⟨hclean.send, hclean'⟩) ?_
      · rw [hlog', hlog]
        simp
      · rw [List.append_assoc, noFlushError_append]
        exact fun h => hflush' fun h' => h ⟨hflush, h'⟩
  | broken evs' e hlog' hlegal hfail =>
      refine .broken (evs ++ evs') e ?_ hlegal fun h => hfail (noFailure_append.mp h).2
      rw [hlog', hlog]
      simp

/-- A close goes on from an open message. -/
theorem Outcome.close {x y x' : Xfer} {err : Int} (hxy : Outcome x 0 y)
    (h : ∀ n, Owns y n .opened → CloseOutcome y err x') : CloseOutcome x err x' := by
  cases hxy with
  | held evs n hlog howns _ hclean hflush => exact (h n howns).prepend hlog hclean hflush
  | noMemory _ _ _ _ herr => exact absurd herr (by decide)
  | lost _ _ _ _ herr => exact absurd herr (by decide)

/-- Sending the open message ends the close. -/
theorem genlmsgUnicast_close {env : ReplyEnv} {x : Xfer} {n : Nat} (hx : Owns x n .opened) :
    CloseOutcome x (genlmsgUnicast env x).1 (genlmsgUnicast env x).2 := by
  obtain ⟨hsend, -⟩ := genlmsgUnicast_called env x
  refine .kept [] _ hsend.log (hx.called hsend rfl).idle (noFailure_nil _) ?_
  simp

/-- The label `err_free` frees the open message.  After a failed flush it frees
the NULL pointer or a message that is gone. -/
theorem Outcome.errFree {x y : Xfer} {err : Int}
    (h : Outcome x err y ∨ err = -emsgsize ∧ Outcome x 0 y) (herr : err ≠ 0) :
    CloseOutcome x err (nlmsgFree y) := by
  have hfree := nlmsgFree_called y
  rcases h with h | ⟨rfl, h⟩
  · cases h with
    | held _ _ _ _ hzero => exact absurd hzero herr
    | noMemory evs hlog hidle hmsg hneg hclean =>
        have hlog' := hfree.log
        rw [hmsg, hlog, List.append_assoc] at hlog'
        refine .kept evs _ hlog' ?_ hclean fun _ => hneg
        have hstate : ∀ i, msgState i (nlmsgFree y).log = msgState i y.log := by
          intro i
          rw [hfree.log, msgState_snoc]
          simp [msgStep, hmsg]
        refine ⟨fun i => hstate i ▸ hidle.settled i, fun i hi => ?_, ?_⟩
        · rw [hstate]
          exact hidle.fresh i (hfree.nextId ▸ hi)
        · rw [hfree.log, legal_snoc, hmsg]
          exact ⟨hidle.legal, Or.inl rfl⟩
    | lost evs n hlog howns hneg hfail =>
        have hlog' := hfree.log
        rw [hlog, List.append_assoc] at hlog'
        refine .broken evs _ hlog' ?_ hfail
        rw [hfree.log, legal_snoc, howns.msg]
        simp [Allowed, howns.state, MsgState.Allows]
  · refine h.close fun n hn => ?_
    refine .kept [] _ hfree.log (hn.called hfree (Or.inr rfl)).idle (noFailure_nil _) ?_
    simp

/-- A stage keeps to the life cycle or breaks it as the close does. -/
theorem closeStage_outcome {env : ReplyEnv} {c : SkbCall} (hc : IsPut c) (bytes : List Byte)
    (wanted : Bool) {k : Xfer → Int × Xfer} {x : Xfer} {n : Nat} (hx : Owns x n .opened)
    (hk : ∀ y m, Owns y m .opened → CloseOutcome y (k y).1 (k y).2) :
    CloseOutcome x (closeStage env c bytes wanted k x).1
      (closeStage env c bytes wanted k x).2 := by
  have hput : ∀ r, r = (if wanted then putRetry env c bytes x else (0, x)) →
      Outcome x r.1 r.2 ∨ r.1 = -emsgsize ∧ Outcome x 0 r.2 := by
    rintro r rfl
    split
    · exact putRetry_outcome hc env bytes hx
    · exact Or.inl (.held [] n (by simp) hx rfl (by simp) (by simp))
  unfold closeStage
  generalize (if wanted then putRetry env c bytes x else (0, x)) = r at hput ⊢
  have hr := hput r rfl
  simp only
  split
  · rename_i herr
    exact Outcome.errFree hr herr
  · rename_i hok
    have hzero : r.1 = 0 := not_not.mp hok
    rw [hzero] at hr
    rcases hr with hr | ⟨herr, -⟩
    · exact hr.close (hk r.2)
    · exact absurd herr (by decide)

/-- `mdio_nl_close` of an open message. -/
theorem mdioNlClose_outcome (env : ReplyEnv) (last : Bool) (xerr : Int) {x : Xfer} {n : Nat}
    (hx : Owns x n .opened) :
    CloseOutcome x (mdioNlClose env last xerr x).1 (mdioNlClose env last xerr x).2 := by
  have hnest := nlaNestEnd_called env x
  have hnested : Outcome x 0 (nlaNestEnd env x) :=
    .held _ n hnest.log (hx.called hnest rfl) rfl (by simp) (by simp)
  rw [mdioNlClose_stages]
  refine hnested.close fun m hm => closeStage_outcome (Or.inr (Or.inl rfl)) _ _ hm ?_
  intro y k hy
  have hend := genlmsgEnd_called env y
  have hended : Outcome y 0 (genlmsgEnd env y) :=
    .held _ k hend.log (hy.called hend rfl) rfl (by simp) (by simp)
  exact hended.close fun l hl => closeStage_outcome (Or.inr (Or.inr rfl)) _ _ hl
    fun z j hz => genlmsgUnicast_close hz

/-! ## Logs only grow -/

/-- `x'` comes after `x`. -/
def Later (x x' : Xfer) : Prop :=
  x.log <+: x'.log

/-- A call makes the log longer. -/
theorem Called.later {c : SkbCall} {ok : Bool} {x x' : Xfer} (h : Called c ok x x') :
    Later x x' :=
  ⟨_, h.log.symm⟩

/-- Logs grow step by step. -/
theorem Later.trans {x y z : Xfer} (hxy : Later x y) (hyz : Later y z) : Later x z :=
  List.IsPrefix.trans hxy hyz

/-- `mdio_nl_open` only adds to the log. -/
theorem mdioNlOpen_later (env : ReplyEnv) (x : Xfer) : Later x (mdioNlOpen env x).2 := by
  have hnew : Later x (nlmsgNew env x).2 := by
    unfold nlmsgNew
    split <;> exact List.prefix_append _ _
  have hput := hnew.trans (genlmsgPut_called env (nlmsgNew env x).2).later
  have hnest := hput.trans (nlaNestStart_called env (genlmsgPut env (nlmsgNew env x).2).2).later
  unfold mdioNlOpen
  simp only
  split
  · exact hnew
  · split
    · exact hput.trans (nlmsgFree_called _).later
    · split
      · exact hnest.trans (nlmsgFree_called _).later
      · exact hnest

/-- `mdio_nl_flush` only adds to the log. -/
theorem mdioNlFlush_later (env : ReplyEnv) (x : Xfer) : Later x (mdioNlFlush env x).2 := by
  rw [mdioNlFlush_eq]
  have hsend := ((nlaNestEnd_called env x).later.trans (genlmsgEnd_called env _).later).trans
    (genlmsgUnicast_called env (genlmsgEnd env (nlaNestEnd env x))).1.later
  refine Later.trans ?_ (List.prefix_append _ _)
  split
  · exact hsend
  · exact hsend.trans (mdioNlOpen_later env _)

/-- A put with its retry only adds to the log. -/
theorem putRetry_later (env : ReplyEnv) (c : SkbCall) (bytes : List Byte) (x : Xfer) :
    Later x (putRetry env c bytes x).2 := by
  have hput := (skbAppend_called env c bytes x).later
  have hflush := hput.trans (mdioNlFlush_later env _)
  unfold putRetry
  simp only
  split
  · exact hput
  · split
    · exact hflush
    · exact hflush.trans (skbAppend_called env c bytes _).later

/-- A stage of the close only adds to the log. -/
theorem closeStage_later (env : ReplyEnv) (c : SkbCall) (bytes : List Byte) (wanted : Bool)
    {k : Xfer → Int × Xfer} (hk : ∀ y, Later y (k y).2) (x : Xfer) :
    Later x (closeStage env c bytes wanted k x).2 := by
  have hput : Later x (if wanted then putRetry env c bytes x else (0, x)).2 := by
    split
    · exact putRetry_later env c bytes x
    · exact List.prefix_refl _
  unfold closeStage
  generalize (if wanted then putRetry env c bytes x else (0, x)) = r at hput ⊢
  simp only
  split
  · exact hput.trans (nlmsgFree_called _).later
  · exact hput.trans (hk _)

/-- Everything the close does comes after the end of the nest. -/
theorem mdioNlClose_later (env : ReplyEnv) (last : Bool) (xerr : Int) (x : Xfer) :
    Later (nlaNestEnd env x) (mdioNlClose env last xerr x).2 := by
  rw [mdioNlClose_stages]
  refine closeStage_later env _ _ _ (fun y => (genlmsgEnd_called env y).later.trans ?_) _
  exact closeStage_later env _ _ _ (fun z => (genlmsgUnicast_called env z).1.later) _

/-! ## The handler -/

/-- The life cycle of a handled request: every call is made on a message in a
state that allows it, every opened message is closed exactly once, and a failed
flush makes the handler fail. -/
structure Lifecycle {β : Type} (out : XferOutcome β) : Prop where
  legal : Legal out.xfer.log
  closed_once : ∀ id, (∃ e ∈ out.xfer.log, opens id e = true) →
    out.xfer.log.countP (closes id) = 1
  flush_error : ¬NoFlushError out.xfer.log → out.err < 0

/-- No call by which a flush can fail does so while the program runs, and
none by which it loses its message does so in the final close before its last
call. -/
def FlushesSucceed {β : Type} (out : XferOutcome β) : Prop :=
  match out.ran with
  | none => True
  | some ran => NoFailure flushCalls ran ∧
      NoFailure sendCalls (out.xfer.log.drop ran.length).dropLast

/-- Where every message is settled, each opened one has been closed once. -/
theorem Idle.closed_once {x : Xfer} (h : Idle x) (id : Nat)
    (hopen : ∃ e ∈ x.log, opens id e = true) : x.log.countP (closes id) = 1 := by
  rw [h.legal.closings id, if_pos]
  rcases h.legal.opened hopen with hst | hst
  · have := h.settled id
    simp [hst, MsgState.Settled] at this
  · exact hst

/-- While the program runs, an open message is held and no flush has failed. -/
structure Emitting (x : Xfer) : Prop where
  owns : ∃ n, Owns x n .opened
  clean : NoFailure flushCalls x.log
  flushed : NoFlushError x.log

/-- After a failed flush `xfer->msg` is NULL or points to a message that is
gone. -/
structure Dangling (x : Xfer) : Prop where
  gone : ∀ n, x.msgId = some n → msgState n x.log = .closed
  fail : ¬NoFailure flushCalls x.log

/-- Success leaves a message to emit into. -/
theorem Outcome.emitting {x x' : Xfer} (hx : Emitting x) (h : Outcome x 0 x') :
    Emitting x' := by
  cases h with
  | held evs n hlog howns _ hclean hflush =>
      refine ⟨⟨n, howns⟩, ?_, ?_⟩
      · rw [hlog, noFailure_append]
        exact ⟨hx.clean, hclean⟩
      · rw [hlog, noFlushError_append]
        exact ⟨hx.flushed, hflush⟩
  | noMemory _ _ _ _ herr => exact absurd herr (by decide)
  | lost _ _ _ _ herr => exact absurd herr (by decide)

/-- A failure has a negative error, and whatever message is left is closed. -/
theorem Outcome.dangling {x x' : Xfer} {err : Int} (h : Outcome x err x') (herr : err ≠ 0) :
    err < 0 ∧ Dangling x' := by
  cases h with
  | held _ _ _ _ hzero => exact absurd hzero herr
  | noMemory evs hlog hidle hmsg hneg _ hfail =>
      refine ⟨hneg, fun n hn => ?_, ?_⟩
      · rw [hmsg] at hn
        cases hn
      · rw [hlog, noFailure_append]
        exact fun h => hfail h.2
  | lost evs n hlog howns hneg hfail =>
      refine ⟨hneg, fun m hm => ?_, ?_⟩
      · rw [howns.msg] at hm
        cases hm
        exact howns.state
      · rw [hlog, noFailure_append]
        exact fun h => hfail h.2.send

/-- A failure has a negative error and leaves every message settled. -/
theorem Outcome.idle {x x' : Xfer} {err : Int} (h : Outcome x err x') (herr : err ≠ 0) :
    err < 0 ∧ Idle x' := by
  cases h with
  | held _ _ _ _ hzero => exact absurd hzero herr
  | noMemory _ _ hidle _ hneg => exact ⟨hneg, hidle⟩
  | lost _ _ _ howns hneg => exact ⟨hneg, howns.idle⟩

/-- A request starts to emit when its first message is open. -/
theorem mdioNlOpen_emitting {env : ReplyEnv} (h : (mdioNlOpen env Xfer.init).1 = 0) :
    Emitting (mdioNlOpen env Xfer.init).2 := by
  have hopen := mdioNlOpen_outcome env Idle.init
  rw [h] at hopen
  cases hopen with
  | held evs n hlog howns _ hclean hflush =>
      refine ⟨⟨n, howns⟩, ?_, ?_⟩
      · rw [hlog]
        exact hclean
      · rw [hlog]
        exact hflush
  | noMemory _ _ _ _ herr => exact absurd herr (by decide)
  | lost _ _ _ _ herr => exact absurd herr (by decide)

/-- An emit goes on emitting, whether the word is put or does not fit into an
empty message, or fails with its flush. -/
theorem mdioNlEmit_cases {env : ReplyEnv} {x : Xfer} (hx : Emitting x) (datum : BitVec 32) :
    Emitting (mdioNlEmit env datum x).2 ∨
      (mdioNlEmit env datum x).1 < 0 ∧ Dangling (mdioNlEmit env datum x).2 := by
  obtain ⟨n, hn⟩ := hx.owns
  rw [mdioNlEmit_eq]
  rcases putRetry_outcome (Or.inl rfl) env (env.endian.put32 datum) hn with h | ⟨-, h⟩
  · by_cases hzero : (putRetry env .nlaPutNohdr (env.endian.put32 datum) x).1 = 0
    · rw [hzero] at h
      exact Or.inl (h.emitting hx)
    · exact Or.inr (h.dangling hzero)
  · exact Or.inl (h.emitting hx)

/-- During a run an open message is held; at its end the message may dangle. -/
theorem mdioNlEval_emitting {β : Type} {env : ReplyEnv} {late : Nat → Bool}
    {prog : List MdioNlInsn} {bus : MiiBus β} {h : XferHost} (b : β) (hstart : Emitting h.xfer)
    (n : Nat) :
    (∀ s, (mdioNlEval prog bus (xferHost env late)).run n (.entry h b) = .inl s →
      Emitting s.host.xfer) ∧
    ∀ why ret h' b', (mdioNlEval prog bus (xferHost env late)).run n (.entry h b) =
      .inr (.returned why ret h' b') → Emitting h'.xfer ∨ Dangling h'.xfer := by
  refine mdioNlEval_host (I := fun h : XferHost => Emitting h.xfer)
    (Q := fun _ (h : XferHost) => Emitting h.xfer ∨ Dangling h.xfer) (fun _ hh => hh) ?_ ?_
    (fun _ _ hh => Or.inl hh) b hstart n
  · intro w h hh hok
    rcases mdioNlEmit_cases hh w with hemit | ⟨hneg, -⟩
    · exact hemit
    · exact absurd hneg (Int.not_lt.mpr hok)
  · intro w h hh _
    rcases mdioNlEmit_cases hh w with hemit | ⟨-, hdangling⟩
    · exact Or.inl hemit
    · exact Or.inr hdangling

/-- The final close of an open message keeps to the life cycle exactly if its
flushes succeed. -/
theorem Emitting.finish {β : Type} {env : ReplyEnv} {x : Xfer} (hx : Emitting x) (ret : Int)
    (b : β) : Lifecycle (xferFinish env ret x b) ↔ FlushesSucceed (xferFinish env ret x b) := by
  obtain ⟨n, hn⟩ := hx.owns
  have hclose := mdioNlClose_outcome env true ret hn
  cases hclose with
  | kept evs e hlog hidle hclean hflush =>
      refine iff_of_true ⟨hidle.legal, hidle.closed_once, fun herr => hflush fun h => herr ?_⟩ ?_
      · simp only [xferFinish, hlog, noFlushError_append] at h ⊢
        exact ⟨hx.flushed, h⟩
      · simp only [FlushesSucceed, xferFinish, hlog, List.drop_left, List.dropLast_concat]
        exact ⟨hx.clean, hclean⟩
  | broken evs e hlog hlegal hfail =>
      refine iff_of_false (fun h => hlegal h.legal) fun h => hfail ?_
      simp only [FlushesSucceed, xferFinish, hlog, List.drop_left, List.dropLast_concat] at h
      exact h.2

/-- The final close after a failed flush ends a nest in a message that is
gone. -/
theorem Dangling.finish {β : Type} {env : ReplyEnv} {x : Xfer} (hx : Dangling x) (ret : Int)
    (b : β) : Lifecycle (xferFinish env ret x b) ↔ FlushesSucceed (xferFinish env ret x b) := by
  refine iff_of_false (fun h => ?_) fun h => hx.fail h.1
  have hlegal : Legal (nlaNestEnd env x).log :=
    h.legal.of_prefix (mdioNlClose_later env true ret x)
  rw [(nlaNestEnd_called env x).log, legal_snoc] at hlegal
  have hallowed := hlegal.2
  cases hmsg : x.msgId with
  | none => simp [hmsg, Allowed] at hallowed
  | some n => simp [hmsg, Allowed, hx.gone n hmsg, MsgState.Allows] at hallowed

/-- The handler keeps to the life cycle of its messages exactly if its flushes
succeed; while a program runs, it does so whatever fails. -/
theorem mdioNlCmdXfer_lifecycle {β : Type} (env : ReplyEnv)
    (findBus : List Byte → Option (MiiBus β)) (late : BitVec 32 → Nat → Bool)
    (attrs : GenlAttrs) (b : β) (fuel : Nat) :
    (∀ prog bus s, (mdioNlOpen env Xfer.init).1 = 0 →
      (mdioNlEval prog bus (xferHost env (late (timeoutMs env attrs)))).run fuel
        (.entry ⟨(mdioNlOpen env Xfer.init).2, 0⟩ b) = .inl s → Legal s.host.xfer.log) ∧
    ∀ out, mdioNlCmdXfer env findBus late attrs b fuel = some out →
      (Lifecycle out ↔ FlushesSucceed out) := by
  constructor
  · intro prog bus s hopen hrun
    obtain ⟨n, hn⟩ := ((mdioNlEval_emitting b (mdioNlOpen_emitting hopen) fuel).1 s hrun).owns
    exact hn.legal
  · intro out hout
    rcases mdioNlCmdXfer_cases hout with ⟨hran, hxfer, -⟩ | ⟨hran, hopen, herr, hxfer⟩ |
      ⟨hopen, prog, bus, lateAt, why, ret, h', b', ⟨n, hn⟩, rfl⟩
    · refine iff_of_true ?_ (by simp [FlushesSucceed, hran])
      refine ⟨?_, ?_, ?_⟩
      · rw [hxfer]
        exact legal_nil
      · rw [hxfer]
        exact Idle.init.closed_once
      · rw [hxfer]
        exact fun h => absurd noFlushError_nil h
    · refine iff_of_true ?_ (by simp [FlushesSucceed, hran])
      have hidle := (mdioNlOpen_outcome env Idle.init).idle hopen
      rw [← hxfer, ← herr] at hidle
      exact ⟨hidle.2.legal, hidle.2.closed_once, fun _ => hidle.1⟩
    · rcases (mdioNlEval_emitting b (mdioNlOpen_emitting hopen) n).2 why ret h' b' hn with h | h
      · exact h.finish ret b'
      · exact h.finish ret b'

/-! ## A request whose flush fails -/

/-- A request to emit one word. -/
def emitOne : GenlAttrs where
  busId := some ⟨[], []⟩
  timeout := none
  prog := some ⟨8, [insn .emit (immArg 7) 0 0], by decide⟩
  data := false
  error := false

/-- Where no call fails, the life cycle of the reply to one emit is kept. -/
theorem mdioNlCmdXfer_lifecycle_emitOne :
    (∃ s, (mdioNlEval [insn .emit (immArg 7) 0 0] nullBus
        (xferHost (exampleEnv []) fun _ => false)).run 1
          (.entry ⟨(mdioNlOpen (exampleEnv []) Xfer.init).2, 0⟩ ()) = .inl s ∧
      Legal s.host.xfer.log) ∧
    ∃ out, mdioNlCmdXfer (exampleEnv []) (fun _ => some nullBus) (fun _ _ => false)
      emitOne () 2 = some out ∧ out.err = 0 ∧ Lifecycle out := by
  constructor
  · have hrun : ∃ s, (mdioNlEval [insn .emit (immArg 7) 0 0] nullBus
        (xferHost (exampleEnv []) fun _ => false)).run 1
          (.entry ⟨(mdioNlOpen (exampleEnv []) Xfer.init).2, 0⟩ ()) = .inl s := ⟨_, rfl⟩
    obtain ⟨s, hs⟩ := hrun
    exact ⟨s, hs, (mdioNlCmdXfer_lifecycle (exampleEnv []) (fun _ => some nullBus)
      (fun _ _ => false) emitOne () 1).1 _ _ s (by decide) hs⟩
  · have hout : ∃ out, mdioNlCmdXfer (exampleEnv []) (fun _ => some nullBus) (fun _ _ => false)
        emitOne () 2 = some out ∧ out.err = 0 ∧ FlushesSucceed out := by
      simp only [mdioNlCmdXfer, xferFinish, mdioNlClose_eq, xferHost, mdioNlEmit_eq, putRetry,
        mdioNlFlush_eq]
      refine ⟨_, rfl, by decide, ?_⟩
      simp only [FlushesSucceed]
      decide
    obtain ⟨out, heq, herr, hflush⟩ := hout
    exact ⟨out, heq, herr, ((mdioNlCmdXfer_lifecycle _ _ _ _ _ _).2 out heq).mpr hflush⟩

/-- When putting a word and sending the flushed message both fail, the handler
goes on to end the nest of the message it has sent. -/
theorem mdioNlCmdXfer_closes_gone_message :
    ∃ out, mdioNlCmdXfer (exampleEnv [3, 4]) (fun _ => some nullBus) (fun _ _ => false)
      emitOne () 2 = some out ∧ ¬Lifecycle out := by
  let gone : List SkbEvent := [.call .nlmsgNew (some 0) true, .call .genlmsgPut (some 0) true,
    .call .nlaNestStart (some 0) true, .call .nlaPutNohdr (some 0) false,
    .call .nlaNestEnd (some 0) true, .call .genlmsgEnd (some 0) true,
    .call .genlmsgUnicast (some 0) false, .flushed (-11)]
  have hout : ∃ out, mdioNlCmdXfer (exampleEnv [3, 4]) (fun _ => some nullBus)
      (fun _ _ => false) emitOne () 2 = some out ∧
      gone ++ [.call .nlaNestEnd (some 0) true] <+: out.xfer.log := by
    simp only [mdioNlCmdXfer, xferFinish, mdioNlClose_eq, xferHost, mdioNlEmit_eq, putRetry,
      mdioNlFlush_eq]
    exact ⟨_, rfl, by decide⟩
  obtain ⟨out, heq, hpre⟩ := hout
  refine ⟨out, heq, fun h => ?_⟩
  have hallowed : msgState 0 gone = .opened := h.legal _ _ hpre
  exact absurd hallowed (by decide)

end MdioTools.Kernel
