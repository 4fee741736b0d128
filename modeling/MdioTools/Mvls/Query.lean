import MdioTools.Client.Receive
import MdioTools.Library.Dialogue

/-!
# Queries over one socket

All queries of {lit}`mvls` go over one socket.  {lit}`__recv_run` reads datagrams
until one of them ends the query, and what has not been read by then is read by the
next query, which tells answers apart by the second in which they were asked for.

Main results:

- Definitions {lit}`mnlCbRun2` and {lit}`devlinkQuery`: the walk over a datagram, and
  a query.
- Definition {lit}`DlQuery.run`: what a query is for.
- Theorem {lit}`devlinkQuery_fresh`: a query with nothing unread does this.
- Theorem {lit}`devlinkQueries_inStep_iff`: when queries keep in step with their
  answers, and what happens to the others.
-/

namespace MdioTools.Mvls

open Library Client

variable {σ : Type}

/-! ## Datagrams -/

/-- What a message says: the attributes of a generic message, an error or an
acknowledgement, the end of a dump, or nothing. -/
inductive DlBody
  | data (attrs : List Byte)
  | error (err : Int)
  | done (len : Int)
  | noop

/-- A message as `mnl_cb_run2` sees it, where `intr` is `NLM_F_DUMP_INTR`. -/
structure DlMsg where
  portid : BitVec 32
  seq : BitVec 32
  intr : Bool
  body : DlBody

/-- What `mnl_socket_recvfrom` returns: the messages of a datagram, or a failure. -/
abbrev Datagram : Type :=
  Option (List DlMsg)

/-- `mnl_nlmsg_portid_ok` and `mnl_nlmsg_seq_ok`: 0 is anybody's. -/
def mnlIdOk (given own : BitVec 32) : Bool :=
  given = 0 || own = 0 || given = own

/-- `__cb_error`: `MNL_CB_STOP` or `MNL_CB_ERROR`. -/
def cbError (error : Int) : Int :=
  if error = 0 then 0 else -1

/-- `__cb_stop`. -/
def cbStop (len : Int) : Int :=
  if len < 0 then -1 else 0

/-- A callback for the attributes of a message, which may run into a fault. -/
abbrev DlCb (σ : Type) : Type :=
  List Byte → σ → Option MnlCb × σ

/-- The dispatch of `mnl_cb_run2`, with `__cb_error`, `__cb_stop` and `__cb_noop` for
control messages. -/
def mnlDispatch (cb : Option (DlCb σ)) (body : DlBody) (s : σ) : Option MnlCb × σ :=
  match body, cb with
  | .data attrs, some cb => cb attrs s
  | .data _, none => (some .ok, s)
  | .error err, _ => (some (if cbError err = 0 then .stop else .error), s)
  | .done len, _ => (some (if cbStop len = 0 then .stop else .error), s)
  | .noop, _ => (some .ok, s)

/-- `mnl_cb_run2` over the messages of a datagram. -/
def mnlCbRun2 (seq portid : BitVec 32) (cb : Option (DlCb σ)) : List DlMsg → σ →
    Option MnlCb × σ
  | [], s => (some .ok, s)
  | m :: rest, s =>
      if !mnlIdOk m.portid portid then (some .error, s)
      else if !mnlIdOk m.seq seq then (some .error, s)
      else if m.intr then (some .error, s)
      else
        match mnlDispatch cb m.body s with
        | (some .ok, s') => mnlCbRun2 seq portid cb rest s'
        | r => r

/-- The body of the loop of `__recv_run`. -/
def recvRunBody (seq portid : BitVec 32) (cb : Option (DlCb σ)) :
    Handler Datagram σ (Option MnlCb)
  | none, s => (some (some .error), s)
  | some msgs, s =>
      match mnlCbRun2 seq portid cb msgs s with
      | (some .ok, s') => (none, s')
      | (r, s') => (some r, s')

/-! ## Queries -/

/-- An answer of the kernel: data in some datagrams, and in a last one data behind
which the status comes. -/
structure DlAnswer where
  parts : List (List (List Byte))
  last : List (List Byte)
  dump : Bool
  status : Int

/-- The message with the status. -/
def DlAnswer.statusBody (a : DlAnswer) : DlBody :=
  if a.dump then .done a.status else .error a.status

/-- What a query returns behind the status. -/
def DlAnswer.err (a : DlAnswer) : Int :=
  if (if a.dump then cbStop a.status else cbError a.status) = 0 then 0 else -1

/-- The data of an answer. -/
def DlAnswer.datas (a : DlAnswer) : List (List Byte) :=
  a.parts.flatten ++ a.last

/-- A query: the second in which it is sent, its callback, and the answer, if it can
be sent. -/
structure DlQuery (σ : Type) where
  seq : BitVec 32
  cb : Option (DlCb σ)
  answer : Option DlAnswer

/-- A message of an answer, which repeats the number of its query. -/
def dlReply (portid seq : BitVec 32) (body : DlBody) : DlMsg :=
  ⟨portid, seq, false, body⟩

/-- The datagrams of an answer. -/
def DlAnswer.datagrams (a : DlAnswer) (portid seq : BitVec 32) : List Datagram :=
  a.parts.map (fun part => some (part.map fun attrs => dlReply portid seq (.data attrs))) ++
    [some (a.last.map (fun attrs => dlReply portid seq (.data attrs)) ++
      [dlReply portid seq a.statusBody])]

/-- The query as a question. -/
def DlQuery.question (portid : BitVec 32) (q : DlQuery σ) :
    Question Datagram σ (Option MnlCb) where
  handle := recvRunBody q.seq portid q.cb
  failed := some .error
  answer := q.answer.map fun a => a.datagrams portid q.seq

/-- `devlink_query` with some datagrams unread: the result, where a fault has none,
the state of the callback, and what is unread behind it. -/
def devlinkQuery (portid : BitVec 32) (q : DlQuery σ) (unread : List Datagram) (s : σ) :
    Option (Option MnlCb) × σ × List Datagram :=
  (q.question portid).ask unread s

/-- One query after another. -/
def devlinkQueries (portid : BitVec 32) (qs : List (DlQuery σ)) (s : σ) : σ × List Datagram :=
  talk (qs.map (DlQuery.question portid)) [] s

/-! ## What a query is for -/

/-- The callback on data one after another, as long as it accepts them. -/
def feed (cb : Option (DlCb σ)) : List (List Byte) → σ → Option MnlCb × σ
  | [], s => (some .ok, s)
  | attrs :: rest, s =>
      match mnlDispatch cb (.data attrs) s with
      | (some .ok, s') => feed cb rest s'
      | r => r

/-- The callback gets the data of the answer, and if it accepts them the status is the
result. -/
def DlQuery.run (q : DlQuery σ) (s : σ) : Option MnlCb × σ :=
  match q.answer with
  | none => (some .error, s)
  | some a =>
      match feed q.cb a.datas s with
      | (some .ok, s') => mnlDispatch q.cb a.statusBody s'
      | r => r

/-- The callback accepts all data but those of the last datagram. -/
def DlQuery.Accepts (q : DlQuery σ) (s : σ) : Prop :=
  ∀ a, q.answer = some a → (feed q.cb a.parts.flatten s).1 = some .ok

/-- So does each of several callbacks, one query after another. -/
def AllAccept : List (DlQuery σ) → σ → Prop
  | [], _ => True
  | q :: qs, s => q.Accepts s ∧ AllAccept qs (q.run s).2

/-- Queries that do what they are for. -/
def runQueries (qs : List (DlQuery σ)) (s : σ) : σ :=
  qs.foldl (fun s q => (q.run s).2) s

/-! ## Reading an answer -/

variable (portid : BitVec 32)

/-- A message for the asker passes the checks of the library. -/
theorem mnlIdOk_self (id : BitVec 32) : mnlIdOk id id = true := by
  simp [mnlIdOk]

/-- A message for the asker is handed to the callback. -/
theorem mnlCbRun2_cons_own (seq : BitVec 32) (cb : Option (DlCb σ)) (body : DlBody)
    (rest : List DlMsg) (s : σ) :
    mnlCbRun2 seq portid cb (dlReply portid seq body :: rest) s =
      match mnlDispatch cb body s with
      | (some .ok, s') => mnlCbRun2 seq portid cb rest s'
      | r => r := by
  simp only [mnlCbRun2, dlReply, mnlIdOk_self, Bool.not_true, Bool.false_eq_true, if_false]

/-- The data of the own answer go to the callback. -/
theorem mnlCbRun2_own (seq : BitVec 32) (cb : Option (DlCb σ)) (datas : List (List Byte))
    (rest : List DlMsg) (s : σ) :
    mnlCbRun2 seq portid cb (datas.map (fun attrs => dlReply portid seq (.data attrs)) ++ rest) s =
      match feed cb datas s with
      | (some .ok, s') => mnlCbRun2 seq portid cb rest s'
      | r => r := by
  induction datas generalizing s with
  | nil => rfl
  | cons attrs datas ih =>
      rw [List.map_cons, List.cons_append, mnlCbRun2_cons_own, feed]
      rcases mnlDispatch cb (.data attrs) s with ⟨_ | _ | _ | _, s'⟩
      · rfl
      · exact ih s'
      · rfl
      · rfl

/-- What is left of an answer is handed on if the callback lets it. -/
theorem feed_append (cb : Option (DlCb σ)) (front back : List (List Byte)) (s : σ) :
    feed cb (front ++ back) s =
      match feed cb front s with
      | (some .ok, s') => feed cb back s'
      | r => r := by
  induction front generalizing s with
  | nil => rfl
  | cons attrs front ih =>
      rw [List.cons_append, feed, feed]
      rcases mnlDispatch cb (.data attrs) s with ⟨_ | _ | _ | _, s'⟩
      · rfl
      · exact ih s'
      · rfl
      · rfl

/-- Data that are all accepted are so from the first on. -/
theorem feed_front {cb : Option (DlCb σ)} {front back : List (List Byte)} {s t : σ}
    (h : feed cb (front ++ back) s = (some .ok, t)) : (feed cb front s).1 = some .ok := by
  rw [feed_append] at h
  rcases hfront : feed cb front s with ⟨_ | _ | _ | _, s'⟩
  · rw [hfront] at h
    cases h
  · rfl
  · rw [hfront] at h
    cases h
  · rw [hfront] at h
    cases h

/-- The status is never one to go on with. -/
theorem mnlDispatch_status (cb : Option (DlCb σ)) (a : DlAnswer) (s : σ) :
    mnlDispatch cb a.statusBody s = (some (if a.err = 0 then .stop else .error), s) := by
  unfold DlAnswer.statusBody DlAnswer.err
  split_ifs <;> simp_all [mnlDispatch]

/-- The last datagram, on its own. -/
theorem mnlCbRun2_last (seq : BitVec 32) (cb : Option (DlCb σ)) (a : DlAnswer) (s : σ) :
    mnlCbRun2 seq portid cb (a.last.map (fun attrs => dlReply portid seq (.data attrs)) ++
        [dlReply portid seq a.statusBody]) s =
      match feed cb a.last s with
      | (some .ok, s') => mnlDispatch cb a.statusBody s'
      | r => r := by
  rw [mnlCbRun2_own]
  rcases feed cb a.last s with ⟨_ | _ | _ | _, s'⟩
  · rfl
  · simp only [mnlCbRun2_cons_own, mnlDispatch_status]
    split_ifs <;> rfl
  · rfl
  · rfl

/-- It brings a result. -/
theorem mnlCbRun2_last_ne_ok (seq : BitVec 32) (cb : Option (DlCb σ)) (a : DlAnswer) (s : σ) :
    (mnlCbRun2 seq portid cb (a.last.map (fun attrs => dlReply portid seq (.data attrs)) ++
        [dlReply portid seq a.statusBody]) s).1 ≠ some .ok := by
  rw [mnlCbRun2_last]
  rcases feed cb a.last s with ⟨_ | _ | _ | _, s'⟩
  · simp
  · simp only [mnlDispatch_status]
    split_ifs <;> simp
  · simp
  · simp

/-- What is no reason to go on is the result of the loop. -/
theorem readUntil_last {seq : BitVec 32} {cb : Option (DlCb σ)} {msgs : List DlMsg} {s s' : σ}
    {r : Option MnlCb} (h : mnlCbRun2 seq portid cb msgs s = (r, s')) (hr : r ≠ some .ok) :
    readUntil (recvRunBody seq portid cb) [some msgs] s = (some r, s', []) := by
  rw [readUntil, recvRunBody, h]
  rcases r with _ | _ | _ | _
  · rfl
  · exact absurd rfl hr
  · rfl
  · rfl

/-- Datagrams in front of the last: if the callback accepts their data all of them are
read, and if not the query is over and the rest is not read. -/
theorem readUntil_parts (seq : BitVec 32) (cb : Option (DlCb σ)) (parts : List (List (List Byte)))
    (more : List Datagram) (s : σ) :
    ∃ left, readUntil (recvRunBody seq portid cb)
      (parts.map (fun part => some (part.map fun attrs => dlReply portid seq (.data attrs))) ++ more)
        s =
      match feed cb parts.flatten s with
      | (some .ok, s') => readUntil (recvRunBody seq portid cb) more s'
      | (r, s') => (some r, s', left ++ more) := by
  induction parts generalizing s with
  | nil => exact ⟨[], rfl⟩
  | cons part parts ih =>
      have hpart := mnlCbRun2_own portid seq cb part [] s
      rw [List.append_nil] at hpart
      rw [List.flatten_cons, List.map_cons, List.cons_append, feed_append, readUntil, recvRunBody,
        hpart]
      rcases feed cb part s with ⟨_ | _ | _ | _, s'⟩
      · exact ⟨_, rfl⟩
      · exact ih s'
      · exact ⟨_, rfl⟩
      · exact ⟨_, rfl⟩

/-- With nothing unread a query does what it is for, and reads the whole answer exactly
when its callback accepts the data in front of the last datagram. -/
theorem devlinkQuery_fresh (q : DlQuery σ) (s : σ) :
    ∃ left, devlinkQuery portid q [] s = (some (q.run s).1, (q.run s).2, left) ∧
      (left = [] ↔ q.Accepts s) := by
  unfold devlinkQuery Question.ask DlQuery.question DlQuery.run DlQuery.Accepts
  cases q.answer with
  | none => exact ⟨[], rfl, by simp⟩
  | some a =>
      obtain ⟨left, hparts⟩ := readUntil_parts portid q.seq q.cb a.parts
        [some (a.last.map (fun attrs => dlReply portid q.seq (.data attrs)) ++
          [dlReply portid q.seq a.statusBody])] s
      simp only [Option.map_some, List.nil_append, DlAnswer.datagrams, hparts, DlAnswer.datas,
        feed_append, Option.some.injEq, forall_eq']
      rcases feed q.cb a.parts.flatten s with ⟨_ | _ | _ | _, s'⟩
      · exact ⟨_, rfl, by simp⟩
      · have hne := mnlCbRun2_last_ne_ok portid q.seq q.cb a s'
        have hread := readUntil_last portid rfl hne
        rw [mnlCbRun2_last] at hread
        exact ⟨[], hread, by simp⟩
      · exact ⟨_, rfl, by simp⟩
      · exact ⟨_, rfl, by simp⟩

/-! ## Reading other answers -/

/-- The message is a status. -/
def DlBody.Ends : DlBody → Prop
  | .error _ | .done _ => True
  | .data _ | .noop => False

/-- The datagram has a status, or is one that cannot be received. -/
def Datagram.Last (d : Datagram) : Prop :=
  ∀ msgs, d = some msgs → ∃ m ∈ msgs, m.body.Ends

/-- A datagram with a status ends every query, whatever its callback and its second. -/
theorem mnlCbRun2_ends (seq : BitVec 32) (cb : Option (DlCb σ)) {msgs : List DlMsg}
    (h : ∃ m ∈ msgs, m.body.Ends) (s : σ) : (mnlCbRun2 seq portid cb msgs s).1 ≠ some .ok := by
  induction msgs generalizing s with
  | nil => simp at h
  | cons m msgs ih =>
      rw [mnlCbRun2]
      split_ifs
      · simp
      · simp
      · simp
      · rcases h' : mnlDispatch cb m.body s with ⟨_ | _ | _ | _, s'⟩
        · simp
        · refine ih ?_ s'
          obtain ⟨m', hm', hends⟩ := h
          rcases List.mem_cons.mp hm' with rfl | hm'
          · have hstatus : (mnlDispatch cb m'.body s).1 ≠ some .ok := by
              cases hbody : m'.body with
              | error err => simp only [mnlDispatch]; split_ifs <;> simp
              | done len => simp only [mnlDispatch]; split_ifs <;> simp
              | data attrs => simp [hbody, DlBody.Ends] at hends
              | noop => simp [hbody, DlBody.Ends] at hends
            exact absurd (congrArg Prod.fst h') hstatus
          · exact ⟨m', hm', hends⟩
        · simp
        · simp

/-- The last datagram of an answer ends the receive loop. -/
theorem recvRunBody_last (seq : BitVec 32) (cb : Option (DlCb σ)) {d : Datagram} (h : d.Last)
    (s : σ) : (recvRunBody seq portid cb d s).1 ≠ none := by
  cases d with
  | none => simp [recvRunBody]
  | some msgs =>
      have hends := mnlCbRun2_ends portid seq cb (h msgs rfl) s
      rw [recvRunBody]
      rcases hrun : mnlCbRun2 seq portid cb msgs s with ⟨_ | _ | _ | _, s'⟩
      · simp
      · exact absurd (congrArg Prod.fst hrun) hends
      · simp
      · simp

/-- The answers of the kernel end with a status. -/
theorem queries_close (qs : List (DlQuery σ)) :
    Closes Datagram.Last (qs.map (DlQuery.question portid)) where
  last q hq answer hanswer := by
    obtain ⟨q, -, rfl⟩ := List.mem_map.mp hq
    obtain ⟨a, -, rfl⟩ := Option.map_eq_some_iff.mp hanswer
    refine ⟨_, _, rfl, ?_⟩
    rintro msgs ⟨⟩
    refine ⟨_, List.mem_append_right _ List.mem_cons_self, ?_⟩
    unfold DlAnswer.statusBody dlReply
    split_ifs <;> trivial
  ends q hq d s hd := by
    obtain ⟨q, -, rfl⟩ := List.mem_map.mp hq
    exact recvRunBody_last portid q.seq q.cb hd s

/-- The messages of an answer have the number of its query. -/
theorem DlAnswer.datagrams_seq {a : DlAnswer} {seq : BitVec 32} {d : Datagram}
    (h : d ∈ a.datagrams portid seq) : ∃ msgs, d = some msgs ∧ ∀ m ∈ msgs, m.seq = seq := by
  rcases List.mem_append.mp h with h | h
  · obtain ⟨part, -, rfl⟩ := List.mem_map.mp h
    refine ⟨_, rfl, fun m hm => ?_⟩
    obtain ⟨attrs, -, rfl⟩ := List.mem_map.mp hm
    rfl
  · rw [List.mem_singleton.mp h]
    refine ⟨_, rfl, fun m hm => ?_⟩
    rcases List.mem_append.mp hm with hm | hm
    · obtain ⟨attrs, -, rfl⟩ := List.mem_map.mp hm
      rfl
    · rw [List.mem_singleton.mp hm]
      rfl

/-- Datagrams of other seconds: the query fails, and its callback is not called. -/
theorem readUntil_otherSecond {seq : BitVec 32} (cb : Option (DlCb σ)) {unread : List Datagram}
    (h : ∀ d ∈ unread, ∃ msgs, d = some msgs ∧ ∀ m ∈ msgs, mnlIdOk m.seq seq = false) {s s' : σ}
    {r : Option MnlCb} {left : List Datagram}
    (hread : readUntil (recvRunBody seq portid cb) unread s = (some r, s', left)) :
    r = some .error ∧ s' = s := by
  induction unread with
  | nil => cases hread
  | cons d unread ih =>
      obtain ⟨msgs, rfl, hmsgs⟩ := h d List.mem_cons_self
      cases msgs with
      | nil => exact ih (fun d hd => h d (List.mem_cons_of_mem _ hd)) hread
      | cons m msgs =>
          have hseq := hmsgs m List.mem_cons_self
          have hrun : mnlCbRun2 seq portid cb (m :: msgs) s = (some .error, s) := by
            simp [mnlCbRun2, hseq]
          rw [readUntil, recvRunBody, hrun] at hread
          cases hread
          exact ⟨rfl, rfl⟩

/-! ## Runs of queries -/

/-- Without unread datagrams a query is answered as if it were alone. -/
theorem ask_fresh_eq (q : DlQuery σ) (s : σ) :
    ((q.question portid).ask [] s).2.1 = (q.run s).2 ∧
      ((q.question portid).Attentive s ↔ q.Accepts s) := by
  obtain ⟨left, hquery, hleft⟩ := devlinkQuery_fresh portid q s
  have hask : (q.question portid).ask [] s = (some (q.run s).1, (q.run s).2, left) := hquery
  rw [Question.Attentive, hask]
  exact ⟨rfl, hleft⟩

/-- A client is attentive if its callbacks take the answers. -/
theorem allAttentive_iff (qs : List (DlQuery σ)) (s : σ) :
    AllAttentive (qs.map (DlQuery.question portid)) s ↔ AllAccept qs s := by
  induction qs generalizing s with
  | nil => exact Iff.rfl
  | cons q qs ih =>
      obtain ⟨hstate, hattentive⟩ := ask_fresh_eq portid q s
      rw [List.map_cons, AllAttentive, AllAccept, hattentive, hstate, ih]

/-- A dialogue on a socket of its own is a run of queries. -/
theorem talkAlone_eq (qs : List (DlQuery σ)) (s : σ) :
    talkAlone (qs.map (DlQuery.question portid)) s = runQueries qs s := by
  induction qs generalizing s with
  | nil => rfl
  | cons q qs ih =>
      have hstate := (ask_fresh_eq portid q s).1
      rw [List.map_cons, talkAlone, List.foldl_cons, hstate]
      exact ih _

/-- Queries keep in step with their answers, with nothing unread behind them, exactly as
long as their callbacks accept the data in front of the last datagrams; and then each
does what it is for.  After that no query reads any of its own answer, and one that is
sent in another second fails without a call of its callback. -/
theorem devlinkQueries_inStep_iff (qs : List (DlQuery σ)) (s : σ) :
    ((devlinkQueries portid qs s).2 = [] ↔ AllAccept qs s) ∧
      (AllAccept qs s → (devlinkQueries portid qs s).1 = runQueries qs s) ∧
      (¬AllAccept qs s → ∀ q : DlQuery σ, ∃ r s' left,
        devlinkQuery portid q (devlinkQueries portid qs s).2 (devlinkQueries portid qs s).1 =
            (some r, s', left ++ ((q.question portid).answer.getD [])) ∧
          left <:+ (devlinkQueries portid qs s).2 ∧
          (q.seq ≠ 0 → (∀ q' ∈ qs, q'.seq ≠ 0 ∧ q'.seq ≠ q.seq) →
            r = some .error ∧ s' = (devlinkQueries portid qs s).1)) := by
  have hclose := queries_close portid qs
  have hiff : (devlinkQueries portid qs s).2 = [] ↔ AllAccept qs s :=
    (talk_inStep_iff hclose s).trans (allAttentive_iff portid qs s)
  refine ⟨hiff, fun haccept => ?_, fun hreject q => ?_⟩
  · have hstep := talk_inStep ((allAttentive_iff portid qs s).mpr haccept)
    rw [devlinkQueries, hstep, talkAlone_eq]
  · have hclose' := queries_close portid (q :: qs)
    obtain hnil | ⟨front, d, hunread, hd⟩ := talk_final hclose s
    · exact absurd (hiff.mp hnil) hreject
    obtain ⟨r, s', left, hask, hleft, -, hresult⟩ := ask_late hclose' List.mem_cons_self hunread hd
      (devlinkQueries portid qs s).1
    refine ⟨r, s', left, hask, hleft, fun hseq hseqs => ?_⟩
    rcases hresult with hfailed | hread
    · exact Prod.mk.inj hfailed
    · refine readUntil_otherSecond portid q.cb (fun d hd => ?_) hread
      rcases talk_unread hd with hd | ⟨asked, hasked, answer, hanswer, hd⟩
      · cases hd
      obtain ⟨q', hq', rfl⟩ := List.mem_map.mp hasked
      obtain ⟨a, -, rfl⟩ := Option.map_eq_some_iff.mp hanswer
      obtain ⟨msgs, hmsgs, hall⟩ := a.datagrams_seq portid hd
      refine ⟨msgs, hmsgs, fun m hm => ?_⟩
      obtain ⟨hzero, hne⟩ := hseqs q' hq'
      rw [hall m hm]
      exact by simpa [mnlIdOk, hne] using ⟨hzero, hseq⟩

end MdioTools.Mvls
