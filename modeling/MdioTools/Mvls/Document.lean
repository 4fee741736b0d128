import MdioTools.Library.Json
import MdioTools.Mvls.Member
import MdioTools.Mvls.PortListing

/-!
# The document of the JSON printer

{lit}`mvls -j` prints a prologue, the tables that are asked for, and an epilogue.
What it means to print is an object with an array for each table, and in it an
object for each port or entry.  The names of network devices are put between
quotes as they are.

Main results:

- Definition {lit}`mainJson`: what the program prints.
- Theorem {lit}`mainJson_eq`: the text is made of the tokens of the document.
- Theorem {lit}`printsDocument_iff`: when it is a text of the document.
-/

namespace MdioTools.Mvls

open Library

/-! ## The program -/

/-- What `main` leaves: its output and its exit status. -/
structure MainOut where
  out : CStr
  status : Nat

/-- `env_dev_get`. -/
def envDevGet (env : Env) (index : BitVec 32) : Option Dev :=
  env.devs.find? fun dev => (dev.index.val : Int) = index.toInt

/-- `json_prologue`, `json_join` and `json_epilogue`. -/
def jsonPrologue : CStr := ['{']
def jsonJoin : CStr := [',']
def jsonEpilogue : CStr := ['}']

/-- `main` with `printer_json` behind `env_init`, for the operands of the command
line; {lean}`none` is a read outside of a region.  The printer has no functions
for the PVT. -/
def mainJson (env : Env) : List CStr → Option MainOut
  | [] => do
      let vtu ← envJsonVtu env
      let stu ← envJsonStu env
      let atu ← envJsonAtu env
      let ports ← envJsonPorts env
      some ⟨jsonPrologue ++ vtu ++ jsonJoin ++ stu ++ jsonJoin ++ atu ++ jsonJoin ++ ports ++
        jsonEpilogue, 0⟩
  | cmd :: rest => do
      let ports ← if cmd = "port".toList then envJsonPorts env else some []
      let atu ← if cmd = "atu".toList then envJsonAtu env else some []
      let vtu ← if cmd = "vtu".toList then envJsonVtu env else some []
      let stu ← if cmd = "stu".toList then envJsonStu env else some []
      let out := jsonPrologue ++ ports ++ atu ++ vtu ++ stu
      match rest with
      | [] => some ⟨out ++ jsonEpilogue, 0⟩
      | index :: _ =>
          if cmd = "pvt".toList ∧ (envDevGet env (BitVec.ofInt 32 (strtol index))).isNone then
            some ⟨out, 1⟩
          else some ⟨out ++ jsonEpilogue, 0⟩

/-! ## The document -/

/-- The value of a member. -/
inductive JsonField
  | nat (n : Nat)
  | int (i : Int)
  | str (s : CStr)
  | yes
  | nats (ns : List Nat)

/-- A member of an object, and whether its value is printed behind a space. -/
structure JsonMember where
  key : String
  spaced : Bool
  value : JsonField

/-- A table: its name, and the members of its objects. -/
structure JsonTable where
  name : String
  objs : List (List JsonMember)

/-- The value of a field. -/
def JsonField.json : JsonField → Json
  | .nat n => .num (dec n)
  | .int i => .num (decInt i)
  | .str s => .str s
  | .yes => .bool true
  | .nats ns => .arr (ns.map fun n => .num (dec n))

/-- The document of tables. -/
def documentJson (tables : List JsonTable) : Json :=
  .obj (tables.map fun t => (t.name.toList,
    .arr (t.objs.map fun obj => .obj (obj.map fun m => (m.key.toList, m.value.json)))))

/-- A member that is there under a condition. -/
def flagMember (key : String) (cond : Bool) : List JsonMember :=
  if cond then [⟨key, false, .yes⟩] else []

def prioMember (key : String) (prio : PrioOverride) : List JsonMember :=
  if prio.set then [⟨key, true, .nat prio.pri⟩] else []

/-- A member with the ports in a set. -/
def portsMember (key : String) (portvec : BitVec 16) : JsonMember :=
  ⟨key, false, .nats (portvecPorts portvec)⟩

/-- The members of the object of a port. -/
def JsonPort.members (p : JsonPort) : List JsonMember :=
  [⟨"netdev", false, .str p.netdev⟩, ⟨"dev", false, .nat p.dev⟩,
    ⟨"port", false, .int p.port.toInt⟩, ⟨"state", false, .str p.state.toList⟩,
    ⟨"frame-mode", false, .str p.frameMode.toList⟩,
    ⟨"egress-mode", false, .str p.egressMode.toList⟩, ⟨"802.1q", false, .str p.qMode.toList⟩,
    ⟨"pvid", false, .nat p.pvid⟩, ⟨"fid", false, .nat p.fid⟩] ++
  p.lag.toList.map (fun lag => ⟨"lag", false, .nat lag⟩) ++
  flagMember "flood-unicast" p.floodUnicast ++ flagMember "flood-multicast" p.floodMulticast ++
  flagMember "allow-untagged" p.allowUntagged ++ flagMember "allow-tagged" p.allowTagged

/-- The address of an ATU entry. -/
def JsonAtu.address (a : JsonAtu) : CStr :=
  let byte (i : Fin 6) : CStr := padLeft 2 '0' (hex (a.entry.addr i))
  byte 0 ++ [':'] ++ byte 1 ++ [':'] ++ byte 2 ++ [':'] ++ byte 3 ++ [':'] ++ byte 4 ++ [':'] ++
    byte 5

/-- The state of an ATU entry. -/
def JsonAtu.state (a : JsonAtu) : String :=
  (if a.entry.addr 0 % 2 = 1 then jsonAtuMcStr else jsonAtuUcStr).getD a.entry.state ""

/-- The members of the object of an ATU entry. -/
def JsonAtu.members (a : JsonAtu) : List JsonMember :=
  [⟨"dev", false, .nat a.dev⟩, ⟨"fid", false, .nat a.entry.fid.toNat⟩,
    ⟨"address", false, .str a.address⟩, ⟨"state", false, .str a.state.toList⟩] ++
  prioMember "queue-prio-override" a.entry.qpri ++ prioMember "frame-prio-override" a.entry.fpri ++
  [if a.entry.lag then ⟨"lag", true, .nat a.entry.portvec.toNat⟩
    else portsMember "ports" a.entry.portvec]

/-- The members of the object of a VTU entry. -/
def JsonVtu.members (v : JsonVtu) : List JsonMember :=
  [⟨"dev", false, .nat v.dev⟩, ⟨"vid", false, .nat v.vid⟩, ⟨"fid", false, .nat v.fid⟩,
    ⟨"sid", false, .nat v.sid⟩] ++
  (if v.policy then [⟨"policy", true, .yes⟩] else []) ++
  prioMember "queue-prio-override" v.qpri ++ prioMember "frame-prio-override" v.fpri ++
  [portsMember "unmodified" v.unmodified, portsMember "untagged" v.untagged,
    portsMember "tagged" v.tagged]

/-- The members of the object of an STU entry. -/
def JsonStu.members (v : JsonStu) : List JsonMember :=
  [⟨"dev", false, .nat v.dev⟩, ⟨"sid", false, .nat v.sid⟩, portsMember "disabled" v.disabled,
    portsMember "blocking" v.blocking, portsMember "learning" v.learning,
    portsMember "forwarding" v.forwarding]

/-- The tables of an environment, as far as their walks stay inside of the
regions. -/
def jsonPortTable (env : Env) : Option JsonTable :=
  (jsonPortObjs env).map fun objs => ⟨"ports", objs.map JsonPort.members⟩

def jsonAtuTable (env : Env) : Option JsonTable :=
  (tableEntries atuTable (fun dev => dev.chip.family.devAtuParse) Dev.atu env).map fun entries =>
    ⟨"atu", entries.map fun de => JsonAtu.members ⟨de.1.index, de.2⟩⟩

def jsonVtuTable (env : Env) : Option JsonTable :=
  (jsonVtuRun env).map fun s => ⟨"vtu", s.objs.map JsonVtu.members⟩

def jsonStuTable (env : Env) : Option JsonTable :=
  (jsonStuRun env).map fun s => ⟨"stu", s.objs.map JsonStu.members⟩

/-- The tables that the operands ask for. -/
def mainTables (env : Env) : List CStr → Option (List JsonTable)
  | [] => do
      let vtu ← jsonVtuTable env
      let stu ← jsonStuTable env
      let atu ← jsonAtuTable env
      let ports ← jsonPortTable env
      some [vtu, stu, atu, ports]
  | cmd :: _ =>
      if cmd = "port".toList then (jsonPortTable env).map ([·])
      else if cmd = "atu".toList then (jsonAtuTable env).map ([·])
      else if cmd = "vtu".toList then (jsonVtuTable env).map ([·])
      else if cmd = "stu".toList then (jsonStuTable env).map ([·])
      else some []

/-- The output is a JSON text, and its strings are those of the document. -/
def PrintsDocument (env : Env) (args : List CStr) : Prop :=
  ∃ res tables v, mainJson env args = some res ∧ mainTables env args = some tables ∧
    IsJson res.out v ∧ v.strings = (documentJson tables).strings

/-- The operands ask for a table. -/
def Asks (args : List CStr) (name : String) : Prop :=
  args = [] ∨ args.head? = some name.toList

/-- The regions of a table have an end, up to the first query that fails. -/
def TableOk {κ ε : Type} (t : KTable κ) (parse : Dev → κ → Option ε) (get : Dev → RegionGet)
    (env : Env) : Prop :=
  ∀ dev ∈ env.devs.takeWhile (fun dev => (get dev).err = 0),
    Terminated t (parse dev) (get dev).region

/-- What the JSON printer relies on: the tables asked for can be walked over, the
registers of ports are there and the names of their network devices can be put in
quotes, and a device that is asked for exists. -/
structure JsonOk (env : Env) (args : List CStr) : Prop where
  ports : Asks args "port" → PortsLoaded env
  names : Asks args "port" → ∀ dev ∈ env.devs, ∀ p ∈ dev.ports, IsClean p.netdev
  atu : Asks args "atu" → TableOk atuTable (fun dev => dev.chip.family.devAtuParse) Dev.atu env
  vtu : Asks args "vtu" → TableOk vtuTable (fun dev => dev.chip.family.devVtuParse) Dev.vtu env
  stu : Asks args "stu" → TableOk stuTable (fun dev => dev.chip.family.devStuParse) Dev.stu env
  pvt : ∀ index rest, args = "pvt".toList :: index :: rest →
    (envDevGet env (BitVec.ofInt 32 (strtol index))).isSome

/-! ## The tokens that are printed -/

def JsonMember.tokens (m : JsonMember) : List JsonToken :=
  .str m.key.toList :: .punct ':' :: ((if m.spaced then [.blank] else []) ++ m.value.json.tokens)

def objTokens (ms : List JsonMember) : List JsonToken :=
  bracket '{' '}' (ms.map JsonMember.tokens)

def JsonTable.tokens (t : JsonTable) : List JsonToken :=
  .str t.name.toList :: .punct ':' :: bracket '[' ']' (t.objs.map objTokens)

def documentTokens (tables : List JsonTable) : List JsonToken :=
  bracket '{' '}' (tables.map JsonTable.tokens)

/-- The tokens of arrays and objects, in brackets. -/
theorem arr_tokens (items : List Json) :
    (Json.arr items).tokens = bracket '[' ']' (items.map Json.tokens) := by
  rw [Json.tokens, List.append_assoc]
  rfl

/-- An object is the bracket of its members. -/
theorem obj_tokens (members : List (CStr × Json)) : (Json.obj members).tokens =
    bracket '{' '}' (members.map fun m => [.str m.1, .punct ':'] ++ m.2.tokens) := by
  rw [Json.tokens, List.append_assoc]
  rfl

/-- Values of fields are printed without blanks. -/
theorem JsonField.filter_tokens (f : JsonField) :
    f.json.tokens.filter (· ≠ .blank) = f.json.tokens := by
  cases f with
  | nats ns =>
      rw [json, arr_tokens, List.map_map]
      refine bracket_filter _ _ fun n _ => ?_
      rw [Function.comp_apply, Json.tokens]
      rfl
  | _ =>
      rw [json, Json.tokens]
      rfl

/-- Without blanks a member is its key, a colon and its value. -/
theorem JsonMember.filter_tokens (m : JsonMember) :
    m.tokens.filter (· ≠ .blank) = [.str m.key.toList, .punct ':'] ++ m.value.json.tokens := by
  have hblank : (if m.spaced then [JsonToken.blank] else []).filter (· ≠ .blank) = [] := by
    cases m.spaced <;> rfl
  rw [tokens, List.filter_cons_of_pos rfl, List.filter_cons_of_pos rfl, List.filter_append, hblank,
    m.value.filter_tokens]
  rfl

/-- The printed tokens are those of the document, up to blanks. -/
theorem documentTokens_filter (tables : List JsonTable) :
    (documentTokens tables).filter (· ≠ .blank) = (documentJson tables).tokens := by
  rw [documentTokens, documentJson, obj_tokens, List.map_map]
  refine bracket_filter _ _ fun t _ => ?_
  rw [JsonTable.tokens, List.filter_cons_of_pos rfl, List.filter_cons_of_pos rfl,
    Function.comp_apply, arr_tokens, List.map_map]
  congr 2
  refine bracket_filter _ _ fun obj _ => ?_
  rw [objTokens, Function.comp_apply, obj_tokens, List.map_map]
  exact bracket_filter _ _ fun m _ => m.filter_tokens

/-- No number stands behind a number in what is printed. -/
theorem JsonField.printable (f : JsonField) : Printable f.json.tokens := by
  cases f with
  | nat n =>
      rw [json, Json.tokens]
      exact .singleton (isNumber_dec n)
  | int i =>
      rw [json, Json.tokens]
      exact .singleton (isNumber_decInt i)
  | str s =>
      rw [json, Json.tokens]
      exact .singleton trivial
  | yes =>
      rw [json, Json.tokens]
      exact .singleton trivial
  | nats ns =>
      rw [json, arr_tokens, List.map_map]
      refine .bracket (by simp) (by simp) ?_
      rw [List.forall_mem_map]
      intro n _
      rw [Function.comp_apply, Json.tokens]
      exact .singleton (isNumber_dec n)

/-- A member is printed so that its tokens stay apart. -/
theorem JsonMember.printable (m : JsonMember) : Printable m.tokens := by
  refine .cons trivial rfl (.cons (by simp) rfl ?_)
  cases m.spaced with
  | false => exact m.value.printable
  | true => exact .cons trivial rfl m.value.printable

/-- So is the whole document. -/
theorem documentTokens_printable (tables : List JsonTable) :
    Printable (documentTokens tables) := by
  refine .bracket (by simp) (by simp) ?_
  rw [List.forall_mem_map]
  intro t _
  refine .cons trivial rfl (.cons (by simp) rfl
    (.bracket (by simp) (by simp) ?_))
  rw [List.forall_mem_map]
  intro obj _
  refine .bracket (by simp) (by simp) ?_
  rw [List.forall_mem_map]
  exact fun m _ => m.printable

/-! ## The text -/

/-- A loop with a comma flag prints its elements with commas between them. -/
theorem foldl_print {α : Type} (f : α → CStr) (xs : List α) :
    (xs.foldl (fun t x => t.print (f x)) (⟨true, []⟩ : CommaText)).out =
      [','].intercalate (xs.map f) := by
  have hmore (xs : List α) (out : CStr) :
      (xs.foldl (fun t x => t.print (f x)) (⟨false, out⟩ : CommaText)).out =
        out ++ xs.flatMap fun x => [','] ++ f x := by
    induction xs generalizing out with
    | nil => simp
    | cons x xs ih =>
        rw [List.foldl_cons, CommaText.print, ih, List.flatMap_cons]
        simp
  cases xs with
  | nil => rfl
  | cons x xs =>
      rw [List.map_cons, intercalate_cons, List.flatMap_map, List.foldl_cons, CommaText.print, hmore]
      rfl

/-- The members behind the first, each behind a comma. -/
def moreText (ms : List JsonMember) : CStr :=
  ms.flatMap fun m => [','] ++ tokensText m.tokens

/-- The members of two parts are printed one after the other. -/
theorem moreText_append (ms ms' : List JsonMember) :
    moreText (ms ++ ms') = moreText ms ++ moreText ms' :=
  List.flatMap_append

/-- An object that has a first member. -/
theorem objTokens_text (m : JsonMember) (ms : List JsonMember) :
    tokensText (objTokens (m :: ms)) = ['{'] ++ tokensText m.tokens ++ moreText ms ++ ['}'] := by
  rw [objTokens, tokensText_bracket, List.map_map, List.map_cons, intercalate_cons,
    List.flatMap_map, ← List.append_assoc]
  rfl

/-- A member is what `jsonMember` prints. -/
theorem member_text (key : String) (f : JsonField) :
    tokensText (JsonMember.tokens ⟨key, false, f⟩) = jsonMember key (tokensText f.json.tokens) := by
  simp [JsonMember.tokens, tokensText, JsonToken.text, jsonMember]

/-- A member with a blank behind its colon is what `jsonSpaced` prints. -/
theorem spaced_text (key : String) (f : JsonField) :
    tokensText (JsonMember.tokens ⟨key, true, f⟩) = jsonSpaced key (tokensText f.json.tokens) := by
  simp [JsonMember.tokens, tokensText, JsonToken.text, jsonSpaced]

/-- A number is printed in decimal. -/
theorem nat_text (n : Nat) : tokensText (JsonField.nat n).json.tokens = dec n := by
  simp [JsonField.json, Json.tokens, tokensText, JsonToken.text]

/-- A signed number is printed in decimal with its sign. -/
theorem int_text (i : Int) : tokensText (JsonField.int i).json.tokens = decInt i := by
  simp [JsonField.json, Json.tokens, tokensText, JsonToken.text]

/-- A string is printed between quotes, without escapes. -/
theorem str_text (s : CStr) : tokensText (JsonField.str s).json.tokens = jsonQuoted s := by
  simp [JsonField.json, Json.tokens, tokensText, JsonToken.text, jsonQuoted]

theorem yes_text : tokensText JsonField.yes.json.tokens = "true".toList := by
  simp [JsonField.json, Json.tokens, tokensText, JsonToken.text]

/-- A list of numbers is printed with commas between them. -/
theorem nats_text (ns : List Nat) : tokensText (JsonField.nats ns).json.tokens =
    ['['] ++ [','].intercalate (ns.map dec) ++ [']'] := by
  have hnum (n : Nat) : tokensText (Json.num (dec n)).tokens = dec n := nat_text n
  rw [JsonField.json, arr_tokens, tokensText_bracket, List.map_map, List.map_map]
  simp only [Function.comp_def, hnum]

theorem moreText_nil : moreText [] = [] :=
  rfl

theorem moreText_cons (m : JsonMember) (ms : List JsonMember) :
    moreText (m :: ms) = [','] ++ tokensText m.tokens ++ moreText ms :=
  List.flatMap_cons

/-- A flag is printed only if it is set. -/
theorem moreText_flag (key : String) (cond : Bool) :
    moreText (flagMember key cond) = jsonFlag key cond := by
  cases cond with
  | false => rfl
  | true =>
      rw [flagMember, if_pos rfl, jsonFlag, if_pos rfl, moreText_cons, member_text, yes_text,
        moreText_nil, List.append_nil]

/-- A priority is printed only if it is overridden. -/
theorem moreText_prio (key : String) (prio : PrioOverride) :
    moreText (prioMember key prio) = jsonPrio key prio := by
  rw [prioMember, jsonPrio]
  split_ifs
  · rw [moreText_cons, spaced_text, nat_text, moreText_nil, List.append_nil]
  · rfl

/-- The members of a port vector are what `json_print_portvec` prints. -/
theorem portsMember_text (key : String) (portvec : BitVec 16) :
    [','] ++ tokensText (portsMember key portvec).tokens = jsonPrintPortvec key portvec := by
  have hfold (l : List Nat) (t : CommaText) :
      l.foldl (fun t i => if !bit portvec i then t else t.print (dec i)) t =
        (l.filter (bit portvec ·)).foldl (fun t i => t.print (dec i)) t := by
    induction l generalizing t with
    | nil => rfl
    | cons i l ih =>
        rw [List.foldl_cons, ih]
        cases hbit : bit portvec i <;> simp [hbit]
  rw [portsMember, member_text, nats_text, jsonPrintPortvec, hfold, foldl_print]
  rfl

/-- The text of a port is that of its members. -/
theorem JsonPort.text_eq (p : JsonPort) : p.text = tokensText (objTokens p.members) := by
  rw [members, List.append_assoc, List.append_assoc, List.append_assoc, List.append_assoc,
    List.cons_append, objTokens_text]
  unfold text
  cases p.lag with
  | none =>
      simp only [moreText_append, moreText_flag, moreText_cons, moreText_nil, Option.toList_none,
        List.map_nil, member_text, str_text, nat_text, int_text, List.append_assoc,
        List.nil_append]
  | some lag =>
      simp only [moreText_append, moreText_flag, moreText_cons, moreText_nil, Option.toList_some,
        List.map_cons, List.map_nil, member_text, str_text, nat_text, int_text, List.append_assoc,
        List.nil_append]

/-- The text of an ATU entry is that of its members. -/
theorem JsonAtu.text_eq (a : JsonAtu) : a.text = tokensText (objTokens a.members) := by
  have hports : moreText [if a.entry.lag then ⟨"lag", true, .nat a.entry.portvec.toNat⟩
      else portsMember "ports" a.entry.portvec] =
      if a.entry.lag then [','] ++ jsonSpaced "lag" (dec a.entry.portvec.toNat)
        else jsonPrintPortvec "ports" a.entry.portvec := by
    rw [moreText_cons, moreText_nil, List.append_nil]
    split_ifs
    · rw [spaced_text, nat_text]
    · exact portsMember_text _ _
  rw [members, List.append_assoc, List.append_assoc, List.cons_append, objTokens_text]
  unfold text
  simp only [moreText_append, hports, moreText_prio]
  simp only [moreText_cons, moreText_nil, member_text, str_text, nat_text, List.append_assoc,
    List.nil_append, address, state]

/-- The text of a VTU entry is that of its members. -/
theorem JsonVtu.text_eq (v : JsonVtu) : v.text = tokensText (objTokens v.members) := by
  have hpolicy : moreText (if v.policy then [⟨"policy", true, .yes⟩] else []) =
      if v.policy then [','] ++ jsonSpaced "policy" "true".toList else [] := by
    split_ifs
    · rw [moreText_cons, spaced_text, yes_text, moreText_nil, List.append_nil]
    · rfl
  rw [members, List.append_assoc, List.append_assoc, List.append_assoc, List.cons_append,
    objTokens_text]
  unfold text
  simp only [moreText_append, hpolicy, moreText_prio, moreText_cons, moreText_nil,
    portsMember_text, member_text, nat_text, List.append_assoc, List.nil_append]

/-- The text of an STU entry is that of its members. -/
theorem JsonStu.text_eq (v : JsonStu) : v.text = tokensText (objTokens v.members) := by
  rw [members, objTokens_text]
  unfold text
  simp only [moreText_cons, moreText_nil, portsMember_text, member_text, nat_text,
    List.append_assoc, List.nil_append]

/-- The text of a table whose objects are printed by a loop with a comma flag. -/
theorem table_text {α : Type} {text : α → CStr} {members : α → List JsonMember}
    (h : ∀ a, text a = tokensText (objTokens (members a))) (name : String) (objs : List α) :
    tokensText (JsonTable.tokens ⟨name, objs.map members⟩) =
      ['"'] ++ name.toList ++ ['"', ':', '['] ++
        (objs.foldl (fun t obj => t.print (text obj)) (⟨true, []⟩ : CommaText)).out ++ [']'] := by
  have hparts : (objs.map text) = ((objs.map members).map objTokens).map tokensText := by
    rw [List.map_map, List.map_map]
    exact List.map_congr_left fun a _ => h a
  rw [JsonTable.tokens, tokensText_cons, tokensText_cons, tokensText_bracket, foldl_print, hparts]
  simp only [JsonToken.text, List.cons_append, List.nil_append, List.append_assoc]

/-- The port table is printed as its tokens. -/
theorem envJsonPorts_eq (env : Env) :
    envJsonPorts env = (jsonPortTable env).map fun t => tokensText t.tokens := by
  unfold envJsonPorts jsonPortTable
  cases jsonPortObjs env with
  | none => rfl
  | some objs =>
      simp only [Option.bind_eq_bind, Option.bind_some, Option.map_some, Option.some.injEq]
      rw [table_text JsonPort.text_eq]
      rfl

/-- The ATU is printed as its tokens. -/
theorem envJsonAtu_eq (env : Env) :
    envJsonAtu env = (jsonAtuTable env).map fun t => tokensText t.tokens := by
  have hrun : dumpDevs (fun t _ => t) Dev.atu jsonAtuLoop env.devs ⟨true, []⟩ =
      (tableEntries atuTable (fun dev => dev.chip.family.devAtuParse) Dev.atu env).map
        (·.foldl (fun t de => jsonAtuEntry de.1 t de.2) ⟨true, []⟩) :=
    dumpDevs_eq atuTable (fun dev => dev.chip.family.devAtuParse) Dev.atu jsonAtuEntry env _
  unfold envJsonAtu jsonAtuTable
  rw [hrun]
  cases tableEntries atuTable (fun dev => dev.chip.family.devAtuParse) Dev.atu env with
  | none => rfl
  | some entries =>
      have htext (de : Dev × AtuEntry) : JsonAtu.text ⟨de.1.index, de.2⟩ =
          tokensText (objTokens (JsonAtu.members ⟨de.1.index, de.2⟩)) := JsonAtu.text_eq _
      simp only [Option.map_some, Option.bind_eq_bind, Option.bind_some, Option.some.injEq]
      rw [table_text htext]
      rfl

/-- A loop that records the objects it prints has printed them. -/
theorem foldl_objs {E S O : Type} (step : S → E → S) (text : S → CommaText) (objs : S → List O)
    (print : O → CStr)
    (h : ∀ s e, ∃ obj, objs (step s e) = objs s ++ [obj] ∧
      text (step s e) = (text s).print (print obj)) (entries : List E) {s : S}
    (hs : text s = (objs s).foldl (fun t obj => t.print (print obj)) ⟨true, []⟩) :
    text (entries.foldl step s) =
      (objs (entries.foldl step s)).foldl (fun t obj => t.print (print obj)) ⟨true, []⟩ := by
  induction entries generalizing s with
  | nil => exact hs
  | cons e entries ih =>
      obtain ⟨obj, hobjs, htext⟩ := h s e
      refine ih ?_
      rw [htext, hobjs, hs, List.foldl_append]
      rfl

/-- The VTU is printed as its tokens. -/
theorem envJsonVtu_eq (env : Env) :
    envJsonVtu env = (jsonVtuTable env).map fun t => tokensText t.tokens := by
  unfold envJsonVtu jsonVtuTable
  rw [jsonVtuRun_eq]
  cases vtuEntries env with
  | none => rfl
  | some entries =>
      have hloop := foldl_objs vtuGatherer.step JsonVtuState.text JsonVtuState.objs JsonVtu.text
        (fun s e => ⟨_, rfl, rfl⟩) entries (s := ⟨0, 0, 0, ⟨true, []⟩, []⟩) rfl
      simp only [Option.map_some, Option.bind_eq_bind, Option.bind_some, Option.some.injEq]
      rw [table_text JsonVtu.text_eq, hloop]
      rfl

/-- The STU is printed as its tokens. -/
theorem envJsonStu_eq (env : Env) :
    envJsonStu env = (jsonStuTable env).map fun t => tokensText t.tokens := by
  unfold envJsonStu jsonStuTable
  rw [jsonStuRun_eq]
  cases stuEntries env with
  | none => rfl
  | some entries =>
      have hloop := foldl_objs stuGatherer.step JsonStuState.text JsonStuState.objs JsonStu.text
        (fun s e => ⟨_, rfl, rfl⟩) entries (s := ⟨0, 0, 0, 0, ⟨true, []⟩, []⟩) rfl
      simp only [Option.map_some, Option.bind_eq_bind, Option.bind_some, Option.some.injEq]
      rw [table_text JsonStu.text_eq, hloop]
      rfl

/-- The document is the tables between prologue and epilogue. -/
theorem documentTokens_text (tables : List JsonTable) :
    tokensText (documentTokens tables) =
      jsonPrologue ++ jsonJoin.intercalate (tables.map fun t => tokensText t.tokens) ++
        jsonEpilogue := by
  rw [documentTokens, tokensText_bracket, List.map_map]
  rfl

/-- A PVT is asked for by the index of a device that does not exist. -/
def unknownPvt (env : Env) (args : List CStr) : Bool :=
  match args with
  | cmd :: index :: _ =>
      cmd = "pvt".toList && (envDevGet env (BitVec.ofInt 32 (strtol index))).isNone
  | _ => false

/-- The output is the text of the tokens of the document, or the prologue. -/
theorem mainJson_eq (env : Env) (args : List CStr) :
    mainJson env args = (mainTables env args).map fun tables =>
      if unknownPvt env args then ⟨jsonPrologue, 1⟩ else ⟨tokensText (documentTokens tables), 0⟩ := by
  cases args with
  | nil =>
      simp only [mainJson, mainTables, unknownPvt, envJsonVtu_eq, envJsonStu_eq, envJsonAtu_eq,
        envJsonPorts_eq, documentTokens_text]
      cases jsonVtuTable env <;> cases jsonStuTable env <;> cases jsonAtuTable env <;>
        cases jsonPortTable env <;> simp
  | cons cmd rest =>
      -- the commands exclude each other, and only the last looks at an operand
      by_cases hport : cmd = "port".toList
      · subst hport
        cases rest <;> cases htable : jsonPortTable env <;>
          simp [mainJson, mainTables, unknownPvt, documentTokens_text, envJsonPorts_eq, htable]
      by_cases hatu : cmd = "atu".toList
      · subst hatu
        cases rest <;> cases htable : jsonAtuTable env <;>
          simp [mainJson, mainTables, unknownPvt, documentTokens_text, envJsonAtu_eq, htable]
      by_cases hvtu : cmd = "vtu".toList
      · subst hvtu
        cases rest <;> cases htable : jsonVtuTable env <;>
          simp [mainJson, mainTables, unknownPvt, documentTokens_text, envJsonVtu_eq, htable]
      by_cases hstu : cmd = "stu".toList
      · subst hstu
        cases rest <;> cases htable : jsonStuTable env <;>
          simp [mainJson, mainTables, unknownPvt, documentTokens_text, envJsonStu_eq, htable]
      · cases rest with
        | nil =>
            simp only [mainJson, mainTables, unknownPvt, if_neg hport, if_neg hatu, if_neg hvtu,
              if_neg hstu]
            rfl
        | cons index rest =>
            have hiff : unknownPvt env (cmd :: index :: rest) = true ↔ cmd = "pvt".toList ∧
                (envDevGet env (BitVec.ofInt 32 (strtol index))).isNone := by
              simp only [unknownPvt, Bool.and_eq_true, decide_eq_true_eq]
            by_cases hpvt : unknownPvt env (cmd :: index :: rest) = true
            · simp only [mainJson, mainTables, if_neg hport, if_neg hatu, if_neg hvtu, if_neg hstu,
                if_pos hpvt, if_pos (hiff.mp hpvt)]
              rfl
            · simp only [mainJson, mainTables, if_neg hport, if_neg hatu, if_neg hvtu, if_neg hstu,
                if_neg hpvt, if_neg (mt hiff.mpr hpvt)]
              rfl

/-! ## The strings -/

/-- The key and the value of a member are printed as they are meant. -/
def JsonMember.Clean (m : JsonMember) : Prop :=
  IsClean m.key.toList ∧ ∀ s, m.value = .str s → IsClean s

/-- The strings of a field are its value, if that is a string. -/
theorem str_mem_field {s : CStr} (f : JsonField) : JsonToken.str s ∈ f.json.tokens ↔ f = .str s := by
  cases f with
  | nats ns =>
      rw [JsonField.json, arr_tokens, str_mem_bracket]
      simp [Json.tokens]
  | _ => simp [JsonField.json, Json.tokens, eq_comm]

/-- The name of a table and the members of its objects are printed as they are
meant. -/
def JsonTable.Clean (t : JsonTable) : Prop :=
  IsClean t.name.toList ∧ ∀ obj ∈ t.objs, ∀ m ∈ obj, m.Clean

/-- A table with a plain name is clean exactly when its members are. -/
theorem JsonTable.clean_iff {name : String} {objs : List (List JsonMember)}
    (hname : isPlainAscii name.toList) :
    JsonTable.Clean ⟨name, objs⟩ ↔ ∀ obj ∈ objs, ∀ m ∈ obj, m.Clean :=
  and_iff_right (isClean_ascii hname)

/-- The strings of a document are clean where those of its tables are. -/
theorem documentTokens_clean_iff (tables : List JsonTable) :
    (∀ s, JsonToken.str s ∈ documentTokens tables → IsClean s) ↔ ∀ t ∈ tables, t.Clean := by
  have hmember (s : CStr) (m : JsonMember) : JsonToken.str s ∈ m.tokens ↔
      s = m.key.toList ∨ m.value = .str s := by
    have hblank : JsonToken.str s ∉ if m.spaced then [JsonToken.blank] else [] := by
      cases m.spaced <;> simp
    simp [JsonMember.tokens, str_mem_field, hblank]
  have htable (s : CStr) (t : JsonTable) : JsonToken.str s ∈ t.tokens ↔
      s = t.name.toList ∨ ∃ obj ∈ t.objs, ∃ m ∈ obj, s = m.key.toList ∨ m.value = .str s := by
    simp [JsonTable.tokens, str_mem_bracket, objTokens, hmember]
  have hdoc (s : CStr) : JsonToken.str s ∈ documentTokens tables ↔
      ∃ t ∈ tables, JsonToken.str s ∈ t.tokens := by
    simp [documentTokens, str_mem_bracket]
  simp only [hdoc, htable]
  constructor
  · intro hall t ht
    refine ⟨hall _ ⟨t, ht, Or.inl rfl⟩, fun obj hobj m hm => ⟨?_, fun s hs => ?_⟩⟩
    · exact hall _ ⟨t, ht, Or.inr ⟨obj, hobj, m, hm, Or.inl rfl⟩⟩
    · exact hall s ⟨t, ht, Or.inr ⟨obj, hobj, m, hm, Or.inr hs⟩⟩
  · rintro hall s ⟨t, ht, rfl | ⟨obj, hobj, m, hm, rfl | hs⟩⟩
    · exact (hall t ht).1
    · exact ((hall t ht).2 obj hobj m hm).1
    · exact ((hall t ht).2 obj hobj m hm).2 s hs

/-- Keys of printable ASCII before a value that is no string. -/
theorem JsonMember.Clean.of_not_str {key : String} {spaced : Bool} {value : JsonField}
    (hkey : isPlainAscii key.toList) (h : ∀ s, value ≠ .str s) :
    JsonMember.Clean ⟨key, spaced, value⟩ :=
  ⟨isClean_ascii hkey, fun s hs => absurd hs (h s)⟩

/-- A member with a clean string under a plain key. -/
theorem JsonMember.Clean.of_str {key : String} {spaced : Bool} {s : CStr}
    (hkey : isPlainAscii key.toList) (h : IsClean s) :
    JsonMember.Clean ⟨key, spaced, .str s⟩ :=
  ⟨isClean_ascii hkey, fun _ ht => JsonField.str.inj ht ▸ h⟩

/-- Flags are clean. -/
theorem clean_flagMember {key : String} (hkey : isPlainAscii key.toList)
    (cond : Bool) : ∀ m ∈ flagMember key cond, m.Clean := by
  cases cond with
  | false => exact fun _ h => nomatch h
  | true => exact List.forall_mem_singleton.mpr (JsonMember.Clean.of_not_str hkey nofun)

/-- Priorities are clean. -/
theorem clean_prioMember {key : String} (hkey : isPlainAscii key.toList)
    (prio : PrioOverride) : ∀ m ∈ prioMember key prio, m.Clean := by
  rw [prioMember]
  split_ifs
  · exact List.forall_mem_singleton.mpr (JsonMember.Clean.of_not_str hkey nofun)
  · exact fun _ h => nomatch h

/-- The entries of the tables have clean members. -/
theorem JsonStu.members_clean (v : JsonStu) : ∀ m ∈ v.members, m.Clean := by
  simp only [members, List.forall_mem_cons, List.not_mem_nil, false_implies, implies_true, and_true]
  refine ⟨?_, ?_, ?_, ?_, ?_, ?_⟩ <;> exact .of_not_str (by decide) nofun

/-- A VTU entry has clean strings only. -/
theorem JsonVtu.members_clean (v : JsonVtu) : ∀ m ∈ v.members, m.Clean := by
  have hpolicy : ∀ m ∈ if v.policy then [(⟨"policy", true, .yes⟩ : JsonMember)] else [],
      m.Clean := by
    split_ifs
    · exact List.forall_mem_singleton.mpr (.of_not_str (by decide) nofun)
    · exact fun _ h => nomatch h
  simp only [members, List.forall_mem_append]
  refine ⟨⟨⟨⟨?_, hpolicy⟩, clean_prioMember (by decide) _⟩, clean_prioMember (by decide) _⟩, ?_⟩
  · simp only [List.forall_mem_cons, List.not_mem_nil, false_implies, implies_true, and_true]
    refine ⟨?_, ?_, ?_, ?_⟩ <;> exact .of_not_str (by decide) nofun
  · simp only [List.forall_mem_cons, List.not_mem_nil, false_implies, implies_true, and_true]
    refine ⟨?_, ?_, ?_⟩ <;> exact .of_not_str (by decide) nofun

/-- A name of a state is clean. -/
theorem isClean_getD {names : List String}
    (h : names.all fun name => isPlainAscii name.toList) (n : Nat) :
    IsClean (names.getD n "").toList := by
  refine isClean_ascii ?_
  rw [List.getD_eq_getElem?_getD]
  cases hname : names[n]? with
  | none => rfl
  | some name => exact List.all_eq_true.mp h name (List.mem_of_getElem? hname)

/-- Hexadecimal digits are printable. -/
theorem hex_ascii (n : Nat) : isPlainAscii (hex n) := by
  have hdigit : ∀ k < 16, isPlainAscii [k.digitChar] := by decide
  induction n using Nat.strongRecOn with
  | ind n ih =>
    by_cases hlt : n < 16
    · rw [hex, Nat.toDigits_of_lt_base hlt]
      exact hdigit n hlt
    · rw [hex, Nat.toDigits_of_base_le (by decide) (Nat.not_lt.mp hlt), isPlainAscii_append,
        Bool.and_eq_true]
      exact ⟨ih (n / 16) (by omega), hdigit (n % 16) (Nat.mod_lt _ (by decide))⟩

/-- An address is printed in hexadecimal digits and colons. -/
theorem JsonAtu.address_clean (a : JsonAtu) : IsClean a.address := by
  have hbyte (i : Fin 6) : isPlainAscii (padLeft 2 '0' (hex (a.entry.addr i))) = true := by
    have hfill (n : Nat) : isPlainAscii (List.replicate n '0') := by
      induction n with
      | zero => rfl
      | succ n ih => exact ih
    rw [padLeft, isPlainAscii_append, hfill, hex_ascii]
    rfl
  have hcolon : isPlainAscii [':'] = true := rfl
  refine isClean_ascii ?_
  simp only [address, isPlainAscii_append, hbyte, hcolon, Bool.and_self]

/-- An ATU entry has clean strings only. -/
theorem JsonAtu.members_clean (a : JsonAtu) : ∀ m ∈ a.members, m.Clean := by
  have hstate : IsClean a.state.toList := by
    rw [state]
    split_ifs
    · exact isClean_getD (by decide) _
    · exact isClean_getD (by decide) _
  have hlast : JsonMember.Clean (if a.entry.lag then ⟨"lag", true, .nat a.entry.portvec.toNat⟩
      else portsMember "ports" a.entry.portvec) := by
    split_ifs <;> exact .of_not_str (by decide) nofun
  simp only [members, List.forall_mem_append]
  refine ⟨⟨⟨?_, clean_prioMember (by decide) _⟩, clean_prioMember (by decide) _⟩,
    List.forall_mem_singleton.mpr hlast⟩
  simp only [List.forall_mem_cons, List.not_mem_nil, false_implies, implies_true, and_true]
  exact ⟨.of_not_str (by decide) nofun, .of_not_str (by decide) nofun,
    .of_str (by decide) a.address_clean, .of_str (by decide) hstate⟩

/-- The members of the object of a port are clean where the name is. -/
theorem jsonPort_clean_iff {dev : Dev} {p : Port} {obj : JsonPort} (h : jsonPort dev p = some obj) :
    (∀ m ∈ obj.members, m.Clean) ↔ IsClean p.netdev := by
  simp only [jsonPort, Option.bind_eq_bind, Option.bind_eq_some_iff, Option.some.injEq] at h
  obtain ⟨ctrl, -, ctrl2, -, r7, -, fid, -, lag, -, rfl⟩ := h
  constructor
  · intro hall
    refine (hall ⟨"netdev", false, .str p.netdev⟩ ?_).2 _ rfl
    simp [JsonPort.members]
  · intro hname
    simp only [JsonPort.members, List.forall_mem_append]
    refine ⟨⟨⟨⟨⟨?_, ?_⟩, clean_flagMember (by decide) _⟩, clean_flagMember (by decide) _⟩,
      clean_flagMember (by decide) _⟩, clean_flagMember (by decide) _⟩
    · simp only [List.forall_mem_cons, List.not_mem_nil, false_implies, implies_true, and_true]
      exact ⟨.of_str (by decide) hname, .of_not_str (by decide) (by simp),
        .of_not_str (by decide) (by simp), .of_str (by decide) (isClean_getD (by decide) _),
        .of_str (by decide) (isClean_getD (by decide) _),
        .of_str (by decide) (isClean_getD (by decide) _),
        .of_str (by decide) (isClean_getD (by decide) _), .of_not_str (by decide) (by simp),
        .of_not_str (by decide) (by simp)⟩
    · rw [List.forall_mem_map]
      exact fun n _ => .of_not_str (by decide) (by simp)

/-! ## The tables -/

theorem mapM_isSome_iff {α β : Type} {f : α → Option β} {l : List α} :
    (l.mapM f).isSome ↔ ∀ a ∈ l, (f a).isSome := by
  induction l with
  | nil => simp
  | cons a l ih =>
      rw [List.mapM_cons, List.forall_mem_cons, ← ih]
      cases f a <;> cases l.mapM f <;> simp

/-- What holds of results is what holds of the elements they come from. -/
theorem mapM_forall_iff {α β : Type} {f : α → Option β} {P : β → Prop} {Q : α → Prop}
    (h : ∀ a b, f a = some b → (P b ↔ Q a)) {l : List α} {bs : List β} (hl : l.mapM f = some bs) :
    (∀ b ∈ bs, P b) ↔ ∀ a ∈ l, Q a := by
  induction l generalizing bs with
  | nil =>
      cases hl
      simp
  | cons a l ih =>
      simp only [List.mapM_cons, Option.pure_def, Option.bind_eq_bind, Option.bind_eq_some_iff,
        Option.some.injEq] at hl
      obtain ⟨b, hb, bs', hbs, rfl⟩ := hl
      rw [List.forall_mem_cons, List.forall_mem_cons, h a b hb, ih hbs]

/-- A port is printed exactly when its registers up to 8 are there. -/
theorem jsonPort_isSome_iff (dev : Dev) (p : Port) :
    (jsonPort dev p).isSome ↔ 9 ≤ p.regs.region.length := by
  constructor
  · intro h
    obtain ⟨obj, hobj⟩ := Option.isSome_iff_exists.mp h
    simp only [jsonPort, Option.bind_eq_bind, Option.bind_eq_some_iff] at hobj
    obtain ⟨_, -, _, hctrl2, -⟩ := hobj
    exact (List.getElem?_eq_some_iff.mp hctrl2).1
  · intro h
    obtain ⟨_, obj, -, hobj, -⟩ := showPort_jsonPort dev h
    rw [hobj]
    rfl

/-- The port table is printed exactly when all ports are loaded. -/
theorem jsonPortTable_isSome_iff (env : Env) : (jsonPortTable env).isSome ↔ PortsLoaded env := by
  have hgroups : (jsonPortObjs env).isSome ↔
      (env.devs.mapM fun dev : Dev => dev.ports.mapM (jsonPort dev)).isSome := by
    unfold jsonPortObjs
    cases (env.devs.mapM fun dev : Dev => dev.ports.mapM (jsonPort dev)) <;> rfl
  rw [jsonPortTable, Option.isSome_map, hgroups, mapM_isSome_iff]
  simp only [mapM_isSome_iff, jsonPort_isSome_iff]
  rfl

/-- The table of ports has clean members where the names are clean. -/
theorem jsonPortTable_clean_iff {env : Env} {t : JsonTable} (h : jsonPortTable env = some t) :
    t.Clean ↔ ∀ dev ∈ env.devs, ∀ p ∈ dev.ports, IsClean p.netdev := by
  unfold jsonPortTable jsonPortObjs at h
  simp only [Option.bind_eq_bind, Option.map_eq_some_iff, Option.bind_eq_some_iff,
    Option.some.injEq] at h
  obtain ⟨_, ⟨groups, hgroups, rfl⟩, rfl⟩ := h
  have hflat : (∀ obj ∈ groups.flatten.map JsonPort.members, ∀ m ∈ obj, m.Clean) ↔
      ∀ group ∈ groups, ∀ obj ∈ group, ∀ m ∈ obj.members, m.Clean := by
    rw [List.forall_mem_map]
    simp only [List.mem_flatten, forall_exists_index, and_imp]
    exact ⟨fun hall group hgroup obj hobj => hall obj group hgroup hobj,
      fun hall obj group hgroup hobj => hall group hgroup obj hobj⟩
  rw [JsonTable.clean_iff (by decide), hflat]
  refine mapM_forall_iff (fun dev group hgroup => ?_) hgroups
  exact mapM_forall_iff (fun p obj hobj => jsonPort_clean_iff hobj) hgroup

/-- The walk over a table stays inside of the regions exactly when these have an
end. -/
theorem tableEntries_isSome_iff {κ ε : Type} (t : KTable κ) (parse : Dev → κ → Option ε)
    (get : Dev → RegionGet) (env : Env) :
    (tableEntries t parse get env).isSome ↔ TableOk t parse get env := by
  have hdevs (devs : List Dev) (l : List (Dev × ε)) :
      (dumpDevs (fun l _ => l) get
        (fun dev => dumpLoop t (parse dev) fun l entry => l ++ [(dev, entry)]) devs l).isSome ↔
        ∀ dev ∈ devs.takeWhile (fun dev => (get dev).err = 0),
          Terminated t (parse dev) (get dev).region := by
    induction devs generalizing l with
    | nil => simp [dumpDevs]
    | cons dev devs ih =>
        rw [dumpDevs]
        by_cases herr : (get dev).err = 0
        · rw [if_neg (not_not_intro herr), List.takeWhile_cons_of_pos (by simpa using herr),
            List.forall_mem_cons]
          by_cases hend : Terminated t (parse dev) (get dev).region
          · rw [dumpLoop_terminated hend, Option.bind_some, ih]
            exact (and_iff_right hend).symm
          · rw [dumpLoop_open hend]
            exact ⟨fun h => absurd h (by simp), fun h => absurd h.1 hend⟩
        · rw [if_pos herr, List.takeWhile_cons_of_neg (by simpa using herr)]
          simp
  exact hdevs env.devs []

/-- An ATU that is printed is clean. -/
theorem jsonAtuTable_clean {env : Env} {t : JsonTable} (h : jsonAtuTable env = some t) :
    t.Clean := by
  obtain ⟨entries, -, rfl⟩ := Option.map_eq_some_iff.mp h
  rw [JsonTable.clean_iff (by decide), List.forall_mem_map]
  exact fun de _ => JsonAtu.members_clean _

/-- A VTU that is printed is clean. -/
theorem jsonVtuTable_clean {env : Env} {t : JsonTable} (h : jsonVtuTable env = some t) :
    t.Clean := by
  obtain ⟨s, -, rfl⟩ := Option.map_eq_some_iff.mp h
  rw [JsonTable.clean_iff (by decide), List.forall_mem_map]
  exact fun obj _ => obj.members_clean

/-- An STU that is printed is clean. -/
theorem jsonStuTable_clean {env : Env} {t : JsonTable} (h : jsonStuTable env = some t) :
    t.Clean := by
  obtain ⟨s, -, rfl⟩ := Option.map_eq_some_iff.mp h
  rw [JsonTable.clean_iff (by decide), List.forall_mem_map]
  exact fun obj _ => obj.members_clean

/-- The ATU is printed exactly when its walk ends inside each region. -/
theorem jsonAtuTable_isSome_iff (env : Env) : (jsonAtuTable env).isSome ↔
    TableOk atuTable (fun dev => dev.chip.family.devAtuParse) Dev.atu env := by
  rw [jsonAtuTable, Option.isSome_map, tableEntries_isSome_iff]

/-- The VTU is printed exactly when its walk ends inside each region. -/
theorem jsonVtuTable_isSome_iff (env : Env) : (jsonVtuTable env).isSome ↔
    TableOk vtuTable (fun dev => dev.chip.family.devVtuParse) Dev.vtu env := by
  rw [jsonVtuTable, jsonVtuRun_eq, Option.isSome_map, Option.isSome_map]
  exact tableEntries_isSome_iff _ _ _ env

/-- The STU is printed exactly when its walk ends inside each region. -/
theorem jsonStuTable_isSome_iff (env : Env) : (jsonStuTable env).isSome ↔
    TableOk stuTable (fun dev => dev.chip.family.devStuParse) Dev.stu env := by
  rw [jsonStuTable, jsonStuRun_eq, Option.isSome_map, Option.isSome_map]
  exact tableEntries_isSome_iff _ _ _ env

/-! ## The whole text -/

/-- Without a command every table is asked for. -/
theorem asks_nil (name : String) : Asks [] name :=
  Or.inl rfl

/-- A command asks for the table of its name. -/
theorem asks_cons (cmd : CStr) (rest : List CStr) (name : String) :
    Asks (cmd :: rest) name ↔ cmd = name.toList := by
  simp [Asks]

/-- The tables asked for are there when their walks stay inside of the regions. -/
theorem mainTables_isSome_iff (env : Env) (args : List CStr) :
    (mainTables env args).isSome ↔
      (Asks args "port" → (jsonPortTable env).isSome) ∧
      (Asks args "atu" → (jsonAtuTable env).isSome) ∧
      (Asks args "vtu" → (jsonVtuTable env).isSome) ∧
      (Asks args "stu" → (jsonStuTable env).isSome) := by
  cases args with
  | nil =>
      simp only [mainTables, asks_nil, true_implies]
      cases jsonVtuTable env <;> cases jsonStuTable env <;> cases jsonAtuTable env <;>
        cases jsonPortTable env <;> simp
  | cons cmd rest =>
      simp only [asks_cons]
      by_cases hport : cmd = "port".toList
      · subst hport
        simp [mainTables]
      by_cases hatu : cmd = "atu".toList
      · subst hatu
        simp [mainTables]
      by_cases hvtu : cmd = "vtu".toList
      · subst hvtu
        simp [mainTables]
      by_cases hstu : cmd = "stu".toList
      · subst hstu
        simp [mainTables]
      · simp only [mainTables, hport, hatu, hvtu, hstu, if_false, false_implies, and_true,
          Option.isSome_some]

/-- Only the names of network devices can be unclean. -/
theorem mainTables_clean_iff {env : Env} {args : List CStr} {tables : List JsonTable}
    (h : mainTables env args = some tables) :
    (∀ t ∈ tables, t.Clean) ↔
      (Asks args "port" → ∀ dev ∈ env.devs, ∀ p ∈ dev.ports, IsClean p.netdev) := by
  cases args with
  | nil =>
      simp only [mainTables, Option.bind_eq_bind, Option.bind_eq_some_iff, Option.some.injEq] at h
      obtain ⟨vtu, hvtu, stu, hstu, atu, hatu, ports, hports, rfl⟩ := h
      simp only [List.forall_mem_cons, List.not_mem_nil, false_implies, implies_true, and_true,
        asks_nil, true_implies, jsonPortTable_clean_iff hports]
      exact and_iff_right (jsonVtuTable_clean hvtu) |>.trans
        (and_iff_right (jsonStuTable_clean hstu) |>.trans (and_iff_right (jsonAtuTable_clean hatu)))
  | cons cmd rest =>
      rw [asks_cons]
      simp only [mainTables] at h
      split_ifs at h with hport hatu hvtu hstu
      · obtain ⟨t, ht, rfl⟩ := Option.map_eq_some_iff.mp h
        rw [List.forall_mem_singleton, jsonPortTable_clean_iff ht]
        exact ⟨fun hall _ => hall, fun hall => hall hport⟩
      · obtain ⟨t, ht, rfl⟩ := Option.map_eq_some_iff.mp h
        exact ⟨fun _ hport' => absurd hport' hport,
          fun _ => List.forall_mem_singleton.mpr (jsonAtuTable_clean ht)⟩
      · obtain ⟨t, ht, rfl⟩ := Option.map_eq_some_iff.mp h
        exact ⟨fun _ hport' => absurd hport' hport,
          fun _ => List.forall_mem_singleton.mpr (jsonVtuTable_clean ht)⟩
      · obtain ⟨t, ht, rfl⟩ := Option.map_eq_some_iff.mp h
        exact ⟨fun _ hport' => absurd hport' hport,
          fun _ => List.forall_mem_singleton.mpr (jsonStuTable_clean ht)⟩
      · cases h
        exact ⟨fun _ hport' => absurd hport' hport, fun _ _ h => nomatch h⟩

/-- The index of a `pvt` command is that of a device. -/
theorem unknownPvt_eq_false_iff (env : Env) (args : List CStr) :
    unknownPvt env args = false ↔ ∀ index rest, args = "pvt".toList :: index :: rest →
      (envDevGet env (BitVec.ofInt 32 (strtol index))).isSome := by
  constructor
  · rintro h index rest rfl
    simpa [unknownPvt, Option.isSome_iff_ne_none] using h
  · intro h
    unfold unknownPvt
    split
    · rename_i cmd index rest
      by_cases hcmd : cmd = "pvt".toList
      · have hsome := h index rest (by rw [hcmd])
        rw [Option.isSome_iff_exists] at hsome
        obtain ⟨dev, hdev⟩ := hsome
        rw [hdev, Option.isNone_some, Bool.and_false]
      · rw [decide_eq_false hcmd, Bool.false_and]
    · rfl

/-- A text with the strings of the document needs what the printer relies on. -/
theorem PrintsDocument.ok {env : Env} {args : List CStr} (h : PrintsDocument env args) :
    JsonOk env args := by
  obtain ⟨res, tables, v, hres, htables, hjson, hstrings⟩ := h
  rw [mainJson_eq, htables, Option.map_some, Option.some.injEq] at hres
  cases hpvt : unknownPvt env args with
  | true =>
      rw [if_pos hpvt] at hres
      rw [← hres] at hjson
      exact absurd hjson (not_isJson_open v)
  | false =>
      rw [if_neg (Bool.eq_false_iff.mp hpvt)] at hres
      rw [← hres] at hjson
      have hclean := (documentTokens_clean_iff tables).mp ((isJson_text_iff
        (documentTokens_printable tables) (documentTokens_filter tables)).mp ⟨v, hjson, hstrings⟩)
      obtain ⟨hports, hatu, hvtu, hstu⟩ := (mainTables_isSome_iff env args).mp (htables ▸ rfl)
      exact {
        ports := fun hasks => (jsonPortTable_isSome_iff env).mp (hports hasks)
        names := (mainTables_clean_iff htables).mp hclean
        atu := fun hasks => (jsonAtuTable_isSome_iff env).mp (hatu hasks)
        vtu := fun hasks => (jsonVtuTable_isSome_iff env).mp (hvtu hasks)
        stu := fun hasks => (jsonStuTable_isSome_iff env).mp (hstu hasks)
        pvt := (unknownPvt_eq_false_iff env args).mp hpvt }

/-- With it the output is a text of the document. -/
theorem JsonOk.isJson {env : Env} {args : List CStr} (h : JsonOk env args) :
    ∃ res tables, mainJson env args = some res ∧ res.status = 0 ∧
      mainTables env args = some tables ∧ IsJson res.out (documentJson tables) := by
  obtain ⟨tables, htables⟩ := Option.isSome_iff_exists.mp ((mainTables_isSome_iff env args).mpr
    ⟨fun hasks => (jsonPortTable_isSome_iff env).mpr (h.ports hasks),
      fun hasks => (jsonAtuTable_isSome_iff env).mpr (h.atu hasks),
      fun hasks => (jsonVtuTable_isSome_iff env).mpr (h.vtu hasks),
      fun hasks => (jsonStuTable_isSome_iff env).mpr (h.stu hasks)⟩)
  have hpvt := (unknownPvt_eq_false_iff env args).mpr h.pvt
  refine ⟨⟨tokensText (documentTokens tables), 0⟩, tables, ?_, rfl, htables, ?_⟩
  · rw [mainJson_eq, htables, Option.map_some, if_neg (Bool.eq_false_iff.mp hpvt)]
  · exact isJson_text (documentTokens_printable tables).valid (documentTokens_filter tables)
      ((documentTokens_clean_iff tables).mpr ((mainTables_clean_iff htables).mpr h.names))

/-- The output is a JSON text with the strings of the document exactly when the
tables asked for can be walked over, the registers of ports are there, the names
of their network devices are valid UTF-8 without quotes, backslashes and control
characters, and a device that is asked for exists. -/
theorem printsDocument_iff (env : Env) (args : List CStr) :
    PrintsDocument env args ↔ JsonOk env args := by
  constructor
  · exact PrintsDocument.ok
  · intro h
    obtain ⟨res, tables, hres, -, htables, hjson⟩ := h.isJson
    exact ⟨res, tables, documentJson tables, hres, htables, hjson, rfl⟩

/-- The names that the kernel admits for network devices. -/
def KernelName (name : CStr) : Prop :=
  name ≠ [] ∧ name.length < 16 ∧ name ≠ ['.'] ∧ name ≠ ['.', '.'] ∧
    ∀ c ∈ name, c.toNat < 256 ∧ c ≠ '/' ∧ c ≠ ':' ∧ isSpace c = false

/-- A port whose network device has a quote in its name. -/
def quotedPort : Port :=
  { zeroPort with netdev := ['a', '"', 'b'] }

/-- A name with a quote spoils the list of ports. -/
theorem printsDocument_quoted :
    let env : Env := ⟨[{ exampleDev chip88E6352 [] [] [] with ports := [quotedPort] }]⟩
    KernelName quotedPort.netdev ∧ PortsLoaded env ∧ ¬PrintsDocument env ["port".toList] := by
  refine ⟨?_, ?_, fun h => ?_⟩
  · refine ⟨by decide, by decide, by decide, by decide, ?_⟩
    simp only [quotedPort, List.forall_mem_cons, List.not_mem_nil, false_implies, implies_true,
      and_true]
    decide
  · intro dev hdev p hp
    cases List.mem_singleton.mp hdev
    cases List.mem_singleton.mp hp
    decide
  · have hclean := h.ok.names (Or.inr rfl) _ List.mem_cons_self quotedPort List.mem_cons_self
    exact (hclean.plain '"' (by decide)).1 rfl

end MdioTools.Mvls
